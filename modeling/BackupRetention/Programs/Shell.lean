import BackupRetention.Programs.Condition

/-!
# A small shell

Scripts of simple commands joined by `;`, `&&` and `||`. Words are quoted with single or
double quotes or a backslash, and a dollar sign brings in the arguments of the script, its
own process number or the last status. There are the built-in commands `exit`, `kill`,
`test`, `true`, `false`, `:` and `echo`.

## Main definitions

* `Shell.tokens`: a script cut into words and joints.
* `Shell.run`: the status of a script.
-/

namespace BackupRetention.Shell

/-- Joints between commands. -/
inductive Joint where
  | next
  | onSuccess
  | onFailure
  deriving DecidableEq, Repr

/-- A part of a word: characters as they stand, or a parameter named by one character. -/
inductive Piece where
  | text (cs : List Char)
  | parameter (name : Char) (quoted : Bool)
  deriving DecidableEq, Repr

inductive Token where
  | word (pieces : List Piece)
  | joint (j : Joint)
  deriving DecidableEq, Repr

/-- How the characters of a word are taken. -/
inductive Quoting where
  | plain
  | single
  | double
  deriving DecidableEq, Repr

def isParameter (c : Char) : Bool :=
  c.isDigit || c == '$' || c == '?' || c == '#'

/-- The tokens of `cs`. `word` is the word begun so far, last piece first. -/
def tokensFrom : Quoting → Option (List Piece) → List Char → Option (List Token)
  | .plain, word, [] => some (flush word)
  | _, _, [] => none
  | .single, word, c :: cs =>
    if c = '\'' then tokensFrom .plain (push (.text []) word) cs
    else tokensFrom .single (push (.text [c]) word) cs
  | q, word, '$' :: c :: cs =>
    if isParameter c then tokensFrom q (push (.parameter c (q = .double)) word) cs
    else tokensFrom q (push (.text ['$']) word) (c :: cs)
  | q, word, '\\' :: c :: cs => tokensFrom q (push (.text [c]) word) cs
  | .double, word, c :: cs =>
    if c = '"' then tokensFrom .plain (push (.text []) word) cs
    else tokensFrom .double (push (.text [c]) word) cs
  | .plain, word, c :: cs =>
    if c = '\'' then tokensFrom .single (push (.text []) word) cs
    else if c = '"' then tokensFrom .double (push (.text []) word) cs
    else if c = ' ' ∨ c = '\t' then (tokensFrom .plain none cs).map (flush word ++ ·)
    else if c = ';' ∨ c = '\n' then
      (tokensFrom .plain none cs).map (flush word ++ .joint .next :: ·)
    else
      match c, cs with
      | '&', '&' :: cs => (tokensFrom .plain none cs).map (flush word ++ .joint .onSuccess :: ·)
      | '|', '|' :: cs => (tokensFrom .plain none cs).map (flush word ++ .joint .onFailure :: ·)
      | c, cs => tokensFrom .plain (push (.text [c]) word) cs
where
  /-- One more piece of the word. -/
  push (p : Piece) (word : Option (List Piece)) : Option (List Piece) :=
    some (p :: word.getD [])
  /-- The word that ends here, if one was begun. -/
  flush : Option (List Piece) → List Token
    | none => []
    | some ps => [.word ps.reverse]

/-- The tokens of a script. There are none of a script with an open quote. -/
def tokens (script : String) : Option (List Token) :=
  tokensFrom .plain none script.toList

/-- What the parameters of a script stand for. -/
structure Setting where
  /-- The name of the script and its arguments. -/
  arguments : List String
  /-- The status of the command before. -/
  status : Int

/-- The process number of every script. -/
def processNumber : String := "1000"

def Setting.parameter (s : Setting) (name : Char) : String :=
  if name = '$' then processNumber
  else if name = '?' then toString s.status
  else if name = '#' then toString (s.arguments.length - 1)
  else s.arguments.getD (name.toNat - '0'.toNat) ""

def Piece.expand (s : Setting) : Piece → List Char
  | .text cs => cs
  | .parameter name _ => (s.parameter name).toList

/-- A word of parameters only and without quotes is no word if it turns out empty. -/
def Piece.keeps : Piece → Bool
  | .text _ => true
  | .parameter _ quoted => quoted

/-- The word that the pieces make. -/
def Setting.word? (s : Setting) (ps : List Piece) : Option String :=
  let cs := ps.flatMap (Piece.expand s)
  if cs = [] ∧ ¬ ps.any Piece.keeps then none else some (String.ofList cs)

/-! ## Scripts -/

/-- How a command of a script ends. -/
inductive Ending where
  | status (n : Int)
  /-- The script ends. -/
  | exit (n : Int)

/-- The numbers of some signals. -/
def signalNumber (name : String) : Option Int :=
  match name with
  | "HUP" => some 1
  | "INT" => some 2
  | "QUIT" => some 3
  | "ABRT" => some 6
  | "KILL" => some 9
  | "USR1" => some 10
  | "SEGV" => some 11
  | "USR2" => some 12
  | "PIPE" => some 13
  | "ALRM" => some 14
  | "TERM" => some 15
  | s => (Text.number? s.toList).map Int.ofNat

/-- The signal that a command sends and to whom. -/
def signalled : List String → Option (Int × String)
  | [target] => some (15, target)
  | ["-s", name, target] => (signalNumber name).map (·, target)
  | [option, target] =>
    match option.toList with
    | '-' :: name => (signalNumber (String.ofList name)).map (·, target)
    | _ => none
  | _ => none

/-- The status of a script that a signal has ended. -/
def killed (signal : Int) : Int := 128 + signal

/-- One command; `status` is that of the command before. -/
def command (t : FileTree) (status : Int) : List String → Ending
  | [] => .status status
  | name :: args =>
    match name with
    | ":" => .status 0
    | "true" => .status 0
    | "false" => .status 1
    | "echo" => .status 0
    | "test" => .status (Condition.status t args)
    | "[" =>
      if args.getLast? = some "]" then .status (Condition.status t args.dropLast) else .status 2
    | "exit" =>
      match args with
      | [] => .exit status
      | n :: _ =>
        match Text.number? n.toList with
        | some n => .exit (if n ≤ 2147483647 then n % 256 else 2)
        | none => .exit 2
    | "kill" =>
      match signalled args with
      | some (signal, target) =>
        if target = processNumber then
          if signal = 0 then .status 0 else .exit (killed signal)
        else .status 1
      | none => .status 1
    | _ => .status 127

/-- The commands of a list of tokens, each with the joint in front of it; the first one has
`j` in front. -/
def commands (j : Joint) : List Token → List (Joint × List (List Piece))
  | [] => [(j, [])]
  | .joint k :: rest => (j, []) :: commands k rest
  | .word w :: rest =>
    match commands j rest with
    | [] => []
    | (j, ws) :: more => (j, w :: ws) :: more

/-- Whether a command behind a joint is run. -/
def Joint.lets (j : Joint) (status : Int) : Bool :=
  match j with
  | .next => true
  | .onSuccess => status = 0
  | .onFailure => status ≠ 0

/-- Runs commands one after the other. -/
def runCommands (t : FileTree) (s : Setting) : List (Joint × List (List Piece)) → Int
  | [] => s.status
  | (j, ws) :: rest =>
    if j.lets s.status then
      match command t s.status (ws.filterMap s.word?) with
      | .exit n => n
      | .status n => runCommands t { s with status := n } rest
    else runCommands t s rest

/-- The status of a script. -/
def run (t : FileTree) (script : String) (arguments : List String) : Int :=
  match tokens script with
  | some ts => runCommands t ⟨arguments, 0⟩ (commands .next ts)
  | none => 2

end BackupRetention.Shell
