/-!
# The command line

Options are letters behind one dash, which may stand together, or words behind two. The path of
the configuration follows its option, or is written together with it. Options are taken from
left to right, and the first that cannot be taken ends the reading.

## Main definitions

* `CommandLine`: what a command line asks for.
* `CommandLine.read`: the command line in some arguments, or why nothing is to be run.
-/

namespace BackupRetention

structure CommandLine where
  config : Option String := none
  prune : Bool := false
  pruneIncomplete : Bool := false
  dryRun : Bool := false
  verbose : Bool := false
  deriving DecidableEq, Repr

namespace CommandLine

/-- Where the configuration is if nothing else is said. -/
def defaultConfig : String := "/etc/backup/config.yml"

/-- Why nothing is to be run. -/
inductive Refusal where
  /-- Help or the version is asked for. -/
  | information
  | usage
  deriving DecidableEq, Repr

inductive Switch where
  | config
  | prune
  | pruneIncomplete
  | dryRun
  | verbose
  | information
  deriving DecidableEq, Repr

def Switch.ofLetter? (c : Char) : Option Switch :=
  if c = 'c' then some .config
  else if c = 'p' then some .prune
  else if c = 'P' then some .pruneIncomplete
  else if c = 'n' then some .dryRun
  else if c = 'v' then some .verbose
  else if c = 'h' ∨ c = 'V' then some .information
  else none

def Switch.ofWord? (word : String) : Option Switch :=
  match word with
  | "config" => some .config
  | "prune" => some .prune
  | "prune-incomplete" => some .pruneIncomplete
  | "dry-run" => some .dryRun
  | "verbose" => some .verbose
  | "help" => some .information
  | "version" => some .information
  | _ => none

/-- Sets a field that is not set yet. -/
def once (isSet : Bool) (set : CommandLine) : Except Refusal CommandLine :=
  if isSet then .error .usage else .ok set

/-- Turns a switch on, which is possible once. The configuration needs a path. -/
def turnOn (c : CommandLine) : Switch → Except Refusal CommandLine
  | .config => .error .usage
  | .prune => once c.prune { c with prune := true }
  | .pruneIncomplete => once c.pruneIncomplete { c with pruneIncomplete := true }
  | .dryRun => once c.dryRun { c with dryRun := true }
  | .verbose => once c.verbose { c with verbose := true }
  | .information => .error .information

/-- Takes the path of the configuration, which must not be empty. -/
def takeConfig (c : CommandLine) (path : List Char) : Except Refusal CommandLine :=
  if path = [] then .error .usage
  else once c.config.isSome { c with config := some (String.ofList path) }

/-- Takes letters behind one dash, and tells whether a path is to follow. -/
def takeLetters (c : CommandLine) : List Char → Except Refusal (CommandLine × Bool)
  | [] => .ok (c, false)
  | x :: rest =>
    match Switch.ofLetter? x with
    | none => .error .usage
    | some .config =>
      match rest with
      | [] => .ok (c, true)
      | '=' :: path => (c.takeConfig path).map (·, false)
      | path => (c.takeConfig path).map (·, false)
    | some s =>
      match c.turnOn s with
      | .error e => .error e
      | .ok c => c.takeLetters rest

/-- Takes a word behind two dashes, with what is written together with it. -/
def takeWord (c : CommandLine) (text : List Char) : Except Refusal (CommandLine × Bool) :=
  let word := text.takeWhile (· ≠ '=')
  match Switch.ofWord? (String.ofList word), text.drop word.length with
  | none, _ => .error .usage
  | some .config, [] => .ok (c, true)
  | some .config, _ :: path => (c.takeConfig path).map (·, false)
  | some s, [] => (c.turnOn s).map (·, false)
  | some _, _ => .error .usage

/-- Takes one argument: letters or a word. -/
def takeArgument (c : CommandLine) (argument : List Char) : Except Refusal (CommandLine × Bool) :=
  match argument with
  | '-' :: '-' :: text => c.takeWord text
  | '-' :: x :: rest => c.takeLetters (x :: rest)
  | _ => .error .usage

/-- Whether an argument is an option and not a path. -/
def isOption (argument : List Char) : Bool :=
  argument.head? == some '-' && argument != ['-']

/-- Takes arguments in order; `awaiting` tells whether the first is the path of the
configuration. Behind two dashes alone nothing may follow. -/
def take (c : CommandLine) (awaiting : Bool) : List String → Except Refusal CommandLine
  | [] => if awaiting then .error .usage else .ok c
  | a :: rest =>
    if awaiting then
      if isOption a.toList then .error .usage
      else
        match c.takeConfig a.toList with
        | .error e => .error e
        | .ok c => c.take false rest
    else if a = "--" then if rest = [] then .ok c else .error .usage
    else
      match c.takeArgument a.toList with
      | .error e => .error e
      | .ok (c, awaiting) => c.take awaiting rest

/-- The command line in some arguments. -/
def read (arguments : List String) : Except Refusal CommandLine :=
  take {} false arguments

example : read ["-nc", "c.yml", "-pP"] =
    .ok { config := some "c.yml", prune := true, pruneIncomplete := true, dryRun := true } :=
  rfl

example : read ["-p", "-p"] = .error .usage := rfl

end CommandLine

end BackupRetention
