import BackupRetention.Yaml.Lexer

/-!
# Nodes

What a document says: scalars, sequences and mappings. An alias stands for the node with its
anchor. A mapping keeps all its pairs in order, also those with the same key.

## Main definitions

* `Node`: what a document says.
* `documents?`: the documents of a text.
-/

namespace BackupRetention.Yaml

inductive Node where
  | scalar (style : ScalarStyle) (tag : Option (List Char)) (text : List Char)
  | sequence (items : List Node)
  | mapping (pairs : List (Node × Node))

namespace Node

/-- The node that stands where nothing is written. -/
def blank : Node := .scalar .plain none []

end Node

/-- What is known where a node is read: the shorthands of tags, and the nodes with anchors, the
latest anchor first. -/
structure Surroundings where
  shorthands : List (List Char × List Char)
  anchored : List (List Char × Node)

namespace Surroundings

/-- The shorthands that every document has. -/
def defaultShorthands : List (List Char × List Char) :=
  [("!".toList, "!".toList), ("!!".toList, "tag:yaml.org,2002:".toList)]

/-- The full text of a tag. Its handle must be known. -/
def fullTag? (s : Surroundings) (handle suffix : List Char) : Option (List Char) :=
  if handle = [] then some suffix else (s.shorthands.lookup handle).map (· ++ suffix)

/-- Notes the anchor of a node. `before` anchors were known in front of it; the others stand
inside it, behind its own. -/
def bind (name : Option (List Char)) (before : Nat) (n : Node) (s : Surroundings) :
    Surroundings :=
  match name with
  | some name =>
    let inside := s.anchored.length - before
    { s with anchored := s.anchored.take inside ++ (name, n) :: s.anchored.drop inside }
  | none => s

end Surroundings

/-- The anchor and the tag in front of a node. -/
structure Properties where
  anchor : Option (List Char)
  tag : Option (List Char)

namespace Properties

def any (p : Properties) : Bool := p.anchor.isSome || p.tag.isSome

/-- The tag `!` says that a scalar has none. -/
def scalarTag (p : Properties) : Option (List Char) :=
  p.tag.filter (· ≠ ['!'])

/-- The anchor and the tag at the start of some tokens, in either order. -/
def take? (s : Surroundings) : List Token → Option (Properties × List Token)
  | .anchor a :: .tag h x :: rest => (s.fullTag? h x).map fun t => (⟨some a, some t⟩, rest)
  | .tag h x :: .anchor a :: rest => (s.fullTag? h x).map fun t => (⟨some a, some t⟩, rest)
  | .anchor a :: rest => some (⟨some a, none⟩, rest)
  | .tag h x :: rest => (s.fullTag? h x).map fun t => (⟨none, some t⟩, rest)
  | rest => some (⟨none, none⟩, rest)

end Properties

/-- Something read from tokens, the tokens behind it and the surroundings after it. -/
abbrev Reading (α : Type) := Option (α × List Token × Surroundings)

namespace Reading

/-- Whether the value of a pair in block style is left out. -/
def endsBlockPair : List Token → Bool
  | .key :: _ => true
  | .value :: _ => true
  | .blockEnd :: _ => true
  | _ => false

/-- Whether an entry of a sequence in block style is left out. -/
def endsBlockEntry : List Token → Bool
  | .blockEntry :: _ => true
  | .blockEnd :: _ => true
  | _ => false

/-- Whether an entry of a sequence without an indentation of its own is left out. -/
def endsLooseEntry (ts : List Token) : Bool :=
  endsBlockEntry ts || endsBlockPair ts

/-- Whether a value in a flow mapping is left out. -/
def endsFlowValue : List Token → Bool
  | .flowEntry :: _ => true
  | .flowMappingEnd :: _ => true
  | _ => false

/-- Whether a key in a flow mapping is left out. -/
def endsFlowKey : List Token → Bool
  | .value :: _ => true
  | ts => endsFlowValue ts

/-- Whether the value of a single pair in a flow sequence is left out. -/
def endsPairValue : List Token → Bool
  | .flowEntry :: _ => true
  | .flowSequenceEnd :: _ => true
  | _ => false

/-- Whether the key of a single pair in a flow sequence is left out. -/
def endsPairKey : List Token → Bool
  | .value :: _ => true
  | ts => endsPairValue ts

mutual

/-- A node. `block` allows block style, and `loose` a sequence without an indentation of its
own. -/
def node? (block loose : Bool) : Nat → List Token → Surroundings → Reading Node
  | 0, _, _ => none
  | _ + 1, .alias name :: ts, s => (s.anchored.lookup name).map (·, ts, s)
  | fuel + 1, ts, s =>
    match Properties.take? s ts with
    | none => none
    | some (p, ts) =>
      match content? block loose fuel p ts s with
      | none => none
      | some (n, ts, after) => some (n, ts, after.bind p.anchor s.anchored.length n)

/-- A node behind its properties. Where properties stand alone, the node is blank. -/
def content? (block loose : Bool) : Nat → Properties → List Token → Surroundings → Reading Node
  | 0, _, _, _ => none
  | fuel + 1, p, ts, s =>
    match ts with
    | .scalar style text :: ts => some (.scalar style p.scalarTag text, ts, s)
    | .flowSequence :: ts => (flowItems? fuel true ts s).map fun (ns, r) => (.sequence ns, r)
    | .flowMapping :: ts => (flowPairs? fuel true ts s).map fun (ps, r) => (.mapping ps, r)
    | ts =>
      match block, loose, ts with
      | _, true, .blockEntry :: _ =>
        (looseItems? fuel ts s).map fun (ns, r) => (.sequence ns, r)
      | true, _, .blockSequence :: ts =>
        (blockItems? fuel ts s).map fun (ns, r) => (.sequence ns, r)
      | true, _, .blockMapping :: ts =>
        (blockPairs? fuel ts s).map fun (ps, r) => (.mapping ps, r)
      | _, _, ts => if p.any then some (.scalar .plain p.scalarTag [], ts, s) else none

/-- A node, or a blank one where it is left out. -/
def nodeUnless? (block loose : Bool) (omitted : List Token → Bool) :
    Nat → List Token → Surroundings → Reading Node
  | 0, _, _ => none
  | fuel + 1, ts, s =>
    if omitted ts then some (.blank, ts, s) else node? block loose fuel ts s

/-- The entries of a sequence in block style. -/
def blockItems? : Nat → List Token → Surroundings → Reading (List Node)
  | 0, _, _ => none
  | fuel + 1, .blockEntry :: ts, s =>
    match nodeUnless? true false endsBlockEntry fuel ts s with
    | none => none
    | some (n, ts, s) => (blockItems? fuel ts s).map fun (ns, r) => (n :: ns, r)
  | _ + 1, .blockEnd :: ts, s => some ([], ts, s)
  | _ + 1, _, _ => none

/-- The entries of a sequence without an indentation of its own. -/
def looseItems? : Nat → List Token → Surroundings → Reading (List Node)
  | 0, _, _ => none
  | fuel + 1, .blockEntry :: ts, s =>
    match nodeUnless? true false endsLooseEntry fuel ts s with
    | none => none
    | some (n, ts, s) => (looseItems? fuel ts s).map fun (ns, r) => (n :: ns, r)
  | _ + 1, ts, s => some ([], ts, s)

/-- The pairs of a mapping in block style. -/
def blockPairs? : Nat → List Token → Surroundings → Reading (List (Node × Node))
  | 0, _, _ => none
  | fuel + 1, .key :: ts, s =>
    match nodeUnless? true true endsBlockPair fuel ts s with
    | none => none
    | some (k, ts, s) =>
      match blockValue? fuel ts s with
      | none => none
      | some (v, ts, s) => (blockPairs? fuel ts s).map fun (ps, r) => ((k, v) :: ps, r)
  | _ + 1, .blockEnd :: ts, s => some ([], ts, s)
  | _ + 1, _, _ => none

/-- The value of a pair in block style, blank if it is left out. -/
def blockValue? : Nat → List Token → Surroundings → Reading Node
  | 0, _, _ => none
  | fuel + 1, .value :: ts, s => nodeUnless? true true endsBlockPair fuel ts s
  | _ + 1, ts, s => some (.blank, ts, s)

/-- The entries of a flow sequence. -/
def flowItems? : Nat → Bool → List Token → Surroundings → Reading (List Node)
  | 0, _, _, _ => none
  | _ + 1, _, .flowSequenceEnd :: ts, s => some ([], ts, s)
  | fuel + 1, true, ts, s =>
    match flowItem? fuel ts s with
    | none => none
    | some (n, ts, s) => (flowItems? fuel false ts s).map fun (ns, r) => (n :: ns, r)
  | _ + 1, false, .flowEntry :: .flowSequenceEnd :: ts, s => some ([], ts, s)
  | fuel + 1, false, .flowEntry :: ts, s =>
    match flowItem? fuel ts s with
    | none => none
    | some (n, ts, s) => (flowItems? fuel false ts s).map fun (ns, r) => (n :: ns, r)
  | _ + 1, false, _, _ => none

/-- An entry of a flow sequence: a node, or a single pair. -/
def flowItem? : Nat → List Token → Surroundings → Reading Node
  | 0, _, _ => none
  | fuel + 1, .key :: ts, s =>
    match nodeUnless? false false endsPairKey fuel ts s with
    | none => none
    | some (k, ts, s) =>
      (pairValue? fuel ts s).map fun (v, r) => (.mapping [(k, v)], r)
  | fuel + 1, ts, s => node? false false fuel ts s

/-- The value of a single pair. -/
def pairValue? : Nat → List Token → Surroundings → Reading Node
  | 0, _, _ => none
  | fuel + 1, .value :: ts, s => nodeUnless? false false endsPairValue fuel ts s
  | _ + 1, ts, s => some (.blank, ts, s)

/-- The pairs of a flow mapping. -/
def flowPairs? : Nat → Bool → List Token → Surroundings → Reading (List (Node × Node))
  | 0, _, _, _ => none
  | _ + 1, _, .flowMappingEnd :: ts, s => some ([], ts, s)
  | fuel + 1, true, ts, s =>
    match flowPair? fuel ts s with
    | none => none
    | some (p, ts, s) => (flowPairs? fuel false ts s).map fun (ps, r) => (p :: ps, r)
  | _ + 1, false, .flowEntry :: .flowMappingEnd :: ts, s => some ([], ts, s)
  | fuel + 1, false, .flowEntry :: ts, s =>
    match flowPair? fuel ts s with
    | none => none
    | some (p, ts, s) => (flowPairs? fuel false ts s).map fun (ps, r) => (p :: ps, r)
  | _ + 1, false, _, _ => none

/-- A pair of a flow mapping. A node alone is a key with a blank value. -/
def flowPair? : Nat → List Token → Surroundings → Reading (Node × Node)
  | 0, _, _ => none
  | fuel + 1, .key :: ts, s =>
    match nodeUnless? false false endsFlowKey fuel ts s with
    | none => none
    | some (k, ts, s) => (flowValue? fuel ts s).map fun (v, r) => ((k, v), r)
  | fuel + 1, ts, s =>
    (node? false false fuel ts s).map fun (k, r) => ((k, .blank), r)

/-- The value of a pair of a flow mapping. -/
def flowValue? : Nat → List Token → Surroundings → Reading Node
  | 0, _, _ => none
  | fuel + 1, .value :: ts, s => nodeUnless? false false endsFlowValue fuel ts s
  | _ + 1, ts, s => some (.blank, ts, s)

end

end Reading

/-! ## Documents -/

/-- The directives in front of a document: at most one version, which is 1.1 or 1.2, and
shorthands for tags, each once. -/
def directives? (hasVersion : Bool) (own : List (List Char × List Char)) :
    List Token → Option (List (List Char × List Char) × List Token)
  | .version major minor :: ts =>
    if hasVersion ∨ major ≠ 1 ∨ (minor ≠ 1 ∧ minor ≠ 2) then none
    else directives? true own ts
  | .tagShorthand handle expansion :: ts =>
    if (own.lookup handle).isSome then none
    else directives? hasVersion (own ++ [(handle, expansion)]) ts
  | ts => some (own ++ Surroundings.defaultShorthands, ts)

/-- Whether a document that is marked by a start is left out. -/
def endsDocument : List Token → Bool
  | .version _ _ :: _ => true
  | .tagShorthand _ _ :: _ => true
  | .documentStart :: _ => true
  | .documentEnd :: _ => true
  | .streamEnd :: _ => true
  | _ => false

/-- Enough fuel to read a document of `n` tokens. -/
def nodeFuel (n : Nat) : Nat := 8 * (n + 2)

/-- The content of a document, and what follows its end mark. -/
def documentBody? (omitted : List Token → Bool) (shorthands : List (List Char × List Char))
    (ts : List Token) : Option (Node × List Token) :=
  match Reading.nodeUnless? true false omitted (nodeFuel ts.length) ts ⟨shorthands, []⟩ with
  | none => none
  | some (n, .documentEnd :: ts, _) => some (n, ts)
  | some (n, ts, _) => some (n, ts)

/-- The documents that are marked by a start. -/
def markedDocuments? : Nat → List Token → Option (List Node)
  | 0, _ => none
  | fuel + 1, ts =>
    match ts.dropWhile (· = .documentEnd) with
    | [.streamEnd] => some []
    | ts =>
      match directives? false [] ts with
      | some (shorthands, .documentStart :: ts) =>
        match documentBody? endsDocument shorthands ts with
        | none => none
        | some (n, ts) => (markedDocuments? fuel ts).map (n :: ·)
      | _ => none

/-- Whether the first document is marked by a start, or there is none. -/
def isMarked : List Token → Bool
  | .version _ _ :: _ => true
  | .tagShorthand _ _ :: _ => true
  | .documentStart :: _ => true
  | .streamEnd :: _ => true
  | _ => false

/-- The documents of a text. The first one needs no mark at its start. -/
def documents? (cs : List Char) : Option (List Node) :=
  match tokens? cs with
  | none => none
  | some ts =>
    if isMarked ts then markedDocuments? (ts.length + 1) ts
    else
      match documentBody? (fun _ => false) Surroundings.defaultShorthands ts with
      | none => none
      | some (n, ts) => (markedDocuments? (ts.length + 1) ts).map (n :: ·)

end BackupRetention.Yaml
