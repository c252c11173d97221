/-
YAML documents as trees.

`Document.read` is the reading of a whole text: exactly one document, or none at all. The grammar follows
the tokens: block collections end with a closing token, a sequence that is not indented below its key ends
where its entries end, and what is left out is an empty plain scalar.

Aliases stay in the tree as numbers. An anchor's number counts the distinct names before it, and a number
stands for the node that took it last; `Document.target?` looks it up.
-/
import Fleet.Yaml.Token

namespace Fleet.Yaml

inductive Node where
  | scalar (text : String) (style : ScalarStyle) (tag : Option Tag)
  | sequence (items : List Node) (tag : Option Tag)
  | mapping (entries : List (Node × Node)) (tag : Option Tag)
  | alias (number : Nat)
  deriving Inhabited

/-- what stands where a node is left out -/
def Node.nothing : Node := .scalar "" .plain none

/-- a document; there is no root in a text without a document -/
structure Document where
  root : Option Node := none
  /-- the serial of the node that each anchor number stands for, latest first -/
  places : List (Nat × Nat) := []
  /-- anchored nodes by serial -/
  nodes : List (Nat × Node) := []

/-- the node that an alias stands for -/
def Document.target? (d : Document) (number : Nat) : Option Node :=
  match d.places.lookup number with
  | some serial => d.nodes.lookup serial
  | none => none

/-- tokens being read into nodes -/
structure NodeState where
  tokens : List Token
  /-- what tag handles stand for -/
  handles : List (String × TagSpelling)
  names : List (String × Nat) := []
  places : List (Nat × Nat) := []
  serial : Nat := 0
  nodes : List (Nat × Node) := []

namespace NodeState

def drop (s : NodeState) (n : Nat) : NodeState := { s with tokens := s.tokens.drop n }

/-- give a name the number of its anchor, whose node starts here -/
def openAnchor (s : NodeState) (name : String) : NodeState :=
  let number := s.names.length
  { s with names := (name, number) :: s.names.filter (fun e => e.1 ≠ name),
           places := (number, s.serial) :: s.places, serial := s.serial + 1 }

/-- the node of an anchor is complete -/
def closeAnchor (s : NodeState) (serial : Nat) (n : Node) : NodeState :=
  { s with nodes := (serial, n) :: s.nodes }

end NodeState

/-- the anchor and the tag before a node, in either order -/
structure Properties where
  anchor : Option String := none
  tag : Option (String × TagSpelling) := none

def properties : List Token → Properties × List Token
  | .anchor a :: .tag h t :: rest => (⟨some a, some (h, t)⟩, rest)
  | .tag h t :: .anchor a :: rest => (⟨some a, some (h, t)⟩, rest)
  | .anchor a :: rest => (⟨some a, none⟩, rest)
  | .tag h t :: rest => (⟨none, some (h, t)⟩, rest)
  | tokens => ({}, tokens)

/-- the full form of a tag; none if its handle is not known -/
def fullTag (handles : List (String × TagSpelling)) :
    Option (String × TagSpelling) → Option (Option Tag)
  | none => some none
  | some (handle, suffix) =>
    if handle = "" then some (some (.ofSpelling suffix))
    else (handles.lookup handle).map fun stem => some (.ofSpelling (stem ++ suffix))

/-- the next token ends the present collection, or starts its next part -/
def leavesOut (ends : List Token) (tokens : List Token) : Bool :=
  match tokens with
  | t :: _ => ends.contains t
  | [] => false

mutual

/-- a node at the head of the tokens. Block collections may start here if `block`, and a sequence that is
not indented if `bare`; `fuel` bounds the tokens left -/
def readNode : Nat → Bool → Bool → NodeState → Option (Node × NodeState)
  | 0, _, _, _ => none
  | fuel + 1, block, bare, s =>
    match s.tokens with
    | .alias name :: rest => (s.names.lookup name).map fun n => (.alias n, { s with tokens := rest })
    | _ =>
      let (props, tokens) := properties s.tokens
      match fullTag s.handles props.tag with
      | none => none
      | some tag =>
        let s := { s with tokens }
        match props.anchor with
        | none => readContent fuel block bare tag (tag.isSome) s
        | some name =>
          (readContent fuel block bare tag true (s.openAnchor name)).map fun (n, after) =>
            (n, after.closeAnchor s.serial n)

/-- a node behind its properties; `marked` says that it has any -/
def readContent : Nat → Bool → Bool → Option Tag → Bool → NodeState → Option (Node × NodeState)
  | 0, _, _, _, _, _ => none
  | fuel + 1, block, bare, tag, marked, s =>
    let nothing := if marked then some (Node.scalar "" .plain tag, s) else none
    match s.tokens with
    | .blockEntry :: _ =>
      if bare then (readBare fuel s).map fun (items, s) => (.sequence items tag, s) else nothing
    | .scalar text style :: _ => some (.scalar text style tag, s.drop 1)
    | .flowSequenceStart :: _ =>
      (readFlowItems fuel true (s.drop 1)).map fun (items, s) => (.sequence items tag, s)
    | .flowMappingStart :: _ =>
      (readFlowEntries fuel true (s.drop 1)).map fun (entries, s) => (.mapping entries tag, s)
    | .blockSequenceStart :: _ =>
      if block then (readItems fuel (s.drop 1)).map fun (items, s) => (.sequence items tag, s)
      else nothing
    | .blockMappingStart :: _ =>
      if block then (readEntries fuel (s.drop 1)).map fun (entries, s) => (.mapping entries tag, s)
      else nothing
    | _ => nothing

/-- a node, or nothing if one of these tokens comes next -/
def readUnless : Nat → List Token → Bool → Bool → NodeState → Option (Node × NodeState)
  | 0, _, _, _, _ => none
  | fuel + 1, ends, block, bare, s =>
    if leavesOut ends s.tokens then some (.nothing, s) else readNode fuel block bare s

/-- the entries of a block sequence and its end -/
def readItems : Nat → NodeState → Option (List Node × NodeState)
  | 0, _ => none
  | fuel + 1, s =>
    match s.tokens with
    | .blockEntry :: _ =>
      match readUnless fuel [.blockEntry, .blockEnd] true false (s.drop 1) with
      | some (n, s) => (readItems fuel s).map fun (items, s) => (n :: items, s)
      | none => none
    | .blockEnd :: _ => some ([], s.drop 1)
    | _ => none

/-- the entries of a sequence that is not indented -/
def readBare : Nat → NodeState → Option (List Node × NodeState)
  | 0, _ => none
  | fuel + 1, s =>
    match s.tokens with
    | .blockEntry :: _ =>
      match readUnless fuel [.blockEntry, .key, .value, .blockEnd] true false (s.drop 1) with
      | some (n, s) => (readBare fuel s).map fun (items, s) => (n :: items, s)
      | none => none
    | _ => some ([], s)

/-- the value behind a key -/
def readValue : Nat → List Token → Bool → NodeState → Option (Node × NodeState)
  | 0, _, _, _ => none
  | fuel + 1, ends, block, s =>
    match s.tokens with
    | .value :: _ => readUnless fuel ends block block (s.drop 1)
    | _ => some (.nothing, s)

/-- the entries of a block mapping and its end -/
def readEntries : Nat → NodeState → Option (List (Node × Node) × NodeState)
  | 0, _ => none
  | fuel + 1, s =>
    match s.tokens with
    | .key :: _ =>
      match readUnless fuel [.key, .value, .blockEnd] true true (s.drop 1) with
      | none => none
      | some (k, s) =>
        match readValue fuel [.key, .value, .blockEnd] true s with
        | none => none
        | some (v, s) => (readEntries fuel s).map fun (entries, s) => ((k, v) :: entries, s)
    | .blockEnd :: _ => some ([], s.drop 1)
    | _ => none

/-- the entries of a flow sequence and its bracket; an entry may be a mapping of one key -/
def readFlowItems : Nat → Bool → NodeState → Option (List Node × NodeState)
  | 0, _, _ => none
  | fuel + 1, first, s =>
    match s.tokens with
    | .flowSequenceEnd :: _ => some ([], s.drop 1)
    | tokens =>
      match (if first then some s else if tokens.head? = some .flowEntry then some (s.drop 1) else none) with
      | none => none
      | some s =>
        match s.tokens with
        | .flowSequenceEnd :: _ => some ([], s.drop 1)
        | .key :: _ =>
          match readPair fuel (s.drop 1) with
          | some (n, s) => (readFlowItems fuel false s).map fun (items, s) => (n :: items, s)
          | none => none
        | _ =>
          match readNode fuel false false s with
          | some (n, s) => (readFlowItems fuel false s).map fun (items, s) => (n :: items, s)
          | none => none

/-- a mapping of one key inside a flow sequence; a key that is left out takes the token behind it along -/
def readPair : Nat → NodeState → Option (Node × NodeState)
  | 0, _ => none
  | fuel + 1, s =>
    let ends := [Token.flowEntry, .flowSequenceEnd]
    let key :=
      if leavesOut (.value :: ends) s.tokens then some (Node.nothing, s.drop 1)
      else readNode fuel false false s
    match key with
    | none => none
    | some (k, s) => (readValue fuel ends false s).map fun (v, s) => (.mapping [(k, v)] none, s)

/-- the entries of a flow mapping and its brace -/
def readFlowEntries : Nat → Bool → NodeState → Option (List (Node × Node) × NodeState)
  | 0, _, _ => none
  | fuel + 1, first, s =>
    match s.tokens with
    | .flowMappingEnd :: _ => some ([], s.drop 1)
    | tokens =>
      match (if first then some s else if tokens.head? = some .flowEntry then some (s.drop 1) else none) with
      | none => none
      | some s =>
        match s.tokens with
        | .flowMappingEnd :: _ => some ([], s.drop 1)
        | .key :: _ =>
          match readUnless fuel [.value, .flowEntry, .flowMappingEnd] false false (s.drop 1) with
          | none => none
          | some (k, s) =>
            match readValue fuel [.flowEntry, .flowMappingEnd] false s with
            | none => none
            | some (v, s) =>
              (readFlowEntries fuel false s).map fun (entries, s) => ((k, v) :: entries, s)
        | _ =>
          match readNode fuel false false s with
          | none => none
          | some (k, s) =>
            (readFlowEntries fuel false s).map fun (entries, s) => ((k, .nothing) :: entries, s)

end

/-- the directives before a document: at most one version, which is 1.1 or 1.2, and no handle twice -/
def readDirectives (versioned : Bool) (handles : List (String × TagSpelling)) :
    List Token → Option (List (String × TagSpelling) × List Token)
  | .versionDirective major minor :: rest =>
    if versioned || major ≠ 1 || (minor ≠ 1 && minor ≠ 2) then none
    else readDirectives true handles rest
  | .tagDirective handle stem :: rest =>
    if (handles.lookup handle).isSome then none
    else readDirectives versioned ((handle, stem) :: handles) rest
  | tokens => some (handles, tokens)

/-- what every document knows: local tags and the tags of the standard -/
def standardHandles : List (String × TagSpelling) :=
  [("!", .ofText "!"), ("!!", .ofText Tag.standardStem)]

def startsDocument : Token → Bool
  | .versionDirective _ _ | .tagDirective _ _ | .documentStart => true
  | _ => false

/-- nothing but end marks -/
def onlyEndMarks (tokens : List Token) : Bool := tokens.all (· = .documentEnd)

namespace Document

def ofState (root : Node) (s : NodeState) : Option Document :=
  if onlyEndMarks s.tokens then some ⟨root, s.places, s.nodes⟩ else none

/-- the one document of a token list -/
def ofTokens? (tokens : List Token) : Option Document :=
  let fuel := 4 * tokens.length + 16
  match tokens with
  | [] => some {}
  | t :: _ =>
    if startsDocument t then
      match readDirectives false [] tokens with
      | some (handles, .documentStart :: rest) =>
        let s : NodeState := { tokens := rest, handles := handles ++ standardHandles }
        match rest with
        | [] => ofState .nothing s
        | next :: _ =>
          if startsDocument next || next = .documentEnd then ofState .nothing s
          else (readNode fuel true false s).bind fun (n, s) => ofState n s
      | _ => none
    else
      (readNode fuel true false { tokens, handles := standardHandles }).bind fun (n, s) =>
        ofState n s

/-- the document that a text spells -/
def read (text : String) : Option Document := (Token.scan text).bind ofTokens?

end Document

end Fleet.Yaml
