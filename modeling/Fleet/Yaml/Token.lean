/-
The tokens of YAML text.

`Token.scan` reads a whole text into tokens. Block structure shows as indentation: a token that starts
farther right than the current level opens a block, one that starts farther left closes blocks. A simple
key shows only at the `:` behind it, so the place before each token that might be one is remembered, and the
key token is put there when the `:` comes. A remembered key is void on the next line or after 1024
octets; one that has to be a key then makes the text ill formed. A byte order mark at the start of a line is
passed over between tokens.
-/
import Fleet.Yaml.Scalar
import Fleet.Yaml.Tag

namespace Fleet.Yaml

inductive ScalarStyle where
  | plain | single | double | literal | folded
  deriving DecidableEq, Repr

inductive Token where
  | versionDirective (major minor : Nat)
  | tagDirective (handle : String) (stem : TagSpelling)
  | documentStart
  | documentEnd
  | blockSequenceStart
  | blockMappingStart
  | blockEnd
  | flowSequenceStart
  | flowSequenceEnd
  | flowMappingStart
  | flowMappingEnd
  | blockEntry
  | flowEntry
  | key
  | value
  | alias (name : String)
  | anchor (name : String)
  /-- without a handle, the suffix is the whole tag -/
  | tag (handle : String) (suffix : TagSpelling)
  | scalar (text : String) (style : ScalarStyle)
  deriving DecidableEq, Repr

/-- a place that may turn out to start a simple key -/
structure KeyPlace where
  /-- how many tokens stand before it -/
  number : Nat
  /-- how many flow collections it lies in -/
  level : Nat
  line : Nat
  column : Nat
  /-- the farthest column on its line where its `:` may stand -/
  reach : Nat
  /-- the indentation says that a key has to start here -/
  required : Bool

/-- a text being read into tokens -/
structure Scan where
  cursor : Cursor
  /-- tokens so far, in reverse -/
  out : List Token := []
  /-- how many tokens there are so far -/
  count : Nat := 0
  /-- columns of the open blocks plus one, innermost first -/
  blocks : List Nat := []
  /-- open flow collections -/
  flow : Nat := 0
  keyAllowed : Bool := true
  /-- the key places, at most one for each flow level, innermost first -/
  keys : List KeyPlace := []

namespace Scan

def inFlow (s : Scan) : Bool := 0 < s.flow

/-- the column of the innermost block plus one, zero outside of all blocks -/
def indent (s : Scan) : Nat := s.blocks.headD 0

def emit (s : Scan) (t : Token) : Scan := { s with out := t :: s.out, count := s.count + 1 }

/-- put a token behind the first `number` tokens -/
def insertToken (s : Scan) (number : Nat) (t : Token) : Scan :=
  let back := s.count - number
  { s with out := s.out.take back ++ t :: s.out.drop back, count := s.count + 1 }

def skip (s : Scan) (n : Nat) : Scan := { s with cursor := s.cursor.skip n }

/-! ## Indentation -/

/-- open a block at this column if it lies inside the current one -/
def openBlock (s : Scan) (column : Nat) (number : Nat) (t : Token) : Scan :=
  if s.inFlow || column < s.indent then s
  else { s.insertToken number t with blocks := (column + 1) :: s.blocks }

/-- close the blocks that lie to the right of a column; `edge` is that column plus one -/
def closeTo (s : Scan) (edge : Nat) : Scan :=
  if s.inFlow then s
  else
    let closed := (s.blocks.takeWhile (edge < ·)).length
    { s with
      blocks := s.blocks.drop closed
      out := List.replicate closed .blockEnd ++ s.out
      count := s.count + closed }

/-! ## Simple keys -/

/-- how many characters of this line fit into so many octets -/
def charsWithin (octets : Nat) : List Char → Nat
  | [] => 0
  | c :: rest =>
    if isBreak c || octets < c.utf8Size then 0 else charsWithin (octets - c.utf8Size) rest + 1

/-- how many octets a simple key takes at most -/
def keyOctets : Nat := 1024

/-- the key places that are still in reach; none if a required one is lost -/
def dropStale (line column : Nat) : List KeyPlace → Option (List KeyPlace)
  | [] => some []
  | k :: rest =>
    if k.line < line || k.reach < column then
      if k.required then none else dropStale line column rest
    else (dropStale line column rest).map (k :: ·)

/-- the key place of the current level and those of the levels around it -/
def splitKeys (s : Scan) : Option KeyPlace × List KeyPlace :=
  match s.keys with
  | k :: rest => if k.level = s.flow then (some k, rest) else (none, k :: rest)
  | [] => (none, [])

/-- give up the key place of the current level -/
def forgetKey (s : Scan) : Option Scan :=
  match s.splitKeys with
  | (some k, rest) => if k.required then none else some { s with keys := rest }
  | (none, _) => some s

/-- remember the place before the next token, where a simple key may start -/
def rememberKey (s : Scan) : Option Scan :=
  if s.keyAllowed then
    let c := s.cursor
    let place : KeyPlace := {
      number := s.count
      level := s.flow
      line := c.line
      column := c.column
      reach := c.column + charsWithin keyOctets c.rest
      required := !s.inFlow && s.indent = c.column + 1 }
    s.forgetKey.map fun s => { s with keys := place :: s.keys }
  else some s

/-! ## Between tokens -/

/-- skip blanks, comments, line breaks and a byte order mark at the start of a line; a break in block
context lets a simple key start -/
def skipBlank (inFlow : Bool) (keyAllowed inComment : Bool) (line column : Nat) :
    List Char → Bool × Cursor
  | [] => (keyAllowed, ⟨[], line, column⟩)
  | c :: rest =>
    if isBreak c then skipBlank inFlow (keyAllowed || !inFlow) false (line + 1) 0 rest
    else if inComment || c = ' ' || (c = '\t' && (inFlow || !keyAllowed)) ||
        (c = '\ufeff' && column = 0) then
      skipBlank inFlow keyAllowed inComment line (column + 1) rest
    else if c = '#' then skipBlank inFlow keyAllowed true line (column + 1) rest
    else (keyAllowed, ⟨c :: rest, line, column⟩)

/-! ## Directives -/

/-- the decimal number of a version directive, of at most nine digits -/
def versionNumber (cs : List Char) : Option (Nat × List Char) :=
  let digits := cs.takeWhile Char.isDigit
  if digits.length ≤ 9 then
    (Text.readNat? 10 digits).map fun n => (n, cs.dropWhile Char.isDigit)
  else none

/-- blanks, then perhaps a comment, up to the end of the line -/
def endsLine (cs : List Char) : Bool :=
  match cs.dropWhile isGapChar with
  | [] => true
  | c :: _ => c = '#' || isBreak c

/-- the directive behind a `%` and what follows it on its line -/
def directive (cs : List Char) : Option (Token × List Char) :=
  let name := cs.takeWhile isWordChar
  let rest := cs.dropWhile isWordChar
  if !startsBlank rest then none
  else
    let rest := rest.dropWhile isGapChar
    if name = "YAML".toList then
      match versionNumber rest with
      | some (major, '.' :: r) => (versionNumber r).map fun (minor, r) => (.versionDirective major minor, r)
      | _ => none
    else if name = "TAG".toList then
      match TagSpelling.handle? rest with
      | some (handle, r) =>
        if (handle = ['!'] || handle.getLast? = some '!') && (r.head?.map isGapChar).getD false then
          match TagSpelling.read true cs.length (r.dropWhile isGapChar) with
          | some (stem, r) =>
            if stem.isEmpty || !startsBlank r then none
            else some (.tagDirective (String.ofList handle) stem.beforeNul, r)
          | none => none
        else none
      | none => none
    else none

/-! ## One token after another -/

/-- an anchor or alias name, which an indicator or a blank has to follow -/
def anchorName (cs : List Char) : Option (List Char) :=
  let name := cs.takeWhile isWordChar
  let closed := match cs.dropWhile isWordChar with
    | [] => true
    | c :: _ => isGapOrBreak c || ['?', ':', ',', ']', '\x7d', '%', '@', '\x60'].contains c
  if name.isEmpty || !closed then none else some name

/-- a tag and what follows it -/
def tagToken (inFlow : Bool) (cs : List Char) : Option (Token × List Char) :=
  let read : Option (Token × List Char) := match cs with
    | '!' :: '<' :: rest =>
      match TagSpelling.read true rest.length rest with
      | some (t, '>' :: r) => if t.isEmpty then none else some (.tag "" t.beforeNul, r)
      | _ => none
    | _ =>
      match TagSpelling.handle? cs with
      | none => none
      | some (handle, rest) =>
        match TagSpelling.read false rest.length rest with
        | none => none
        | some (t, r) =>
          if handle.length ≥ 2 && handle.getLast? = some '!' then
            if t.isEmpty then none else some (.tag (String.ofList handle) t.beforeNul, r)
          else
            let suffix := TagSpelling.beforeNul ((handle.drop 1).map some ++ t)
            some (if suffix = [] then .tag "" (.ofText "!") else .tag "!" suffix, r)
  match read with
  | some (t, r) =>
    if startsBlank r || (inFlow && r.head? = some ',') then some (t, r) else none
  | none => none

/-- go on behind a token of one line -/
def past (s : Scan) (rest : List Char) : Scan := s.skip (s.cursor.rest.length - rest.length)

/-- emit a token of `width` characters -/
def mark (s : Scan) (width : Nat) (t : Token) : Scan := (s.skip width).emit t

def scalarRead (s : Scan) (style : ScalarStyle) (r : ScalarRead) : Scan :=
  { s.emit (.scalar r.text style) with
    cursor := r.cursor, keyAllowed := s.keyAllowed || r.crossed }

def directiveToken (s : Scan) : Option Scan := do
  let s ← (s.closeTo 0).forgetKey
  let (t, rest) ← directive (s.cursor.rest.drop 1)
  if endsLine rest then
    let s := { (s.past rest).emit t with keyAllowed := false }
    let c := s.cursor.skipWhile (fun c => !isBreak c)
    some { s with cursor := if c.rest.isEmpty then c else c.skipBreak }
  else none

def documentMark (s : Scan) (t : Token) : Option Scan := do
  let s ← (s.closeTo 0).forgetKey
  some { s.mark 3 t with keyAllowed := false }

def openFlow (s : Scan) (t : Token) : Option Scan := do
  let s ← s.rememberKey
  some { s.mark 1 t with keyAllowed := true, flow := s.flow + 1 }

def closeFlow (s : Scan) (t : Token) : Option Scan := do
  let s ← s.forgetKey
  some { s.mark 1 t with keyAllowed := false, flow := s.flow - 1 }

def flowEntryToken (s : Scan) : Option Scan := do
  let s ← s.forgetKey
  some { s.mark 1 .flowEntry with keyAllowed := true }

def blockEntryToken (s : Scan) : Option Scan := do
  if !s.inFlow && !s.keyAllowed then none
  else
    let s ← (s.openBlock s.cursor.column s.count .blockSequenceStart).forgetKey
    some { s.mark 1 .blockEntry with keyAllowed := true }

def keyToken (s : Scan) : Option Scan := do
  if !s.inFlow && !s.keyAllowed then none
  else
    let s ← (s.openBlock s.cursor.column s.count .blockMappingStart).forgetKey
    some { s.mark 1 .key with keyAllowed := !s.inFlow }

def valueToken (s : Scan) : Option Scan :=
  match s.splitKeys with
  | (some k, rest) =>
    let s := (s.insertToken k.number .key).openBlock k.column k.number .blockMappingStart
    some { s.mark 1 .value with keyAllowed := false, keys := rest }
  | (none, _) =>
    if s.inFlow then some { s.mark 1 .value with keyAllowed := false }
    else if s.keyAllowed then
      let s := s.openBlock s.cursor.column s.count .blockMappingStart
      some { s.mark 1 .value with keyAllowed := true }
    else none

def anchorToken (s : Scan) (make : String → Token) : Option Scan := do
  let s ← s.rememberKey
  let name ← anchorName (s.cursor.rest.drop 1)
  some { s.mark (name.length + 1) (make (String.ofList name)) with keyAllowed := false }

def tagged (s : Scan) : Option Scan := do
  let s ← s.rememberKey
  let (t, rest) ← tagToken s.inFlow s.cursor.rest
  some { (s.past rest).emit t with keyAllowed := false }

def blockScalarToken (s : Scan) (literal : Bool) : Option Scan := do
  let s ← s.forgetKey
  let r ← blockScalar literal s.indent (s.cursor.skip 1)
  some ({ s with keyAllowed := true }.scalarRead (if literal then .literal else .folded) r)

def quotedToken (s : Scan) (double : Bool) : Option Scan := do
  let s ← s.rememberKey
  let c := s.cursor.skip 1
  let r ← if double then doubleFrom .text [] {} c.line c.column c.rest
    else singleFrom [] {} c.line c.column c.rest
  some ({ s with keyAllowed := false }.scalarRead (if double then .double else .single) r)

def plainToken (s : Scan) : Option Scan := do
  let s ← s.rememberKey
  let r ← plainFrom s.inFlow s.indent false [] {} s.cursor.line s.cursor.column s.cursor.rest
  some ({ s with keyAllowed := false }.scalarRead .plain r)

/-- whether a plain scalar may start with `c` before `rest` -/
def startsPlain (inFlow : Bool) (c : Char) (rest : List Char) : Bool :=
  !(isGapOrBreak c || isIndicator c) ||
  (c = '-' && !(rest.head?.map isGapChar).getD false) ||
  (!inFlow && (c = '?' || c = ':') && !startsBlank rest)

/-- read the token at the cursor, which stands on `c` before `rest` -/
def token (s : Scan) (c : Char) (rest : List Char) : Option Scan :=
  if s.cursor.column = 0 && c = '%' then s.directiveToken
  else if s.cursor.column = 0 && startsDocumentMark (c :: rest) then
    s.documentMark (if c = '-' then .documentStart else .documentEnd)
  else if c = '[' then s.openFlow .flowSequenceStart
  else if c = '\x7b' then s.openFlow .flowMappingStart
  else if c = ']' then s.closeFlow .flowSequenceEnd
  else if c = '\x7d' then s.closeFlow .flowMappingEnd
  else if c = ',' then s.flowEntryToken
  else if c = '-' && startsBlank rest then s.blockEntryToken
  else if c = '?' && (s.inFlow || startsBlank rest) then s.keyToken
  else if c = ':' && (s.inFlow || startsBlank rest) then s.valueToken
  else if c = '*' then s.anchorToken .alias
  else if c = '&' then s.anchorToken .anchor
  else if c = '!' then s.tagged
  else if c = '|' && !s.inFlow then s.blockScalarToken true
  else if c = '>' && !s.inFlow then s.blockScalarToken false
  else if c = '\'' then s.quotedToken false
  else if c = '"' then s.quotedToken true
  else if startsPlain s.inFlow c rest then s.plainToken
  else none

/-- go to the next token: over blanks, with void key places dropped and blocks closed -/
def advance (s : Scan) : Option Scan :=
  let (keyAllowed, cursor) :=
    skipBlank s.inFlow s.keyAllowed false s.cursor.line s.cursor.column s.cursor.rest
  (dropStale cursor.line cursor.column s.keys).map fun keys =>
    { s with keyAllowed, cursor, keys }.closeTo (cursor.column + 1)

/-- read tokens to the end of the text; every token takes at least one character off `fuel` -/
def run : Nat → Scan → Option (List Token)
  | 0, _ => none
  | fuel + 1, s =>
    match s.advance with
    | none => none
    | some s =>
      match s.cursor.rest with
      | [] => (s.closeTo 0).forgetKey.map fun s => s.out.reverse
      | c :: rest =>
        match s.token c rest with
        | some s => run fuel s
        | none => none

end Scan

/-- the tokens of a text -/
def Token.scan (text : String) : Option (List Token) :=
  let cs := text.toList
  if cs.all isAllowed then
    let cs := unifyBreaks cs
    Scan.run (cs.length + 1) { cursor := ⟨cs, 0, 0⟩ }
  else none

end Fleet.Yaml
