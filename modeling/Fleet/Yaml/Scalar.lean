/-
The text of scalars: plain, quoted and block.

Each kind is read by one pass over the characters. Between two stretches of text lies a `Gap`; lines are
folded when the gap is closed. A reader returns the text and the cursor after it, or `none` if the text is
not well formed.
-/
import Fleet.Text.Decimal
import Fleet.Yaml.Chars

namespace Fleet.Yaml

/-- what is still to be read, and where it stands -/
structure Cursor where
  rest : List Char
  line : Nat
  column : Nat

namespace Cursor

/-- drop characters that stand on one line -/
def skip (c : Cursor) (n : Nat) : Cursor := ⟨c.rest.drop n, c.line, c.column + n⟩

/-- drop the characters of a class that holds no line break -/
def skipWhile (p : Char → Bool) (c : Cursor) : Cursor := c.skip (c.rest.takeWhile p).length

/-- drop one line break -/
def skipBreak (c : Cursor) : Cursor := ⟨c.rest.drop 1, c.line + 1, 0⟩

end Cursor

/-! ## Gaps between stretches of text -/

/-- blanks and breaks that have been passed since the last text, each list in reverse -/
structure Gap where
  spaces : List Char := []
  broken : Bool := false
  firstBreak : Option Char := none
  laterBreaks : List Char := []

namespace Gap

def pushBlank (g : Gap) (c : Char) : Gap :=
  if g.broken then g else { g with spaces := c :: g.spaces }

def pushBreak (g : Gap) (c : Char) : Gap :=
  if g.broken then { g with laterBreaks := c :: g.laterBreaks }
  else { spaces := [], broken := true, firstBreak := some c, laterBreaks := [] }

/-- what a gap becomes, in reverse: blanks stay; a single break becomes a space, of several breaks the
first is dropped -/
def folded (g : Gap) : List Char :=
  if g.broken then
    match g.firstBreak with
    | some '\n' => if g.laterBreaks.isEmpty then [' '] else g.laterBreaks
    | some c => g.laterBreaks ++ [c]
    | none => g.laterBreaks
  else g.spaces

end Gap

/-! ## Plain scalars -/

/-- a scalar that has been read; `crossed` says that a line break lies behind its text -/
structure ScalarRead where
  text : String
  crossed : Bool
  cursor : Cursor

/-- a `:` that a flow indicator or `?` follows without a blank -/
def crampedColon : List Char → Bool
  | ':' :: c :: _ => isFlowIndicator c || c = '?'
  | _ => false

/-- text ends here: at a `:` before a blank, and in flow context at a bracket or comma -/
def endsPlain (inFlow : Bool) : List Char → Bool
  | [] => true
  | c :: rest => (c = ':' && startsBlank rest) || (inFlow && isFlowIndicator c)

/-- read a plain scalar whose continuation lines need at least `indent` columns; `text` is in reverse -/
def plainFrom (inFlow : Bool) (indent : Nat) (inGap : Bool) (text : List Char) (gap : Gap)
    (line column : Nat) : List Char → Option ScalarRead
  | [] => some ⟨String.ofList text.reverse, gap.broken, ⟨[], line, column⟩⟩
  | c :: rest =>
    if isGapChar c then
      if gap.broken && column < indent && c = '\t' then none
      else plainFrom inFlow indent true text (gap.pushBlank c) line (column + 1) rest
    else if isBreak c then
      plainFrom inFlow indent true text (gap.pushBreak c) (line + 1) 0 rest
    else if inGap &&
        ((!inFlow && column < indent) || (column = 0 && startsDocumentMark (c :: rest)) || c = '#') then
      some ⟨String.ofList text.reverse, gap.broken, ⟨c :: rest, line, column⟩⟩
    else if inFlow && crampedColon (c :: rest) then none
    else if endsPlain inFlow (c :: rest) then
      some ⟨String.ofList text.reverse, gap.broken, ⟨c :: rest, line, column⟩⟩
    else plainFrom inFlow indent false (c :: (gap.folded ++ text)) {} line (column + 1) rest

/-! ## Quoted scalars -/

/-- where the reader of a quoted scalar stands -/
inductive QuotePhase where
  | text
  | gap
  /-- after a backslash -/
  | escape
  /-- inside a numeric escape: digits still to come, and the value so far -/
  | code (left value : Nat)

/-- the character of an escape of one letter -/
def escaped? : Char → Option Char
  | '0' => some '\x00'
  | 'a' => some '\x07'
  | 'b' => some '\x08'
  | 't' => some '\t'
  | '\t' => some '\t'
  | 'n' => some '\n'
  | 'v' => some '\x0b'
  | 'f' => some '\x0c'
  | 'r' => some '\r'
  | 'e' => some '\x1b'
  | ' ' => some ' '
  | '"' => some '"'
  | '/' => some '/'
  | '\\' => some '\\'
  | 'N' => some '\x85'
  | '_' => some '\xa0'
  | 'L' => some '\u2028'
  | 'P' => some '\u2029'
  | _ => none

/-- how many hexadecimal digits follow the letter of a numeric escape -/
def codeLength? : Char → Option Nat
  | 'x' => some 2
  | 'u' => some 4
  | 'U' => some 8
  | _ => none

/-- the character with this number, if there is one -/
def charOf? (n : Nat) : Option Char :=
  if h : n.isValidChar then some (Char.ofNatAux n h) else none

/-- read a double-quoted scalar after its opening quote -/
def doubleFrom (phase : QuotePhase) (text : List Char) (gap : Gap) (line column : Nat) :
    List Char → Option ScalarRead
  | [] => none
  | c :: rest =>
    match phase with
    | .escape =>
      if isBreak c then doubleFrom .gap text { broken := true } (line + 1) 0 rest
      else match escaped? c, codeLength? c with
        | some e, _ => doubleFrom .text (e :: text) {} line (column + 1) rest
        | none, some n => doubleFrom (.code n 0) text {} line (column + 1) rest
        | none, none => none
    | .code left value =>
      match Text.digitValue? 16 c with
      | none => none
      | some d =>
        if left ≤ 1 then
          match charOf? (value * 16 + d) with
          | some e => doubleFrom .text (e :: text) {} line (column + 1) rest
          | none => none
        else doubleFrom (.code (left - 1) (value * 16 + d)) text {} line (column + 1) rest
    | .text | .gap =>
      if isGapChar c then doubleFrom .gap text (gap.pushBlank c) line (column + 1) rest
      else if isBreak c then doubleFrom .gap text (gap.pushBreak c) (line + 1) 0 rest
      else if column = 0 && startsDocumentMark (c :: rest) then none
      else
        let text := gap.folded ++ text
        if c = '"' then
          some ⟨String.ofList text.reverse, false, ⟨rest, line, column + 1⟩⟩
        else if c = '\\' then doubleFrom .escape text {} line (column + 1) rest
        else doubleFrom .text (c :: text) {} line (column + 1) rest

/-- read a single-quoted scalar after its opening quote; a quote inside is written twice -/
def singleFrom (text : List Char) (gap : Gap) (line column : Nat) :
    List Char → Option ScalarRead
  | [] => none
  | '\'' :: '\'' :: rest =>
    singleFrom ('\'' :: (gap.folded ++ text)) {} line (column + 2) rest
  | c :: rest =>
    if isGapChar c then singleFrom text (gap.pushBlank c) line (column + 1) rest
    else if isBreak c then singleFrom text (gap.pushBreak c) (line + 1) 0 rest
    else if column = 0 && startsDocumentMark (c :: rest) then none
    else if c = '\'' then
      some ⟨String.ofList (gap.folded ++ text).reverse, false, ⟨rest, line, column + 1⟩⟩
    else singleFrom (c :: (gap.folded ++ text)) {} line (column + 1) rest

/-! ## Block scalars -/

/-- which of the last line breaks of a block scalar count -/
inductive Chomp where
  | strip | clip | keep
  deriving DecidableEq

structure BlockHeader where
  chomp : Chomp := .clip
  /-- columns of indentation beyond the parent, if they are given -/
  increment : Option Nat := none

/-- the chomping and indentation indicators, in either order, and how many there are -/
def blockHeader (cs : List Char) : Option (BlockHeader × Nat) :=
  let second := cs.drop 1
  match cs.head?.bind chomp?, cs.head?.bind digit? with
  | some k, _ => match second.head?.bind digit? with
    | some 0 => none
    | some n => some (⟨k, some n⟩, 2)
    | none => some (⟨k, none⟩, 1)
  | none, some 0 => none
  | none, some n => match second.head?.bind chomp? with
    | some k => some (⟨k, some n⟩, 2)
    | none => some (⟨.clip, some n⟩, 1)
  | none, none => some ({}, 0)
where
  chomp? : Char → Option Chomp
    | '+' => some .keep
    | '-' => some .strip
    | _ => none
  digit? (c : Char) : Option Nat := Text.digitValue? 10 c

/-- a block scalar being read; texts are in reverse -/
structure BlockState where
  /-- columns of the content, once they are known -/
  indent : Option Nat
  /-- least indentation that content may have -/
  least : Nat
  widest : Nat := 0
  text : List Char := []
  lastBreak : Option Char := none
  laterBreaks : List Char := []
  /-- the last line started with a blank -/
  afterBlank : Bool := false

namespace BlockState

/-- the break behind the last line and the empty lines after it, as they stand -/
def withBreaks (s : BlockState) : List Char := s.laterBreaks ++ s.lastBreak.toList ++ s.text

/-- join a line that starts with `c` -/
def startLine (s : BlockState) (literal : Bool) (c : Char) : BlockState :=
  let text :=
    if !literal && s.lastBreak = some '\n' && !s.afterBlank && !isGapChar c then
      if s.laterBreaks.isEmpty then ' ' :: s.text else s.laterBreaks ++ s.text
    else s.withBreaks
  { s with text := c :: text, lastBreak := none, laterBreaks := [], afterBlank := isGapChar c }

def finish (s : BlockState) (chomp : Chomp) : String :=
  String.ofList <| List.reverse <| match chomp with
    | .strip => s.text
    | .clip => s.lastBreak.toList ++ s.text
    | .keep => s.withBreaks

/-- the indentation that content has when it starts at this column -/
def settle (s : BlockState) (column : Nat) : Nat :=
  s.indent.getD (max (max s.widest column) s.least)

end BlockState

/-- read the lines of a block scalar; `inLine` says whether the cursor stands inside a line's text -/
def blockFrom (literal : Bool) (chomp : Chomp) (inLine : Bool) (s : BlockState)
    (line column : Nat) : List Char → Option ScalarRead
  | [] => some ⟨s.finish chomp, true, ⟨[], line, column⟩⟩
  | c :: rest =>
    if inLine then
      if isBreak c then
        blockFrom literal chomp false { s with lastBreak := some c } (line + 1) 0 rest
      else blockFrom literal chomp true { s with text := c :: s.text } line (column + 1) rest
    else
      let within := s.indent.all (column < ·)
      if within && c = ' ' then blockFrom literal chomp false s line (column + 1) rest
      else if within && c = '\t' then none
      else if isBreak c then
        blockFrom literal chomp false
          { s with widest := max s.widest column, laterBreaks := c :: s.laterBreaks } (line + 1) 0 rest
      else
        let indent := s.settle column
        if column = indent then
          blockFrom literal chomp true (({ s with indent := some indent }).startLine literal c)
            line (column + 1) rest
        else some ⟨s.finish chomp, true, ⟨c :: rest, line, column⟩⟩

/-- read a block scalar after its `|` or `>`; `parent` is one more than the indentation around it -/
def blockScalar (literal : Bool) (parent : Nat) (c : Cursor) : Option ScalarRead :=
  match blockHeader c.rest with
  | none => none
  | some (header, width) =>
    let c : Cursor := (c.skip width).skipWhile isGapChar
    let c := if c.rest.head? = some '#' then c.skipWhile (fun c => !isBreak c) else c
    let least := max parent 1
    let indent := header.increment.map fun n => if parent = 0 then n else parent - 1 + n
    match c.rest with
    | [] => blockFrom literal header.chomp false { indent, least } c.line c.column []
    | b :: rest =>
      if isBreak b then
        blockFrom literal header.chomp false { indent, least } (c.line + 1) 0 rest
      else none

end Fleet.Yaml
