/-
YAML text for trees of maps, lists and texts.

Blocks are indented by two columns; a list stands in the column of its key. Each text is written in the first
of the styles literal block, plain, single-quoted and double-quoted that it allows, where a text of several
lines prefers the block and a text that would read back as something else needs quotes. Long keys and keys of
several lines are written behind a question mark.
-/
import Fleet.Yaml.Plain

namespace Fleet.Yaml

/-- what is written -/
inductive Tree where
  | null
  | text (s : String)
  | list (items : List Tree)
  | map (entries : List (String × Tree))
  deriving Inhabited

namespace Writer

/-! ## Styles -/

/-- characters that need no escape -/
def isPrintable (c : Char) : Bool :=
  let n := c.toNat
  n == 0x0A || (0x20 ≤ n && n ≤ 0x7E) || (0xA0 ≤ n && n != 0xFEFF && n != 0xFFFE && n != 0xFFFF)

/-- line breaks that can be printed -/
def isLineBreak (c : Char) : Bool := isBreak c

/-- a character of the first class directly before one of the second -/
def hasPair (p q : Char → Bool) : List Char → Bool
  | c :: d :: rest => (p c && q d) || hasPair p q (d :: rest)
  | _ => false

def startsWith (p : Char → Bool) (cs : List Char) : Bool := (cs.head?.map p).getD false

def endsWith (p : Char → Bool) (cs : List Char) : Bool := (cs.getLast?.map p).getD false

def isSpace (c : Char) : Bool := c = ' '

/-- first characters that would be read as something else -/
def isLeadingIndicator (c : Char) : Bool :=
  isFlowIndicator c || c = '#' || c = '&' || c = '*' || c = '!' || c = '|' || c = '>' ||
  c = '\'' || c = '"' || c = '%' || c = '@' || c = '\x60'

/-- blank characters and breaks, as the reader of a plain text sees them -/
def isBlankOrEnd (c : Char) : Bool := isGapOrBreak c || c = '\r' || c = '\x85' || c = '\x00'

def blankNext : List Char → Bool
  | [] => true
  | c :: _ => isBlankOrEnd c

/-- somewhere a `:` before a blank, or a `#` behind one -/
def hasInnerIndicator : List Char → Bool
  | [] => false
  | c :: rest =>
    (c = ':' && blankNext rest) || (isBlankOrEnd c && rest.head? = some '#') || hasInnerIndicator rest

/-- the text starts like another token -/
def startsLikeToken : List Char → Bool
  | '-' :: '-' :: '-' :: _ => true
  | '.' :: '.' :: '.' :: _ => true
  | c :: rest => isLeadingIndicator c || ((c = '-' || c = '?') && blankNext rest)
  | [] => true

def hasBreak (cs : List Char) : Bool := cs.any isLineBreak

def allPrintable (cs : List Char) : Bool := cs.all isPrintable

def allowsPlain (cs : List Char) : Bool :=
  !cs.isEmpty && allPrintable cs && !hasBreak cs && !startsWith isSpace cs && !endsWith isSpace cs &&
  !startsLikeToken cs && !hasInnerIndicator cs

def allowsSingle (cs : List Char) : Bool :=
  allPrintable cs && !hasPair isSpace isLineBreak cs && !hasPair isLineBreak isSpace cs

def allowsBlock (cs : List Char) : Bool :=
  allPrintable cs && !hasPair isSpace isLineBreak cs && !endsWith isSpace cs

def style (s : String) : ScalarStyle :=
  let cs := s.toList
  if cs.contains '\n' then if allowsBlock cs then .literal else .double
  else if plainMeaning s ≠ .text || isPaddedText cs then .single
  else if allowsPlain cs then .plain
  else if allowsSingle cs then .single
  else .double

/-! ## Scalars -/

def pad (n : Nat) : List Char := List.replicate n ' '

/-- the letter of a one-letter escape -/
def shortEscape? : Char → Option Char
  | '\x00' => some '0'
  | '\x07' => some 'a'
  | '\x08' => some 'b'
  | '\t' => some 't'
  | '\n' => some 'n'
  | '\x0b' => some 'v'
  | '\x0c' => some 'f'
  | '\r' => some 'r'
  | '\x1b' => some 'e'
  | '"' => some '"'
  | '\\' => some '\\'
  | '\x85' => some 'N'
  | '\u2028' => some 'L'
  | '\u2029' => some 'P'
  | _ => none

/-- the last `width` hexadecimal digits of a number -/
def hexDigits (n : Nat) : Nat → List Char
  | 0 => []
  | width + 1 => hexDigits (n / 16) width ++ [Text.upperHexDigit (n % 16)]

def escape (c : Char) : List Char :=
  if isPrintable c && !isLineBreak c && c ≠ '"' && c ≠ '\\' then [c]
  else match shortEscape? c with
    | some e => ['\\', e]
    | none =>
      let n := c.toNat
      if n ≤ 0xFF then '\\' :: 'x' :: hexDigits n 2
      else if n ≤ 0xFFFF then '\\' :: 'u' :: hexDigits n 4
      else '\\' :: 'U' :: hexDigits n 8

def double (cs : List Char) : List Char := '"' :: (cs.flatMap escape ++ ['"'])

/-- a text between single quotes; what follows a line break is indented -/
def singleBody (indent : Nat) (afterBreak : Bool) : List Char → List Char
  | [] => if afterBreak then pad indent else []
  | c :: rest =>
    if isLineBreak c then c :: singleBody indent true rest
    else
      (if afterBreak then pad indent else []) ++ (if c = '\'' then ['\'', '\''] else [c]) ++
        singleBody indent false rest

def single (indent : Nat) (cs : List Char) : List Char :=
  '\'' :: (singleBody indent false cs ++ ['\''])

/-- the indicators behind the `|` of a block -/
def blockHints (cs : List Char) : List Char :=
  (if startsWith (fun c => isSpace c || isLineBreak c) cs then ['2'] else []) ++
  match cs.reverse with
  | [] => ['-']
  | [c] => if isLineBreak c then ['+'] else ['-']
  | c :: d :: _ => if isLineBreak c then (if isLineBreak d then ['+'] else []) else ['-']

/-- the lines of a block, ended by a break -/
def blockLines (indent : Nat) (atStart : Bool) : List Char → List Char
  | [] => if atStart then [] else ['\n']
  | c :: rest =>
    if isLineBreak c then c :: blockLines indent true rest
    else (if atStart then pad indent else []) ++ c :: blockLines indent false rest

def literal (indent : Nat) (cs : List Char) : List Char :=
  '|' :: (blockHints cs ++ '\n' :: blockLines indent true cs)

/-- a text in its style, with the line ended; `indent` is that of further lines -/
def scalarLine (indent : Nat) (s : String) : List Char :=
  match style s with
  | .plain => s.toList ++ ['\n']
  | .single => single indent s.toList ++ ['\n']
  | .literal | .folded => literal indent s.toList
  | .double => double s.toList ++ ['\n']

/-- characters that end a line for a reader, printable or not -/
def endsLine (c : Char) : Bool := isLineBreak c || c = '\r' || c = '\x85'

/-- a key that fits before its colon: one line, and at most 128 octets -/
def isSimpleKey (k : String) : Bool := !k.toList.any endsLine && k.utf8ByteSize ≤ 128

/-- the text of a simple key -/
def simpleKey (k : String) : List Char :=
  match style k with
  | .plain => k.toList
  | .single => single 0 k.toList
  | _ => double k.toList

/-! ## Trees -/

mutual

/-- what follows a key, a dash or a colon at column `n`. `compact` says that a collection starts on the same
line, two columns in; otherwise it starts on the next line, a list in column `n` -/
def value (n : Nat) (compact : Bool) : Tree → List Char
  | .null => " null\n".toList
  | .text s => ' ' :: scalarLine (n + 2) s
  | .list [] => " []\n".toList
  | .list items =>
    if compact then ' ' :: list (n + 2) false items else '\n' :: list n true items
  | .map [] => [' ', '\x7b', '\x7d', '\n']
  | .map entries =>
    (if compact then ' ' else '\n') :: map (n + 2) (!compact) entries

/-- the items of a list at column `n`; `indented` says that the first one still needs its indentation -/
def list (n : Nat) (indented : Bool) : List Tree → List Char
  | [] => []
  | item :: rest =>
    (if indented then pad n else []) ++ '-' :: (value n true item ++ list n true rest)

def map (n : Nat) (indented : Bool) : List (String × Tree) → List Char
  | [] => []
  | (k, v) :: rest =>
    (if indented then pad n else []) ++
    (if isSimpleKey k then simpleKey k ++ ':' :: value n false v
      else '?' :: ' ' :: (scalarLine (n + 2) k ++ pad n ++ ':' :: value n true v)) ++
    map n true rest

end

end Writer

/-- the document of a map -/
def Tree.document (entries : List (String × Tree)) : String :=
  String.ofList (Writer.map 0 true entries)

end Fleet.Yaml
