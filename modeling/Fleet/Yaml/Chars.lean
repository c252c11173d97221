/-
The characters of YAML text: which may occur, which break lines, and the classes that the token rules
speak of.

Line breaks are settled first: CR LF, CR and NEL all become LF, so that every later rule sees one
character per break. The separators U+2028 and U+2029 also break lines but stay what they are.
-/

namespace Fleet.Yaml

/-- the characters that may stand in a document -/
def isAllowed (c : Char) : Bool :=
  let n := c.toNat
  n == 0x09 || n == 0x0A || n == 0x0D || (0x20 ≤ n && n ≤ 0x7E) || n == 0x85 ||
  (0xA0 ≤ n && n ≤ 0xD7FF) || (0xE000 ≤ n && n ≤ 0xFFFD) || 0x10000 ≤ n

/-- every line break spelled as one character -/
def unifyBreaks : List Char → List Char
  | [] => []
  | '\r' :: '\n' :: rest => '\n' :: unifyBreaks rest
  | c :: rest => (if c = '\r' || c = '\x85' then '\n' else c) :: unifyBreaks rest

def isBreak (c : Char) : Bool := c = '\n' || c = '\u2028' || c = '\u2029'

/-- space or tab -/
def isGapChar (c : Char) : Bool := c = ' ' || c = '\t'

/-- space, tab or line break -/
def isGapOrBreak (c : Char) : Bool := isGapChar c || isBreak c

/-- the text ends here, or a space, tab or break follows -/
def startsBlank : List Char → Bool
  | [] => true
  | c :: _ => isGapOrBreak c

/-- letters, digits, `_` and `-` -/
def isWordChar (c : Char) : Bool := c.isAlphanum || c = '_' || c = '-'

/-- the brackets and the comma of flow collections -/
def isFlowIndicator (c : Char) : Bool :=
  c = ',' || c = '[' || c = ']' || c = '\x7b' || c = '\x7d'

/-- characters with a meaning of their own at the start of a token -/
def isIndicator (c : Char) : Bool :=
  isFlowIndicator c || c = '-' || c = '?' || c = ':' || c = '#' || c = '&' || c = '*' || c = '!' ||
  c = '|' || c = '>' || c = '\'' || c = '"' || c = '%' || c = '@' || c = '\x60'

/-- characters of a tag; the comma and the square brackets only inside `!<…>` -/
def isTagChar (verbatim : Bool) (c : Char) : Bool :=
  isWordChar c || c = ';' || c = '/' || c = '?' || c = ':' || c = '@' || c = '&' || c = '=' ||
  c = '+' || c = '$' || c = '.' || c = '%' || c = '!' || c = '~' || c = '*' || c = '\'' ||
  c = '(' || c = ')' || (verbatim && (c = ',' || c = '[' || c = ']'))

/-- `---` or `...` standing alone -/
def startsDocumentMark : List Char → Bool
  | '-' :: '-' :: '-' :: rest => startsBlank rest
  | '.' :: '.' :: '.' :: rest => startsBlank rest
  | _ => false

end Fleet.Yaml
