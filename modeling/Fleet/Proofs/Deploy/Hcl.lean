/-
HCL: which variables a text in the language of infrastructures refers to.

A text is read character by character. Outside quotes stand words and single characters; comments are left out. In
quotes all is plain text, but for what begins with a mark and a brace: that is an expression, and stands outside quotes
again.
- `run_append`: what stands behind is read from where one has come to.
- `run_names`: every word is a name, whatever is read and from wherever.
- `refers_separated_iff`: no reference goes on over a character that is no dot.
- `run_plain`: in quotes, nothing comes of a text without quotes, backslashes and braces.
- `run_reference`: a reference to a name is one to that name, and to no other one.
-/
import Mathlib.Tactic.SplitIfs
import Fleet.Infrastructure
import Fleet.Proofs.Lists

namespace Fleet.Hcl

/-! ## Reading -/

/-- ASCII letters, underscores, and all that is not ASCII -/
def isNameStart (c : Char) : Bool := c.isAlpha || c = '_' || 128 ≤ c.toNat

def isNamePart (c : Char) : Bool := isNameStart c || c.isDigit || c = '-'

/-- what names are made of, whether it begins like one or not -/
def NameParts (cs : List Char) : Prop := ∀ c ∈ cs, isNamePart c = true

instance : DecidablePred NameParts := List.decidableBAll _

/-- a name, as variables have them -/
def IsName (cs : List Char) : Prop := cs.head?.any isNameStart = true ∧ NameParts cs

instance : DecidablePred IsName := fun _ => inferInstanceAs (Decidable (_ ∧ _))

inductive Token where
  | word (cs : List Char)
  | sign (c : Char)
  deriving DecidableEq

/-- what is open and has to be closed -/
inductive Place where
  | quotes
  | braces
  deriving DecidableEq

/-- what the next character belongs to -/
inductive Mode where
  | code
  /-- a word that goes on, its last character first -/
  | word (cs : List Char)
  | slash
  | lineComment
  | comment
  /-- a star in a comment, which a slash would end -/
  | star
  | text
  | backslash
  /-- a mark in quotes, with which a brace would begin an expression -/
  | mark (c : Char)
  /-- marks in quotes, one of them behind another: a brace is plain text there -/
  | marks (c : Char)
  deriving DecidableEq

structure Reader where
  /-- innermost first -/
  places : List Place
  mode : Mode
  deriving DecidableEq

def Reader.within : List Place → Reader
  | .quotes :: places => ⟨.quotes :: places, .text⟩
  | places => ⟨places, .code⟩

/-- a dollar sign begins a value, a per cent sign a condition -/
def isMark (c : Char) : Bool := c = '$' || c = '%'

def readCode (places : List Place) (c : Char) : Reader × List Token :=
  if isNameStart c then (⟨places, .word [c]⟩, [])
  else if c = '/' then (⟨places, .slash⟩, [])
  else if c = '#' then (⟨places, .lineComment⟩, [])
  else if c = '"' then (.within (.quotes :: places), [.sign c])
  else if c = '\x7b' then (.within (.braces :: places), [.sign c])
  else if c = '\x7d' then (.within places.tail, [.sign c])
  else (⟨places, .code⟩, if c.isWhitespace then [] else [.sign c])

def readText (places : List Place) (c : Char) : Reader × List Token :=
  if c = '"' then (.within places.tail, [.sign c])
  else if c = '\\' then (⟨places, .backslash⟩, [])
  else (⟨places, if isMark c then .mark c else .text⟩, [])

/-- the next character, and what it is or ends -/
def Reader.read : Reader → Char → Reader × List Token
  | ⟨places, .code⟩, c => readCode places c
  | ⟨places, .word cs⟩, c =>
    if isNamePart c then (⟨places, .word (c :: cs)⟩, [])
    else ((readCode places c).1, .word cs.reverse :: (readCode places c).2)
  | ⟨places, .slash⟩, c =>
    if c = '/' then (⟨places, .lineComment⟩, [])
    else if c = '*' then (⟨places, .comment⟩, [])
    else ((readCode places c).1, .sign '/' :: (readCode places c).2)
  | ⟨places, .lineComment⟩, c => (⟨places, if c = '\n' then .code else .lineComment⟩, [])
  | ⟨places, .comment⟩, c => (⟨places, if c = '*' then .star else .comment⟩, [])
  | ⟨places, .star⟩, c => (⟨places, if c = '/' then .code else if c = '*' then .star else .comment⟩, [])
  | ⟨places, .text⟩, c => readText places c
  | ⟨places, .backslash⟩, _ => (⟨places, .text⟩, [])
  | ⟨places, .mark m⟩, c =>
    if c = '\x7b' then (.within (.braces :: places), [.sign c])
    else if c = m then (⟨places, .marks m⟩, [])
    else readText places c
  | ⟨places, .marks m⟩, c =>
    if c = '\x7b' then (⟨places, .text⟩, [])
    else if c = m then (⟨places, .marks m⟩, [])
    else readText places c

def Reader.run (r : Reader) : List Char → Reader × List Token
  | [] => (r, [])
  | c :: cs => (((r.read c).1.run cs).1, (r.read c).2 ++ ((r.read c).1.run cs).2)

/-- what the end of a text ends -/
def Reader.rest (r : Reader) : List Token :=
  match r.mode with
  | .word cs => [.word cs.reverse]
  | .slash => [.sign '/']
  | _ => []

def tokens (text : String) : List Token :=
  let (r, ts) := Reader.run ⟨[], .code⟩ text.toList
  ts ++ r.rest

/-- `var`, a dot and a name, which is not itself an attribute of something -/
def Refers (ts : List Token) (name : String) : Prop :=
  ∃ before after, ts = before ++ [.word ['v', 'a', 'r'], .sign '.', .word name.toList] ++ after ∧
    before.getLast? ≠ some (.sign '.')

/-- a text refers to a variable -/
def RefersTo (text name : String) : Prop := Refers (tokens text) name

variable {r r' r'' : Reader} {ts ts' ts'' : List Token} {cs cs' : List Char} {c : Char} {places : List Place}
  {mode : Mode} {name : String}

theorem run_append (h : r.run cs = (r', ts)) (h' : r'.run cs' = (r'', ts')) :
    r.run (cs ++ cs') = (r'', ts ++ ts') := by
  induction cs generalizing r ts with
  | nil =>
    obtain ⟨rfl, rfl⟩ := Prod.mk.inj h
    exact h'
  | cons c cs ih =>
    obtain ⟨hr, rfl⟩ := Prod.mk.inj h
    rw [List.cons_append, Reader.run, ih (Prod.ext hr rfl), List.append_assoc]

theorem run_cons (h : r.read c = (r', ts)) (h' : r'.run cs = (r'', ts')) : r.run (c :: cs) = (r'', ts ++ ts') := by
  rw [Reader.run, h, h']

/-! ## Words are names -/

theorem IsName.concat (h : IsName cs) (hc : isNamePart c = true) : IsName (cs ++ [c]) := by
  obtain ⟨hstart, hparts⟩ := h
  cases cs with
  | nil => cases hstart
  | cons d cs => exact ⟨hstart, List.forall_mem_append.2 ⟨hparts, by simpa using hc⟩⟩

/-- a word that goes on is a name so far -/
def Reader.Named (r : Reader) : Prop := ∀ cs, r.mode = .word cs → IsName cs.reverse

/-- the words that are read are names, and so is the one that goes on -/
structure Names (out : Reader × List Token) : Prop where
  named : out.1.Named
  words : ∀ cs, .word cs ∈ out.2 → IsName cs

theorem names_within (places : List Place) (c : Char) : Names (.within places, [.sign c]) where
  named cs hcs := by
    rw [Reader.within.eq_def] at hcs
    split at hcs <;> cases hcs
  words := by simp

theorem names_silent (h : ∀ cs, mode ≠ .word cs) : Names (⟨places, mode⟩, []) where
  named cs hcs := absurd hcs (h cs)
  words := nofun

theorem names_word (h : IsName cs.reverse) : Names (⟨places, .word cs⟩, []) where
  named := by
    rintro _ ⟨⟩
    exact h
  words := nofun

theorem names_readCode (places : List Place) (c : Char) : Names (readCode places c) := by
  unfold readCode
  split_ifs with hstart
  · exact names_word (by simp [IsName, NameParts, isNamePart, hstart])
  · exact names_silent nofun
  · exact names_silent nofun
  · exact names_within _ c
  · exact names_within _ c
  · exact names_within _ c
  · exact names_silent nofun
  · exact ⟨nofun, by simp⟩

theorem names_readText (places : List Place) (c : Char) : Names (readText places c) := by
  unfold readText
  split_ifs
  · exact names_within _ c
  · exact names_silent nofun
  · exact names_silent nofun
  · exact names_silent nofun

/-- what a character goes on with or ends is a name, if it is a word -/
theorem read_names (h : r.Named) (c : Char) : Names (r.read c) := by
  obtain ⟨places, mode⟩ := r
  have hcode := names_readCode places c
  have htext := names_readText places c
  cases mode with
  | code => exact hcode
  | word cs =>
    have hname : IsName cs.reverse := h cs rfl
    simp only [Reader.read]
    split_ifs with hpart
    · exact names_word (by simpa using hname.concat hpart)
    · refine ⟨hcode.named, fun cs' hcs' => ?_⟩
      rcases List.mem_cons.1 hcs' with hcs' | hcs'
      · cases hcs'
        exact hname
      · exact hcode.words cs' hcs'
  | slash =>
    simp only [Reader.read]
    split_ifs
    · exact names_silent nofun
    · exact names_silent nofun
    · exact ⟨hcode.named, fun cs hcs => hcode.words cs (by simpa using hcs)⟩
  | lineComment => exact names_silent (by split_ifs <;> nofun)
  | comment => exact names_silent (by split_ifs <;> nofun)
  | star => exact names_silent (by split_ifs <;> nofun)
  | text => exact htext
  | backslash => exact names_silent nofun
  | mark m =>
    simp only [Reader.read]
    split_ifs
    · exact names_within _ c
    · exact names_silent nofun
    · exact htext
  | marks m =>
    simp only [Reader.read]
    split_ifs
    · exact names_silent nofun
    · exact names_silent nofun
    · exact htext

/-- **Words are names**, whatever is read. -/
theorem run_names (h : r.Named) (cs : List Char) : Names (r.run cs) := by
  induction cs generalizing r with
  | nil => exact ⟨h, nofun⟩
  | cons c cs ih =>
    have hc := read_names h c
    have hcs := ih hc.named
    refine ⟨hcs.named, fun word hword => ?_⟩
    exact (List.mem_append.1 hword).elim (hc.words word) (hcs.words word)

/-! ## References -/

/-- **No reference goes on over a character that is no dot.** -/
theorem refers_separated_iff (hc : c ≠ '.') :
    Refers (ts ++ .sign c :: ts') name ↔ Refers ts name ∨ Refers ts' name := by
  have hmid : Token.sign c ∉ [.word ['v', 'a', 'r'], .sign '.', .word name.toList] := by simp [hc]
  have hlast (before : List Token) : (ts ++ .sign c :: before).getLast? = some (.sign '.') ↔
      before.getLast? = some (.sign '.') := by
    rw [List.getLast?_append_cons, List.getLast?_cons]
    cases before.getLast? <;> simp [hc]
  constructor
  · rintro ⟨before, after, hts, hbefore⟩
    rcases (cut_between_iff hmid).1 hts with ⟨behind, rfl, -⟩ | ⟨front, rfl, rfl⟩
    · exact .inl ⟨before, behind, rfl, hbefore⟩
    · exact .inr ⟨front, after, rfl, (hlast front).not.1 hbefore⟩
  · rintro (⟨before, behind, rfl, hbefore⟩ | ⟨front, after, rfl, hbefore⟩)
    · exact ⟨before, behind ++ .sign c :: ts', by simp, hbefore⟩
    · exact ⟨ts ++ .sign c :: front, after, by simp, (hlast front).not.2 hbefore⟩

/-- variables that are referred to have names -/
theorem isName_of_refers (h : Refers (r.run cs).2 name) (hr : r.Named) : IsName name.toList := by
  obtain ⟨before, after, hts, -⟩ := h
  exact (run_names hr cs).words _ (by simp [hts])

theorem not_refers (h : .sign '.' ∉ ts) : ¬ Refers ts name := by
  rintro ⟨before, after, rfl, -⟩
  simp at h

/-! ## In quotes -/

/-- what quotes hold without more ado: they end at the first quotes, and no expression begins in them -/
structure Plain (text : String) : Prop where
  quotes : '"' ∉ text.toList
  backslash : '\\' ∉ text.toList
  brace : '\x7b' ∉ text.toList

instance : DecidablePred Plain := fun text =>
  decidable_of_iff ('"' ∉ text.toList ∧ '\\' ∉ text.toList ∧ '\x7b' ∉ text.toList)
    ⟨fun h => ⟨h.1, h.2.1, h.2.2⟩, fun h => ⟨h.quotes, h.backslash, h.brace⟩⟩

/-- in quotes, where the next quotes end them -/
def Mode.Quoting : Mode → Prop
  | .text => True
  | .mark m | .marks m => isMark m = true
  | _ => False

theorem read_quotes (h : mode.Quoting) : Reader.read ⟨places, mode⟩ '"' = (.within places.tail, [.sign '"']) := by
  have hquotes : isMark '"' = false := by decide
  cases mode with
  | text => rfl
  | mark m | marks m =>
    have hm : '"' ≠ m := by
      rintro rfl
      exact absurd (hquotes.symm.trans h) nofun
    simp [Reader.read, readText, hm]
  | _ => cases h

/-- quotes that lead to code end what was quoted -/
theorem read_quotes_of_code (h : (r.read '"').1.mode = .code) : (r.read '"').2 = [.sign '"'] := by
  obtain ⟨places, mode⟩ := r
  have htext : (readText places '"').2 = [.sign '"'] := rfl
  cases mode with
  | text => exact htext
  | mark m | marks m =>
    have hbrace : ¬ '"' = '\x7b' := by decide
    simp only [Reader.read, if_neg hbrace] at h ⊢
    by_cases hm : '"' = m
    · rw [if_pos hm] at h
      cases h
    · rw [if_neg hm]
      exact htext
  | _ => cases h

/-- a character that is neither quotes nor a backslash nor a brace leaves a reader in its quotes -/
theorem read_plain (h : mode.Quoting) (hquotes : c ≠ '"') (hbackslash : c ≠ '\\') (hbrace : c ≠ '\x7b') :
    ∃ mode', mode'.Quoting ∧ Reader.read ⟨places, mode⟩ c = (⟨places, mode'⟩, []) := by
  have htext : ∃ mode', mode'.Quoting ∧ readText places c = (⟨places, mode'⟩, []) := by
    rw [readText, if_neg hquotes, if_neg hbackslash]
    refine ⟨_, ?_, rfl⟩
    split_ifs with hmark
    · exact hmark
    · trivial
  cases mode with
  | text => exact htext
  | mark m | marks m =>
    simp only [Reader.read, if_neg hbrace]
    split_ifs with hm
    · exact ⟨.marks m, h, rfl⟩
    · exact htext
  | _ => cases h

theorem run_of_not_mem (hmode : mode.Quoting) (hquotes : '"' ∉ cs) (hbackslash : '\\' ∉ cs) (hbrace : '\x7b' ∉ cs) :
    ∃ mode', mode'.Quoting ∧ Reader.run ⟨places, mode⟩ cs = (⟨places, mode'⟩, []) := by
  induction cs generalizing mode with
  | nil => exact ⟨mode, hmode, rfl⟩
  | cons c cs ih =>
    rw [List.mem_cons, not_or] at hquotes hbackslash hbrace
    obtain ⟨mode', hmode', hc⟩ := read_plain hmode (Ne.symm hquotes.1) (Ne.symm hbackslash.1) (Ne.symm hbrace.1)
    obtain ⟨mode'', hmode'', hcs⟩ := ih hmode' hquotes.2 hbackslash.2 hbrace.2
    exact ⟨mode'', hmode'', run_cons hc hcs⟩

/-- **Nothing comes of plain text in quotes.** -/
theorem run_plain {text : String} (places : List Place) (h : Plain text) :
    ∃ mode, mode.Quoting ∧ Reader.run ⟨places, .text⟩ text.toList = (⟨places, mode⟩, []) :=
  run_of_not_mem (show Mode.text.Quoting from trivial) h.quotes h.backslash h.brace

/-! ## Names in expressions -/

theorem ne_of_isNamePart {d : Char} (hc : isNamePart c = true) (hd : isNamePart d = false) : c ≠ d := by
  rintro rfl
  exact absurd (hc.symm.trans hd) nofun

theorem run_word (h : NameParts cs) (read : List Char) :
    Reader.run ⟨places, .word read⟩ cs = (⟨places, .word (cs.reverse ++ read)⟩, []) := by
  induction cs generalizing read with
  | nil => rfl
  | cons c cs ih =>
    obtain ⟨hc, hcs⟩ := List.forall_mem_cons.1 h
    have hread : Reader.read ⟨places, .word read⟩ c = (⟨places, .word (c :: read)⟩, []) := if_pos hc
    simpa using run_cons hread (ih hcs (c :: read))

/-- digits and hyphens stand alone where no name begins -/
theorem read_of_not_isNameStart (places : List Place) (hc : isNamePart c = true) (hstart : isNameStart c = false) :
    Reader.read ⟨places, .code⟩ c = (⟨places, .code⟩, [.sign c]) := by
  have hne {d : Char} (hd : isNamePart d = false) : c ≠ d := ne_of_isNamePart hc hd
  have hblank : c.isWhitespace = false := by
    simpa [Char.isWhitespace] using ⟨⟨⟨hne (by decide), hne (by decide)⟩, hne (by decide)⟩, hne (by decide)⟩
  have hread : Reader.read ⟨places, .code⟩ c = readCode places c := rfl
  rw [hread, readCode, if_neg (by simp [hstart]), if_neg (hne (by decide)), if_neg (hne (by decide)),
    if_neg (hne (by decide)), if_neg (hne (by decide)), if_neg (hne (by decide)), hblank]
  rfl

/-- in braces, parts of names are a name just if they begin like one; there is no dot in any case -/
theorem run_parts (places : List Place) (h : NameParts cs) : ∃ ts,
    Reader.run ⟨.braces :: places, .code⟩ (cs ++ ['\x7d']) = (.within places, ts ++ [.sign '\x7d']) ∧ .sign '.' ∉ ts ∧
      ∀ word, ts.head? = some (.word word) ↔ word = cs ∧ IsName cs := by
  induction cs with
  | nil => exact ⟨[], rfl, nofun, fun word => ⟨nofun, fun h => nomatch h.2.1⟩⟩
  | cons c cs ih =>
    obtain ⟨hc, hcs⟩ := List.forall_mem_cons.1 h
    cases hstart : isNameStart c with
    | true =>
      have hfirst : Reader.read ⟨.braces :: places, .code⟩ c = (⟨.braces :: places, .word [c]⟩, []) := if_pos hstart
      have hlast : Reader.run ⟨.braces :: places, .word (cs.reverse ++ [c])⟩ ['\x7d'] =
          (.within places, [.word (c :: cs), .sign '\x7d']) := by
        simp [Reader.run, Reader.read, readCode, isNamePart, isNameStart]
      have hrest := run_append (run_word hcs [c]) hlast
      refine ⟨[.word (c :: cs)], (run_cons hfirst hrest :), by simp, fun word => ?_⟩
      have hname : IsName (c :: cs) := ⟨hstart, h⟩
      simp [hname, eq_comm]
    | false =>
      obtain ⟨ts, hrun, hdot, -⟩ := ih hcs
      have hne : c ≠ '.' := ne_of_isNamePart hc (by decide)
      have hfirst := read_of_not_isNameStart (.braces :: places) hc hstart
      refine ⟨.sign c :: ts, (run_cons hfirst hrun :), by simp [hne.symm, hdot], fun word => ?_⟩
      simp [IsName, hstart]

/-- a reference in braces is one to what stands first behind the dot, if there is no other dot -/
theorem refers_braced_iff (hdot : .sign '.' ∉ ts) :
    Refers ([.sign '\x7b', .word ['v', 'a', 'r'], .sign '.'] ++ (ts ++ [.sign '\x7d'])) name ↔
      ts.head? = some (.word name.toList) := by
  constructor
  · rintro ⟨before, after, hts, -⟩
    have hlast : .sign '.' ∉ ts ++ [.sign '\x7d'] := by simpa using hdot
    match before with
    | [] => simp at hts
    | [_] =>
      simp only [List.cons_append, List.nil_append, List.cons.injEq, true_and] at hts
      cases ts with
      | nil => simp at hts
      | cons t ts => exact congrArg some (List.cons.inj hts.2).1
    | [_, _] => simp at hts
    | _ :: _ :: _ :: before =>
      -- the only dot stands in front of these
      simp only [List.cons_append, List.nil_append, List.cons.injEq] at hts
      rw [hts.2.2.2] at hlast
      simp at hlast
  · intro hhead
    obtain ⟨more, rfl⟩ := List.head?_eq_some_iff.1 hhead
    exact ⟨[.sign '\x7b'], more ++ [.sign '\x7d'], by simp, by simp⟩

/-- **A reference to a name is one to that name**, and to no other one. -/
theorem run_reference {v : String} (places : List Place) (h : NameParts v.toList) : ∃ ts,
    Reader.run ⟨.quotes :: places, .text⟩ (Infrastructure.reference v).toList = (⟨.quotes :: places, .text⟩, ts) ∧
      ∀ name, Refers ts name ↔ name = v ∧ IsName name.toList := by
  obtain ⟨ts, hrun, hdot, hname⟩ := run_parts (.quotes :: places) h
  have hopen : Reader.run ⟨.quotes :: places, .text⟩ ['$', '\x7b', 'v', 'a', 'r', '.'] =
      (⟨.braces :: .quotes :: places, .code⟩, [.sign '\x7b', .word ['v', 'a', 'r'], .sign '.']) := rfl
  have htext : (Infrastructure.reference v).toList = ['$', '\x7b', 'v', 'a', 'r', '.'] ++ (v.toList ++ ['\x7d']) := by
    simp [Infrastructure.reference]
  have hreference := run_append hopen hrun
  rw [← htext] at hreference
  refine ⟨_, hreference, fun name => ?_⟩
  rw [refers_braced_iff hdot, hname, String.toList_inj]
  constructor
  · rintro ⟨rfl, hv⟩
    exact ⟨rfl, hv⟩
  · rintro ⟨rfl, hv⟩
    exact ⟨rfl, hv⟩

end Fleet.Hcl
