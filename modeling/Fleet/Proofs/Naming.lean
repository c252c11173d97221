/-
Names: which ones are accepted, and when the variables about two of them are called alike.

- `isHyphenated_iff`: a name is accepted just if it belongs to a grammar, in which words are separated by single
  hyphens.
- `mem_nameLanguage_iff`: the texts of the grammar are those of a regular expression.
- `accepted_names_are_regular`: so the names that are accepted, with capital letters and without, are those of the
  grammar and of the expression.
- `mem_of_isHyphenated`: so it has name characters and hyphens only.
- `variableStem_eq_iff`: the stems of variables tell accepted names apart, but for the case of their letters.
-/
import Mathlib.Computability.Language
import Fleet.Naming
import Fleet.Proofs.Path

namespace Fleet.Naming

variable {lowercaseOnly : Bool} {c : Char} {cs part : List Char} {name name' : String}

/-! ## Grammar -/

/-- an ASCII digit or letter; capital letters only where they are allowed -/
def NameChar (lowercaseOnly : Bool) (c : Char) : Prop :=
  ('0' ≤ c ∧ c ≤ '9') ∨ ('a' ≤ c ∧ c ≤ 'z') ∨ (lowercaseOnly = false ∧ 'A' ≤ c ∧ c ≤ 'Z')

/-- one name character or more -/
inductive Word (lowercaseOnly : Bool) : List Char → Prop
  | single {c : Char} (hc : NameChar lowercaseOnly c) : Word lowercaseOnly [c]
  | cons {c : Char} {cs : List Char} (hc : NameChar lowercaseOnly c) (hcs : Word lowercaseOnly cs) :
    Word lowercaseOnly (c :: cs)

/-- words, with single hyphens between them -/
inductive Hyphenated (lowercaseOnly : Bool) : List Char → Prop
  | word {cs : List Char} (hcs : Word lowercaseOnly cs) : Hyphenated lowercaseOnly cs
  | hyphen {cs rest : List Char} (hcs : Word lowercaseOnly cs) (hrest : Hyphenated lowercaseOnly rest) :
    Hyphenated lowercaseOnly (cs ++ '-' :: rest)

theorem isNameChar_iff : isNameChar lowercaseOnly c = true ↔ NameChar lowercaseOnly c := by
  have hdigit : c.isDigit = (decide ('0' ≤ c) && decide (c ≤ '9')) := rfl
  have hlower : c.isLower = (decide ('a' ≤ c) && decide (c ≤ 'z')) := rfl
  have halpha : c.isAlpha = (decide ('A' ≤ c ∧ c ≤ 'Z') || c.isLower) := rfl
  cases lowercaseOnly <;> simp [isNameChar, NameChar, hdigit, hlower, halpha, or_comm]

theorem word_iff : Word lowercaseOnly cs ↔ cs ≠ [] ∧ ∀ c ∈ cs, NameChar lowercaseOnly c := by
  constructor
  · intro h
    induction h with
    | single hc => simp [hc]
    | cons hc _ ih => simpa [hc] using ih.2
  · rintro ⟨hne, hchars⟩
    induction cs with
    | nil => exact absurd rfl hne
    | cons c cs ih =>
      obtain ⟨hc, hcs⟩ := List.forall_mem_cons.1 hchars
      cases cs with
      | nil => exact .single hc
      | cons d cs => exact .cons hc (ih (List.cons_ne_nil _ _) hcs)

/-- a part between hyphens that is accepted -/
def isWord (lowercaseOnly : Bool) (cs : List Char) : Bool := !cs.isEmpty && cs.all (isNameChar lowercaseOnly)

theorem isWord_iff : isWord lowercaseOnly cs = true ↔ Word lowercaseOnly cs := by
  simp [isWord, word_iff, isNameChar_iff]

theorem hyphen_not_mem_word (h : Word lowercaseOnly cs) : '-' ∉ cs := by
  intro hin
  have hchar := (word_iff.1 h).2 '-' hin
  revert hchar
  cases lowercaseOnly <;> simp [NameChar]

/-- `part` is the word being read, in reverse -/
theorem hyphenated_of_splitFrom (h : ∀ word ∈ Path.splitFrom '-' part cs, Word lowercaseOnly word) :
    Hyphenated lowercaseOnly (part.reverse ++ cs) := by
  induction cs generalizing part with
  | nil =>
    rw [List.append_nil]
    exact .word (h _ (List.mem_singleton_self _))
  | cons c cs ih =>
    rw [Path.splitFrom] at h
    split at h
    · rename_i hc
      obtain ⟨hword, hrest⟩ := List.forall_mem_cons.1 h
      rw [hc]
      exact .hyphen hword (ih hrest)
    · simpa using ih h

theorem splitFrom_of_hyphenated (h : Hyphenated lowercaseOnly cs) :
    ∀ word ∈ Path.splitFrom '-' [] cs, Word lowercaseOnly word := by
  induction h with
  | word hcs =>
    rw [Path.splitFrom_of_not_mem (hyphen_not_mem_word hcs)]
    simpa using hcs
  | hyphen hcs _ ih =>
    rw [Path.splitFrom_append (hyphen_not_mem_word hcs)]
    simpa using ⟨hcs, ih⟩

/-- **The names that are accepted** are those of the grammar. -/
theorem isHyphenated_iff : isHyphenated lowercaseOnly name = true ↔ Hyphenated lowercaseOnly name.toList := by
  have hwords : isHyphenated lowercaseOnly name = true ↔
      ∀ word ∈ Path.splitFrom '-' [] name.toList, Word lowercaseOnly word := by
    simp only [← isWord_iff]
    exact List.all_eq_true
  rw [hwords]
  exact ⟨hyphenated_of_splitFrom, splitFrom_of_hyphenated⟩

/-- a name that is accepted has name characters and hyphens only -/
theorem mem_of_isHyphenated (h : isHyphenated lowercaseOnly name = true) (hc : c ∈ name.toList) :
    c = '-' ∨ isNameChar lowercaseOnly c = true := by
  rw [isNameChar_iff]
  have hname := isHyphenated_iff.1 h
  generalize name.toList = cs at hname hc
  induction hname with
  | word hcs => exact .inr ((word_iff.1 hcs).2 c hc)
  | hyphen hcs _ ih =>
    rcases List.mem_append.1 hc with hc | hc
    · exact .inr ((word_iff.1 hcs).2 c hc)
    · rcases List.mem_cons.1 hc with hc | hc
      · exact .inl hc
      · exact ih hc

/-! ## Regular expression -/

/-- a text of one name character -/
def singles (lowercaseOnly : Bool) : Language Char := {cs | ∃ c, NameChar lowercaseOnly c ∧ cs = [c]}

/-- one name character or more: `[a-zA-Z0-9]+`, or `[a-z0-9]+` without capital letters -/
def wordLanguage (lowercaseOnly : Bool) : Language Char := singles lowercaseOnly * KStar.kstar (singles lowercaseOnly)

/-- words with a hyphen before each but the first: `[a-zA-Z0-9]+(-[a-zA-Z0-9]+)*`, likewise -/
def nameLanguage (lowercaseOnly : Bool) : Language Char :=
  wordLanguage lowercaseOnly * KStar.kstar ({['-']} * wordLanguage lowercaseOnly)

theorem mem_kstar_singles_iff : cs ∈ KStar.kstar (singles lowercaseOnly) ↔ ∀ c ∈ cs, NameChar lowercaseOnly c := by
  constructor
  · rintro ⟨texts, rfl, htexts⟩ c hc
    obtain ⟨text, htext, hc⟩ := List.mem_flatten.1 hc
    obtain ⟨d, hd, rfl⟩ := htexts text htext
    exact List.mem_singleton.1 hc ▸ hd
  · intro h
    refine ⟨cs.map fun c => [c], (List.flatMap_singleton' cs).symm, fun text htext => ?_⟩
    obtain ⟨c, hc, rfl⟩ := List.mem_map.1 htext
    exact ⟨c, h c hc, rfl⟩

theorem mem_wordLanguage_iff : cs ∈ wordLanguage lowercaseOnly ↔ Word lowercaseOnly cs := by
  rw [wordLanguage, Language.mem_mul, word_iff]
  constructor
  · rintro ⟨_, ⟨c, hc, rfl⟩, rest, hrest, rfl⟩
    exact ⟨List.cons_ne_nil _ _, List.forall_mem_cons.2 ⟨hc, mem_kstar_singles_iff.1 hrest⟩⟩
  · rintro ⟨hne, hchars⟩
    obtain ⟨c, rest, rfl⟩ := List.exists_cons_of_ne_nil hne
    obtain ⟨hc, hrest⟩ := List.forall_mem_cons.1 hchars
    exact ⟨[c], ⟨c, hc, rfl⟩, rest, mem_kstar_singles_iff.2 hrest, rfl⟩

theorem hyphenated_of_parts {parts : List (List Char)} (hcs : Word lowercaseOnly cs)
    (hparts : ∀ part ∈ parts, part ∈ ({['-']} * wordLanguage lowercaseOnly : Language Char)) :
    Hyphenated lowercaseOnly (cs ++ parts.flatten) := by
  induction parts generalizing cs with
  | nil => exact (List.append_nil cs).symm ▸ .word hcs
  | cons part parts ih =>
    obtain ⟨hpart, hrest⟩ := List.forall_mem_cons.1 hparts
    obtain ⟨_, rfl, word, hword, rfl⟩ := Language.mem_mul.1 hpart
    exact .hyphen hcs (ih (mem_wordLanguage_iff.1 hword) hrest)

/-- **The grammar is regular.** -/
theorem mem_nameLanguage_iff : cs ∈ nameLanguage lowercaseOnly ↔ Hyphenated lowercaseOnly cs := by
  rw [nameLanguage, Language.mem_mul]
  constructor
  · rintro ⟨word, hword, _, ⟨parts, rfl, hparts⟩, rfl⟩
    exact hyphenated_of_parts (mem_wordLanguage_iff.1 hword) hparts
  · intro h
    induction h with
    | @word cs hcs => exact ⟨cs, mem_wordLanguage_iff.2 hcs, [], Language.nil_mem_kstar _, List.append_nil cs⟩
    | @hyphen cs rest hcs _ ih =>
      obtain ⟨word, hword, _, ⟨parts, rfl, hparts⟩, rfl⟩ := ih
      have hpart : '-' :: word ∈ ({['-']} * wordLanguage lowercaseOnly : Language Char) :=
        Language.append_mem_mul (Set.mem_singleton ['-']) hword
      exact ⟨cs, mem_wordLanguage_iff.2 hcs, _, ⟨('-' :: word) :: parts, rfl, List.forall_mem_cons.2 ⟨hpart, hparts⟩⟩,
        rfl⟩

/-- **A name is accepted just if it is in the grammar**, and then just if it matches the regular expression: with
capital letters or without them, and whatever other characters there are. -/
theorem accepted_names_are_regular (name : String) :
    (isHyphenated false name = true ↔ Hyphenated false name.toList) ∧
    (isHyphenated true name = true ↔ Hyphenated true name.toList) ∧
    ∀ lowercaseOnly, isHyphenated lowercaseOnly name = true ↔ name.toList ∈ nameLanguage lowercaseOnly :=
  ⟨isHyphenated_iff, isHyphenated_iff, fun _ => isHyphenated_iff.trans mem_nameLanguage_iff.symm⟩

/-! ## Stems of variables -/

/-- the names have the same letters in the same places, be they capital or not -/
def AlikeButForCase (name name' : String) : Prop := name.toList.map Char.toLower = name'.toList.map Char.toLower

instance : Decidable (AlikeButForCase name name') :=
  inferInstanceAs (Decidable (name.toList.map Char.toLower = name'.toList.map Char.toLower))

/-- a name character as it stands in a variable -/
def stemChar (c : Char) : Char := if c.toUpper = '-' then '_' else c.toUpper

/-- the name character, in lower case, that stands in a variable like this -/
def ofStemChar (c : Char) : Char := if c = '_' then '-' else c.toLower

theorem toNat_lt_of_nameChar (h : c = '-' ∨ isNameChar false c = true) : c.toNat < 128 := by
  rw [isNameChar_iff] at h
  rcases h with rfl | ⟨_, h⟩ | ⟨_, h⟩ | ⟨_, _, h⟩
  · decide
  all_goals
    have hle : c.toNat ≤ 127 := Nat.le_trans (UInt32.le_iff_toNat_le.1 h) (by decide)
    omega

/-- case is all that a name character loses in a variable -/
theorem stemChar_cases (h : c = '-' ∨ isNameChar false c = true) :
    ofStemChar (stemChar c) = c.toLower ∧ stemChar c.toLower = stemChar c := by
  have hall : ∀ n : Fin 128, Char.ofNat n = '-' ∨ isNameChar false (Char.ofNat n) = true →
      ofStemChar (stemChar (Char.ofNat n)) = (Char.ofNat n).toLower ∧
        stemChar (Char.ofNat n).toLower = stemChar (Char.ofNat n) := by decide +kernel
  have hc := hall ⟨c.toNat, toNat_lt_of_nameChar h⟩
  simp only [Char.ofNat_toNat] at hc
  exact hc h

theorem toList_variableStem (h : isHyphenated false name = true) :
    (variableStem name).toList = name.toList.map stemChar := by
  have hupper : Text.upper name.toList = name.toList.map Char.toUpper := by
    rw [Text.upper, List.map_eq_flatMap]
    refine List.flatMap_congr fun c hc => ?_
    have hascii : c.toNat < 128 := toNat_lt_of_nameChar (mem_of_isHyphenated h hc)
    simp [Text.upperChar, hascii]
  rw [variableStem, String.toList_ofList, hupper, List.map_map]
  rfl

/-- **Variables tell accepted names apart, but for case.** -/
theorem variableStem_eq_iff (h : isHyphenated false name = true) (h' : isHyphenated false name' = true) :
    variableStem name = variableStem name' ↔ AlikeButForCase name name' := by
  have hlower (name : String) (h : isHyphenated false name = true) :
      name.toList.map Char.toLower = (name.toList.map stemChar).map ofStemChar := by
    rw [List.map_map]
    exact List.map_congr_left fun c hc => (stemChar_cases (mem_of_isHyphenated h hc)).1.symm
  have hstem (name : String) (h : isHyphenated false name = true) :
      name.toList.map stemChar = (name.toList.map Char.toLower).map stemChar := by
    rw [List.map_map]
    exact List.map_congr_left fun c hc => (stemChar_cases (mem_of_isHyphenated h hc)).2.symm
  rw [← String.toList_inj, toList_variableStem h, toList_variableStem h', AlikeButForCase]
  constructor
  · intro hsame
    rw [hlower name h, hlower name' h', hsame]
  · intro hsame
    rw [hstem name h, hstem name' h', hsame]

end Fleet.Naming
