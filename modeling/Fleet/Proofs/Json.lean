/-
The compact text of a JSON value reads back as the value.

A value is `Spelled` if its strings spell texts and it has no numbers: a number ends where something else begins, so
its text reads back only in places.
- `readString_escaped`: the escapes of a string, one character after the other, are undone by the reader.
- `Spelled.readsBack`: the text of a value, with anything after it, reads as the value, and what comes after is left.
- `Spelled.parse_compact`: so a whole text is parsed as the value that it is of.
- `printable_of_mem_quote`: a quoted string has no control characters, whatever stands in it.
- `parse_ne_string`: a string that is quoted behind an equals sign does not read as a string, whatever stands in front.
-/
import Mathlib.Data.List.TakeWhile
import Mathlib.Tactic.IntervalCases
import Fleet.Json.Reader
import Fleet.Proofs.Lists

namespace Fleet.Json

variable {c c' : Char} {cs rest : List Char} {s : Spelling} {j : Json} {items : List Json}
  {members : List (String × Json)} {fuel : Nat} {t : Option String} {front behind : List Char}

/-! ## Strings -/

theorem hex4?_of_control {n : Nat} (h : n < 0x20) :
    hex4? '0' '0' (Text.hexDigit (n / 16)) (Text.hexDigit (n % 16)) = some n := by
  interval_cases n <;> decide

theorem pushUnit_of_control (hhigh : s.high = none) (h : c.toNat < 0x20) : s.pushUnit c.toNat = s.push c := by
  have hhigh' : isHighSurrogate c.toNat = false := by simp [isHighSurrogate]; omega
  have hlow : isLowSurrogate c.toNat = false := by simp [isLowSurrogate]; omega
  simp [Spelling.pushUnit, hhigh, hhigh', hlow]

theorem readString_literal (hquote : c ≠ '"') (hbackslash : c ≠ '\\') (hprintable : ¬ c.toNat < 0x20) :
    readString s (c :: rest) = readString (s.push c) rest := by
  rw [readString, if_neg (by simp [hprintable, hbackslash])]
  · exact hquote
  · exact fun _ _ _ _ _ h => absurd h hbackslash
  · exact fun _ _ h => absurd h hbackslash

/-- the escape of one character reads as that character -/
theorem readString_escapeChar (h : s.high = none) :
    readString s (escapeChar c ++ rest) = readString (s.push c) rest := by
  unfold escapeChar
  split
  case h_8 hquote hbackslash _ _ _ _ _ =>
    split
    · rename_i hcontrol
      simp [readString, hex4?_of_control hcontrol, pushUnit_of_control h hcontrol]
    · rename_i hprintable
      exact readString_literal hquote hbackslash hprintable
  all_goals simp [readString, shortEscape?]

/-- **A string's escapes are undone by the reader**, and what follows the closing quote is left. -/
theorem readString_escaped (hvalid : s.valid = true) (hhigh : s.high = none) :
    readString s (cs.flatMap escapeChar ++ '"' :: rest) =
    some (some (String.ofList (s.chars.reverse ++ cs)), rest) := by
  induction cs generalizing s with
  | nil => simp [readString, Spelling.result, hvalid, hhigh]
  | cons c cs ih =>
    rw [List.flatMap_cons, List.append_assoc, readString_escapeChar hhigh,
      ih (by simp [Spelling.push, hvalid, hhigh]) rfl]
    simp [Spelling.push]

theorem readString_text (t : String) :
    readString {} (t.toList.flatMap escapeChar ++ '"' :: rest) = some (some t, rest) := by
  rw [readString_escaped rfl rfl]
  simp

theorem printable_of_mem_escapeChar (h : c' ∈ escapeChar c) : 0x20 ≤ c'.toNat := by
  have hdigit {n : Nat} (hn : n < 16) : 0x20 ≤ (Text.hexDigit n).toNat := by interval_cases n <;> decide
  unfold escapeChar at h
  split at h
  case h_8 =>
    split at h
    · rename_i hcontrol
      simp only [List.mem_cons, List.not_mem_nil, or_false] at h
      rcases h with rfl | rfl | rfl | rfl | rfl | rfl
      all_goals first | decide | exact hdigit (by omega)
    · rename_i hprintable
      rw [List.mem_singleton.1 h]
      omega
  all_goals
    simp only [List.mem_cons, List.not_mem_nil, or_false] at h
    rcases h with rfl | rfl <;> decide

/-- a quoted string has no control characters -/
theorem printable_of_mem_quote (h : c ∈ quote cs) : 0x20 ≤ c.toNat := by
  rcases List.mem_cons.1 h with rfl | h
  · decide
  rcases List.mem_append.1 h with h | h
  · obtain ⟨_, _, hc⟩ := List.mem_flatMap.1 h
    exact printable_of_mem_escapeChar hc
  · rw [List.mem_singleton.1 h]
    decide

/-! ## Values -/

/-- without numbers, and with strings that spell texts -/
inductive Spelled : Json → Prop
  | null : Spelled .null
  | bool (b : Bool) : Spelled (.bool b)
  | text (t : String) : Spelled (.text t)
  | array {items : List Json} (h : ∀ j ∈ items, Spelled j) : Spelled (.array items)
  | record {members : List (String × Json)} (h : ∀ m ∈ members, Spelled m.2) : Spelled (.record members)

/-- the text of the value, with anything after it, reads as the value -/
def ReadsBack (j : Json) : Prop :=
  ∀ fuel rest, (write j).length ≤ fuel → readValue fuel (write j ++ rest) = some (j, rest)

/-- the members of a record with their names -/
def named (members : List (String × Json)) : List (Option String × Json) := members.map fun m => (some m.1, m.2)

theorem skipSpaces_cons (h : isSpace c = false) : skipSpaces (c :: cs) = c :: cs :=
  List.dropWhile_cons_of_neg (by simp [h])

theorem Spelled.begins (h : j.Spelled) : ∃ c l, write j = c :: l ∧ isSpace c = false ∧ c ≠ ']' := by
  cases h with
  | bool b => cases b <;> exact ⟨_, _, rfl, rfl, by decide⟩
  | _ => exact ⟨_, _, rfl, rfl, by decide⟩

/-- the items of an array, at least one -/
theorem readItems_write (hne : items ≠ []) (h : ∀ j ∈ items, j.ReadsBack)
    (hfuel : (separated (writeItems items)).length < fuel) (rest : List Char) :
    readItems fuel (separated (writeItems items) ++ ']' :: rest) = some (items, rest) := by
  induction items generalizing fuel with
  | nil => exact absurd rfl hne
  | cons j items ih =>
    obtain ⟨hj, hitems⟩ := List.forall_mem_cons.1 h
    obtain ⟨fuel, rfl⟩ := Nat.exists_eq_add_one.2 (Nat.zero_lt_of_lt hfuel)
    cases items with
    | nil =>
      have hread := hj fuel (']' :: rest) (Nat.lt_succ_iff.1 hfuel)
      simp [writeItems, separated, readItems, hread, skipSpaces_cons (c := ']') rfl]
    | cons j' items =>
      have hsplit : separated (writeItems (j :: j' :: items)) =
          write j ++ ',' :: separated (writeItems (j' :: items)) := rfl
      rw [hsplit, List.length_append, List.length_cons] at hfuel
      have hrest : readItems fuel (separated (writeItems (j' :: items)) ++ ']' :: rest) = some (j' :: items, rest) :=
        ih (List.cons_ne_nil _ _) hitems (by omega)
      rw [hsplit, List.append_assoc, List.cons_append, readItems, hj fuel _ (by omega)]
      simp [skipSpaces_cons (c := ',') rfl, hrest]

/-- the members of an object, at least one -/
theorem readMembers_write (hne : members ≠ []) (h : ∀ m ∈ members, m.2.ReadsBack)
    (hfuel : (separated (writeMembers (named members))).length < fuel) (rest : List Char) :
    readMembers fuel (separated (writeMembers (named members)) ++ '\x7d' :: rest) = some (named members, rest) := by
  induction members generalizing fuel with
  | nil => exact absurd rfl hne
  | cons m members ih =>
    obtain ⟨hm, hmembers⟩ := List.forall_mem_cons.1 h
    obtain ⟨fuel, rfl⟩ := Nat.exists_eq_add_one.2 (Nat.zero_lt_of_lt hfuel)
    have hname (l : List Char) : quote m.1.toList ++ l = '"' :: (m.1.toList.flatMap escapeChar ++ '"' :: l) := by
      simp [quote]
    cases members with
    | nil =>
      have hsplit : separated (writeMembers (named [m])) = quote m.1.toList ++ ':' :: write m.2 := rfl
      rw [hsplit, List.length_append, List.length_cons] at hfuel
      have hread := hm fuel ('\x7d' :: rest) (by omega)
      rw [hsplit, List.append_assoc, List.cons_append, hname]
      simp [readMembers, skipSpaces_cons (c := '"') rfl, readString_text, skipSpaces_cons (c := ':') rfl, hread,
        skipSpaces_cons (c := '\x7d') rfl]
      rfl
    | cons m' members =>
      have hsplit : separated (writeMembers (named (m :: m' :: members))) =
          quote m.1.toList ++ ':' :: write m.2 ++ ',' :: separated (writeMembers (named (m' :: members))) := rfl
      rw [hsplit, List.length_append, List.length_append, List.length_cons, List.length_cons] at hfuel
      have hrest : readMembers fuel (separated (writeMembers (named (m' :: members))) ++ '\x7d' :: rest) =
          some (named (m' :: members), rest) := ih (List.cons_ne_nil _ _) hmembers (by omega)
      have hread := hm fuel (',' :: (separated (writeMembers (named (m' :: members))) ++ '\x7d' :: rest)) (by omega)
      rw [hsplit, List.append_assoc, List.append_assoc, List.cons_append, List.cons_append, hname]
      simp [readMembers, skipSpaces_cons (c := '"') rfl, readString_text, skipSpaces_cons (c := ':') rfl, hread,
        skipSpaces_cons (c := ',') rfl, hrest]
      rfl

/-- a text has a first character, so there is fuel for the step that reads it -/
theorem Spelled.readsBack_of_step (h : j.Spelled)
    (hstep : ∀ fuel rest, (write j).length ≤ fuel + 1 → readValue (fuel + 1) (write j ++ rest) = some (j, rest)) :
    j.ReadsBack := by
  intro fuel rest hfuel
  obtain ⟨c, l, hwrite, _⟩ := h.begins
  cases fuel with
  | zero => simp [hwrite] at hfuel
  | succ fuel => exact hstep fuel rest hfuel

theorem readsBack_array (h : ∀ j ∈ items, j.Spelled) (hreads : ∀ j ∈ items, j.ReadsBack) :
    (Json.array items).ReadsBack := by
  refine (Spelled.array h).readsBack_of_step fun fuel rest hfuel => ?_
  cases items with
  | nil =>
    simp [write, writeItems, separated, readValue, skipSpaces_cons (c := '[') rfl, skipSpaces_cons (c := ']') rfl]
  | cons j items =>
    -- the bracket that ends an empty array does not begin a value
    obtain ⟨c, l, hl, hspace, hbracket⟩ :
        ∃ c l, separated (writeItems (j :: items)) = c :: l ∧ isSpace c = false ∧ c ≠ ']' := by
      obtain ⟨c, l, hwrite, hc⟩ := (h j List.mem_cons_self).begins
      cases items with
      | nil => exact ⟨c, l, hwrite, hc⟩
      | cons j' items => exact ⟨c, _, by rw [writeItems, writeItems, separated, hwrite]; rfl, hc⟩
    have hlength : (separated (writeItems (j :: items))).length < fuel := by
      simp [write] at hfuel
      omega
    have hread := readItems_write (List.cons_ne_nil j items) hreads hlength rest
    rw [hl, List.cons_append] at hread
    simp [write, hl, readValue, skipSpaces_cons (c := '[') rfl, skipSpaces_cons hspace, hbracket, hread]

theorem readsBack_record (h : ∀ m ∈ members, m.2.Spelled) (hreads : ∀ m ∈ members, m.2.ReadsBack) :
    (Json.record members).ReadsBack := by
  refine (Spelled.record h).readsBack_of_step fun fuel rest hfuel => ?_
  have hwrite : write (.record members) = '\x7b' :: (separated (writeMembers (named members)) ++ ['\x7d']) := rfl
  rw [hwrite] at hfuel ⊢
  cases members with
  | nil =>
    simp [named, writeMembers, separated, readValue, skipSpaces_cons (c := '\x7b') rfl,
      skipSpaces_cons (c := '\x7d') rfl, record]
  | cons m members =>
    obtain ⟨l, hl⟩ : ∃ l, separated (writeMembers (named (m :: members))) = '"' :: l := by
      cases members <;> exact ⟨_, rfl⟩
    have hlength : (separated (writeMembers (named (m :: members)))).length < fuel := by
      simp at hfuel
      omega
    have hread := readMembers_write (List.cons_ne_nil m members) hreads hlength rest
    rw [hl, List.cons_append] at hread
    simp [hl, readValue, skipSpaces_cons (c := '\x7b') rfl, skipSpaces_cons (c := '"') rfl, hread]
    rfl

/-- **The text of a value reads as the value**, whatever comes after it. -/
theorem Spelled.readsBack (h : j.Spelled) : j.ReadsBack := by
  induction h with
  | null => exact Spelled.null.readsBack_of_step fun _ _ _ => by simp [write, readValue, skipSpaces_cons (c := 'n') rfl]
  | bool b =>
    refine (Spelled.bool b).readsBack_of_step fun _ _ _ => ?_
    cases b <;> simp [write, readValue, skipSpaces_cons (c := 't') rfl, skipSpaces_cons (c := 'f') rfl]
  | text t =>
    refine (Spelled.text t).readsBack_of_step fun _ _ _ => ?_
    simp [Json.text, write, quote, readValue, skipSpaces_cons (c := '"') rfl, readString_text]
  | array h ih => exact readsBack_array h ih
  | record h ih => exact readsBack_record h ih

/-- **A value that is spelled out is parsed back from its text.** -/
theorem Spelled.parse_compact (h : j.Spelled) : parse j.compact = some j := by
  have hread := h.readsBack (2 * (write j).length + 2) [] (by omega)
  rw [List.append_nil] at hread
  simp [parse, compact, hread, skipSpaces]

/-! ## Strings behind an equals sign -/

theorem equals_not_mem_of_digitsOnto {n v : Nat} (h : Text.digitsOnto 16 v cs = some n) : '=' ∉ cs := by
  induction cs generalizing v with
  | nil => exact List.not_mem_nil
  | cons c cs ih =>
    simp only [Text.digitsOnto] at h
    split at h
    · rename_i hdigit
      rw [List.mem_cons, not_or]
      refine ⟨?_, ih h⟩
      rintro rfl
      cases hdigit
    · cases h

/-- no escape goes past the sign, so a string ends at the quote behind it at the latest -/
theorem suffix_of_readString (h : readString s cs = some (t, rest)) (hcs : cs = front ++ '=' :: '"' :: behind) :
    behind <:+ rest := by
  fun_induction readString s cs generalizing front with
  | case1 => cases h
  | case2 s tail =>
    cases h
    obtain ⟨front', rfl⟩ := cut_behind ['"'] hcs (by decide)
    exact ⟨front' ++ ['=', '"'], by simp⟩
  | case3 s a b c d tail n hunit ih =>
    have hdigits : '=' ∉ [a, b, c, d] := equals_not_mem_of_digitsOnto hunit
    obtain ⟨front', rfl⟩ := cut_behind ['\\', 'u', a, b, c, d] hcs (by simpa using hdigits)
    exact ih h rfl
  | case4 => cases h
  | case5 s e tail _ c hescape ih =>
    have hletter : e ≠ '=' := by
      rintro rfl
      cases hescape
    obtain ⟨front', rfl⟩ := cut_behind ['\\', e] hcs (by simpa using hletter.symm)
    exact ih h rfl
  | case6 => cases h
  | case7 => cases h
  | case8 s c tail _ _ _ hliteral ih =>
    cases front with
    | nil =>
      cases hcs
      cases h
      exact List.suffix_rfl
    | cons c front =>
      cases hcs
      exact ih h rfl

theorem readNumber_ne_string (cs : List Char) : readNumber cs ≠ some (.string t, rest) := by
  unfold readNumber
  split
  all_goals
    intro h
    obtain ⟨_, _, hnumber⟩ := Option.map_eq_some_iff.1 h
    cases hnumber

/-- a value that is a string is read from a quote on -/
theorem exists_readString (h : readValue fuel cs = some (.string t, rest)) :
    ∃ tail, skipSpaces cs = '"' :: tail ∧ readString {} tail = some (t, rest) := by
  cases fuel with
  | zero => simp [readValue] at h
  | succ fuel =>
    rw [readValue] at h
    split at h
    case h_4 tail hspaces =>
      obtain ⟨⟨t', rest'⟩, hstring, hsame⟩ := Option.map_eq_some_iff.1 h
      cases hsame
      exact ⟨tail, hspaces, hstring⟩
    case h_7 => exact absurd h (readNumber_ne_string _)
    case h_5 | h_6 =>
      split at h
      · cases h
      · obtain ⟨_, _, hsame⟩ := Option.map_eq_some_iff.1 h
        cases hsame
    all_goals cases h

/-- a text with an equals sign before a quote spells no string, unless nothing but blanks is behind the quote -/
theorem parse_ne_string {text : String} (htext : text.toList = front ++ '=' :: '"' :: behind)
    (hc : c ∈ behind) (hblank : isSpace c = false) : parse text ≠ some (.string t) := by
  intro h
  simp only [parse] at h
  split at h
  · rename_i j rest hread
    split at h
    · rename_i hend
      cases h
      obtain ⟨tail, hspaces, hstring⟩ := exists_readString hread
      have hquote : (text.toList.takeWhile isSpace ++ ['"']) ++ tail = front ++ '=' :: '"' :: behind := by
        rw [← htext, List.append_assoc, List.singleton_append, ← hspaces]
        exact List.takeWhile_append_dropWhile
      have hblanks : '=' ∉ text.toList.takeWhile isSpace ++ ['"'] := by
        intro hequals
        rcases List.mem_append.1 hequals with hequals | hequals
        · cases List.mem_takeWhile_imp hequals
        · cases List.mem_singleton.1 hequals
      obtain ⟨front', htail⟩ := cut_behind _ hquote hblanks
      have hin := (suffix_of_readString hstring htail).subset hc
      have hspace := List.dropWhile_eq_nil_iff.1 (List.isEmpty_iff.1 hend) c hin
      rw [hblank] at hspace
      cases hspace
    · cases h
  · cases h

end Fleet.Json
