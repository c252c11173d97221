/-
Styles: what is written of a text, and what the texts look like that are written in each style.

- `suits_style`: a text suits the style it is written in. What looks like a number or the like has marks only, so that
  it can stand between single quotes.
- `printable_scalarLine`: whatever the text is, only characters that can be printed are written.
-/
import Mathlib.Data.List.TakeWhile
import Fleet.Yaml.Writer

namespace Fleet.Yaml

variable {c : Char} {cs : List Char} {s : String}

/-! ## Characters -/

theorem isAllowed_of_isPrintable (h : Writer.isPrintable c = true) : isAllowed c = true := by
  have hvalid : c.toNat < 0xD800 ∨ 0xDFFF < c.toNat ∧ c.toNat < 0x110000 := c.valid
  simp only [Writer.isPrintable, isAllowed, Bool.or_eq_true, Bool.and_eq_true, beq_iff_eq, bne_iff_ne,
    decide_eq_true_eq] at h ⊢
  omega

namespace Writer

/-- a printable character is none of the ones that readers treat like blanks or breaks -/
theorem ne_of_isPrintable (h : isPrintable c = true) : c ≠ '\t' ∧ c ≠ '\r' ∧ c ≠ '\x85' ∧ c ≠ '\ufeff' ∧
    c ≠ '\x00' := by
  refine ⟨?_, ?_, ?_, ?_, ?_⟩ <;> rintro rfl <;> revert h <;> decide

/-- a character that shows, of the first ones -/
def isMark (c : Char) : Bool := 0x21 ≤ c.toNat && c.toNat ≤ 0x7E

theorem isPrintable_of_isMark (h : isMark c = true) : isPrintable c = true := by
  simp only [isMark, isPrintable, Bool.or_eq_true, Bool.and_eq_true, beq_iff_eq, bne_iff_ne, decide_eq_true_eq] at h ⊢
  omega

theorem not_space_of_isMark (h : isMark c = true) : isSpace c = false := by
  rw [isSpace, decide_eq_false_iff_not]
  rintro rfl
  revert h
  decide

/-! ## Numbers -/

theorem isMark_of_digitValue? {base d : Nat} (h : Text.digitValue? base c = some d) : isMark c = true := by
  simp only [Text.digitValue?, Option.filter_eq_some_iff] at h
  obtain ⟨h, _⟩ := h
  simp only [isMark, Bool.and_eq_true, decide_eq_true_eq] at h ⊢
  split at h
  · omega
  · split at h
    · omega
    · split at h
      · omega
      · cases h

theorem marks_of_digitsOnto {base value n : Nat} (h : Text.digitsOnto base value cs = some n) :
    cs.all isMark = true := by
  induction cs generalizing value with
  | nil => rfl
  | cons c cs ih =>
    rw [Text.digitsOnto] at h
    cases hd : Text.digitValue? base c with
    | none =>
      rw [hd] at h
      cases h
    | some d =>
      rw [hd] at h
      rw [List.all_cons, isMark_of_digitValue? hd, ih h]
      rfl

theorem marks_of_readNat? {base n : Nat} (h : Text.readNat? base cs = some n) : cs.all isMark = true := by
  rw [Text.readNat?] at h
  split at h
  · cases h
  · exact marks_of_digitsOnto h

theorem marks_cons (hc : isMark c = true) (hcs : cs.all isMark = true) : (c :: cs).all isMark = true := by
  rw [List.all_cons, hc, hcs]
  rfl

theorem marks_takeWhile (cs : List Char) : (cs.takeWhile Char.isDigit).all isMark = true := by
  rw [List.all_eq_true]
  intro c hc
  have hdigit := List.mem_takeWhile_imp hc
  simp only [Char.isDigit, Bool.and_eq_true, decide_eq_true_eq, ge_iff_le, UInt32.le_iff_toNat_le] at hdigit
  simp only [isMark, Bool.and_eq_true, decide_eq_true_eq]
  exact ⟨le_trans (by decide) hdigit.1, le_trans hdigit.2 (by decide)⟩

theorem marks_of_dropWhile (h : (cs.dropWhile Char.isDigit).all isMark = true) : cs.all isMark = true := by
  rw [← List.takeWhile_append_dropWhile (p := Char.isDigit) (l := cs), List.all_append, marks_takeWhile, h]
  rfl

/-- a number has marks only where what stands behind its digits and the point has -/
theorem marks_of_fraction {rest : List Char} (hmarks : rest.all isMark = true)
    (hrest : (match cs.dropWhile Char.isDigit with
    | '.' :: r => (r.takeWhile Char.isDigit, r.dropWhile Char.isDigit)
    | r => ([], r)).snd = rest) : cs.all isMark = true := by
  refine marks_of_dropWhile ?_
  split at hrest
  · rename_i r heq
    rw [heq]
    cases hrest
    exact marks_cons (by decide) (marks_of_dropWhile hmarks)
  · cases hrest
    exact hmarks

theorem marks_of_decimal {d : Number.Decimal} (h : Number.Decimal.read? cs = some d) : cs.all isMark = true := by
  simp only [Number.Decimal.read?, Option.bind_eq_some_iff] at h
  obtain ⟨digits, -, h⟩ := h
  split at h
  · rename_i heq
    exact marks_of_fraction rfl heq
  · rename_i c r heq
    refine marks_of_fraction ?_ heq
    split at h
    · rename_i he
      have hr : r.all isMark = true := by
        split at h
        all_goals
          obtain ⟨n, hn, -⟩ := Option.map_eq_some_iff.1 h
          obtain ⟨n, hn, -⟩ := Option.bind_eq_some_iff.1 hn
        · exact marks_cons (by decide) (marks_of_readNat? hn)
        · exact marks_cons (by decide) (marks_of_readNat? hn)
        · exact marks_of_readNat? hn
      rw [Bool.or_eq_true, decide_eq_true_eq, decide_eq_true_eq] at he
      rcases he with rfl | rfl
      · exact marks_cons (by decide) hr
      · exact marks_cons (by decide) hr
    · cases h

theorem marks_of_isPaddedNumeral (h : Decoder.isPaddedNumeral cs = true) : cs.all isMark = true := by
  unfold Decoder.isPaddedNumeral at h
  split at h
  · rename_i c rest
    refine marks_cons (by decide) (marks_of_dropWhile ?_)
    rw [List.dropWhile_eq_nil_iff.2 (List.all_eq_true.1 h)]
    rfl
  · cases h

theorem marks_of_isPaddedText (h : isPaddedText cs = true) : cs.all isMark = true := by
  unfold isPaddedText at h
  split at h
  · exact marks_cons (by decide) (marks_of_isPaddedNumeral h)
  · exact marks_cons (by decide) (marks_of_isPaddedNumeral h)
  · exact marks_of_isPaddedNumeral h

theorem marks_of_unsignedDigits {n : Nat} (h : (match cs with
    | '0' :: 'x' :: rest => Text.readNat? 16 rest
    | '0' :: 'o' :: rest => Text.readNat? 8 rest
    | '0' :: 'b' :: rest => Text.readNat? 2 rest
    | cs => if Decoder.isPaddedNumeral cs then none else Text.readNat? 10 cs) = some n) : cs.all isMark = true := by
  split at h
  · exact marks_cons (by decide) (marks_cons (by decide) (marks_of_readNat? h))
  · exact marks_cons (by decide) (marks_cons (by decide) (marks_of_readNat? h))
  · exact marks_cons (by decide) (marks_cons (by decide) (marks_of_readNat? h))
  · split at h
    · cases h
    · exact marks_of_readNat? h

theorem marks_of_unsigned? {n : Nat} (h : Decoder.unsigned? s = some n) : s.toList.all isMark = true := by
  simp only [Decoder.unsigned?] at h
  have hmarks := marks_of_unsignedDigits h
  split at hmarks
  · rename_i heq
    rw [heq]
    exact marks_cons (by decide) hmarks
  · exact hmarks

theorem marks_of_negative {base : Nat} {n : Int} (h : PlainMeaning.int?.negative base cs = some n) :
    cs.all isMark = true := by
  obtain ⟨m, hm, -⟩ := Option.map_eq_some_iff.1 h
  obtain ⟨k, hk, -⟩ := Option.bind_eq_some_iff.1 hm
  exact marks_of_readNat? (Option.filter_eq_some_iff.1 hk).1

theorem marks_of_int? {n : Int} (h : PlainMeaning.int? cs = some n) : cs.all isMark = true := by
  unfold PlainMeaning.int? at h
  split at h
  · rename_i m hm
    have hmarks := marks_of_unsigned? (Option.filter_eq_some_iff.1 hm).1
    rwa [String.toList_ofList] at hmarks
  · split at h
    · exact marks_cons (by decide) (marks_cons (by decide) (marks_cons (by decide) (marks_of_negative h)))
    · exact marks_cons (by decide) (marks_cons (by decide) (marks_cons (by decide) (marks_of_negative h)))
    · exact marks_cons (by decide) (marks_cons (by decide) (marks_cons (by decide) (marks_of_negative h)))
    · split at h
      · cases h
      · exact marks_cons (by decide) (marks_of_negative h)
    · cases h

theorem marks_of_contains {names : List (List Char)} (hnames : ∀ name ∈ names, name.all isMark = true)
    (h : names.contains cs = true) : cs.all isMark = true :=
  hnames cs (List.contains_iff_mem.1 h)

theorem marks_of_unsignedFloat? {negative : Bool} {x : Number.Float64}
    (h : PlainMeaning.unsignedFloat? negative cs = some x) : cs.all isMark = true := by
  unfold PlainMeaning.unsignedFloat? at h
  split at h
  · rename_i hinfinite
    exact marks_of_contains (by decide) hinfinite
  · obtain ⟨b, hb, -⟩ := Option.map_eq_some_iff.1 h
    obtain ⟨d, hd, -⟩ := Option.bind_eq_some_iff.1 hb
    exact marks_of_decimal hd

theorem marks_of_float? {x : Number.Float64} (h : PlainMeaning.float? cs = some x) : cs.all isMark = true := by
  unfold PlainMeaning.float? at h
  split at h
  · exact marks_cons (by decide) (marks_of_unsignedFloat? h)
  · exact marks_cons (by decide) (marks_of_unsignedFloat? h)
  · split at h
    · rename_i hnan
      exact marks_of_contains (by decide) hnan
    · exact marks_of_unsignedFloat? h

/-- **What is more than a text shows in all its characters.** -/
theorem marks_of_plainMeaning (h : plainMeaning s ≠ .text) : s.toList.all isMark = true := by
  simp only [plainMeaning] at h
  split at h
  · rename_i hnull
    simp only [Decoder.isNullText, Bool.or_eq_true, decide_eq_true_eq] at hnull
    rcases hnull with rfl | ((rfl | rfl) | rfl) | rfl <;> decide
  split at h
  · rename_i htrue
    simp only [Bool.or_eq_true, decide_eq_true_eq] at htrue
    rcases htrue with (rfl | rfl) | rfl <;> decide
  split at h
  · rename_i hfalse
    simp only [Bool.or_eq_true, decide_eq_true_eq] at hfalse
    rcases hfalse with (rfl | rfl) | rfl <;> decide
  split at h
  · rename_i n hn
    exact marks_of_int? hn
  · split at h
    · rename_i hpadded
      exact marks_of_isPaddedText hpadded
    · cases hfloat : PlainMeaning.float? s.toList with
      | none =>
        rw [hfloat] at h
        exact absurd rfl h
      | some x => exact marks_of_float? hfloat

/-! ## Styles -/

theorem hasPair_of_not {p q : Char → Bool} (h : cs.all (fun c => !q c) = true) : hasPair p q cs = false := by
  induction cs with
  | nil => rfl
  | cons c cs ih =>
    rw [List.all_cons, Bool.and_eq_true] at h
    cases cs with
    | nil => rfl
    | cons d cs =>
      have hd : q d = false := by
        have := h.2
        rw [List.all_cons, Bool.and_eq_true, Bool.not_eq_true'] at this
        exact this.1
      rw [hasPair, ih h.2, hd, Bool.and_false]
      rfl

theorem allowsSingle_of_marks (h : cs.all isMark = true) : allowsSingle cs = true := by
  have hspace : cs.all (fun c => !isSpace c) = true :=
    List.all_eq_true.2 fun c hc => by rw [not_space_of_isMark (List.all_eq_true.1 h c hc)]; rfl
  have hbreak : cs.all (fun c => !isLineBreak c) = true := List.all_eq_true.2 fun c hc => by
    have hmark := List.all_eq_true.1 h c hc
    rw [Bool.not_eq_true', ← Bool.not_eq_true]
    intro hbreak
    simp only [isLineBreak, isBreak, Bool.or_eq_true, decide_eq_true_eq] at hbreak
    rcases hbreak with (rfl | rfl) | rfl <;> revert hmark <;> decide
  have hprintable : allPrintable cs = true :=
    List.all_eq_true.2 fun c hc => isPrintable_of_isMark (List.all_eq_true.1 h c hc)
  rw [allowsSingle, hprintable, hasPair_of_not hbreak, hasPair_of_not hspace]
  rfl

/-- what a text is like that is written in a style; in double quotes any text can be written -/
inductive Suits (s : String) : ScalarStyle → Prop where
  | plain (hplain : allowsPlain s.toList = true) (hmeaning : plainMeaning s = .text) : Suits s .plain
  | single (hsingle : allowsSingle s.toList = true) (hbreak : '\n' ∉ s.toList) : Suits s .single
  | double : Suits s .double
  | literal (hblock : allowsBlock s.toList = true) (hbreak : '\n' ∈ s.toList) : Suits s .literal

theorem suits_style (s : String) : Suits s (style s) := by
  simp only [style]
  split
  · rename_i hbreak
    split
    · exact .literal ‹_› (List.contains_iff_mem.1 hbreak)
    · exact .double
  rename_i hbreak
  have hbreak : '\n' ∉ s.toList := fun h => hbreak (List.contains_iff_mem.2 h)
  split
  · rename_i hmeaning
    refine .single (allowsSingle_of_marks ?_) hbreak
    rw [Bool.or_eq_true, decide_eq_true_eq] at hmeaning
    exact hmeaning.elim marks_of_plainMeaning marks_of_isPaddedText
  rename_i hmeaning
  have hmeaning : plainMeaning s = .text := by
    by_contra hne
    exact hmeaning (by simp [hne])
  split
  · exact .plain ‹_› hmeaning
  · split
    · exact .single ‹_› hbreak
    · exact .double

/-! ## What is written -/

theorem printable_append {l l' : List Char} (h : allPrintable l = true) (h' : allPrintable l' = true) :
    allPrintable (l ++ l') = true := by
  rw [allPrintable, List.all_append] at *
  rw [h, h']
  rfl

theorem printable_pad (n : Nat) : allPrintable (pad n) = true :=
  List.all_eq_true.2 fun c hc => by rw [List.eq_of_mem_replicate hc]; decide

theorem isMark_upperHexDigit {d : Nat} (h : d < 16) : isMark (Text.upperHexDigit d) = true := by
  have hall : ∀ d < 16, isMark (Text.upperHexDigit d) = true := by decide
  exact hall d h

theorem marks_hexDigits (n width : Nat) : (hexDigits n width).all isMark = true := by
  induction width generalizing n with
  | zero => rfl
  | succ width ih =>
    rw [hexDigits, List.all_append, ih, List.all_cons, isMark_upperHexDigit (Nat.mod_lt _ (by decide))]
    rfl

theorem isMark_of_shortEscape? {e : Char} (h : shortEscape? c = some e) : isMark e = true := by
  unfold shortEscape? at h
  split at h <;> cases h <;> decide

theorem printable_of_marks (h : cs.all isMark = true) : allPrintable cs = true :=
  List.all_eq_true.2 fun c hc => isPrintable_of_isMark (List.all_eq_true.1 h c hc)

/-- a character stands for itself, or is escaped to characters that show -/
theorem escape_cases (c : Char) : (isPrintable c = true ∧ isLineBreak c = false ∧ escape c = [c]) ∨
    (escape c).all isMark = true := by
  unfold escape
  split
  · rename_i h
    simp only [Bool.and_eq_true, Bool.not_eq_true'] at h
    exact .inl ⟨h.1.1.1, h.1.1.2, rfl⟩
  · right
    split
    · rename_i e he
      exact marks_cons (by decide) (marks_cons (isMark_of_shortEscape? he) rfl)
    · simp only
      split
      · exact marks_cons (by decide) (marks_cons (by decide) (marks_hexDigits _ _))
      · split <;> exact marks_cons (by decide) (marks_cons (by decide) (marks_hexDigits _ _))

theorem printable_escape (c : Char) : allPrintable (escape c) = true := by
  obtain ⟨hprintable, -, hescape⟩ | hmarks := escape_cases c
  · rw [hescape, allPrintable, List.all_cons, hprintable]
    rfl
  · exact printable_of_marks hmarks

theorem printable_cons (hc : isPrintable c = true) (hcs : allPrintable cs = true) : allPrintable (c :: cs) = true := by
  rw [allPrintable, List.all_cons, hc]
  exact hcs

theorem printable_double (cs : List Char) : allPrintable (double cs) = true := by
  refine printable_cons (by decide) (printable_append ?_ (by decide))
  rw [allPrintable, List.all_flatMap]
  exact List.all_eq_true.2 fun c _ => printable_escape c

theorem printable_singleBody (indent : Nat) (afterBreak : Bool) (h : allPrintable cs = true) :
    allPrintable (singleBody indent afterBreak cs) = true := by
  induction cs generalizing afterBreak with
  | nil =>
    rw [singleBody]
    split
    · exact printable_pad indent
    · rfl
  | cons c cs ih =>
    rw [allPrintable, List.all_cons, Bool.and_eq_true] at h
    rw [singleBody]
    split
    · exact printable_cons h.1 (ih true h.2)
    · refine printable_append (printable_append ?_ ?_) (ih false h.2)
      · split
        · exact printable_pad indent
        · rfl
      · split
        · decide
        · exact printable_cons h.1 rfl

theorem printable_single (indent : Nat) (h : allPrintable cs = true) : allPrintable (single indent cs) = true :=
  printable_cons (by decide) (printable_append (printable_singleBody indent false h) (by decide))

theorem printable_blockHints (cs : List Char) : allPrintable (blockHints cs) = true := by
  refine printable_append ?_ ?_
  · split <;> decide
  · split
    · decide
    · split <;> decide
    · split
      · split <;> decide
      · decide

theorem printable_blockLines (indent : Nat) (atStart : Bool) (h : allPrintable cs = true) :
    allPrintable (blockLines indent atStart cs) = true := by
  induction cs generalizing atStart with
  | nil =>
    rw [blockLines]
    split <;> decide
  | cons c cs ih =>
    rw [allPrintable, List.all_cons, Bool.and_eq_true] at h
    rw [blockLines]
    split
    · exact printable_cons h.1 (ih true h.2)
    · refine printable_append ?_ (printable_cons h.1 (ih false h.2))
      split
      · exact printable_pad indent
      · rfl

theorem printable_literal (indent : Nat) (h : allPrintable cs = true) : allPrintable (literal indent cs) = true :=
  printable_cons (by decide)
    (printable_append (printable_blockHints cs) (printable_cons (by decide) (printable_blockLines indent true h)))

theorem Suits.printable {style : ScalarStyle} (h : Suits s style) (hdouble : style ≠ .double) :
    allPrintable s.toList = true := by
  cases h with
  | plain h _ =>
    simp only [allowsPlain, Bool.and_eq_true] at h
    exact h.1.1.1.1.1.2
  | single h _ =>
    simp only [allowsSingle, Bool.and_eq_true] at h
    exact h.1.1
  | double => exact absurd rfl hdouble
  | literal h _ =>
    simp only [allowsBlock, Bool.and_eq_true] at h
    exact h.1.1

/-- **Only characters that can be printed are written**, whatever the text is. -/
theorem printable_scalarLine (indent : Nat) (s : String) : allPrintable (scalarLine indent s) = true := by
  have hsuits := suits_style s
  have hend : allPrintable ['\n'] = true := by decide
  rw [scalarLine]
  split
  · rename_i hstyle
    exact printable_append ((hstyle ▸ hsuits).printable (by decide)) hend
  · rename_i hstyle
    exact printable_append (printable_single indent ((hstyle ▸ hsuits).printable (by decide))) hend
  · rename_i hstyle
    exact printable_literal indent ((hstyle ▸ hsuits).printable (by decide))
  · rename_i hstyle
    rw [hstyle] at hsuits
    cases hsuits
  · exact printable_append (printable_double _) hend

theorem printable_simpleKey (k : String) : allPrintable (simpleKey k) = true := by
  have hsuits := suits_style k
  rw [simpleKey]
  split
  · rename_i hstyle
    exact (hstyle ▸ hsuits).printable (by decide)
  · rename_i hstyle
    exact printable_single 0 ((hstyle ▸ hsuits).printable (by decide))
  · exact printable_double _

mutual

theorem printable_value (n : Nat) (compact : Bool) : (t : Tree) → allPrintable (value n compact t) = true
  | .null => by rw [value]; decide
  | .text s => by
    rw [value]
    exact printable_cons (by decide) (printable_scalarLine _ s)
  | .list [] => by rw [value]; decide
  | .list (item :: items) => by
    rw [value]
    · split
      · exact printable_cons (by decide) (printable_list (n + 2) false (item :: items))
      · exact printable_cons (by decide) (printable_list n true (item :: items))
    · simp
  | .map [] => by rw [value]; decide
  | .map (entry :: entries) => by
    rw [value]
    · refine printable_cons ?_ (printable_map (n + 2) _ (entry :: entries))
      cases compact <;> decide
    · simp

theorem printable_list (n : Nat) (indented : Bool) : (items : List Tree) → allPrintable (list n indented items) = true
  | [] => by rw [list]; rfl
  | item :: items => by
    rw [list]
    refine printable_append ?_ (printable_cons (by decide)
      (printable_append (printable_value n true item) (printable_list n true items)))
    cases indented
    · rfl
    · exact printable_pad n

theorem printable_map (n : Nat) (indented : Bool) : (entries : List (String × Tree)) →
    allPrintable (map n indented entries) = true
  | [] => by rw [map]; rfl
  | (k, v) :: entries => by
    rw [map]
    refine printable_append (printable_append ?_ ?_) (printable_map n true entries)
    · cases indented
      · rfl
      · exact printable_pad n
    · split
      · exact printable_append (printable_simpleKey k) (printable_cons (by decide) (printable_value n false v))
      · refine printable_cons (by decide) (printable_cons (by decide) (printable_append
          (printable_append (printable_scalarLine _ k) (printable_pad n)) (printable_cons (by decide) ?_)))
        exact printable_value n true v

end

end Writer

/-- a document is read as it is written -/
theorem unifyBreaks_of_printable (h : Writer.allPrintable cs = true) : unifyBreaks cs = cs := by
  induction cs with
  | nil => rfl
  | cons c cs ih =>
    rw [Writer.allPrintable, List.all_cons, Bool.and_eq_true] at h
    obtain ⟨_, hcr, hnel, _⟩ := Writer.ne_of_isPrintable h.1
    rw [unifyBreaks]
    · rw [ih h.2, if_neg (by simp [hcr, hnel])]
    · rintro _ rfl
      exact absurd rfl hcr

end Fleet.Yaml
