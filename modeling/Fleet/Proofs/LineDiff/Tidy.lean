/-
Tidying moves blocks about and changes no text.

- `Spot.moved_up`, `Spot.moved_down`: one move of a block of changed lines, up or down. Lines that it slides over are
  the same at both of its ends.
- `sameTexts_settle`, `sameTexts_joinBlocks`, `sameTexts_align`: the steps of tidying.
- `spells_between`: the tidied script stands between the lines of the two texts.
-/
import Fleet.LineDiff.Unified
import Fleet.Proofs.LineDiff.Search

namespace Fleet.LineDiff

variable {script script' script'' : List Block} {kind : Kind} {b c : Block}

/-- scripts between the same texts -/
structure SameTexts (script script' : List Block) : Prop where
  old : oldLines script = oldLines script'
  new : newLines script = newLines script'

namespace SameTexts

theorem refl (script : List Block) : SameTexts script script := ⟨rfl, rfl⟩

theorem trans (h : SameTexts script script') (h' : SameTexts script' script'') : SameTexts script script'' :=
  ⟨h.old.trans h'.old, h.new.trans h'.new⟩

theorem cons (b : Block) (h : SameTexts script script') : SameTexts (b :: script) (b :: script') :=
  ⟨by rw [oldLines_cons, h.old, oldLines_cons], by rw [newLines_cons, h.new, newLines_cons]⟩

/-- what stands in front makes no difference -/
theorem behind (h : SameTexts script script') (front : List Block) : SameTexts (front ++ script) (front ++ script') :=
  ⟨by rw [oldLines_append, h.old, oldLines_append], by rw [newLines_append, h.new, newLines_append]⟩

/-- blocks of one kind are joined -/
theorem joined (h : b.kind = c.kind) (rest : List Block) :
    SameTexts ({ b with lines := b.lines ++ c.lines } :: rest) (b :: c :: rest) := by
  constructor
  · simp only [oldLines_cons, Block.oldLines, h]
    split <;> simp
  · simp only [newLines_cons, Block.newLines, h]
    split <;> simp

/-- lines that go and lines that come pass each other -/
theorem swapped (hb : b.kind ≠ .same) (hc : c.kind ≠ .same) (hne : b.kind ≠ c.kind) (rest : List Block) :
    SameTexts (c :: b :: rest) (b :: c :: rest) := by
  constructor
  · simp only [oldLines_cons, Block.oldLines]
    cases hkb : b.kind <;> cases hkc : c.kind <;> simp_all
  · simp only [newLines_cons, Block.newLines]
    cases hkb : b.kind <;> cases hkc : c.kind <;> simp_all

theorem dropped (h : b.lines = []) (rest : List Block) : SameTexts rest (b :: rest) := by
  constructor
  · simp [Block.oldLines, h]
  · simp [Block.newLines, h]

end SameTexts

/-! ## Moves -/

namespace Spot

variable {p q : Spot}

/-- the script that the spot is in -/
def whole (p : Spot) : List Block := p.before.reverse ++ p.this :: p.after

/-- `q` is where the block of `p` is after a move that changes no text -/
structure Moved (p q : Spot) : Prop where
  kind : q.this.kind = p.this.kind
  texts : SameTexts q.whole p.whole

theorem Moved.refl (p : Spot) : Moved p p := ⟨rfl, .refl _⟩

theorem Moved.trans {r : Spot} (h : Moved p q) (h' : Moved q r) : Moved p r :=
  ⟨h'.kind.trans h.kind, h'.texts.trans h.texts⟩

variable {s ls : List String} {before after : List Block}

/-- lines that stay are put in front -/
theorem lines_growAfter (s : List String) (i j : Nat) (after : List Block) :
    oldLines (growAfter s i j after) = s ++ oldLines after ∧
      newLines (growAfter s i j after) = s ++ newLines after := by
  cases after with
  | nil => exact ⟨rfl, rfl⟩
  | cons b after =>
    rw [growAfter]
    split
    · rename_i hkind
      simp [Block.oldLines, Block.newLines, hkind]
    · simp [Block.oldLines, Block.newLines]

/-- lines that stay are put behind what comes before -/
theorem lines_growBefore (s : List String) (i j : Nat) (before : List Block) :
    oldLines (growBefore s i j before).reverse = oldLines before.reverse ++ s ∧
      newLines (growBefore s i j before).reverse = newLines before.reverse ++ s := by
  cases before with
  | nil => simp [growBefore, Block.oldLines, Block.newLines]
  | cons b before =>
    rw [growBefore]
    split
    · rename_i hkind
      simp [Block.oldLines, Block.newLines, hkind]
    · simp [Block.oldLines, Block.newLines]

/-- a block of lines that stay may be left out if it has none -/
theorem lines_keptBefore (hkind : b.kind = .same) (ls : List String) (before : List Block) :
    oldLines (if ls.isEmpty then before else { b with lines := ls } :: before).reverse = oldLines before.reverse ++ ls ∧
      newLines (if ls.isEmpty then before else { b with lines := ls } :: before).reverse =
        newLines before.reverse ++ ls := by
  cases ls with
  | nil => simp
  | cons l ls => simp [Block.oldLines, Block.newLines, hkind]

theorem lines_keptAfter (hkind : b.kind = .same) (ls : List String) (f : Nat → Nat) (after : List Block) :
    oldLines (if ls.isEmpty then after else shift b ls f :: after) = ls ++ oldLines after ∧
      newLines (if ls.isEmpty then after else shift b ls f :: after) = ls ++ newLines after := by
  cases ls with
  | nil => simp
  | cons l ls => simp [Block.oldLines, Block.newLines, shift, hkind]

/-- lines that end the block before as well as the block itself -/
theorem slides_up {prev this : Block} (h : 0 < (slideUp prev this).length) : this.kind = .added ∧
    prev.lines.take (prev.size - (slideUp prev this).length) ++ slideUp prev this = prev.lines ∧
    this.lines.take (this.size - (slideUp prev this).length) ++ slideUp prev this = this.lines := by
  unfold slideUp at h ⊢
  split at h
  · rename_i hadded
    obtain ⟨hprev, hthis⟩ := commonEnd_isSuffix prev.lines this.lines
    rw [if_pos hadded]
    exact ⟨hadded, List.suffix_iff_eq_append.1 hprev, List.suffix_iff_eq_append.1 hthis⟩
  · exact absurd h (Nat.lt_irrefl 0)

theorem whole_cons (prev this : Block) (before after : List Block) :
    whole ⟨prev :: before, this, after⟩ = before.reverse ++ prev :: this :: after := by simp [whole]

/-- what the block slides over stands at its end before the move, and at its start afterwards -/
theorem moved_up (hkind : p.this.kind ≠ .same) (h : p.up? = some q) : Moved p q := by
  obtain ⟨before, this, after⟩ := p
  cases before with
  | nil => cases h
  | cons prev before =>
    simp only [up?] at h hkind
    split at h
    · rename_i hprev
      split at h
      · rename_i hslide
        cases h
        obtain ⟨hadded, hprevLines, hthisLines⟩ := slides_up hslide
        generalize prev.lines.take (prev.size - (slideUp prev this).length) = prevLines at *
        generalize this.lines.take (this.size - (slideUp prev this).length) = kept at *
        generalize slideUp prev this = s at *
        obtain ⟨hbeforeOld, hbeforeNew⟩ := lines_keptBefore hprev prevLines before
        refine ⟨rfl, ?_⟩
        rw [whole_cons]
        constructor
        · rw [whole, oldLines_append, hbeforeOld]
          simp [lines_growAfter, Block.oldLines, hadded, hprev, shift, ← hprevLines]
        · rw [whole, newLines_append, hbeforeNew]
          simp [lines_growAfter, Block.newLines, hadded, hprev, shift, ← hprevLines, ← hthisLines]
      · split at h
        · rename_i hempty
          cases h
          refine ⟨rfl, ?_⟩
          rw [whole_cons]
          exact (SameTexts.dropped (List.isEmpty_iff.1 hempty) _).behind _
        · cases h
    · rename_i hprev
      split at h
      · rename_i hsame
        cases h
        refine ⟨hsame, ?_⟩
        rw [whole_cons]
        exact (SameTexts.joined hsame after).behind _
      · rename_i hother
        cases h
        refine ⟨rfl, ?_⟩
        rw [whole_cons]
        exact (SameTexts.swapped hprev hkind hother after).behind _

/-- lines that start the block behind as well as the block itself -/
theorem slides_down {this next : Block} (h : 0 < (slideDown this next).length) : this.kind = .added ∧
    slideDown this next ++ next.lines.drop (slideDown this next).length = next.lines ∧
    slideDown this next ++ this.lines.drop (slideDown this next).length = this.lines := by
  unfold slideDown at h ⊢
  split at h
  · rename_i hadded
    obtain ⟨hnext, hthis⟩ := commonStart_isPrefix next.lines this.lines
    rw [if_pos hadded]
    exact ⟨hadded, List.prefix_iff_eq_append.1 hnext, List.prefix_iff_eq_append.1 hthis⟩
  · exact absurd h (Nat.lt_irrefl 0)

/-- what the block slides over stands at its start before the move, and at its end afterwards -/
theorem moved_down (hkind : p.this.kind ≠ .same) (h : p.down? = some q) : Moved p q := by
  obtain ⟨before, this, after⟩ := p
  cases after with
  | nil => cases h
  | cons next after =>
    simp only [down?] at h hkind
    split at h
    · rename_i hnext
      split at h
      · rename_i hslide
        cases h
        obtain ⟨hadded, hnextLines, hthisLines⟩ := slides_down hslide
        generalize next.lines.drop (slideDown this next).length = nextLines at *
        generalize this.lines.drop (slideDown this next).length = kept at *
        generalize slideDown this next = s at *
        obtain ⟨hafterOld, hafterNew⟩ := lines_keptAfter hnext nextLines (· + s.length) after
        refine ⟨rfl, ?_, ?_⟩
        · rw [whole, oldLines_append, oldLines_cons, hafterOld]
          simp [whole, lines_growBefore, Block.oldLines, hadded, hnext, shift, ← hnextLines]
        · rw [whole, newLines_append, newLines_cons, hafterNew]
          simp [whole, lines_growBefore, Block.newLines, hadded, hnext, shift, ← hnextLines, ← hthisLines]
      · split at h
        · rename_i hempty
          cases h
          refine ⟨rfl, ?_⟩
          exact ((SameTexts.dropped (List.isEmpty_iff.1 hempty) after).cons this).behind _
        · cases h
    · rename_i hnext
      split at h
      · rename_i hsame
        cases h
        exact ⟨rfl, (SameTexts.joined hsame.symm after).behind _⟩
      · rename_i hother
        cases h
        refine ⟨rfl, ?_⟩
        rw [whole_cons]
        exact (SameTexts.swapped hkind hnext (Ne.symm hother) after).behind _

/-- however often it moves -/
theorem moved_all {move : Spot → Option Spot}
    (hmove : ∀ {p q : Spot}, p.this.kind ≠ .same → move p = some q → Moved p q) (fuel : Nat) (p : Spot)
    (hkind : p.this.kind ≠ .same) : Moved p (moveAll move fuel p) := by
  induction fuel generalizing p with
  | zero => exact .refl p
  | succ fuel ih =>
    rw [moveAll]
    cases hnext : move p with
    | none => exact .refl p
    | some q =>
      have hq := hmove hkind hnext
      exact hq.trans (ih q (hq.kind ▸ hkind))

end Spot

/-! ## Tidying -/

theorem sameTexts_settle (hkind : kind ≠ .same) (fuel : Nat) (before rest : List Block) :
    SameTexts (settle kind fuel before rest) (before.reverse ++ rest) := by
  induction fuel generalizing before rest with
  | zero => exact .refl _
  | succ fuel ih =>
    cases rest with
    | nil =>
      rw [settle, List.append_nil]
      exact .refl _
    | cons b rest =>
      rw [settle]
      split
      · rename_i hb
        extract_lets bound p
        have hup := Spot.moved_all Spot.moved_up bound ⟨before, b, rest⟩ (hb ▸ hkind)
        have hdown := Spot.moved_all Spot.moved_down bound _ (hup.kind.trans hb ▸ hkind)
        have hrest := ih (p.this :: p.before) p.after
        rw [List.reverse_cons, List.append_assoc] at hrest
        exact hrest.trans (hup.trans hdown).texts
      · have hrest := ih (b :: before) rest
        rwa [List.reverse_cons, List.append_assoc] at hrest

/-- removed lines come before the added ones that they meet -/
theorem passed (hkinds : (decide (b.kind = .added) && decide (c.kind = .removed)) = true) (rest : List Block) :
    SameTexts (c :: b :: rest) (b :: c :: rest) := by
  simp only [Bool.and_eq_true, decide_eq_true_eq] at hkinds
  exact SameTexts.swapped (by simp [hkinds]) (by simp [hkinds]) (by simp [hkinds]) rest

theorem sameTexts_joinBlocks (script : List Block) : SameTexts (joinBlocks script) script := by
  fun_induction joinBlocks script with
  | case1 => exact .refl _
  | case2 b rest hrest ih => exact (hrest ▸ ih).cons b
  | case3 b rest c more hrest hkind ih => exact (SameTexts.joined hkind more).trans ((hrest ▸ ih).cons b)
  | case4 b rest c hne hkinds d even hadded hrest ih =>
    have hkind := (of_decide_eq_true (Bool.and_eq_true_iff.1 hkinds).1).trans hadded.symm
    exact ((SameTexts.joined hkind even).cons c).trans ((passed hkinds _).trans ((hrest ▸ ih).cons b))
  | case5 b rest c hne hkinds d even hother hrest ih =>
    exact (passed hkinds _).trans ((hrest ▸ ih).cons b)
  | case6 b rest c hne hkinds hrest ih => exact (passed hkinds _).trans ((hrest ▸ ih).cons b)
  | case7 b rest c more hrest hne hkinds ih => exact (hrest ▸ ih).cons b

theorem sameTexts_align (script : List Block) : SameTexts (align script) script := by
  fun_induction align script with
  | case1 => exact .refl _
  | case2 b => exact .refl _
  | case3 b c rest h ih =>
    have htail := (ih.cons c).cons b
    exact ⟨htail.old, htail.new⟩
  | case4 b c rest h ih => exact ih.cons b

/-- **Tidying keeps both texts.** -/
theorem sameTexts_tidy (script : List Block) : SameTexts (tidy script) script := by
  refine (sameTexts_align _).trans ((sameTexts_joinBlocks _).trans ?_)
  exact (sameTexts_settle (by decide) _ [] _).trans (sameTexts_settle (by decide) _ [] script)

/-- **The script between two texts stands between their lines.** -/
theorem spells_between (old new : String) : Spells (between old new) (lines old) (lines new) := by
  have htidy := sameTexts_tidy (search (lines old) (lines new))
  have hsearch := spells_search (lines old) (lines new)
  exact ⟨htidy.old.trans hsearch.old, htidy.new.trans hsearch.new⟩

end Fleet.LineDiff
