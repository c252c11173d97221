/-
A script stands between two texts, however it was found.

- `commonStart_isPrefix`, `commonEnd_isSuffix`: what is set aside at either end is in both texts.
- `spells_conquer`, `spells_search`: the lines that stay or go spell the old text, and those that stay or come the new
  one (`Spells`), wherever the search splits.
-/
import Fleet.LineDiff.Search

namespace Fleet.LineDiff

variable {as bs old new old₁ old₂ new₁ new₂ ls : List String} {kind : Kind} {i j fuel : Nat} {s : Searches}
  {script₁ script₂ : List Block}

/-! ## Common ends -/

theorem commonStart_isPrefix (as bs : List String) : commonStart as bs <+: as ∧ commonStart as bs <+: bs := by
  fun_induction commonStart as bs with
  | case1 a as bs ih => exact ⟨List.cons_prefix_cons.2 ⟨rfl, ih.1⟩, List.cons_prefix_cons.2 ⟨rfl, ih.2⟩⟩
  | case2 => exact ⟨List.nil_prefix, List.nil_prefix⟩
  | case3 => exact ⟨List.nil_prefix, List.nil_prefix⟩

theorem commonEnd_isSuffix (as bs : List String) : commonEnd as bs <:+ as ∧ commonEnd as bs <:+ bs := by
  obtain ⟨has, hbs⟩ := commonStart_isPrefix as.reverse bs.reverse
  exact ⟨List.reverse_prefix.1 (by rwa [commonEnd, List.reverse_reverse]),
    List.reverse_prefix.1 (by rwa [commonEnd, List.reverse_reverse])⟩

/-! ## Scripts and their texts -/

@[simp] theorem oldLines_nil : oldLines [] = [] := rfl

@[simp] theorem newLines_nil : newLines [] = [] := rfl

@[simp] theorem oldLines_cons (b : Block) (script : List Block) :
    oldLines (b :: script) = b.oldLines ++ oldLines script := rfl

@[simp] theorem newLines_cons (b : Block) (script : List Block) :
    newLines (b :: script) = b.newLines ++ newLines script := rfl

@[simp] theorem oldLines_append (script₁ script₂ : List Block) :
    oldLines (script₁ ++ script₂) = oldLines script₁ ++ oldLines script₂ := List.flatMap_append

@[simp] theorem newLines_append (script₁ script₂ : List Block) :
    newLines (script₁ ++ script₂) = newLines script₁ ++ newLines script₂ := List.flatMap_append

/-- the script stands between these two texts -/
structure Spells (script : List Block) (old new : List String) : Prop where
  old : oldLines script = old
  new : newLines script = new

theorem Spells.append (h₁ : Spells script₁ old₁ new₁) (h₂ : Spells script₂ old₂ new₂) :
    Spells (script₁ ++ script₂) (old₁ ++ old₂) (new₁ ++ new₂) :=
  ⟨by rw [oldLines_append, h₁.old, h₂.old], by rw [newLines_append, h₁.new, h₂.new]⟩

theorem spells_block (kind : Kind) (ls : List String) (i j : Nat) :
    Spells (block kind ls i j) (if kind = .added then [] else ls) (if kind = .removed then [] else ls) := by
  unfold block
  cases ls with
  | nil => exact ⟨by simp, by simp⟩
  | cons l ls => exact ⟨List.append_nil _, List.append_nil _⟩

/-- the old text goes, and the new one comes -/
theorem spells_replaced (i j : Nat) (old new : List String) :
    Spells (block .removed old i j ++ block .added new i j) old new := by
  simpa using (spells_block .removed old i j).append (spells_block .added new i j)

/-- common lines at either end stay -/
theorem Spells.framed {script : List Block} {head tail : List String} (h : Spells script old new) (i j i' j' : Nat) :
    Spells (block .same head i j ++ script ++ block .same tail i' j') (head ++ old ++ tail) (head ++ new ++ tail) :=
  ((spells_block .same head i j).append h).append (spells_block .same tail i' j')

/-- **However a stretch is split, its script stands between its two texts.** -/
theorem spells_conquer (fuel i j : Nat) (old new : List String) (s : Searches) :
    Spells (conquer fuel i j old new s).1 old new := by
  induction fuel generalizing i j old new s with
  | zero => exact spells_replaced i j old new
  | succ fuel ih =>
    obtain ⟨hstartOld, hstartNew⟩ := commonStart_isPrefix old new
    obtain ⟨hendOld, hendNew⟩ :=
      commonEnd_isSuffix (old.drop (commonStart old new).length) (new.drop (commonStart old new).length)
    rw [conquer]
    generalize hhead : commonStart old new = head at *
    generalize htail : commonEnd (old.drop head.length) (new.drop head.length) = tail at *
    generalize holdMid : (old.drop head.length).take ((old.drop head.length).length - tail.length) = oldMid
    generalize hnewMid : (new.drop head.length).take ((new.drop head.length).length - tail.length) = newMid
    have hold : head ++ oldMid ++ tail = old := by
      rw [List.append_assoc, ← holdMid, List.suffix_iff_eq_append.1 hendOld, List.prefix_iff_eq_append.1 hstartOld]
    have hnew : head ++ newMid ++ tail = new := by
      rw [List.append_assoc, ← hnewMid, List.suffix_iff_eq_append.1 hendNew, List.prefix_iff_eq_append.1 hstartNew]
    rw [← hold, ← hnew]
    refine Spells.framed ?_ i j _ _
    split
    · rename_i hempty
      obtain rfl := List.isEmpty_iff.1 hempty
      exact spells_block .removed oldMid _ _
    split
    · rename_i hempty
      obtain rfl := List.isEmpty_iff.1 hempty
      exact spells_block .added newMid _ _
    split
    · rename_i x y _
      have hsplit (s₁ s₂ : Searches) :=
        (ih (i + head.length) (j + head.length) (oldMid.take x.toNat) (newMid.take y.toNat) s₁).append
          (ih (i + head.length + x.toNat) (j + head.length + y.toNat) (oldMid.drop x.toNat) (newMid.drop y.toNat) s₂)
      rw [List.take_append_drop, List.take_append_drop] at hsplit
      exact hsplit _ _
    · exact spells_replaced _ _ oldMid newMid

/-- **The script that is found stands between the two texts.** -/
theorem spells_search (old new : List String) : Spells (search old new) old new := spells_conquer _ _ _ old new _

end Fleet.LineDiff
