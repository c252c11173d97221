/-
Laws of the file tree: what an access changes, and what it leaves as it was.

A walk needs directories only, so it ends where it did before as long as those stay (`walk_mono`). From this:
- `readOctets_write`: what was written is read back under the same path.
- `grown_makeDirectories`: making directories adds entries and changes none, whether it is refused or not. What could
  be read before can be read after (`Grown.readOctets`).
-/
import Fleet.Machine.FileTree

namespace Fleet.Machine.FileTree

variable {t t' : FileTree} {base l k : Location} {e : Entry} {path : String} {names : List String}
  {content : ByteArray}

/-! ## Looking up -/

@[simp] theorem get?_root (t : FileTree) : t.get? [] = some .directory := rfl

/-- what is kept is chosen by location -/
theorem lookup_filter (p : Location → Bool) (entries : List (Location × Entry)) (k : Location) :
    (entries.filter fun x => p x.1).lookup k = if p k then entries.lookup k else none := by
  induction entries with
  | nil => simp
  | cons x rest ih =>
    obtain ⟨j, f⟩ := x
    by_cases hj : k = j
    · subst hj
      cases hp : p k with
      | true => simp [hp]
      | false => simp [hp, ih]
    · have hkj : (k == j) = false := by simpa using hj
      cases hp : p j with
      | true => simp only [List.filter_cons, hp, if_true, List.lookup_cons, hkj, ih]
      | false => simp only [List.filter_cons, hp, Bool.false_eq_true, if_false, List.lookup_cons, hkj, ih]

theorem get?_put_self (h : l ≠ []) : (t.put l e).get? l = some e := by
  simp [get?, put, h]

theorem get?_put_of_ne (h : k ≠ l) : (t.put l e).get? k = t.get? k := by
  have hkl : (k == l) = false := by simpa using h
  by_cases hk : k = []
  · rw [hk, get?_root, get?_root]
  · rw [get?, if_neg hk, get?, if_neg hk, put, List.lookup_cons, hkl]
    exact (lookup_filter (fun k => k ≠ l) t.entries k).trans (if_pos (by simpa using h))

theorem checkDirectory_ok_iff : t.checkDirectory l = .ok () ↔ t.get? l = some .directory := by
  unfold checkDirectory
  split <;> simp_all

/-! ## Walks need directories only -/

theorem walk_mono (hdirs : ∀ k, t.get? k = some .directory → t'.get? k = some .directory)
    (h : t.walk l names = .ok k) : t'.walk l names = .ok k := by
  induction names generalizing l with
  | nil => exact h
  | cons name rest ih =>
    cases hcheck : t.checkDirectory l with
    | error f => simp [walk, hcheck] at h
    | ok u =>
      have hcheck' : t'.checkDirectory l = .ok () := checkDirectory_ok_iff.2 (hdirs l (checkDirectory_ok_iff.1 hcheck))
      simp only [walk, hcheck] at h
      simp only [walk, hcheck']
      split at h
      · rename_i hstay
        rw [if_pos hstay]
        exact ih h
      · rename_i hstay
        rw [if_neg hstay]
        split at h
        · rename_i hup
          rw [if_pos hup]
          exact ih h
        · rename_i hup
          rw [if_neg hup]
          split at h
          · cases h
          · rename_i hshort
            rw [if_neg hshort]
            exact ih h

theorem resolve_mono (hdirs : ∀ k, t.get? k = some .directory → t'.get? k = some .directory)
    (h : t.resolve base path = .ok k) : t'.resolve base path = .ok k := by
  unfold resolve at h ⊢
  split at h
  · cases h
  · exact walk_mono hdirs h

/-! ## Writing -/

/-- a write is refused and changes nothing, or it puts a file where no directory stands -/
theorem write_cases (t : FileTree) (base : Location) (path : String) (content : ByteArray) :
    (∃ f, t.write base path content = (.error f, t)) ∨
    ∃ l, t.resolve base path = .ok l ∧ t.get? l ≠ some .directory ∧
      t.write base path content = (.ok (), t.put l (.file content)) := by
  unfold write
  cases hl : t.resolve base path with
  | error f => exact .inl ⟨f, rfl⟩
  | ok l =>
    cases hget : t.get? l with
    | none =>
      cases hparent : t.checkDirectory l.dropLast with
      | error f => exact .inl ⟨f, by simp [hget, hparent]⟩
      | ok u => exact .inr ⟨l, rfl, by simp [hget], by simp [hget, hparent]⟩
    | some entry =>
      cases entry with
      | directory => exact .inl ⟨.isDirectory, by simp [hget]⟩
      | file old => exact .inr ⟨l, rfl, by simp [hget], by simp [hget]⟩

/-- **What was written is read back.** The path leads to the same place as before. -/
theorem readOctets_write (h : t.write base path content = (.ok (), t')) :
    t'.readOctets base path = .ok content := by
  rcases write_cases t base path content with ⟨f, hwrite⟩ | ⟨l, hresolve, hnot, hwrite⟩
  · rw [hwrite] at h
    cases h
  · rw [hwrite] at h
    cases h
    have hroot : l ≠ [] := by
      rintro rfl
      exact hnot (get?_root t)
    have hdirs : ∀ k, t.get? k = some .directory → (t.put l (.file content)).get? k = some .directory := by
      intro k hk
      have hkl : k ≠ l := by
        rintro rfl
        exact hnot hk
      rw [get?_put_of_ne hkl, hk]
    unfold readOctets
    rw [resolve_mono hdirs hresolve]
    simp only [get?_put_self hroot]

theorem write_of_error {f : FileCause} (h : t.write base path content = (.error f, t')) : t' = t := by
  rcases write_cases t base path content with ⟨g, hwrite⟩ | ⟨l, _, _, hwrite⟩
  · rw [hwrite] at h
    cases h
    rfl
  · rw [hwrite] at h
    cases h

/-! ## Making directories -/

/-- everything that stands in one tree stands in the other -/
def Grown (t t' : FileTree) : Prop := ∀ k e, t.get? k = some e → t'.get? k = some e

theorem Grown.refl (t : FileTree) : Grown t t := fun _ _ h => h

theorem Grown.trans {t'' : FileTree} (h₁ : Grown t t') (h₂ : Grown t' t'') : Grown t t'' :=
  fun k e h => h₂ k e (h₁ k e h)

/-- what can be read in a tree can be read when it has grown -/
theorem Grown.readOctets (hgrown : Grown t t') (h : t.readOctets base path = .ok content) :
    t'.readOctets base path = .ok content := by
  unfold FileTree.readOctets at h ⊢
  cases hresolve : t.resolve base path with
  | error f => simp [hresolve] at h
  | ok l =>
    rw [resolve_mono (fun k hk => hgrown k _ hk) hresolve]
    simp only [hresolve] at h
    cases hget : t.get? l with
    | none => simp [hget] at h
    | some entry =>
      simp only [hgrown l entry hget]
      simpa only [hget] using h

theorem grown_put (h : t.get? l = none) : Grown t (t.put l e) := by
  intro k f hk
  have hkl : k ≠ l := by
    rintro rfl
    rw [h] at hk
    cases hk
  rw [get?_put_of_ne hkl, hk]

theorem grown_makeDirectory (t : FileTree) (base : Location) (path : String) :
    Grown t (t.makeDirectory base path).2 := by
  unfold makeDirectory
  split
  · exact Grown.refl t
  · rename_i l hl
    split
    · exact Grown.refl t
    · rename_i hnone
      exact grown_put (by simpa using hnone)
  · exact Grown.refl t

theorem grown_ensureDirectory (t : FileTree) (base : Location) (path : String) :
    Grown t (t.ensureDirectory base path).2 := by
  have hmade := grown_makeDirectory t base path
  unfold ensureDirectory
  split
  · rename_i made hmake
    rwa [hmake] at hmade
  · split <;> exact Grown.refl t

theorem grown_makeBelow (t : FileTree) (base : Location) (path : String) (above : List String) :
    Grown t (t.makeBelow base path above).2 := by
  induction above generalizing t path with
  | nil => exact grown_ensureDirectory t base path
  | cons parent above ih =>
    have hfirst := grown_ensureDirectory t base path
    unfold makeBelow
    split
    · rename_i t₁ hnotFound
      rw [hnotFound] at hfirst
      have habove := ih t₁ parent
      split
      · rename_i t₂ hmade
        rw [hmade] at habove
        exact (hfirst.trans habove).trans (grown_ensureDirectory t₂ base path)
      · exact hfirst.trans habove
    · exact hfirst

/-- making directories changes no entry, and takes none away -/
theorem grown_makeDirectories (t : FileTree) (base : Location) (path : String) :
    Grown t (t.makeDirectories base path).2 := by
  unfold makeDirectories
  split
  · exact Grown.refl t
  · exact grown_makeBelow t base path _

end Fleet.Machine.FileTree
