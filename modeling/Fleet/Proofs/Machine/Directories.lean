/-
Directories that are made and removed, seen from below.

A file tree has no links, so that where a path leads is a matter of its text alone (`target`), and so are the places on
the way (`places`). What an access that succeeds needs is that there are directories at the places (`resolve_ok`).
- `addsAt_makeDirectories`: making a directory adds nothing but places on the way to it.
- `write_join_ok`: what was written into a directory stands in the place that the directory's path leads to.
- `below_removeDirectory`: where a directory was removed, nothing stands below it any more.
- `isPresent_of_straight`, `not_mem_places_of_straight`: a path that never goes up is found if there is something to
  find, and leads through nothing in the directory.
-/
import Mathlib.Data.List.Infix
import Fleet.Proofs.Machine.FileTree
import Fleet.Proofs.Path

namespace Fleet.Machine.FileTree

variable {t t' : FileTree} {base l k : Location} {e : Entry} {path name name' : String} {names : List String}

/-! ## Ways -/

/-- the place that a component leads to -/
def step (l : Location) (name : String) : Location := if name = ".." then l.dropLast else l ++ [name]

/-- where the way to a path starts -/
def start (base : Location) (path : String) : Location := if Path.isAbsolute path then [] else base

/-- where a path leads -/
def target (base : Location) (path : String) : Location := (Path.components path).foldl step (start base path)

/-- the places on the way to a path, from where it starts to where it leads -/
def places (base : Location) (path : String) : List Location :=
  (Path.components path).inits.map fun front => front.foldl step (start base path)

theorem mem_places_iff : k ∈ places base path ↔
    ∃ front, front <+: Path.components path ∧ front.foldl step (start base path) = k := by
  rw [places, List.mem_map]
  simp only [List.mem_inits]

theorem target_mem_places (base : Location) (path : String) : target base path ∈ places base path :=
  mem_places_iff.2 ⟨_, List.prefix_refl _, rfl⟩

/-- a component that leads somewhere else -/
def moves (name : String) : Bool := name != "" && name != "."

theorem components_eq_filter (path : String) : Path.components path = (steps path).filter moves := by
  rw [Path.components_eq, steps, List.filter_map]
  refine congrArg (List.map String.ofList) (List.filter_congr fun word _ => ?_)
  have hempty : (String.ofList word != "") = (word != []) := by
    rw [Bool.eq_iff_iff, bne_iff_ne, bne_iff_ne]
    simp
  have hdot : (String.ofList word != ".") = (word != ['.']) := by
    rw [Bool.eq_iff_iff, bne_iff_ne, bne_iff_ne, not_iff_not, ← String.toList_inj, String.toList_ofList]
    rfl
  rw [Function.comp_apply, moves, hempty, hdot]

/-- a walk that succeeds goes from directory to directory -/
theorem walk_ok (h : t.walk l names = .ok k) : (names.filter moves).foldl step l = k ∧
    ∀ front, front <+: names.filter moves → front ≠ names.filter moves →
      t.get? (front.foldl step l) = some .directory := by
  induction names generalizing l with
  | nil =>
    cases h
    exact ⟨rfl, fun front hfront hne => absurd (List.prefix_nil.1 hfront) hne⟩
  | cons name rest ih =>
    cases hcheck : t.checkDirectory l with
    | error f => simp [walk, hcheck] at h
    | ok u =>
      have hdirectory := checkDirectory_ok_iff.1 hcheck
      simp only [walk, hcheck] at h
      split at h
      · rename_i hstay
        have hmoves : moves name = false := by
          rw [Bool.or_eq_true, decide_eq_true_eq, decide_eq_true_eq] at hstay
          rcases hstay with rfl | rfl <;> rfl
        rw [List.filter_cons_of_neg (by simp [hmoves])]
        exact ih h
      · rename_i hstay
        have hmoves : moves name = true := by
          simpa [moves] using hstay
        have hstep : t.walk (step l name) rest = .ok k := by
          rw [step]
          split at h
          · rename_i hup
            rwa [if_pos hup]
          · rename_i hup
            rw [if_neg hup]
            split at h
            · cases h
            · exact h
        obtain ⟨htarget, hway⟩ := ih hstep
        rw [List.filter_cons_of_pos hmoves]
        refine ⟨htarget, fun front hfront hne => ?_⟩
        rcases List.prefix_cons_iff.1 hfront with rfl | ⟨front, rfl, hrest⟩
        · exact hdirectory
        · exact hway front hrest fun h => hne (by rw [h])

theorem origin_eq (h : origin base path = .ok l) : l = start base path := by
  unfold origin at h
  split at h
  · cases h
  · split at h
    · cases h
    · split at h
      · cases h
      · cases h
        rfl

/-- **A path that is found** leads through directories. -/
theorem resolve_ok (h : t.resolve base path = .ok k) : target base path = k ∧ ∀ front, front <+: Path.components path →
    front ≠ Path.components path → t.get? (front.foldl step (start base path)) = some .directory := by
  unfold resolve at h
  split at h
  · cases h
  · rename_i l horigin
    obtain rfl := origin_eq horigin
    rw [target, components_eq_filter]
    exact walk_ok h

/-! ## Making directories -/

theorem components_of_steps {before : List String} {last : String} (h : (steps path).filter (· ≠ "") = before ++ [last])
    (hdot : last ≠ ".") : Path.components path = before.filter moves ++ [last] := by
  have hempty : last ≠ "" := by
    have hmem : last ∈ (steps path).filter (· ≠ "") := by
      rw [h]
      simp
    simpa using (List.mem_filter.1 hmem).2
  have hlast : moves last = true := by simp [moves, hempty, hdot]
  have hkept : ((steps path).filter (· ≠ "")).filter moves = (steps path).filter moves := by
    rw [List.filter_filter]
    refine List.filter_congr fun name _ => ?_
    simp [moves]
    tauto
  rw [components_eq_filter, ← hkept, h, List.filter_append, List.filter_cons_of_pos hlast, List.filter_nil]

/-- a path whose last component is a name leads to a place in the directory before it -/
theorem lastStep_name (h : t.lastStep base path = .ok (.name l)) : l = target base path := by
  unfold lastStep at h
  split at h
  · cases h
  rename_i horigin
  obtain rfl := origin_eq horigin
  split at h
  · cases h
  · cases h
  · cases h
  rename_i last before _ _ hnames
  split at h
  · cases h
  rename_i parent hwalk
  split at h
  · cases h
  rename_i hdot
  split at h
  · cases h
  rename_i hup
  split at h
  · cases h
  cases h
  have hsteps : (steps path).filter (· ≠ "") = before.reverse ++ [last] := by
    rw [← List.reverse_reverse ((steps path).filter _), hnames, List.reverse_cons]
  obtain ⟨hparent, -⟩ := walk_ok hwalk
  rw [List.filter_append, List.filter_cons_of_neg (by decide), List.filter_nil, List.append_nil] at hparent
  rw [target, components_of_steps hsteps hdot, List.foldl_append, hparent, List.foldl_cons, List.foldl_nil,
    step, if_neg hup]

/-- whatever stands in the second tree stood in the first one, or is at one of these places -/
def AddsAt (places : List Location) (t t' : FileTree) : Prop := ∀ k e, t'.get? k = some e →
  t.get? k = some e ∨ k ∈ places

theorem AddsAt.refl (places : List Location) (t : FileTree) : AddsAt places t t := fun _ _ h => .inl h

theorem AddsAt.trans {places : List Location} {t'' : FileTree} (h : AddsAt places t t') (h' : AddsAt places t' t'') :
    AddsAt places t t'' :=
  fun k e hk => (h' k e hk).elim (h k e) .inr

theorem addsAt_makeDirectory {places : List Location} (hplace : target base path ∈ places) (t : FileTree) :
    AddsAt places t (t.makeDirectory base path).2 := by
  unfold makeDirectory
  split
  · exact .refl places t
  · rename_i l hlast
    obtain rfl := lastStep_name hlast
    split
    · exact .refl places t
    · intro k e hk
      by_cases hsame : k = target base path
      · exact .inr (hsame ▸ hplace)
      · rw [get?_put_of_ne hsame] at hk
        exact .inl hk
  · exact .refl places t

theorem addsAt_ensureDirectory {places : List Location} (hplace : target base path ∈ places) (t : FileTree) :
    AddsAt places t (t.ensureDirectory base path).2 := by
  have hmade := addsAt_makeDirectory hplace t
  unfold ensureDirectory
  split
  · rename_i made hmake
    rwa [hmake] at hmade
  · split <;> exact .refl places t

theorem addsAt_makeBelow {places : List Location} {above : List String}
    (hplaces : ∀ q ∈ path :: above, target base q ∈ places) (t : FileTree) :
    AddsAt places t (t.makeBelow base path above).2 := by
  induction above generalizing t path with
  | nil => exact addsAt_ensureDirectory (hplaces path List.mem_cons_self) t
  | cons parent above ih =>
    have hpath := hplaces path List.mem_cons_self
    have hfirst := addsAt_ensureDirectory hpath t
    unfold makeBelow
    split
    · rename_i t₁ hnotFound
      rw [hnotFound] at hfirst
      have habove := ih (fun q hq => hplaces q (List.mem_cons_of_mem _ hq)) t₁
      split
      · rename_i t₂ hmade
        rw [hmade] at habove
        exact (hfirst.trans habove).trans (addsAt_ensureDirectory hpath t₂)
      · exact hfirst.trans habove
    · exact hfirst

/-- **Making directories adds nothing but places on the way.** -/
theorem addsAt_makeDirectories (t : FileTree) (base : Location) (path : String) :
    AddsAt (places base path) t (t.makeDirectories base path).2 := by
  unfold makeDirectories
  split
  · exact .refl _ t
  · refine addsAt_makeBelow (fun q hq => ?_) t
    rcases List.mem_cons.1 hq with rfl | hq
    · exact target_mem_places base q
    · obtain ⟨hfront, habsolute⟩ := Path.of_mem_ancestors hq
      have hstart : start base q = start base path := by rw [start, start, habsolute]
      exact mem_places_iff.2 ⟨_, hfront, by rw [target, hstart]⟩

/-! ## Removing directories -/

theorem get?_clear_below (t : FileTree) (l : Location) (name : String) : (t.clear l).get? (l ++ [name]) = none := by
  rw [get?, if_neg (by simp)]
  refine (lookup_filter (fun k => decide (k = l) || !l.isPrefixOf k) t.entries (l ++ [name])).trans (if_neg ?_)
  simp

theorem get?_of_remove (h : (t.remove l).get? k = some e) : t.get? k = some e := by
  unfold get? at h ⊢
  split at h
  · rename_i hk
    rwa [if_pos hk]
  · rename_i hk
    rw [if_neg hk]
    have hkept := (lookup_filter (fun k => !l.isPrefixOf k) t.entries k).symm.trans h
    split at hkept
    · exact hkept
    · cases hkept

theorem get?_of_removeEmpty (h : (t.removeEmpty base path).2.get? k = some e) : t.get? k = some e := by
  unfold removeEmpty at h
  split at h
  all_goals first | exact h | exact get?_of_remove h

/-- **Where a directory was removed**, nothing stands below it any more, even if the place itself stays. -/
theorem below_removeDirectory (h : t.removeDirectory base path = (.ok (), t')) (name : String) :
    t'.get? (target base path ++ [name]) = none := by
  unfold removeDirectory at h
  split at h
  · cases h
  rename_i l hresolve
  obtain ⟨rfl, -⟩ := resolve_ok hresolve
  split at h
  · cases h
  have ht' : ((t.clear (target base path)).removeEmpty base path).2 = t' := congrArg Prod.snd h
  rw [Option.eq_none_iff_forall_ne_some]
  intro e he
  rw [← ht'] at he
  have hcleared := get?_of_removeEmpty he
  rw [get?_clear_below] at hcleared
  cases hcleared

/-! ## Writing into a directory -/

theorem start_join {dir : String} (habsolute : Path.isAbsolute name = false) (base : Location) :
    start base (Path.join dir name) = start base dir := by
  rw [start, start, Path.isAbsolute_join, habsolute, Bool.false_or]

/-- **A file that was written into a directory** stands in the place that the directory's path leads to. There are
directories at all places on the way, so that it is none of them. -/
theorem write_join_ok {dir : String} {content : ByteArray} (hname : Path.components name = [name])
    (habsolute : Path.isAbsolute name = false) (hup : name ≠ "..")
    (h : t.write base (Path.join dir name) content = (.ok (), t')) :
    t' = t.put (target base dir ++ [name]) (.file content) ∧ (∀ k ∈ places base dir, t.get? k = some .directory) ∧
      target base dir ++ [name] ∉ places base dir := by
  obtain ⟨f, hwrite⟩ | ⟨l, hresolve, hfree, hwrite⟩ := write_cases t base (Path.join dir name) content
  · rw [hwrite] at h
    cases h
  rw [hwrite] at h
  cases h
  obtain ⟨htarget, hway⟩ := resolve_ok hresolve
  have hcomponents := @Path.components_join dir name habsolute
  rw [hname] at hcomponents
  rw [target, hcomponents, start_join habsolute, List.foldl_append] at htarget
  rw [hcomponents, start_join habsolute] at hway
  have hplace : l = target base dir ++ [name] := by
    rw [← htarget, List.foldl_cons, List.foldl_nil, step, if_neg hup]
    rfl
  have hplaces : ∀ k ∈ places base dir, t.get? k = some .directory := by
    intro k hk
    obtain ⟨front, hfront, rfl⟩ := mem_places_iff.1 hk
    refine hway front (hfront.trans (List.prefix_append _ _)) ?_
    rintro rfl
    have hlength := hfront.length_le
    rw [List.length_append, List.length_singleton] at hlength
    omega
  rw [hplace] at hfree ⊢
  exact ⟨rfl, hplaces, fun hmem => hfree (hplaces _ hmem)⟩

/-! ## Straight paths -/

/-- everything stands in a directory -/
def Rooted (t : FileTree) : Prop := ∀ l name, (t.get? (l ++ [name])).isSome → t.get? l = some .directory

theorem Rooted.directory (h : t.Rooted) {below : Location} (hbelow : below ≠ [])
    (hsome : (t.get? (l ++ below)).isSome) : t.get? l = some .directory := by
  induction below using List.reverseRecOn with
  | nil => exact absurd rfl hbelow
  | append_singleton below name ih =>
    rw [← List.append_assoc] at hsome
    have hparent := h _ name hsome
    by_cases hnil : below = []
    · rwa [hnil, List.append_nil] at hparent
    · exact ih hnil (by rw [hparent]; rfl)

/-- a path that never goes up leads to what its components spell -/
theorem foldl_step (h : ".." ∉ names) : names.foldl step l = l ++ names := by
  induction names generalizing l with
  | nil => simp
  | cons name names ih =>
    rw [List.mem_cons, not_or] at h
    rw [List.foldl_cons, ih h.2, step, if_neg (Ne.symm h.1), List.append_assoc, List.singleton_append]

theorem walk_names (h : t.walk l names = .ok k) : ∀ name ∈ names, name.utf8ByteSize ≤ nameLimit := by
  induction names generalizing l with
  | nil => simp
  | cons name rest ih =>
    cases hcheck : t.checkDirectory l with
    | error f => simp [walk, hcheck] at h
    | ok u =>
      simp only [walk, hcheck] at h
      rw [List.forall_mem_cons]
      split at h
      · rename_i hstay
        rw [Bool.or_eq_true, decide_eq_true_eq, decide_eq_true_eq] at hstay
        exact ⟨by rcases hstay with rfl | rfl <;> decide, ih h⟩
      · split at h
        · rename_i hup
          exact ⟨by rw [hup]; decide, ih h⟩
        · split at h
          · cases h
          · rename_i hshort
            exact ⟨Nat.le_of_not_lt hshort, ih h⟩

/-- names that are not too long are walked along where there are directories -/
theorem walk_eq_ok (hnames : ∀ name ∈ names, name.utf8ByteSize ≤ nameLimit)
    (hway : ∀ front, front <+: names.filter moves → t.get? (front.foldl step l) = some .directory) :
    t.walk l names = .ok ((names.filter moves).foldl step l) := by
  induction names generalizing l with
  | nil => rfl
  | cons name rest ih =>
    obtain ⟨hname, hrest⟩ := List.forall_mem_cons.1 hnames
    have hcheck : t.checkDirectory l = .ok () := checkDirectory_ok_iff.2 (hway [] List.nil_prefix)
    simp only [walk, hcheck]
    split
    · rename_i hstay
      have hmoves : moves name = false := by
        rw [Bool.or_eq_true, decide_eq_true_eq, decide_eq_true_eq] at hstay
        rcases hstay with rfl | rfl <;> rfl
      rw [List.filter_cons_of_neg (by simp [hmoves])] at hway ⊢
      exact ih hrest hway
    · rename_i hstay
      have hmoves : moves name = true := by
        simpa [moves] using hstay
      rw [List.filter_cons_of_pos hmoves] at hway ⊢
      have hgo := @ih (step l name) hrest fun front hfront =>
        hway (name :: front) (List.cons_prefix_cons.2 ⟨rfl, hfront⟩)
      rw [List.foldl_cons, ← hgo, step]
      split
      · rfl
      · rw [if_neg (Nat.not_lt.2 hname)]

/-- a path to which something could be joined is short enough, and has no NUL -/
theorem origin_of_join {dir : String} (hdir : dir ≠ "") (habsolute : Path.isAbsolute name = false)
    (h : origin base (Path.join dir name) = .ok l) : origin base dir = .ok (start base dir) := by
  obtain ⟨rest, hjoin⟩ := Path.join_eq_append habsolute hdir
  rw [hjoin] at h
  unfold origin at h
  split at h
  · cases h
  rename_i hnul
  split at h
  · cases h
  split at h
  · cases h
  rename_i hlong
  rw [String.toList_append, List.contains_iff_mem, List.mem_append, not_or] at hnul
  rw [String.utf8ByteSize_append] at hlong
  rw [origin, if_neg (by rw [List.contains_iff_mem]; exact hnul.1), if_neg hdir, if_neg (by omega)]
  rfl

theorem names_of_join {dir : String} (hdir : dir ≠ "") (habsolute : Path.isAbsolute name = false)
    (h : ∀ n ∈ steps (Path.join dir name), n.utf8ByteSize ≤ nameLimit) :
    ∀ n ∈ steps dir, n.utf8ByteSize ≤ nameLimit := by
  obtain ⟨front, hjoin, hfront⟩ := Path.words_join habsolute hdir
  have hsteps : ∀ path, steps path = (Path.words path).map String.ofList := fun _ => rfl
  rw [hsteps, hjoin, List.map_append] at h
  have hnames : ∀ n ∈ front.map String.ofList, n.utf8ByteSize ≤ nameLimit := fun n hn => h n (List.mem_append_left _ hn)
  rcases hfront with hfront | hfront
  · rwa [hsteps, hfront]
  · rw [hsteps, hfront, List.map_append]
    intro n hn
    rcases List.mem_append.1 hn with hn | hn
    · exact hnames n hn
    · obtain rfl := List.mem_singleton.1 hn
      decide

/-- **A straight path is found** if something stands below the place it leads to, and something could be joined to
it. -/
theorem isPresent_of_straight {dir : String} (hrooted : t.Rooted) (hstraight : ".." ∉ Path.components dir)
    (hdir : dir ≠ "") (habsolute : Path.isAbsolute name = false) (h : t'.resolve base (Path.join dir name) = .ok k)
    (hbelow : (t.get? (target base dir ++ [name'])).isSome) : t.isPresent base dir = true := by
  have htarget : target base dir = start base dir ++ Path.components dir := foldl_step hstraight
  have hway : ∀ front, front <+: (steps dir).filter moves →
      t.get? (front.foldl step (start base dir)) = some .directory := by
    rw [← components_eq_filter]
    intro front hfront
    obtain ⟨rest, hrest⟩ := hfront
    have hup : ".." ∉ front := fun hmem => hstraight (hrest ▸ List.mem_append_left _ hmem)
    rw [foldl_step hup]
    refine hrooted.directory (List.append_ne_nil_of_right_ne_nil rest (List.cons_ne_nil name' [])) ?_
    rwa [← List.append_assoc, List.append_assoc (start base dir), hrest, ← htarget]
  unfold resolve at h
  split at h
  · cases h
  rename_i l horigin
  have hwalk := walk_eq_ok (names_of_join hdir habsolute (walk_names h)) hway
  rw [← components_eq_filter] at hwalk
  have hdirectory := hrooted (target base dir) name' hbelow
  rw [target] at hdirectory
  rw [isPresent, resolve, origin_of_join hdir habsolute horigin]
  simp only [hwalk, hdirectory, Option.isSome_some]

/-- a straight path leads through nothing below the place it leads to -/
theorem not_mem_places_of_straight (hstraight : ".." ∉ Path.components path) (base : Location) (name : String) :
    target base path ++ [name] ∉ places base path := by
  rw [mem_places_iff]
  rintro ⟨front, hfront, heq⟩
  have hup : ".." ∉ front := fun hmem => hstraight (hfront.subset hmem)
  have htarget : target base path = start base path ++ Path.components path := foldl_step hstraight
  rw [foldl_step hup, htarget, List.append_assoc, List.append_cancel_left_eq] at heq
  have hlength := hfront.length_le
  rw [heq, List.length_append, List.length_singleton] at hlength
  omega

end Fleet.Machine.FileTree
