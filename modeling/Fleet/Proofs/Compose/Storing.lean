/-
The compose file on disk, and what else is in its directory.

The directory is removed if it is found, made, and written to. Removing leaves nothing below the place that the path
leads to, and making adds nothing but places on the way. So what stands beside the compose file afterwards is known
exactly:
- what the path itself leads through, if it goes into the directory and comes back (`out/a/..`);
- what stood there before, if the path was not found. That is no contradiction: the path may lead through a directory
  that is missing, which is made on the way to one that is not.

- `store_ok`: the steps of a store that succeeds.
- `beside_store_iff`: what stands in the directory afterwards.
- `alone_of_straight`: nothing but the compose file, if the path never goes up.
- `stored_file_reads_back`: **the file reads back as the composition's compose file**, and stands alone just if neither
  of the two happens.
-/
import Fleet.Proofs.ComposeFile
import Fleet.Proofs.Machine.Directories
import Fleet.Proofs.Machine.Memory

namespace Fleet

open Machine Machine.FileTree

namespace Composition

variable {m m' : Memory} {c : Composition} {dir path name : String}

/-! ## The steps -/

/-- the tree when the directory has been removed, if it was found -/
def Cleared (m : Memory) (dir : String) (t : FileTree) : Prop :=
  if m.tree.isPresent m.directory dir then m.tree.removeDirectory m.directory dir = (.ok (), t) else t = m.tree

theorem store_ok (h : m.run (c.store dir) = (.ok path, m')) : path = Path.join dir ComposeFile.fileName ∧
    m'.directory = m.directory ∧ ∃ cleared made, Cleared m dir cleared ∧
      cleared.makeDirectories m.directory dir = (.ok (), made) ∧
      made.write m.directory (Path.join dir ComposeFile.fileName) c.fileText.toUTF8 = (.ok (), m'.tree) := by
  rw [store] at h
  obtain ⟨present, m₀, hpresent, h⟩ := Memory.run_bind_ok h
  obtain ⟨rfl, rfl⟩ : m.tree.isPresent m.directory dir = present ∧ m = m₀ := by
    cases hpresent
    exact ⟨rfl, rfl⟩
  obtain ⟨u, m₁, hclear, h⟩ := Memory.run_bind_ok h
  obtain ⟨hcleared, hdirectory⟩ : Cleared m dir m₁.tree ∧ m₁.directory = m.directory := by
    rw [Cleared]
    split at hclear
    · rename_i hpresent
      rw [if_pos hpresent]
      exact Memory.removeDirectory_ok hclear
    · rename_i hpresent
      rw [if_neg hpresent]
      cases hclear
      exact ⟨rfl, rfl⟩
  obtain ⟨u, m₂, hmake, h⟩ := Memory.run_bind_ok h
  obtain ⟨hmade, hdirectory₂⟩ := Memory.makeDirectories_ok hmake
  obtain ⟨u, m₃, hwrite, h⟩ := Memory.run_bind_ok h
  obtain ⟨hwritten, hdirectory₃⟩ := Memory.writeFile_ok hwrite
  rw [hdirectory] at hdirectory₂ hmade
  rw [hdirectory₂] at hdirectory₃ hwritten
  cases h
  exact ⟨rfl, hdirectory₃, m₁.tree, m₂.tree, hcleared, hmade, hwritten⟩

/-! ## What stands beside the file -/

theorem Cleared.of_present {t : FileTree} (h : Cleared m dir t) (hpresent : m.tree.isPresent m.directory dir = true)
    (name : String) : t.get? (target m.directory dir ++ [name]) = none := by
  rw [Cleared, if_pos hpresent] at h
  exact below_removeDirectory h name

theorem Cleared.of_absent {t : FileTree} (h : Cleared m dir t) (habsent : m.tree.isPresent m.directory dir = false) :
    t = m.tree := by
  rwa [Cleared, if_neg (by simp [habsent])] at h

theorem write_fileName {t t' : FileTree} {base : Location} {content : ByteArray}
    (h : t.write base (Path.join dir ComposeFile.fileName) content = (.ok (), t')) :
    t' = t.put (target base dir ++ [ComposeFile.fileName]) (.file content) ∧
      (∀ k ∈ places base dir, t.get? k = some .directory) ∧
      target base dir ++ [ComposeFile.fileName] ∉ places base dir :=
  write_join_ok (by decide +kernel) (by decide +kernel) (by decide) h

/-- **What stands in the directory afterwards**: the compose file, what the path itself leads through, and what stood
there before if the path was not found. -/
theorem beside_store_iff (h : m.run (c.store dir) = (.ok path, m')) (name : String) :
    (m'.tree.get? (target m.directory dir ++ [name])).isSome ↔ name = ComposeFile.fileName ∨
      target m.directory dir ++ [name] ∈ places m.directory dir ∨
      m.tree.isPresent m.directory dir = false ∧ (m.tree.get? (target m.directory dir ++ [name])).isSome := by
  obtain ⟨-, -, cleared, made, hcleared, hmade, hwritten⟩ := store_ok h
  obtain ⟨htree, hplaces, -⟩ := write_fileName hwritten
  have hadds : AddsAt (places m.directory dir) cleared made := by
    have := addsAt_makeDirectories cleared m.directory dir
    rwa [hmade] at this
  have hgrown : Grown cleared made := by
    have := grown_makeDirectories cleared m.directory dir
    rwa [hmade] at this
  by_cases hname : name = ComposeFile.fileName
  · subst hname
    rw [htree, get?_put_self (by simp)]
    simp
  · have hother : target m.directory dir ++ [name] ≠ target m.directory dir ++ [ComposeFile.fileName] := by
      simpa using hname
    rw [htree, get?_put_of_ne hother]
    simp only [hname, false_or]
    constructor
    · intro hsome
      obtain ⟨e, he⟩ := Option.isSome_iff_exists.1 hsome
      rcases hadds _ e he with hbefore | hplace
      · refine .inr ?_
        cases hpresent : m.tree.isPresent m.directory dir with
        | true =>
          rw [hcleared.of_present hpresent name] at hbefore
          cases hbefore
        | false =>
          rw [hcleared.of_absent hpresent] at hbefore
          exact ⟨rfl, by rw [hbefore]; rfl⟩
      · exact .inl hplace
    · rintro (hplace | ⟨habsent, hbefore⟩)
      · rw [hplaces _ hplace]
        rfl
      · obtain ⟨e, he⟩ := Option.isSome_iff_exists.1 hbefore
        rw [hgrown _ e (by rw [hcleared.of_absent habsent, he])]
        rfl

/-- **In a directory with a straight path**, one that never goes up, the file stands alone. -/
theorem alone_of_straight (h : m.run (c.store dir) = (.ok path, m')) (hrooted : m.tree.Rooted) (hdir : dir ≠ "")
    (hstraight : ".." ∉ Path.components dir) (name : String) :
    (m'.tree.get? (target m.directory dir ++ [name])).isSome ↔ name = ComposeFile.fileName := by
  rw [beside_store_iff h]
  refine ⟨?_, .inl⟩
  rintro (hname | hplace | ⟨habsent, hbefore⟩)
  · exact hname
  · exact absurd hplace (not_mem_places_of_straight hstraight m.directory name)
  · obtain ⟨-, -, _, made, -, -, hwritten⟩ := store_ok h
    obtain ⟨f, hrefused⟩ | ⟨l, hresolve, -⟩ :=
      write_cases made m.directory (Path.join dir ComposeFile.fileName) c.fileText.toUTF8
    · rw [hrefused] at hwritten
      cases hwritten
    · have hpresent := isPresent_of_straight hrooted hstraight hdir (by decide +kernel) hresolve hbefore
      rw [habsent] at hpresent
      cases hpresent

/-! ## The file -/

theorem readText_of_store (h : m.run (c.store dir) = (.ok path, m')) : m'.readText path = .ok c.fileText := by
  obtain ⟨rfl, hdirectory, cleared, made, -, -, hwritten⟩ := store_ok h
  refine Memory.readText_of_readOctets ?_
  rw [hdirectory]
  exact readOctets_write hwritten

/-- **The compose file reads back.** Whatever the names and texts of a composition are, a store that succeeds leaves a
file that reads as the composition's compose file. It stands alone in its directory just if the path leads through
nothing in that directory, and was found or led to nothing else. -/
theorem stored_file_reads_back (h : m.run (c.store dir) = (.ok path, m')) :
    path = Path.join dir ComposeFile.fileName ∧
    (∃ text, m'.readText path = .ok text ∧ ComposeFile.read text = some (.ofComposition c)) ∧
    ((∀ name, (m'.tree.get? (target m.directory dir ++ [name])).isSome ↔ name = ComposeFile.fileName) ↔
      (∀ name, target m.directory dir ++ [name] ∉ places m.directory dir) ∧
      (m.tree.isPresent m.directory dir = true ∨
        ∀ name, name ≠ ComposeFile.fileName → m.tree.get? (target m.directory dir ++ [name]) = none)) := by
  refine ⟨(store_ok h).1, ⟨c.fileText, readText_of_store h, c.read_fileText⟩, ?_⟩
  obtain ⟨-, -, _, _, -, -, hwritten⟩ := store_ok h
  obtain ⟨-, -, hfree⟩ := write_fileName hwritten
  have hbeside := beside_store_iff h
  constructor
  · intro halone
    constructor
    · intro name hplace
      have hname := (halone name).1 ((hbeside name).2 (.inr (.inl hplace)))
      exact hfree (hname ▸ hplace)
    · rw [or_iff_not_imp_left, Bool.not_eq_true]
      intro habsent name hname
      rw [← Option.not_isSome_iff_eq_none]
      exact fun hbefore => hname ((halone name).1 ((hbeside name).2 (.inr (.inr ⟨habsent, hbefore⟩))))
  · rintro ⟨hways, hbefore⟩ name
    rw [hbeside name]
    refine ⟨?_, .inl⟩
    rintro (hname | hplace | ⟨habsent, hsome⟩)
    · exact hname
    · exact absurd hplace (hways name)
    · rcases hbefore with hpresent | hnothing
      · rw [habsent] at hpresent
        cases hpresent
      · by_contra hname
        rw [hnothing name hname] at hsome
        cases hsome

/-! ## A directory that was used before -/

/-- a machine with a directory that holds a file of an earlier run -/
def usedMachine : Memory where
  tree := { entries := [(["out"], .directory), (["out", "stale.txt"], .file "old".toUTF8)] }

/-- names and texts that look like something else -/
def misleading : Composition := .single "null" { command := some "~", ports := ["80: 80", "", "a\n\tb"] }

/-- the machine after a store -/
def after (m : Memory) (c : Composition) (dir : String) : Memory := (m.run (c.store dir)).2

theorem misleading_texts_read_back :
    usedMachine.run (misleading.store "out") = (.ok "out/docker-compose.yml", after usedMachine misleading "out") ∧
    (∃ text, (after usedMachine misleading "out").readText "out/docker-compose.yml" = .ok text ∧
      ComposeFile.read text = some (.ofComposition misleading)) ∧
    ∀ name, ((after usedMachine misleading "out").tree.get? (["out"] ++ [name])).isSome ↔
      name = "docker-compose.yml" := by
  have hrun : usedMachine.run (misleading.store "out") =
      (.ok "out/docker-compose.yml", after usedMachine misleading "out") :=
    Prod.ext (by rfl) rfl
  obtain ⟨-, hread, halone⟩ := stored_file_reads_back hrun
  have htarget : target usedMachine.directory "out" = ["out"] := by decide +kernel
  have hplaces : places usedMachine.directory "out" = [[], ["out"]] := by decide +kernel
  rw [htarget, hplaces] at halone
  exact ⟨hrun, hread, halone.2 ⟨fun name => by simp, .inl (by decide +kernel)⟩⟩

/-- The path leads to the same directory, but through one that is not there. It is not found, so that the directory is
not cleared; then what is missing is made on the way, and the file is written beside the old one. -/
theorem stale_file_is_kept : ∃ m', usedMachine.run (empty.store "x/../out") = (.ok "x/../out/docker-compose.yml", m') ∧
    ¬ ∀ name, (m'.tree.get? (target usedMachine.directory "x/../out" ++ [name])).isSome ↔
      name = "docker-compose.yml" := by
  have htarget : target usedMachine.directory "x/../out" = ["out"] := by decide +kernel
  refine ⟨after usedMachine empty "x/../out", Prod.ext (by rfl) rfl, fun halone => ?_⟩
  have hstale : ((after usedMachine empty "x/../out").tree.get? (["out"] ++ ["stale.txt"])).isSome = true := by rfl
  rw [htarget] at halone
  exact absurd ((halone "stale.txt").1 hstale) (by decide)

end Composition

end Fleet
