/-
A machine in memory: texts that are kept, and runs that succeed.

- `readText_of_grown`: a text that can be read can be read when the tree has grown.
- `run_bind_ok`: a run that succeeds is a run of the first part that succeeds, and a run of the rest.
- `makeDirectories_ok`, `removeDirectory_ok`, `writeFile_ok`: an access that succeeds is one of the tree, and changes
  nothing else.
-/
import Fleet.Machine.Memory
import Fleet.Proofs.Machine.FileTree

namespace Fleet.Machine.Memory

variable {ε α β : Type} {m m' : Memory} {path text : String} {u : Unit}

/-! ## Texts -/

theorem readText_of_readOctets (h : m.tree.readOctets m.directory path = .ok text.toUTF8) :
    m.readText path = .ok text := by
  have hround : Text.ofOctets? text.toUTF8 = some text := dif_pos text.isValidUTF8
  unfold readText
  rw [h]
  simp only [hround]

theorem readText_of_grown (htree : FileTree.Grown m.tree m'.tree) (hdir : m'.directory = m.directory)
    (h : m.readText path = .ok text) : m'.readText path = .ok text := by
  unfold readText at h ⊢
  rw [hdir]
  cases hread : m.tree.readOctets m.directory path with
  | error f => simp [hread] at h
  | ok bytes =>
    rw [htree.readOctets hread]
    simpa only [hread] using h

/-! ## Runs that succeed -/

theorem run_bind_ok {p : Program ε α} {f : α → Program ε β} {b : β} (h : m.run (p.bind f) = (.ok b, m')) :
    ∃ a m₁, m.run p = (.ok a, m₁) ∧ m₁.run (f a) = (.ok b, m') := by
  rw [run, Dialogue.run_bind] at h
  split at h
  · rename_i a m₁ hfirst
    exact ⟨a, m₁, hfirst, h⟩
  · cases h

/-- an access that succeeds has changed the tree, and nothing else -/
theorem change_ok {r : Except FileCause Unit × FileTree}
    (h : (Program.orFault path (m.change r).1).run answer (m.change r).2 = (.ok u, m')) :
    r = (.ok (), m'.tree) ∧ m'.directory = m.directory := by
  obtain ⟨refused, tree⟩ := r
  cases refused with
  | error e => cases h
  | ok u =>
    cases h
    exact ⟨rfl, rfl⟩

theorem removeDirectory_ok (h : m.run (Program.removeDirectory path) = (.ok u, m')) :
    m.tree.removeDirectory m.directory path = (.ok (), m'.tree) ∧ m'.directory = m.directory := change_ok h

theorem makeDirectories_ok (h : m.run (Program.makeDirectories path) = (.ok u, m')) :
    m.tree.makeDirectories m.directory path = (.ok (), m'.tree) ∧ m'.directory = m.directory := change_ok h

theorem writeFile_ok (h : m.run (Program.writeFile path text) = (.ok u, m')) :
    m.tree.write m.directory path text.toUTF8 = (.ok (), m'.tree) ∧ m'.directory = m.directory := change_ok h

end Fleet.Machine.Memory
