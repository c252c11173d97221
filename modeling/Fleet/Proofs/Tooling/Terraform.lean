/-
The infrastructure's file between deploys.

`held dir m` is what the infrastructure tool reads from a directory of a machine. Reading changes nothing
(`readDefinition_run`). A write that succeeds is what is held afterwards, and a write that is refused loses no text that
was held (`writeDefinition_run`).
-/
import Fleet.Proofs.Machine.Memory
import Fleet.Tooling.Terraform

namespace Fleet

open Machine

namespace Terraform

variable {dir : String} {m : Memory}

/-- what the infrastructure tool reads from a directory -/
def held (dir : String) (m : Memory) : Except Fault (Option String) := (m.run (readDefinition dir)).1

theorem held_eq (dir : String) (m : Memory) :
    held dir m = match m.readText (Path.join dir fileName) with
      | .ok text => .ok (some text)
      | .error .notFound => .ok none
      | .error e => .error (.file (Path.join dir fileName) e) := by
  unfold held readDefinition
  simp only [Memory.run, Program.request, Dialogue.request, Dialogue.bind, Dialogue.run, Memory.answer]
  cases m.readText (Path.join dir fileName) with
  | ok text => rfl
  | error e => cases e <;> rfl

/-- reading changes nothing -/
theorem readDefinition_run (dir : String) (m : Memory) : m.run (readDefinition dir) = (held dir m, m) := by
  refine Prod.ext rfl ?_
  unfold readDefinition
  simp only [Memory.run, Program.request, Dialogue.request, Dialogue.bind, Dialogue.run, Memory.answer]
  cases m.readText (Path.join dir fileName) with
  | ok text => rfl
  | error e => cases e <;> rfl

theorem held_eq_some_iff {text : String} :
    held dir m = .ok (some text) ↔ m.readText (Path.join dir fileName) = .ok text := by
  rw [held_eq]
  cases m.readText (Path.join dir fileName) with
  | ok t => simp
  | error e => cases e <;> simp

/-- a definition that is written is held afterwards; one that is refused costs no text that was held -/
theorem writeDefinition_run (dir : String) (i : Infrastructure) (m : Memory) :
    (∃ m', m.run (writeDefinition dir i) = (.ok i.render, m') ∧ held dir m' = .ok (some i.render)) ∨
    ∃ f m', m.run (writeDefinition dir i) = (.error f, m') ∧
      ∀ text, held dir m = .ok (some text) → held dir m' = .ok (some text) := by
  obtain ⟨made, hmade⟩ : ∃ made, m.tree.makeDirectories m.directory dir = made := ⟨_, rfl⟩
  have hgrown : FileTree.Grown m.tree made.2 := hmade ▸ FileTree.grown_makeDirectories m.tree m.directory dir
  have hkept : ∀ m' : Memory, m'.tree = made.2 → m'.directory = m.directory →
      ∀ text, held dir m = .ok (some text) → held dir m' = .ok (some text) := by
    intro m' htree hdir text htext
    rw [held_eq_some_iff] at htext ⊢
    exact Memory.readText_of_grown (htree ▸ hgrown) hdir htext
  unfold writeDefinition Program.makeDirectories Program.writeFile
  simp only [Memory.run, Program.request, Dialogue.request, Dialogue.bind, Dialogue.run, Memory.answer, hmade,
    Memory.change]
  obtain ⟨refused, tree⟩ := made
  cases refused with
  | error e => exact .inr ⟨_, _, rfl, hkept _ rfl rfl⟩
  | ok u =>
    obtain ⟨written, hwritten⟩ :
        ∃ w, tree.write m.directory (Path.join dir fileName) i.render.toUTF8 = w := ⟨_, rfl⟩
    simp only [Program.orFault, Dialogue.bind, Dialogue.run, Memory.answer, Memory.change, hwritten]
    obtain ⟨refused, tree'⟩ := written
    cases refused with
    | error e =>
      obtain rfl := FileTree.write_of_error hwritten
      exact .inr ⟨_, _, rfl, hkept _ rfl rfl⟩
    | ok u =>
      refine .inl ⟨_, rfl, held_eq_some_iff.2 (Memory.readText_of_readOctets ?_)⟩
      exact FileTree.readOctets_write hwritten

end Terraform

end Fleet
