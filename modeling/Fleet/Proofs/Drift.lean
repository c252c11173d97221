/-
Drift tells truly how much has changed.

- `compare_eq_unchanged_iff`: texts count as unchanged just if they have one digest, so different texts only if theirs
  collide.
- `compare_eq_changed_iff`: what is told otherwise is taken from one script between the two texts.
- `Deploy.play_diffCheck_changed`: the check of a deploy begins by showing the unified form, before anybody is asked.
- `changes_are_counted`: the counts that are told are those of the marked lines that are shown. They are not both zero,
  and they differ by what the texts differ in lines.
-/
import Fleet.Deploy.Pipeline
import Fleet.Proofs.Action
import Fleet.Proofs.LineDiff.Unified

namespace Fleet

open Dialogue LineDiff

variable {previous : Option String} {p generated diff : String} {added removed : Nat}

namespace Drift

theorem compare_eq_noPrior_iff : compare previous generated = .noPrior ↔ previous = none := by
  cases previous with
  | none => exact ⟨fun _ => rfl, fun _ => rfl⟩
  | some p =>
    rw [compare]
    split <;> simp

theorem compare_eq_unchanged_iff {d : String} : compare (some p) generated = .unchanged d ↔
    Digest.ofText p = d ∧ Digest.ofText generated = d := by
  rw [compare]
  split
  · rename_i hsame
    rw [unchanged.injEq, ← hsame, and_self]
  · rename_i hdiffer
    refine ⟨nofun, ?_⟩
    rintro ⟨rfl, hsame⟩
    exact absurd hsame.symm hdiffer

theorem compare_eq_changed_iff : compare (some p) generated = .changed diff added removed ↔
    Digest.ofText p ≠ Digest.ofText generated ∧ diff = unified "previous" "generated" (between p generated) ∧
      added = additions (between p generated) ∧ removed = deletions (between p generated) := by
  rw [compare]
  split
  · rename_i hsame
    simp [hsame]
  · rename_i hdiffer
    simp [hdiffer, eq_comm]

end Drift

/-- **What has changed is shown before anybody is asked.** -/
theorem Deploy.play_diffCheck_changed {d : Deploy} {es : List Asked} {r : Except Fault Deploy}
    (hgenerated : d.generated = some generated)
    (hchanged : Drift.compare d.previous generated = .changed diff added removed)
    (h : d.diffCheck.Play es r) : ∃ rest, es = ⟨.say (diff ++ "\n"), ()⟩ :: rest := by
  simp only [diffCheck, hgenerated, hchanged, settleDrift] at h
  obtain ⟨rest, rfl, _⟩ := play_say_bind_iff.1 h
  exact ⟨rest, rfl⟩

namespace Drift

/-- **Changes are counted as they are shown.** Only a first text has nothing before it, and a text that stays is
unchanged; other texts count as unchanged only with one digest. The counts of what has changed are those of the lines
that the unified form marks. There is such a line, the counts differ by what the texts differ in lines, and the form is
shown before anybody is asked. -/
theorem changes_are_counted (previous : Option String) (generated : String) :
    (compare previous generated = .noPrior ↔ previous = none) ∧ ∀ p, previous = some p →
      (p = generated → compare previous generated = .unchanged (Digest.ofText generated)) ∧
      (∀ d, compare previous generated = .unchanged d ↔ Digest.ofText p = d ∧ Digest.ofText generated = d) ∧
      ∀ diff added removed, compare previous generated = .changed diff added removed →
        1 ≤ added + removed ∧ (added : Int) - removed = (lines generated).length - (lines p).length ∧
        shown '+' diff = added ∧ shown '-' diff = removed ∧
        ∀ (d : Deploy) es r, d.previous = previous → d.generated = some generated → d.diffCheck.Play es r →
          ∃ rest, es = ⟨.say (diff ++ "\n"), ()⟩ :: rest := by
  refine ⟨compare_eq_noPrior_iff, ?_⟩
  rintro p rfl
  refine ⟨?_, fun d => compare_eq_unchanged_iff, fun diff added removed hchanged => ?_⟩
  · rintro rfl
    exact compare_eq_unchanged_iff.2 ⟨rfl, rfl⟩
  · obtain ⟨hdigests, hdiff, hadded, hremoved⟩ := compare_eq_changed_iff.1 hchanged
    have hne : p ≠ generated := fun h => hdigests (congrArg Digest.ofText h)
    have hlength := length_lines_between p generated
    rw [← hadded, ← hremoved] at hlength
    have hnames : Plain "previous".toList ∧ Plain "generated".toList := by decide
    have hlines := allLines_between p generated
    refine ⟨?_, by omega, ?_, ?_, fun d es r hprevious hgenerated hplay => ?_⟩
    · rw [hadded, hremoved]
      exact exists_change_of_ne hne
    · rw [hdiff, hadded]
      exact shown_unified .added (by decide) hnames.1 hnames.2 hlines
    · rw [hdiff, hremoved]
      exact shown_unified .removed (by decide) hnames.1 hnames.2 hlines
    · exact Deploy.play_diffCheck_changed hgenerated (hprevious ▸ hchanged) hplay

/-- the last line is replaced by two, and the new last line is not ended -/
def lengthened : String :=
  "--- previous\n+++ generated\n@@ -1,2 +1,3 @@\n a\n-b\n+c\n+d\n\\ No newline at end of file\n"

theorem two_lines_for_one : compare (some "a\nb\n") "a\nc\nd" = .changed lengthened 2 1 ∧
    (2 : Int) - 1 = (lines "a\nc\nd").length - (lines "a\nb\n").length ∧
    shown '+' lengthened = 2 ∧ shown '-' lengthened = 1 := by
  have hchanged : compare (some "a\nb\n") "a\nc\nd" = .changed lengthened 2 1 := by decide +kernel
  obtain ⟨-, hlength, hadded, hremoved, -⟩ :=
    ((changes_are_counted (some "a\nb\n") "a\nc\nd").2 _ rfl).2.2 _ _ _ hchanged
  exact ⟨hchanged, hlength, hadded, hremoved⟩

end Drift

end Fleet
