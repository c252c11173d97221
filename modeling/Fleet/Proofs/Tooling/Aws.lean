/-
The cloud account's answers, and the complaints that are taken for an absence.

A look-up that is refused is read by its complaint alone (`play_lookUp_iff`): nothing is there if a marker occurs
anywhere in it. A complaint names a code, an operation and a detail, and the words between them have nothing to do with
the markers.
- `saysAbsent_refusal_iff`: so a complaint speaks of an absence just if a marker occurs in one of the three.
- `absence_is_told_iff`: just then a look-up finds nothing and the store of secrets is empty, whatever was refused and
  why; otherwise the complaint is reported.
- `denial_is_taken_for_absence`: an account whose number has `404` in it is denied its secrets, and has none.
-/
import Mathlib.Data.List.Infix
import Fleet.Proofs.Play
import Fleet.Tooling.Aws

namespace Fleet

open Dialogue Machine

/-! ## Parts of texts -/

namespace Text

variable {part phrase cs ds : List Char}

theorem occursIn_iff {s : List Char} : occursIn part s = true ↔ part <:+: s := by
  induction s with
  | nil => simp [occursIn]
  | cons c s ih => simp [occursIn, ih, List.infix_cons_iff]

theorem contains_iff {s part : String} : contains s part = true ↔ part.toList <:+: s.toList := occursIn_iff

/-- the part neither occurs in the phrase nor overlaps with an end of it -/
def Foreign (part phrase : List Char) : Prop :=
  ¬ part <:+: phrase ∧ (∀ front ∈ part.inits, front <:+ phrase → front = []) ∧
    ∀ back ∈ part.tails, back <+: phrase ∨ phrase <+: back → back = []

instance : Decidable (Foreign part phrase) := by unfold Foreign; infer_instance

/-- what is foreign to a phrase is looked for on both sides of it -/
theorem isInfix_around_iff (h : Foreign part phrase) : part <:+: cs ++ (phrase ++ ds) ↔
    part <:+: cs ∨ part <:+: ds := by
  obtain ⟨hin, hfront, hback⟩ := h
  have hbehind : part <:+: phrase ++ ds ↔ part <:+: ds := by
    rw [List.infix_append_iff]
    constructor
    · rintro (h | h | ⟨front, back, rfl, hend, hstart⟩)
      · exact absurd h hin
      · exact h
      · rw [hfront front ((List.mem_inits _ _).2 (List.prefix_append _ _)) hend]
        exact hstart.isInfix
    · exact fun h => .inr (.inl h)
  rw [List.infix_append_iff, hbehind]
  refine ⟨?_, fun h => h.imp_right .inl⟩
  rintro (h | h | ⟨front, back, rfl, hend, hstart⟩)
  · exact .inl h
  · exact .inr h
  · have hphrase := List.prefix_or_prefix_of_prefix hstart (List.prefix_append phrase ds)
    rw [hback back ((List.mem_tails _ _).2 (List.suffix_append _ _)) hphrase, List.append_nil]
    exact .inl hend.isInfix

/-- what is foreign to the words of a frame is looked for in what stands between them -/
theorem contains_framed_iff {part p q r a b c : String} (hne : part ≠ "") (hp : Foreign part.toList p.toList)
    (hq : Foreign part.toList q.toList) (hr : Foreign part.toList r.toList) :
    contains (p ++ a ++ q ++ b ++ r ++ c) part = true ↔
      part.toList <:+: a.toList ∨ part.toList <:+: b.toList ∨ part.toList <:+: c.toList := by
  have htext : (p ++ a ++ q ++ b ++ r ++ c).toList =
      [] ++ (p.toList ++ (a.toList ++ (q.toList ++ (b.toList ++ (r.toList ++ c.toList))))) := by
    simp only [String.toList_append, List.append_assoc, List.nil_append]
  have hnil : ¬ part.toList <:+: [] := by simpa [List.infix_nil] using hne
  rw [contains_iff, htext, isInfix_around_iff hp, isInfix_around_iff hq, isInfix_around_iff hr, or_iff_right hnil]

end Text

/-! ## Complaints -/

namespace Aws

/-- how the account's program complains about a call that was refused -/
def refusal (code operation detail : String) : String :=
  "An error occurred (" ++ code ++ ") when calling the " ++ operation ++ " operation: " ++ detail

/-- a marker of absence occurs in the code, the operation or the detail -/
def NamesMarker (code operation detail : String) : Prop :=
  ∃ m ∈ absenceMarkers, m.toList <:+: code.toList ∨ m.toList <:+: operation.toList ∨ m.toList <:+: detail.toList

variable {code operation detail : String}

instance : Decidable (NamesMarker code operation detail) := by unfold NamesMarker; infer_instance

/-- the words of a complaint are foreign to every marker -/
theorem foreign_of_mem_absenceMarkers : ∀ m ∈ absenceMarkers, m ≠ "" ∧
    Text.Foreign m.toList "An error occurred (".toList ∧
    Text.Foreign m.toList ") when calling the ".toList ∧ Text.Foreign m.toList " operation: ".toList := by
  decide +kernel

/-- **What a complaint says is an absence.** -/
theorem saysAbsent_refusal_iff : saysAbsent (refusal code operation detail) = true ↔
    NamesMarker code operation detail := by
  simp only [saysAbsent, List.any_eq_true, NamesMarker]
  refine exists_congr fun m => and_congr_right fun hm => ?_
  obtain ⟨hne, hopening, hcalling, hoperation⟩ := foreign_of_mem_absenceMarkers m hm
  unfold refusal
  exact Text.contains_framed_iff hne hopening hcalling hoperation

/-! ## Look-ups -/

variable {a : Aws} {account : Account} {args : List String} {es : List (Exchange Request Request.Answer)}

/-- a look-up makes one call, and its result is read from how the call ends -/
theorem play_lookUp_iff {r : Except Fault (Option String)} : (a.lookUp account args).Play es r ↔
    ∃ x, (Program.captured (a.command account args)).Play es x ∧ r = found x := by
  simp only [lookUp, play_attempt_bind_iff, play_ofExcept_iff]
  constructor
  · rintro ⟨x, es, _, rfl, hcall, rfl, rfl⟩
    exact ⟨x, by rwa [List.append_nil], rfl⟩
  · rintro ⟨x, hcall, rfl⟩
    exact ⟨x, es, [], (List.append_nil _).symm, hcall, rfl, rfl⟩

/-- the secrets that a look-up finds -/
def secretsFound (answer : Option String) : Except Fault Secrets := answer.elim (.ok .empty) readStore

theorem readSecrets_eq (a : Aws) (account : Account) : a.readSecrets account =
    (a.lookUp account (secretArguments account)).bind fun answer => .ofExcept (secretsFound answer) := by
  refine congrArg (Dialogue.bind _) (funext fun answer => ?_)
  cases answer <;> rfl

/-- reading the secrets is a look-up, and nothing else is asked -/
theorem play_readSecrets_iff {r : Except Fault Secrets} : (a.readSecrets account).Play es r ↔
    ∃ x, (Program.captured (a.command account (secretArguments account))).Play es x ∧
      r = (found x).bind secretsFound := by
  simp only [readSecrets_eq, play_bind_ofExcept_iff, play_lookUp_iff]
  constructor
  · rintro ⟨_, ⟨x, hcall, rfl⟩, rfl⟩
    exact ⟨x, hcall, rfl⟩
  · rintro ⟨x, hcall, rfl⟩
    exact ⟨_, ⟨x, hcall, rfl⟩, rfl⟩

theorem found_refusal : found (.error (.tool .aws (refusal code operation detail))) =
    if NamesMarker code operation detail then .ok none else .error (.tool .aws (refusal code operation detail)) := by
  simp only [found, saysAbsent_refusal_iff]

/-- **When a refused call is taken for an absence.** Whatever was looked up, with whatever account, and however the
process went: a complaint that names a marker nowhere is reported by the look-up, and by whoever reads the secrets. A
complaint that names one, be it in its code, its operation or its detail, says that nothing is there, and that there are
no secrets. -/
theorem absence_is_told_iff (a : Aws) (account : Account) (code operation detail : String) :
    (∀ args es, (Program.captured (a.command account args)).Play es
      (.error (.tool .aws (refusal code operation detail))) →
      ((a.lookUp account args).Play es (.error (.tool .aws (refusal code operation detail))) ↔
        ¬ NamesMarker code operation detail) ∧
      ((a.lookUp account args).Play es (.ok none) ↔ NamesMarker code operation detail)) ∧
    ∀ es, (Program.captured (a.command account (secretArguments account))).Play es
        (.error (.tool .aws (refusal code operation detail))) →
      ((a.readSecrets account).Play es (.error (.tool .aws (refusal code operation detail))) ↔
        ¬ NamesMarker code operation detail) ∧
      ((a.readSecrets account).Play es (.ok .empty) ↔ NamesMarker code operation detail) := by
  constructor
  · intro args es hcall
    simp only [play_lookUp_iff, exists_play_iff hcall, found_refusal]
    split <;> simp_all
  · intro es hcall
    simp only [play_readSecrets_iff, exists_play_iff hcall, found_refusal]
    split <;> simp_all [Except.bind, secretsFound]

/-! ## A shop that may not read its secrets -/

def shopAws : Aws := ⟨"aws", ⟨"docker"⟩⟩

/-- the account of the shop, with this number -/
def shopAccount (id : String) : Account := ⟨"default", "eu", id, "shop"⟩

/-- why the account with this number keeps the secrets from the shop -/
def denial (id : String) : String := "arn:aws:iam::" ++ id ++ ":user/shop is not authorized"

/-- a process that ends with this complaint -/
def complaining (complaint : String) : Finished := ⟨254, .empty, complaint.toUTF8⟩

theorem play_captured_complaining {complaint : String} (c : Command)
    (htext : Text.trim (Text.ofOctetsLossy complaint.toUTF8) = complaint) :
    (Program.captured c).Play [⟨.execute c, .ok (complaining complaint)⟩] (.error (.tool c.tool complaint)) := by
  have hcode : ¬ (complaining complaint).code = 0 := (by decide : ¬ (254 : Int) = 0)
  have hfailed : Program.outputOf c.tool (complaining complaint) = .error (.tool c.tool complaint) := by
    rw [Program.outputOf, if_neg hcode]
    exact congrArg (fun text => Except.error (Fault.tool c.tool text)) htext
  refine .ask _ _ _ ?_
  change (Dialogue.ofExcept (Program.outputOf c.tool (complaining complaint))).Play [] _
  rw [hfailed]
  exact .fail _

/-- the account with this number denies the shop its secrets -/
theorem exists_denied (id : String) (htext : Text.trim (Text.ofOctetsLossy
      (refusal "AccessDeniedException" "GetSecretValue" (denial id)).toUTF8) =
      refusal "AccessDeniedException" "GetSecretValue" (denial id)) :
    ∃ es, (Program.captured (shopAws.command (shopAccount id) (secretArguments (shopAccount id)))).Play es
      (.error (.tool .aws (refusal "AccessDeniedException" "GetSecretValue" (denial id)))) :=
  ⟨_, play_captured_complaining _ htext⟩

/-- an account is denied its secrets, and says so, be they read or looked up -/
theorem denial_is_told : ∃ es,
    (Program.captured (shopAws.command (shopAccount "12345") (secretArguments (shopAccount "12345")))).Play es
      (.error (.tool .aws (refusal "AccessDeniedException" "GetSecretValue" (denial "12345")))) ∧
    (shopAws.lookUp (shopAccount "12345") (secretArguments (shopAccount "12345"))).Play es
      (.error (.tool .aws (refusal "AccessDeniedException" "GetSecretValue" (denial "12345")))) ∧
    (shopAws.readSecrets (shopAccount "12345")).Play es
      (.error (.tool .aws (refusal "AccessDeniedException" "GetSecretValue" (denial "12345")))) := by
  obtain ⟨es, hcall⟩ := exists_denied "12345" (by decide +kernel)
  obtain ⟨hlook, hread⟩ := absence_is_told_iff shopAws (shopAccount "12345") "AccessDeniedException" "GetSecretValue"
    (denial "12345")
  have hplain : ¬ NamesMarker "AccessDeniedException" "GetSecretValue" (denial "12345") := by decide +kernel
  exact ⟨es, hcall, (hlook _ es hcall).1.2 hplain, (hread es hcall).1.2 hplain⟩

/-- the account with the number 404404404404 is denied its secrets, and is taken to have none -/
theorem denial_is_taken_for_absence : ¬ ∀ (a : Aws) (account : Account) (args : List String)
    (code operation detail : String) (es : List (Exchange Request Request.Answer)),
    code ∉ ["ResourceNotFoundException", "RepositoryNotFoundException", "404"] →
      ((Program.captured (a.command account args)).Play es (.error (.tool .aws (refusal code operation detail))) →
        (a.lookUp account args).Play es (.error (.tool .aws (refusal code operation detail)))) ∧
      ((Program.captured (a.command account (secretArguments account))).Play es
          (.error (.tool .aws (refusal code operation detail))) →
        (a.readSecrets account).Play es (.error (.tool .aws (refusal code operation detail)))) := by
  intro h
  obtain ⟨es, hcall⟩ := exists_denied "404404404404" (by decide +kernel)
  have htold := (h shopAws (shopAccount "404404404404") [] _ _ _ es (by decide)).2 hcall
  rw [play_readSecrets_iff, exists_play_iff hcall, found_refusal, if_pos (by decide +kernel)] at htold
  cases htold

end Aws

end Fleet
