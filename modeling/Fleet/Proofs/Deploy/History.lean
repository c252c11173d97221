/-
Deploys of one directory, one after the other on a machine that keeps the infrastructure's file.

Reads and writes of that file are the machine's; everything else is answered in any way, as long as it leaves the file
alone (`Answered`). `History` says that some deploys took place.
- `play_run_inDir`: a deploy reads and writes the file of its own directory only.
- `held_cases`: after any exchanges the machine holds the last text that was written, or what it held before.
- `previous_of_held`: a deploy that drafts reads what was held.
-/
import Fleet.Proofs.Deploy.Approval
import Fleet.Proofs.Tooling.Terraform

namespace Fleet

open Dialogue Machine

/-! ## Exchanges on a machine -/

/-- no access to the infrastructure's file, or one in this directory -/
def Ask.InDir (dir : String) : Ask → Prop
  | .call (.readDefinition d) => d = dir
  | .call (.writeDefinition d _) => d = dir
  | _ => True

theorem Ask.IsOf.inDir {l : List Stage} {q : Ask} (h : q.IsOf l) (hr : .readPriorState ∉ l) (hw : .generateFiles ∉ l)
    (dir : String) : q.InDir dir := by
  cases q with
  | call c =>
    obtain ⟨s, hs, hc⟩ := h
    cases c with
    | readDefinition d => cases hc; exact absurd hs hr
    | writeDefinition d i => cases hc; exact absurd hs hw
    | _ => trivial
  | _ => trivial

/-- one exchange on a machine that keeps the file of `dir`; whatever else is exchanged leaves what is held there -/
inductive Answered (dir : String) : Memory → Asked → Memory → Prop
  | read (m : Memory) : Answered dir m ⟨.call (.readDefinition dir), (m.run (Terraform.readDefinition dir)).1⟩
      (m.run (Terraform.readDefinition dir)).2
  | write (m : Memory) (i : Infrastructure) :
      Answered dir m ⟨.call (.writeDefinition dir i), (m.run (Terraform.writeDefinition dir i)).1⟩
        (m.run (Terraform.writeDefinition dir i)).2
  | other {m m' : Memory} {e : Asked} (hread : e.1 ≠ .call (.readDefinition dir))
      (hwrite : ∀ i, e.1 ≠ .call (.writeDefinition dir i)) (hheld : Terraform.held dir m' = Terraform.held dir m) :
      Answered dir m e m'

/-- exchanges one after the other -/
inductive AnsweredAll (dir : String) : Memory → List Asked → Memory → Prop
  | nil (m : Memory) : AnsweredAll dir m [] m
  | cons {m₁ m₂ m₃ : Memory} {e : Asked} {es : List Asked} (first : Answered dir m₁ e m₂)
      (rest : AnsweredAll dir m₂ es m₃) : AnsweredAll dir m₁ (e :: es) m₃

variable {dir : String} {m m' m₁ m₂ : Memory} {es es₁ es₂ : List Asked}

theorem answeredAll_append_iff :
    AnsweredAll dir m (es₁ ++ es₂) m' ↔ ∃ m₁, AnsweredAll dir m es₁ m₁ ∧ AnsweredAll dir m₁ es₂ m' := by
  induction es₁ generalizing m with
  | nil =>
    constructor
    · intro h; exact ⟨m, .nil m, h⟩
    · rintro ⟨_, ⟨⟩, h⟩; exact h
  | cons e es ih =>
    constructor
    · rintro (_ | ⟨hfirst, hrest⟩)
      obtain ⟨m₁, h₁, h₂⟩ := ih.1 hrest
      exact ⟨m₁, .cons hfirst h₁, h₂⟩
    · rintro ⟨m₁, _ | ⟨hfirst, hrest⟩, h₂⟩
      exact .cons hfirst (ih.2 ⟨m₁, hrest, h₂⟩)

/-- an exchange writes a text that is held then, or keeps what was held -/
theorem Answered.held_cases {e : Asked} (h : Answered dir m e m') (hin : e.1.InDir dir) :
    (e.writing? = none ∧
      ∀ text, Terraform.held dir m = .ok (some text) → Terraform.held dir m' = .ok (some text)) ∨
    ∃ text, e.writing? = some text ∧ Terraform.held dir m' = .ok (some text) := by
  cases h with
  | read =>
    refine .inl ⟨rfl, fun text ht => ?_⟩
    rw [Terraform.readDefinition_run]
    exact ht
  | write i =>
    rcases Terraform.writeDefinition_run dir i m with ⟨m', hrun, hheld⟩ | ⟨f, m', hrun, hkept⟩
    · rw [hrun]
      exact .inr ⟨i.render, rfl, hheld⟩
    · rw [hrun]
      exact .inl ⟨rfl, hkept⟩
  | other hread hwrite hheld =>
    refine .inl ⟨?_, fun text ht => hheld.trans ht⟩
    obtain ⟨q, a⟩ := e
    cases q with
    | call c =>
      cases c with
      | writeDefinition d i =>
        cases hin
        exact absurd rfl (hwrite i)
      | _ => rfl
    | _ => rfl

/-- **The last text that was written is held**; if none was written, a text that was held is held still. -/
theorem held_cases (h : AnsweredAll dir m es m') (hin : ∀ e ∈ es, e.1.InDir dir) :
    (writings es = [] ∧
      ∀ text, Terraform.held dir m = .ok (some text) → Terraform.held dir m' = .ok (some text)) ∨
    ∃ text, (writings es).getLast? = some text ∧ Terraform.held dir m' = .ok (some text) := by
  induction h with
  | nil m => exact .inl ⟨rfl, fun _ h => h⟩
  | @cons m₁ m₂ m₃ e es first rest ih =>
    obtain ⟨he, hes⟩ := List.forall_mem_cons.1 hin
    rcases first.held_cases he with ⟨hquiet, hkept⟩ | ⟨written, hwrites, hheld⟩
    · rw [writings, List.filterMap_cons_none hquiet]
      rcases ih hes with ⟨hnil, hstays⟩ | hwritten
      · exact .inl ⟨hnil, fun text ht => hstays text (hkept text ht)⟩
      · exact .inr hwritten
    · rw [writings, List.filterMap_cons_some hwrites]
      -- what is written later is held in its place
      rcases ih hes with ⟨hnil, hstays⟩ | ⟨text, hlast, hlater⟩
      · rw [writings] at hnil
        rw [hnil]
        exact .inr ⟨written, rfl, hstays written hheld⟩
      · rw [writings] at hlast
        rw [List.getLast?_cons, hlast]
        exact .inr ⟨text, rfl, hlater⟩

/-- exchanges that are none of the file's can take place on any machine and leave it as it is -/
theorem answeredAll_of_quiet {l : List Stage} (h : ∀ e ∈ es, e.1.IsOf l) (hr : .readPriorState ∉ l)
    (hw : .generateFiles ∉ l) (m : Memory) : AnsweredAll dir m es m := by
  induction es with
  | nil => exact .nil m
  | cons e es ih =>
    refine .cons (.other ?_ ?_ rfl) (ih fun x hx => h x (List.mem_cons_of_mem _ hx))
    · intro he
      have := h e List.mem_cons_self
      rw [he] at this
      obtain ⟨s, hs, hc⟩ := this
      cases hc
      exact hr hs
    · intro i he
      have := h e List.mem_cons_self
      rw [he] at this
      obtain ⟨s, hs, hc⟩ := this
      cases hc
      exact hw hs

/-! ## Deploys on a machine -/

namespace Deploy

variable {d d' : Deploy} {out : Deploy × Except StageFault Unit} {previous : Option String} {generated left : String}

theorem step_inDir (s : Stage) (d : Deploy) : (step s d).AsksOnly (Ask.InDir d.infraDir) := by
  cases s with
  | readPriorState => exact asksOnly_bind (asksOnly_call rfl) fun _ => trivial
  | generateFiles =>
    refine asksOnly_bind (asksOnly_ofExcept _) fun images => asksOnly_bind (asksOnly_ofExcept _) fun i => ?_
    exact asksOnly_bind (asksOnly_call rfl) fun _ => trivial
  | _ => exact (step_asksOnly _ d).mono fun _ h => h.inDir (by decide) (by decide) _

/-- stages access the file of the directory that the deploy was started with, and of no other -/
theorem play_stages_inDir {l : List Stage} (h : (Pipeline.run (stages l) d).Play es (.ok out)) :
    ∀ e ∈ es, e.1.InDir d.infraDir := by
  have hopening : ∀ s, ∀ e ∈ Pipeline.opening s, e.1.InDir d.infraDir := fun s e he =>
    (isOf_opening s [] e he).inDir (by decide) (by decide) _
  induction l generalizing d es with
  | nil =>
    obtain ⟨rfl, _⟩ := play_stages_nil_iff.1 h
    simp
  | cons s l ih =>
    rcases play_stages_cons_iff.1 h with ⟨rfl, _⟩ | ⟨f, es', rfl, hstep, _⟩ | ⟨d', es₁, es₂, rfl, hstep, hrest⟩
    · intro e he
      rw [List.mem_singleton.1 he]
      trivial
    · intro e he
      rcases List.mem_append.1 he with he | he
      · exact hopening s e he
      · exact hstep.asked (step_inDir s d) e he
    · have hdir : d'.infraDir = d.infraDir := congrArg (fun a => a.2.2.1) (step_aim hstep)
      intro e he
      rcases List.mem_append.1 he with he | he
      · exact hopening s e he
      rcases List.mem_append.1 he with he | he
      · exact hstep.asked (step_inDir s d) e he
      · have := ih hrest (by rw [hdir]; exact hopening) e he
        rwa [hdir] at this

theorem play_run_inDir (h : d.run.Play es (.ok out)) : ∀ e ∈ es, e.1.InDir d.infraDir := play_stages_inDir h

/-- a deploy that drafts reads what was held when it started -/
theorem previous_of_held (hdrafted : Drafted dir es₁ previous generated) (h : AnsweredAll dir m (es₁ ++ es₂) m')
    (hheld : Terraform.held dir m = .ok (some left)) : previous = some left := by
  obtain ⟨q₁, q₂, i, rfl, h₁, h₂⟩ := hdrafted
  rw [List.append_assoc, answeredAll_append_iff] at h
  obtain ⟨m₁, hquiet, hrest⟩ := h
  have hheld₁ : Terraform.held dir m₁ = .ok (some left) := by
    rcases held_cases hquiet fun e he => (h₁ e he).inDir (by decide) (by decide) dir with ⟨_, hkept⟩ | ⟨text, hlast, _⟩
    · exact hkept left hheld
    · rw [writings_eq_nil h₁ (by decide)] at hlast
      cases hlast
  obtain _ | ⟨hread, _⟩ := hrest
  -- the machine answered this reading, so it is what the machine held
  have hanswer : Terraform.held dir m₁ = .ok previous := by
    generalize hq : (⟨.call (.readDefinition dir), .ok previous⟩ : Asked) = e at hread
    cases hread with
    | read => exact (eq_of_heq (Sigma.mk.inj hq).2).symm
    | write i => cases hq
    | other hread _ _ => exact absurd (congrArg Sigma.fst hq.symm) hread
  rw [hheld₁] at hanswer
  exact (Except.ok.inj hanswer).symm

end Deploy

/-- one deploy: what it starts with, what was exchanged, and what it left -/
structure Attempt where
  deploy : Deploy
  exchanges : List Asked
  outcome : Deploy × Except StageFault Unit

/-- what was exchanged in some deploys -/
def exchangesOf (as : List Attempt) : List Asked := as.flatMap Attempt.exchanges

/-- deploys of `dir` took place one after the other on a machine -/
def History (dir : String) (m : Memory) (as : List Attempt) (m' : Memory) : Prop :=
  (∀ a ∈ as, a.deploy.infraDir = dir ∧ a.deploy.run.Play a.exchanges (.ok a.outcome)) ∧
  AnsweredAll dir m (exchangesOf as) m'

theorem exchangesOf_append (as bs : List Attempt) : exchangesOf (as ++ bs) = exchangesOf as ++ exchangesOf bs :=
  List.flatMap_append

theorem exchangesOf_cons (a : Attempt) (as : List Attempt) : exchangesOf (a :: as) = a.exchanges ++ exchangesOf as :=
  List.flatMap_cons

theorem History.inDir {as : List Attempt} (h : History dir m as m') : ∀ e ∈ exchangesOf as, e.1.InDir dir := by
  intro e he
  obtain ⟨a, ha, he⟩ := List.mem_flatMap.1 he
  obtain ⟨rfl, hplay⟩ := h.1 a ha
  exact Deploy.play_run_inDir hplay e he

theorem history_append_iff {as bs : List Attempt} :
    History dir m (as ++ bs) m' ↔ ∃ m₁, History dir m as m₁ ∧ History dir m₁ bs m' := by
  unfold History
  rw [exchangesOf_append, answeredAll_append_iff]
  constructor
  · rintro ⟨hall, m₁, h₁, h₂⟩
    exact ⟨m₁, ⟨fun a ha => hall a (List.mem_append_left _ ha), h₁⟩,
      fun a ha => hall a (List.mem_append_right _ ha), h₂⟩
  · rintro ⟨m₁, ⟨hall₁, h₁⟩, hall₂, h₂⟩
    refine ⟨fun a ha => ?_, m₁, h₁, h₂⟩
    rcases List.mem_append.1 ha with ha | ha
    · exact hall₁ a ha
    · exact hall₂ a ha

end Fleet
