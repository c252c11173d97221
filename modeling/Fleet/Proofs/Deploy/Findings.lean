/-
What a deploy has found out, at every point of its run.

The stages of a deploy fill four fields of its context, each of them one. A point of a run is where it stands after
some of its exchanges (`At`): the stages behind it, and the context that they left. Whatever ends the run there, the
answers that follow or a line that cannot be written, this context is what is left of it.
- `gained_of_step`: what a stage that goes through adds to the context, in full.
- `same_of_step`: every other field stays as it was. So what the stages behind filled is kept (`same_of_at`), and what
  they do not fill is as it was at the start.
- `filled_of_at`: at every point, the stages behind have filled their fields.
- `context_of_run`: all this of a whole run, what a stage that fails leaves, and that no stage asks for something too
  early.
-/
import Fleet.Proofs.Deploy.Approval
import Fleet.Proofs.Deploy.Faults
import Fleet.Proofs.Deploy.Trail

namespace Fleet.Deploy

open Dialogue

variable {d d' u u' t : Deploy} {es es' own : List Asked} {s : Stage} {l done rest through through' : List Stage}
  {f : Fault} {x : Except StageFault Unit}

/-! ## What a stage adds -/

/-- what a stage adds to the context, when it goes through with these exchanges -/
def Gained (d : Deploy) (es : List Asked) (d' : Deploy) : Stage → Prop
  | .pushImages => ∃ images, d' = { d with images := some images }
  | .readPriorState => ∃ previous, readings es = [previous] ∧ d' = { d with previous }
  | .generateFiles => ∃ text, d' = { d with generated := some text }
  | .retrieveSecrets =>
    ∃ secrets, es = [⟨.call (.readSecrets d.account), .ok secrets⟩] ∧ d' = { d with secrets := some secrets }
  | _ => d' = d

theorem gained_of_pushImages (h : (pushImages d).Play es (.ok d')) : Gained d es d' .pushImages := by
  obtain ⟨_, hf, _⟩ | ⟨registry, _, _, _, _, h⟩ := play_bind_iff.1 h
  · cases hf
  obtain ⟨_, _, _, hf⟩ | ⟨jobs, _, h⟩ := play_ofExcept_bind_iff.1 h
  · cases hf
  obtain ⟨_, hf, _⟩ | ⟨images, _, _, _, _, h⟩ := play_bind_iff.1 h
  · cases hf
  obtain ⟨_, hf, _⟩ | ⟨_, _, _, _, _, h⟩ := play_bind_iff.1 h
  · cases hf
  cases (play_done_iff.1 h).2
  exact ⟨images, rfl⟩

theorem gained_of_diffCheck (h : (diffCheck d).Play es (.ok d')) : d' = d := by
  cases hgenerated : d.generated with
  | none =>
    simp only [diffCheck, hgenerated] at h
    cases (play_fail_iff.1 h).2
  | some generated =>
    obtain ⟨_, _, hd⟩ | ⟨_, _, _, ⟨hd, _⟩ | ⟨⟨_, hf⟩, _⟩⟩ := diffCheck_play hgenerated h
    · cases hd; rfl
    · cases hd; rfl
    · cases hf

/-- **A stage adds its own findings and nothing else.** -/
theorem gained_of_step (h : (step s d).Play es (.ok d')) : Gained d es d' s := by
  cases s with
  | validate =>
    obtain ⟨_, _, _, hf⟩ | ⟨_, _, h⟩ := play_ofExcept_bind_iff.1 h
    · cases hf
    · cases (play_done_iff.1 h).2; rfl
  | pushImages => exact gained_of_pushImages h
  | readPriorState =>
    obtain ⟨a, rfl, hd⟩ := play_readPriorState_iff.1 h
    cases a <;> cases hd
    exact ⟨_, rfl, rfl⟩
  | generateFiles =>
    obtain ⟨_, _, _, hf⟩ | ⟨_, a, _, _, hd⟩ := play_generateFiles_iff.1 h
    · cases hf
    · cases a <;> cases hd
      exact ⟨_, rfl⟩
  | diffCheck => exact gained_of_diffCheck h
  | retrieveSecrets =>
    obtain ⟨a, rfl, hd⟩ := play_call_done_iff.1 h
    cases a <;> cases hd
    exact ⟨_, rfl, rfl⟩
  | apply =>
    obtain ⟨_, _, _, hf⟩ | ⟨_, a, _, _, hd⟩ := play_apply_iff.1 h
    · cases hf
    · cases a <;> cases hd; rfl
  | _ =>
    obtain ⟨a, _, hd⟩ := play_call_done_iff.1 h
    cases a <;> cases hd; rfl

/-! ## What a stage does not fill -/

/-- `u'` knows the same as `u` from the start, and has the same in the fields whose stages satisfy `P` -/
structure Same (P : Stage → Prop) (u u' : Deploy) : Prop where
  aim : u'.aim = u.aim
  images : P .pushImages → u'.images = u.images
  previous : P .readPriorState → u'.previous = u.previous
  generated : P .generateFiles → u'.generated = u.generated
  secrets : P .retrieveSecrets → u'.secrets = u.secrets

section Same

variable {P : Stage → Prop}

theorem Same.refl (P : Stage → Prop) (u : Deploy) : Same P u u where
  aim := rfl
  images _ := rfl
  previous _ := rfl
  generated _ := rfl
  secrets _ := rfl

theorem Same.trans {v : Deploy} (h : Same P u v) (h' : Same P v u') : Same P u u' where
  aim := h'.aim.trans h.aim
  images hs := (h'.images hs).trans (h.images hs)
  previous hs := (h'.previous hs).trans (h.previous hs)
  generated hs := (h'.generated hs).trans (h.generated hs)
  secrets hs := (h'.secrets hs).trans (h.secrets hs)

/-- **A stage fills no field but its own.** -/
theorem same_of_step (hstep : (step s u).Play own (.ok u')) (hs : ¬ P s) : Same P u u' := by
  have hgained := gained_of_step hstep
  have haim := step_aim hstep
  cases s with
  | pushImages =>
    obtain ⟨images, rfl⟩ := hgained
    exact ⟨haim, fun h => absurd h hs, fun _ => rfl, fun _ => rfl, fun _ => rfl⟩
  | readPriorState =>
    obtain ⟨previous, -, rfl⟩ := hgained
    exact ⟨haim, fun _ => rfl, fun h => absurd h hs, fun _ => rfl, fun _ => rfl⟩
  | generateFiles =>
    obtain ⟨text, rfl⟩ := hgained
    exact ⟨haim, fun _ => rfl, fun _ => rfl, fun h => absurd h hs, fun _ => rfl⟩
  | retrieveSecrets =>
    obtain ⟨secrets, -, rfl⟩ := hgained
    exact ⟨haim, fun _ => rfl, fun _ => rfl, fun _ => rfl, fun h => absurd h hs⟩
  | _ =>
    cases hgained
    exact .refl P _

theorem same_of_stages (hrun : (Pipeline.run (stages l) u).Play own (.ok (u', .ok ()))) (hl : ∀ s ∈ l, ¬ P s) :
    Same P u u' := by
  induction l generalizing u own with
  | nil =>
    cases (play_stages_nil_iff.1 hrun).2
    exact .refl P _
  | cons s l ih =>
    rcases play_stages_cons_iff.1 hrun with ⟨_, hout⟩ | ⟨_, _, _, _, hout⟩ | ⟨v, _, _, _, hstep, hrest⟩
    · cases hout
    · cases hout
    · exact (same_of_step hstep (hl s List.mem_cons_self)).trans
        (ih hrest fun s' hs => hl s' (List.mem_cons_of_mem s hs))

end Same

/-! ## What the stages behind have filled -/

/-- a context that is filled by the stages `through`, with the exchanges `es` -/
structure Filled (es : List Asked) (through : List Stage) (u : Deploy) : Prop where
  images : .pushImages ∈ through → u.images.isSome
  /-- the previous text is what was read -/
  previous : .readPriorState ∈ through → readings es = [u.previous]
  generated : .generateFiles ∈ through → u.generated.isSome
  /-- the secrets are what was answered -/
  secrets : .retrieveSecrets ∈ through →
    ∃ account secrets, u.secrets = some secrets ∧ (⟨.call (.readSecrets account), .ok secrets⟩ : Asked) ∈ es

theorem filled_nil (d : Deploy) : Filled [] [] d where
  images h := absurd h List.not_mem_nil
  previous h := absurd h List.not_mem_nil
  generated h := absurd h List.not_mem_nil
  secrets h := absurd h List.not_mem_nil

/-- one stage more is behind -/
theorem Filled.step (h : Filled es through u) (hes : ∀ e ∈ es, e.1.IsOf through)
    (hstep : (step s u).Play own (.ok u')) (hnew : s ∉ through) :
    Filled (es ++ (Pipeline.opening s ++ own)) (through ++ [s]) u' := by
  have hsame := same_of_step (P := (· ∈ through)) hstep hnew
  have hgained := gained_of_step hstep
  have hreadings : readings (es ++ (Pipeline.opening s ++ own)) = readings es ++ readings own := by
    rw [readings_append, readings_append]
    rfl
  refine ⟨fun hs => ?_, fun hs => ?_, fun hs => ?_, fun hs => ?_⟩ <;>
    rw [List.mem_append, List.mem_singleton] at hs <;> rcases hs with hs | rfl
  · rw [hsame.images hs]
    exact h.images hs
  · obtain ⟨images, rfl⟩ := hgained
    rfl
  · have hother : s ≠ .readPriorState := fun heq => hnew (heq ▸ hs)
    have hown := readings_eq_nil (hstep.asked (step_asksOnly s u)) (by simpa using hother.symm)
    rw [hreadings, hown, List.append_nil, hsame.previous hs]
    exact h.previous hs
  · obtain ⟨previous, hread, rfl⟩ := hgained
    rw [hreadings, readings_eq_nil hes hnew, hread]
    rfl
  · rw [hsame.generated hs]
    exact h.generated hs
  · obtain ⟨text, rfl⟩ := hgained
    rfl
  · obtain ⟨account, secrets, hsecrets, hanswer⟩ := h.secrets hs
    exact ⟨account, secrets, (hsame.secrets hs).trans hsecrets, List.mem_append_left _ hanswer⟩
  · obtain ⟨secrets, rfl, rfl⟩ := hgained
    exact ⟨u.account, secrets, rfl, by simp⟩

theorem play_stage_ok_iff :
    (Pipeline.run (stages [s]) d).Play es (.ok (u, .ok ())) ↔
      ∃ own, es = Pipeline.opening s ++ own ∧ (step s d).Play own (.ok u) := by
  rw [play_stages_cons_iff]
  constructor
  · rintro (⟨_, hout⟩ | ⟨_, _, _, _, hout⟩ | ⟨_, own, _, rfl, hstep, hrest⟩)
    · cases hout
    · cases hout
    · obtain ⟨rfl, hout⟩ := play_stages_nil_iff.1 hrest
      cases hout
      exact ⟨own, by rw [List.append_nil], hstep⟩
  · rintro ⟨own, rfl, hstep⟩
    exact .inr (.inr ⟨u, own, [], by rw [List.append_nil], hstep, play_stages_nil_iff.2 ⟨rfl, rfl⟩⟩)

/-- stages that went through have filled their fields -/
theorem filled_of_stages (hrun : (Pipeline.run (stages through) d).Play es (.ok (u, .ok ())))
    (hnodup : through.Nodup) : Filled es through u := by
  induction through using List.reverseRecOn generalizing es u with
  | nil =>
    obtain ⟨rfl, hout⟩ := play_stages_nil_iff.1 hrun
    cases hout
    exact filled_nil d
  | append_singleton before s ih =>
    rcases play_stages_append_iff.1 hrun with ⟨_, _, hout, _⟩ | ⟨v, es₁, es₂, rfl, hbefore, hlast⟩
    · cases hout
    obtain ⟨own, rfl, hstep⟩ := play_stage_ok_iff.1 hlast
    have hnew : s ∉ before := fun hs => List.disjoint_of_nodup_append hnodup hs (List.mem_singleton_self s)
    have hes := hbefore.asked (stages_asksOnly before d)
    exact (ih hbefore hnodup.of_append_left).step hes hstep hnew

/-! ## Points of a run -/

/-- a deploy that was started from `d` can be at this point after `es`: the stages `through` are behind and left `u`,
and what was exchanged since is a part of what the next stage exchanges -/
def At (d : Deploy) (es : List Asked) (through : List Stage) (u : Deploy) : Prop :=
  ∃ rest es₁ es₂, Stage.all = through ++ rest ∧ es = es₁ ++ es₂ ∧
    (Pipeline.run (stages through) d).Play es₁ (.ok (u, .ok ())) ∧
    (Pipeline.run (stages (rest.take 1)) u).Begins es₂

theorem nodup_all : Stage.all.Nodup := by decide

/-- **At every point, the stages behind have filled their fields.** -/
theorem filled_of_at (h : At d es through u) : Filled es through u := by
  obtain ⟨rest, es₁, es₂, hall, rfl, hthrough, hnext⟩ := h
  have hnodup : (through ++ rest).Nodup := hall ▸ nodup_all
  have hfilled := filled_of_stages hthrough hnodup.of_append_left
  refine { hfilled with previous := fun hread => ?_, secrets := fun hretrieve => ?_ }
  · -- the stage that reads is behind, so the next one does not read
    have hnot : Stage.readPriorState ∉ rest.take 1 := fun hin =>
      List.disjoint_of_nodup_append hnodup hread (List.mem_of_mem_take hin)
    rw [readings_append, readings_eq_nil (hnext.asked (stages_asksOnly _ _)) hnot, List.append_nil]
    exact hfilled.previous hread
  · obtain ⟨account, secrets, hsecrets, hanswer⟩ := hfilled.secrets hretrieve
    exact ⟨account, secrets, hsecrets, List.mem_append_left _ hanswer⟩

/-- what the stages behind do not fill is as it was at the start -/
theorem same_of_start (h : At d es through u) : Same (· ∉ through) d u := by
  obtain ⟨_, _, _, _, _, hthrough, _⟩ := h
  exact same_of_stages hthrough fun s hs hnot => hnot hs

/-- nothing is found out yet -/
structure IsNew (d : Deploy) : Prop where
  images : d.images = none
  previous : d.previous = none
  generated : d.generated = none
  secrets : d.secrets = none

/-- a context after the stages `through` and the exchanges `es`, in a deploy that was started from `d` with nothing
found out -/
structure Found (d : Deploy) (es : List Asked) (through : List Stage) (u : Deploy) : Prop where
  aim : u.aim = d.aim
  images : u.images.isSome ↔ .pushImages ∈ through
  generated : u.generated.isSome ↔ .generateFiles ∈ through
  secrets : u.secrets.isSome ↔ .retrieveSecrets ∈ through
  /-- the previous text is what was read -/
  read : .readPriorState ∈ through → readings es = [u.previous]
  unread : .readPriorState ∉ through → u.previous = none

/-- **At every point, a field is filled just if the stage that fills it is behind.** -/
theorem found_of_at (hd : d.IsNew) (h : At d es through u) : Found d es through u := by
  have hfilled := filled_of_at h
  have hsame := same_of_start h
  refine ⟨hsame.aim, ⟨fun hsome => ?_, hfilled.images⟩, ⟨fun hsome => ?_, hfilled.generated⟩,
    ⟨fun hsome => ?_, fun hs => ?_⟩, hfilled.previous, fun hs => (hsame.previous hs).trans hd.previous⟩
  · by_contra hs
    rw [hsame.images hs, hd.images] at hsome
    cases hsome
  · by_contra hs
    rw [hsame.generated hs, hd.generated] at hsome
    cases hsome
  · by_contra hs
    rw [hsame.secrets hs, hd.secrets] at hsome
    cases hsome
  · obtain ⟨_, _, hsecrets, _⟩ := hfilled.secrets hs
    rw [hsecrets]
    rfl

/-- wherever a run is cut, some of its stages are behind, and what was exchanged since belongs to the next one -/
theorem exists_cut (h : (Pipeline.run (stages l) d).Play (es ++ es') (.ok (t, x))) :
    ∃ done rest u es₁ es₂, l = done ++ rest ∧ es = es₁ ++ es₂ ∧
      (Pipeline.run (stages done) d).Play es₁ (.ok (u, .ok ())) ∧
      (Pipeline.run (stages (rest.take 1)) u).Begins es₂ := by
  induction l generalizing d es es' with
  | nil =>
    obtain ⟨hes, -⟩ := play_stages_nil_iff.1 h
    obtain ⟨rfl, rfl⟩ := List.append_eq_nil_iff.1 hes
    exact ⟨[], [], d, [], [], rfl, rfl, play_stages_nil_iff.2 ⟨rfl, rfl⟩, h.begins⟩
  | cons s l ih =>
    have here (more : List Asked) (out : Deploy × Except StageFault Unit)
        (hplay : (Pipeline.run (stages [s]) d).Play (es ++ more) (.ok out)) :
        ∃ done rest u es₁ es₂, s :: l = done ++ rest ∧ es = es₁ ++ es₂ ∧
          (Pipeline.run (stages done) d).Play es₁ (.ok (u, .ok ())) ∧
          (Pipeline.run (stages (rest.take 1)) u).Begins es₂ :=
      ⟨[], s :: l, d, [], es, rfl, rfl, play_stages_nil_iff.2 ⟨rfl, rfl⟩, more, _, hplay⟩
    rcases play_stages_cons_iff.1 h with ⟨hes, hout⟩ | ⟨f, own, hes, hstep, hout⟩ | ⟨v, own, es₂, hes, hstep, hrest⟩
    · exact here _ _ (play_stages_cons_iff.2 (.inl ⟨hes, rfl⟩))
    · exact here _ _ (play_stages_cons_iff.2 (.inr (.inl ⟨f, own, hes, hstep, rfl⟩)))
    · rw [← List.append_assoc] at hes
      rcases List.append_eq_append_iff.1 hes with ⟨more, hopened, -⟩ | ⟨es₃, rfl, rfl⟩
      · refine here more (v, .ok ()) ?_
        rw [← hopened]
        exact play_stage_ok_iff.2 ⟨own, rfl, hstep⟩
      · obtain ⟨done, rest, u, es₁, es₄, rfl, rfl, hdone, hnext⟩ := ih hrest
        refine ⟨s :: done, rest, u, Pipeline.opening s ++ (own ++ es₁), es₄, rfl, by simp, ?_, hnext⟩
        exact play_stages_cons_iff.2 (.inr (.inr ⟨v, own, es₁, rfl, hstep, hdone⟩))

/-- a run is at some point all the time -/
theorem exists_at (h : d.run.Play es (.ok (t, x))) (hes : es' <+: es) : ∃ through u, At d es' through u := by
  obtain ⟨more, rfl⟩ := hes
  obtain ⟨done, rest, u, es₁, es₂, hall, rfl, hdone, hnext⟩ := exists_cut (l := Stage.all) h
  exact ⟨done, u, rest, es₁, es₂, hall, rfl, hdone, hnext⟩

/-- **What is filled at one point of a run is the same at every later one.** -/
theorem same_of_at {es₁ es₂ : List Asked} (hes₁ : es₁ <+: es) (hes₂ : es₂ <+: es) (h : At d es₁ through u)
    (h' : At d es₂ through' u') (hlater : through <+: through') : Same (· ∈ through) u u' := by
  obtain ⟨more, rfl⟩ := hlater
  obtain ⟨_, before, _, _, rfl, hthrough, -⟩ := h
  obtain ⟨rest, before', _, hall, rfl, hthrough', -⟩ := h'
  rcases play_stages_append_iff.1 hthrough' with ⟨_, _, hout, _⟩ | ⟨v, before'', own, rfl, hsame, hmore⟩
  · cases hout
  -- both points stand behind the same stages, and the run has one play of them
  obtain ⟨-, hcontext⟩ := hthrough.unique hsame ((List.prefix_append _ _).trans hes₁)
    (((List.prefix_append _ _).trans (List.prefix_append _ _)).trans hes₂)
  cases hcontext
  have hnodup : ((through ++ more) ++ rest).Nodup := hall ▸ nodup_all
  exact same_of_stages hmore fun s hs hin => List.disjoint_of_nodup_append hnodup.of_append_left hin hs

/-! ## How a run ends -/

/-- the end of a run is a point: all stages are behind, or those before the one that is not started or fails -/
theorem exists_end (h : d.run.Play es (.ok (t, x))) :
    ∃ through, At d es through t ∧ (x = .ok () ∧ through = Stage.all ∨
      ∃ s rest f, x = .error ⟨s, f⟩ ∧ Stage.all = through ++ s :: rest ∧
        (f = .cancelled ∧ (⟨.cancelled, true⟩ : Asked) ∈ es ∨ ∃ own, own ⊆ es ∧ (step s t).Play own (.error f))) := by
  obtain ⟨done, rest, parts, u, last, look, hall, hthrough, hends, rfl⟩ := Pipeline.exists_trail h
  have hdone := Pipeline.play_run_ok_iff.2 ⟨parts, hthrough, rfl⟩
  obtain ⟨through, after, hsplit, rfl, hafter⟩ := List.map_eq_append_iff.1 hall
  refine ⟨through, ?_⟩
  rw [Pipeline.exchanged_append, List.append_assoc]
  cases hends with
  | finished u =>
    obtain rfl := List.map_eq_nil_iff.1 hafter
    rw [List.append_nil] at hsplit
    have hnext := (play_stages_nil_iff (d := t)).2 ⟨rfl, rfl⟩
    exact ⟨⟨[], _, _, by rw [hsplit, List.append_nil], rfl, hdone, hnext.begins⟩, .inl ⟨rfl, hsplit.symm⟩⟩
  | cancelled s body rest u =>
    obtain ⟨_, more, rfl, hs, rfl⟩ := List.map_eq_cons_iff.1 hafter
    cases hs
    have hnext := (play_stages_cons_iff (s := s) (l := []) (d := t)).2 (.inl ⟨rfl, rfl⟩)
    exact ⟨⟨s :: more, _, _, hsplit, rfl, hdone, hnext.begins⟩, .inr ⟨s, more, _, rfl, hsplit, .inl ⟨rfl, by simp⟩⟩⟩
  | @failed s body u v own f hbody rest =>
    obtain ⟨_, more, rfl, hs, rfl⟩ := List.map_eq_cons_iff.1 hafter
    cases hs
    obtain ⟨rfl, hstep⟩ := Pipeline.play_ofStep_error_iff.1 hbody
    have hnext := (play_stages_cons_iff (l := [])).2 (.inr (.inl ⟨f, own, rfl, hstep, rfl⟩))
    refine ⟨⟨s :: more, Pipeline.exchanged parts, Pipeline.opening s ++ own, hsplit, by simp, hdone, hnext.begins⟩,
      .inr ⟨s, more, f, rfl, hsplit, .inr ⟨own, ?_, hstep⟩⟩⟩
    intro e he
    simp [he]

/-! ## Nothing is asked for too early -/

/-- stages before the next one are behind -/
theorem mem_through {s' : Stage} (hall : Stage.all = through ++ s :: rest)
    (hbefore : ¬ List.Sublist [s, s'] Stage.all) (hne : s' ≠ s) : s' ∈ through := by
  have hmem : s' ∈ Stage.all := by cases s' <;> decide
  rw [hall, List.mem_append, List.mem_cons] at hmem
  rcases hmem with hthrough | rfl | hrest
  · exact hthrough
  · exact absurd rfl hne
  · refine absurd ?_ hbefore
    rw [hall]
    exact ((List.singleton_sublist.2 hrest).cons_cons s).trans (List.sublist_append_right _ _)

/-- the next stage finds what it needs -/
theorem supplied_of_at (h : At d es through u) (hall : Stage.all = through ++ s :: rest) : Supplied u s := by
  have hfilled := filled_of_at h
  have himages (hs : .pushImages ∈ through) : ∃ images, u.imagesOr = .ok images := by
    obtain ⟨images, himages⟩ := Option.isSome_iff_exists.1 (hfilled.images hs)
    exact ⟨images, by simp [imagesOr, himages]⟩
  cases s with
  | generateFiles => exact himages (mem_through hall (by decide) (by decide))
  | diffCheck => exact Option.isSome_iff_exists.1 (hfilled.generated (mem_through hall (by decide) (by decide)))
  | apply =>
    obtain ⟨_, secrets, hsecrets, _⟩ := hfilled.secrets (mem_through hall (by decide) (by decide))
    exact ⟨himages (mem_through hall (by decide) (by decide)), secrets, by simp [secretsOr, hsecrets]⟩
  | _ => trivial

/-- **The context of a deploy says what was found out, at every point of its run.** A run is at some point all the time.
There, each field is filled just if the stage that fills it is behind, what was known from the start is as it was, and
the next stage finds what it needs; at a later point, what was filled is the same. The run ends at the point before the
stage that fails or is not started, with the context that was left there. So a fault that says that something is not
there yet is not the deploy's own: a call failed with it. -/
theorem context_of_run (hd : d.IsNew) (h : d.run.Play es (.ok (t, x))) :
    (∀ es', es' <+: es → ∃ through u, At d es' through u) ∧
    (∀ es' through u, es' <+: es → At d es' through u →
      Found d es' through u ∧ (∀ s rest, Stage.all = through ++ s :: rest → Supplied u s) ∧
      ∀ es'' through' u', es'' <+: es → At d es'' through' u' → through <+: through' → Same (· ∈ through) u u') ∧
    (∃ through, At d es through t ∧ (x = .ok () ∧ through = Stage.all ∨
      ∃ s rest f, x = .error ⟨s, f⟩ ∧ Stage.all = through ++ s :: rest)) ∧
    ∀ s f, x = .error ⟨s, f⟩ → f.IsPremature → CallFailed es f := by
  obtain ⟨through, hat, hend⟩ := exists_end h
  refine ⟨fun _ hes => exists_at h hes, fun _ _ _ hes hpoint => ⟨found_of_at hd hpoint, ?_, ?_⟩, ⟨through, hat, ?_⟩, ?_⟩
  · exact fun s rest hall => supplied_of_at hpoint hall
  · exact fun _ _ _ hes' hpoint' hlater => same_of_at hes hes' hpoint hpoint' hlater
  · exact hend.imp_right fun ⟨s, rest, f, hx, hall, _⟩ => ⟨s, rest, f, hx, hall⟩
  · rintro s f rfl hpremature
    obtain ⟨hx, _⟩ | ⟨_, rest, _, hx, hall, hfailed⟩ := hend
    · cases hx
    cases hx
    obtain ⟨rfl, _⟩ | ⟨own, hown, hstep⟩ := hfailed
    · exact hpremature.elim
    rcases fault_of_step hstep with hcall | hfault
    · exact hcall.mono hown
    · exact absurd hpremature (not_isPremature_of_ownFault (supplied_of_at hat hall) hfault)

/-- whether a deploy ended well -/
def succeeded : Except Empty (Deploy × Except StageFault Unit) → Bool
  | .ok (_, .ok ()) => true
  | _ => false

theorem shop_finds_out : shop.IsNew ∧ ∃ t, shop.run.Play shopExchanges (.ok (t, .ok ())) ∧
    At shop shopExchanges Stage.all t ∧ Found shop shopExchanges Stage.all t := by
  have hnew : shop.IsNew := ⟨rfl, rfl, rfl, rfl⟩
  have hplay := play_run (Rehearsal.answer {}) shop.run {}
  have hsucceeded : succeeded (shop.run.run (Rehearsal.answer {}) {}).1 = true := by decide +kernel
  obtain ⟨⟨t, x⟩, hresult⟩ := Action.exists_result hplay
  rw [hresult] at hplay hsucceeded
  obtain ⟨-, hpoints, ⟨through, hat, hend⟩, -⟩ := context_of_run hnew hplay
  cases x with
  | error f => cases hsucceeded
  | ok _ =>
    obtain ⟨-, rfl⟩ | ⟨_, _, _, hx, _⟩ := hend
    · exact ⟨hnew, t, hplay, hat, (hpoints _ _ _ (List.prefix_refl _) hat).1⟩
    · cases hx

end Fleet.Deploy
