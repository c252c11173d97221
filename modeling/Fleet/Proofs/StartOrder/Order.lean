/-
Starting orders of compositions.

- `startGraph_of_closed`: where every component that is depended on is there, the graph is that of the dependencies
  (`Drawn`).
- `startOrder_cases`: then there is a starting order, or the fault names a component that depends on itself by some way.
- `startOrder_of_firstUndefined`: otherwise the fault names the first target that is no component.
- `answer_of_startOrder`: there is a starting order just if nothing is undefined and nothing depends on itself.
-/
import Fleet.Proofs.SortedMap
import Fleet.Proofs.StartOrder.Cycle

namespace Fleet.Composition

open Relation StartGraph

variable {c : Composition} {g : StartGraph} {names order : List String} {a b m n : Nat} {name target : String}

/-- a component of this name declares that it depends on that one -/
def DependsOn (c : Composition) (name target : String) : Prop :=
  ∃ spec, c.services.get? name = some spec ∧ target ∈ spec.dependsOn

/-- whatever a component depends on is a component -/
def Closed (c : Composition) : Prop := ∀ name target, c.DependsOn name target → target ∈ c.services.keys

/-- no component depends on itself, by any way -/
def Acyclic (c : Composition) : Prop := ∀ name, ¬ TransGen c.DependsOn name name

theorem closed_iff : c.Closed ↔ ∀ e ∈ c.services.entries, ∀ t ∈ e.2.dependsOn, t ∈ c.services.keys := by
  constructor
  · intro h e he t ht
    exact h e.1 t ⟨e.2, SortedMap.mem_entries_iff.1 he, ht⟩
  · rintro h name target ⟨spec, hget, ht⟩
    exact h (name, spec) (SortedMap.mem_entries_iff.2 hget) target ht

/-! ## Numbers and edges -/

theorem numberOf?_eq_some_iff (hnodup : names.Nodup) : numberOf? names name = some n ↔ names[n]? = some name := by
  unfold numberOf?
  rw [List.findIdx?_eq_some_iff_getElem]
  constructor
  · rintro ⟨hn, heq, _⟩
    rw [List.getElem?_eq_getElem hn, of_decide_eq_true heq]
  · intro h
    obtain ⟨hn, rfl⟩ := List.getElem?_eq_some_iff.1 h
    refine ⟨hn, by simp, fun j hj => ?_⟩
    have hne : names[j] ≠ names[n] := by
      intro heq
      have hsame := (List.Nodup.getElem_inj_iff hnodup).1 heq
      omega
    simpa using hne

theorem numberOf?_eq_none (h : name ∉ names) : numberOf? names name = none := by
  unfold numberOf?
  rw [List.findIdx?_eq_none_iff]
  intro other hother
  have hne : other ≠ name := by
    rintro rfl
    exact h hother
  simpa using hne

theorem exists_numberOf? (h : name ∈ names) : ∃ n, numberOf? names name = some n := by
  unfold numberOf?
  rw [← Option.isSome_iff_exists, List.findIdx?_isSome, List.any_eq_true]
  exact ⟨name, h, by simp⟩

theorem addTargets_of_mem (dependent : String) {targets : List String} (h : ∀ t ∈ targets, t ∈ names) :
    ∃ g', addTargets names dependent n g targets = .ok g' ∧ g'.names = g.names ∧
      ∀ a b, g'.Edge a b ↔ g.Edge a b ∨ b = n ∧ ∃ t ∈ targets, numberOf? names t = some a := by
  induction targets generalizing g with
  | nil => exact ⟨g, rfl, rfl, by simp⟩
  | cons target rest ih =>
    obtain ⟨htarget, hrest⟩ := List.forall_mem_cons.1 h
    obtain ⟨m, hm⟩ := exists_numberOf? htarget
    obtain ⟨g', hadd, hnames, hedges⟩ := ih (g := g.addDependency n m) hrest
    refine ⟨g', by rw [addTargets, hm]; exact hadd, hnames, fun a b => ?_⟩
    have hfirst : (g.addDependency n m).Edge a b ↔ g.Edge a b ∨ b = n ∧ numberOf? names target = some a := by
      rw [hm, Option.some_inj]
      simp only [Edge, addDependency, List.mem_cons, Prod.mk.injEq]
      grind
    rw [hedges, hfirst]
    simp only [List.mem_cons, exists_eq_or_imp]
    grind

theorem addEdges_of_mem {l : List (String × Container)} (h : ∀ e ∈ l, ∀ t ∈ e.2.dependsOn, t ∈ names) :
    ∃ g', addEdges names n g l = .ok g' ∧ g'.names = g.names ∧ ∀ a b, g'.Edge a b ↔ g.Edge a b ∨
      ∃ e, (e, b) ∈ l.zipIdx n ∧ ∃ t ∈ e.2.dependsOn, numberOf? names t = some a := by
  induction l generalizing g n with
  | nil => exact ⟨g, rfl, rfl, by simp⟩
  | cons e rest ih =>
    obtain ⟨hfirst, hrest⟩ := List.forall_mem_cons.1 h
    obtain ⟨g₁, hadd, hnames, hedges⟩ := addTargets_of_mem (g := g) (n := n) e.1 hfirst
    obtain ⟨g', hothers, hnames', hedges'⟩ := ih (g := g₁) (n := n + 1) hrest
    refine ⟨g', by rw [addEdges, hadd]; exact hothers, hnames'.trans hnames, fun a b => ?_⟩
    rw [hedges', hedges, List.zipIdx_cons]
    constructor
    · rintro ((hold | ⟨rfl, ht⟩) | ⟨e', hin, ht⟩)
      · exact .inl hold
      · exact .inr ⟨e, List.mem_cons_self, ht⟩
      · exact .inr ⟨e', List.mem_cons_of_mem _ hin, ht⟩
    · rintro (hold | ⟨e', hin, ht⟩)
      · exact .inl (.inl hold)
      · rcases List.mem_cons.1 hin with heq | hin
        · cases heq
          exact .inl (.inr ⟨rfl, ht⟩)
        · exact .inr ⟨e', hin, ht⟩

/-- the graph of the composition's components and dependencies -/
structure Drawn (c : Composition) (g : StartGraph) : Prop where
  names : g.names = c.services.keys
  edges : ∀ a b, g.Edge a b ↔ ∃ name target, c.services.keys[b]? = some name ∧ c.services.keys[a]? = some target ∧
    c.DependsOn name target

/-- **Where every component that is depended on is there, the graph has just the edges of the dependencies.** -/
theorem startGraph_of_closed (h : c.Closed) : ∃ g, c.startGraph = .ok g ∧ c.Drawn g := by
  have htargets := closed_iff.1 h
  obtain ⟨g, hg, hnames, hedges⟩ := addEdges_of_mem (g := ⟨c.services.keys, []⟩) (n := 0) htargets
  refine ⟨g, hg, hnames, fun a b => ?_⟩
  have hnone : ¬ Edge ⟨c.services.keys, []⟩ a b := nofun
  have hkey (b : Nat) : c.services.keys[b]? = (c.services.entries[b]?).map Prod.fst := List.getElem?_map
  simp only [hedges, hnone, false_or, List.mk_mem_zipIdx_iff_getElem?, numberOf?_eq_some_iff c.services.nodup_keys]
  constructor
  · rintro ⟨e, hin, target, ht, ha⟩
    have hget := SortedMap.mem_entries_iff.1 (List.mem_of_getElem? hin)
    exact ⟨e.1, target, by rw [hkey, hin]; rfl, ha, e.2, hget, ht⟩
  · rintro ⟨name, target, hb, ha, spec, hget, ht⟩
    rw [hkey, Option.map_eq_some_iff] at hb
    obtain ⟨⟨_, spec'⟩, hin, rfl⟩ := hb
    have hget' := SortedMap.mem_entries_iff.1 (List.mem_of_getElem? hin)
    rw [hget, Option.some_inj] at hget'
    exact ⟨_, hin, target, hget' ▸ ht, ha⟩

theorem Drawn.proper (h : c.Drawn g) : g.Proper := by
  intro m n hedge
  obtain ⟨name, target, hn, hm, _⟩ := (h.edges m n).1 hedge
  rw [StartGraph.size, h.names]
  exact ⟨(List.getElem?_eq_some_iff.1 hm).1, (List.getElem?_eq_some_iff.1 hn).1⟩

theorem Drawn.getD_eq (h : c.Drawn g) (hn : c.services.keys[n]? = some name) : g.names.getD n "" = name := by
  rw [h.names, List.getD, hn, Option.getD_some]

theorem Drawn.map_range (h : c.Drawn g) : (List.range g.size).map (fun n => g.names.getD n "") = c.services.keys := by
  rw [← h.names]
  refine List.ext_getElem (by simp [StartGraph.size]) fun i hi hi' => ?_
  simp [List.getD, hi']

/-- a path of edges is a path of dependencies the other way round -/
theorem Drawn.depends_of_leads (h : c.Drawn g) (hpath : g.Leads m n) : ∃ name target, c.services.keys[n]? = some name ∧
    c.services.keys[m]? = some target ∧ TransGen c.DependsOn name target := by
  induction hpath with
  | single hedge =>
    obtain ⟨name, target, hn, hm, hdepends⟩ := (h.edges _ _).1 hedge
    exact ⟨name, target, hn, hm, .single hdepends⟩
  | tail _ hedge ih =>
    obtain ⟨middle, target, hk, hm, hrest⟩ := ih
    obtain ⟨name, middle', hn, hk', hdepends⟩ := (h.edges _ _).1 hedge
    rw [hk, Option.some_inj] at hk'
    exact ⟨name, target, hn, hm, .head (hk' ▸ hdepends) hrest⟩

/-! ## Orders -/

/-- all components, each once, after those they depend on -/
structure IsOrder (c : Composition) (order : List String) : Prop where
  perm : order.Perm c.services.keys
  after : ∀ name target, c.DependsOn name target → [target, name].Sublist order

theorem IsOrder.nodup (h : c.IsOrder order) : order.Nodup := h.perm.nodup_iff.2 (SortedMap.nodup_keys _)

/-- **Where nothing is undefined, there is a starting order, or a component that depends on itself is named.** -/
theorem startOrder_cases (hclosed : c.Closed) : (∃ order, c.startOrder = .ok order ∧ c.IsOrder order) ∨
    ∃ name, c.startOrder = .error (.unresolved name .cycle) ∧ TransGen c.DependsOn name name := by
  obtain ⟨g, hg, hdrawn⟩ := startGraph_of_closed hclosed
  have hunfold : c.startOrder = g.order := by rw [startOrder, hg]; rfl
  rcases order_cases hdrawn.proper with ⟨nodes, horder, hperm, hforward⟩ | ⟨n, hfault, hloop⟩
  · refine .inl ⟨_, hunfold.trans horder, hdrawn.map_range ▸ hperm.map _, fun name target hdepends => ?_⟩
    obtain ⟨m, hm⟩ := List.getElem?_of_mem (hclosed name target hdepends)
    obtain ⟨spec, hspec, _⟩ := id hdepends
    obtain ⟨n, hn⟩ := List.getElem?_of_mem (SortedMap.mem_keys_iff.2 ⟨spec, hspec⟩)
    have hsub := (hforward m n ((hdrawn.edges m n).2 ⟨name, target, hn, hm, hdepends⟩)).map fun n => g.names.getD n ""
    rwa [List.map_cons, List.map_singleton, hdrawn.getD_eq hm, hdrawn.getD_eq hn] at hsub
  · obtain ⟨name, target, hn, hm, hpath⟩ := hdrawn.depends_of_leads hloop
    rw [hn, Option.some_inj] at hm
    refine .inr ⟨name, hunfold.trans (hfault.trans ?_), hm ▸ hpath⟩
    rw [cycleFault, hdrawn.getD_eq hn]

/-- along dependencies one comes to the front of an order -/
theorem IsOrder.idxOf_lt (h : c.IsOrder order) (hpath : TransGen c.DependsOn name target) :
    order.idxOf target < order.idxOf name := by
  induction hpath with
  | single hdepends => exact idxOf_lt_of_pair_sublist h.nodup (h.after _ _ hdepends)
  | tail _ hdepends ih => exact (idxOf_lt_of_pair_sublist h.nodup (h.after _ _ hdepends)).trans ih

theorem IsOrder.acyclic (h : c.IsOrder order) : c.Acyclic := fun _ hloop => Nat.lt_irrefl _ (h.idxOf_lt hloop)

/-- **Where nothing is undefined and no component depends on itself, there is a starting order.** -/
theorem startOrder_of_acyclic (hclosed : c.Closed) (hacyclic : c.Acyclic) :
    ∃ order, c.startOrder = .ok order ∧ c.IsOrder order := by
  rcases startOrder_cases hclosed with horder | ⟨name, _, hloop⟩
  · exact horder
  · exact absurd hloop (hacyclic name)

/-! ## Undefined targets -/

/-- the first component, by name, that depends on something that is no component, and the first such target it lists -/
def FirstUndefined (c : Composition) (name target : String) : Prop :=
  ∃ before spec after earlier later, c.services.entries = before ++ (name, spec) :: after ∧
    spec.dependsOn = earlier ++ target :: later ∧ target ∉ c.services.keys ∧
    (∀ t ∈ earlier, t ∈ c.services.keys) ∧ ∀ e ∈ before, ∀ t ∈ e.2.dependsOn, t ∈ c.services.keys

theorem exists_firstUndefined (h : ¬ c.Closed) : ∃ name target, c.FirstUndefined name target := by
  obtain ⟨before, ⟨name, spec⟩, after, hentries, hfirst, hbefore⟩ := exists_first_not fun hall => h (closed_iff.2 hall)
  obtain ⟨earlier, target, later, htargets, htarget, hearlier⟩ := exists_first_not hfirst
  exact ⟨name, target, before, spec, after, earlier, later, hentries, htargets, htarget, hearlier, hbefore⟩

theorem addTargets_of_undefined (dependent : String) {earlier later : List String} (h : ∀ t ∈ earlier, t ∈ names)
    (htarget : target ∉ names) : addTargets names dependent n g (earlier ++ target :: later) =
      .error (.unresolved target (.undefinedDependency dependent)) := by
  induction earlier generalizing g with
  | nil => rw [List.nil_append, addTargets, numberOf?_eq_none htarget]
  | cons t earlier ih =>
    obtain ⟨ht, hrest⟩ := List.forall_mem_cons.1 h
    obtain ⟨m, hm⟩ := exists_numberOf? ht
    rw [List.cons_append, addTargets, hm]
    exact ih hrest

theorem addEdges_of_undefined {before after : List (String × Container)} {spec : Container}
    {earlier later : List String}
    (hbefore : ∀ e ∈ before, ∀ t ∈ e.2.dependsOn, t ∈ names) (hspec : spec.dependsOn = earlier ++ target :: later)
    (hearlier : ∀ t ∈ earlier, t ∈ names) (htarget : target ∉ names) :
    addEdges names n g (before ++ (name, spec) :: after) = .error (.unresolved target (.undefinedDependency name)) := by
  induction before generalizing g n with
  | nil => rw [List.nil_append, addEdges, hspec, addTargets_of_undefined name hearlier htarget]
  | cons e before ih =>
    obtain ⟨hfirst, hrest⟩ := List.forall_mem_cons.1 hbefore
    obtain ⟨g₁, hadd, _⟩ := addTargets_of_mem (g := g) (n := n) e.1 hfirst
    rw [List.cons_append, addEdges, hadd]
    exact ih hrest

/-- **The first target that is no component is named, with the component that lists it.** -/
theorem startOrder_of_firstUndefined (h : c.FirstUndefined name target) :
    c.startOrder = .error (.unresolved target (.undefinedDependency name)) := by
  obtain ⟨before, spec, after, earlier, later, hentries, htargets, htarget, hearlier, hbefore⟩ := h
  rw [startOrder, startGraph, hentries, addEdges_of_undefined hbefore htargets hearlier htarget]
  rfl

/-- an answer that is an order is one, and then nothing is undefined -/
theorem isOrder_of_startOrder (h : c.startOrder = .ok order) : c.Closed ∧ c.IsOrder order := by
  have hclosed : c.Closed := by
    by_contra hopen
    obtain ⟨name, target, hfirst⟩ := exists_firstUndefined hopen
    rw [startOrder_of_firstUndefined hfirst] at h
    cases h
  rcases startOrder_cases hclosed with ⟨order', horder, hisOrder⟩ | ⟨name, hfault, _⟩
  · rw [h] at horder
    cases horder
    exact ⟨hclosed, hisOrder⟩
  · rw [h] at hfault
    cases hfault

/-- **The answer for every composition.**
- There is a starting order just if whatever a component depends on is a component, and none depends on itself by any
  way. It has all components, each once, after those they depend on.
- If something is undefined, the first such target is named, by the order of components and of what they list, with the
  component that lists it, whether there is a cycle or not.
- Otherwise, on a cycle, a component is named that lies on one. -/
theorem answer_of_startOrder (c : Composition) :
    ((∃ order, c.startOrder = .ok order) ↔ c.Closed ∧ c.Acyclic) ∧
    (∀ order, c.startOrder = .ok order → c.IsOrder order ∧ order.Nodup) ∧
    (¬ c.Closed → ∃ name target, c.FirstUndefined name target ∧
      c.startOrder = .error (.unresolved target (.undefinedDependency name))) ∧
    (c.Closed → ¬ c.Acyclic → ∃ name, c.startOrder = .error (.unresolved name .cycle) ∧
      TransGen c.DependsOn name name) := by
  refine ⟨⟨?_, ?_⟩, fun order h => ?_, fun hopen => ?_, fun hclosed hcyclic => ?_⟩
  · rintro ⟨order, h⟩
    obtain ⟨hclosed, hisOrder⟩ := isOrder_of_startOrder h
    exact ⟨hclosed, hisOrder.acyclic⟩
  · rintro ⟨hclosed, hacyclic⟩
    obtain ⟨order, h, _⟩ := startOrder_of_acyclic hclosed hacyclic
    exact ⟨order, h⟩
  · have hisOrder := (isOrder_of_startOrder h).2
    exact ⟨hisOrder, hisOrder.nodup⟩
  · obtain ⟨name, target, hfirst⟩ := exists_firstUndefined hopen
    exact ⟨name, target, hfirst, startOrder_of_firstUndefined hfirst⟩
  · rcases startOrder_cases hclosed with ⟨order, _, hisOrder⟩ | hloop
    · exact absurd hisOrder.acyclic hcyclic
    · exact hloop

/-! ## Three shops -/

def orderlyShop : Composition :=
  .mergeAll [.single "accounts" { dependsOn := ["database"] }, .single "database" {},
    .single "pages" { dependsOn := ["accounts", "database", "accounts"] }]

/-- the pages and the accounts wait for each other, and the mailer for both -/
def knottedShop : Composition :=
  .mergeAll [.single "accounts" { dependsOn := ["database", "pages"] }, .single "database" {},
    .single "mailer" { dependsOn := ["accounts", "pages"] }, .single "pages" { dependsOn := ["accounts", "accounts"] }]

/-- in this knot, the mailer waits for a queue and a cache that nobody runs -/
def tornShop : Composition :=
  knottedShop.merge (.single "mailer" { dependsOn := ["accounts", "queue", "cache"] })

/-- the first shop has an order, in the second one of those that wait for each other is named, in the third a target -/
theorem shops_are_answered : (∃ order, orderlyShop.startOrder = .ok order ∧ orderlyShop.IsOrder order) ∧
    (∃ name, knottedShop.startOrder = .error (.unresolved name .cycle) ∧ TransGen knottedShop.DependsOn name name) ∧
    ∃ name target, tornShop.FirstUndefined name target ∧
      tornShop.startOrder = .error (.unresolved target (.undefinedDependency name)) := by
  have horder : orderlyShop.startOrder = .ok ["database", "accounts", "pages"] := by decide +kernel
  have hclosed : knottedShop.Closed := closed_iff.2 (by decide +kernel)
  have hcyclic : ¬ knottedShop.Acyclic := by
    intro h
    have hpages : knottedShop.DependsOn "accounts" "pages" :=
      ⟨{ dependsOn := ["database", "pages"] }, by decide +kernel⟩
    have haccounts : knottedShop.DependsOn "pages" "accounts" :=
      ⟨{ dependsOn := ["accounts", "accounts"] }, by decide +kernel⟩
    exact h "pages" (.tail (.single haccounts) hpages)
  have hopen : ¬ tornShop.Closed := by
    rw [closed_iff]
    decide +kernel
  refine ⟨⟨_, horder, ((answer_of_startOrder orderlyShop).2.1 _ horder).1⟩, ?_, ?_⟩
  · exact (answer_of_startOrder knottedShop).2.2.2 hclosed hcyclic
  · exact (answer_of_startOrder tornShop).2.2.1 hopen

end Fleet.Composition
