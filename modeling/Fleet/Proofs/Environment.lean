/-
How the environment of a deployed service comes about, and how it is written as one text.

- `inCloud_eq_ok_iff`: it is there just if every secret that it needs is in the store. Then its layers are those of the
  dependencies in scope, what is configured, the secrets, and the origins of the others, one over the other.
- `fault_of_inCloud`: it fails with a secret that is not in the store, or because there is no such service.
- `decode_encode`: an environment is decoded from its own text, whatever characters its names and values have.
- `encode_is_undone`: so no two environments have the same text; the text has no control characters; and a text that
  was spelled otherwise decodes to an environment whose own text decodes to the same.
-/
import Fleet.Environment
import Fleet.Proofs.Json
import Fleet.Proofs.SortedMap

namespace Fleet.Environment

open Json

variable {p : Project} {role : String} {origins : Endpoints} {secrets : Secrets} {vars vars' : Variables}
  {l : List Dependency} {keys : List String}

/-! ## In layers -/

theorem overlayDependencies_eq_ok_iff : overlayDependencies p secrets vars l = .ok vars' ↔
    ∃ layers, List.Forall₂ (fun d layer => d.deployedVariables p secrets = .ok layer) l layers ∧
      vars' = overlay vars layers := by
  induction l generalizing vars with
  | nil => simp [overlayDependencies, overlay, eq_comm]
  | cons d l ih =>
    simp only [overlayDependencies, List.forall₂_cons_left_iff]
    cases hlayer : d.deployedVariables p secrets with
    | error f => simp
    | ok layer =>
      rw [ih]
      constructor
      · rintro ⟨layers, hlayers, rfl⟩
        exact ⟨_, ⟨layer, layers, rfl, hlayers, rfl⟩, rfl⟩
      · rintro ⟨_, ⟨_, layers, hsame, hlayers, rfl⟩, rfl⟩
        cases hsame
        exact ⟨layers, hlayers, rfl⟩

theorem overlaySecrets_eq_ok_iff : overlaySecrets secrets vars keys = .ok vars' ↔
    (∀ k ∈ keys, k ∈ secrets.keys) ∧ vars' = vars.insertAll (foundSecrets secrets.get? keys) := by
  induction keys generalizing vars with
  | nil => simp [overlaySecrets, foundSecrets, SortedMap.insertAll, eq_comm]
  | cons k keys ih =>
    simp only [overlaySecrets, List.forall_mem_cons, SortedMap.mem_keys_iff (k := k)]
    cases hfound : secrets.get? k with
    | none => simp
    | some v =>
      rw [ih]
      simp [foundSecrets, hfound, SortedMap.insertAll]

/-- the layers of a deployed service's environment, one over the other -/
def assembled (role : String) (s : Service) (layers : List Variables) (secrets : Secrets) (origins : Endpoints) :
    Variables :=
  let configured := (overlay (.singleton roleVariable role) layers).merge s.inCloud.environment
  (configured.insertAll (foundSecrets secrets.get? s.inCloud.secrets)).merge (origins.variablesFor role)

/-- **An environment is made of the layers of all dependencies in scope.** It is there just if the secrets are: those of
the dependencies, and those that are declared for the service. -/
theorem inCloud_eq_ok_iff : inCloud p role origins secrets = .ok vars ↔
    ∃ s layers, p.services.get? role = some s ∧
      List.Forall₂ (fun d layer => d.deployedVariables p secrets = .ok layer) (p.dependenciesOf role .inCloud) layers ∧
      (∀ k ∈ s.inCloud.secrets, k ∈ secrets.keys) ∧ vars = assembled role s layers secrets origins := by
  simp only [inCloud, Project.service]
  cases hservice : p.services.get? role with
  | none => simp
  | some s =>
    simp only
    constructor
    · intro h
      split at h
      · cases h
      rename_i fromDependencies hdependencies
      split at h
      · cases h
      rename_i withSecrets hsecrets
      cases h
      obtain ⟨layers, hlayers, rfl⟩ := overlayDependencies_eq_ok_iff.1 hdependencies
      obtain ⟨hstored, rfl⟩ := overlaySecrets_eq_ok_iff.1 hsecrets
      exact ⟨s, layers, rfl, hlayers, hstored, rfl⟩
    · rintro ⟨_, layers, hsame, hlayers, hstored, rfl⟩
      cases hsame
      rw [overlayDependencies_eq_ok_iff.2 ⟨layers, hlayers, rfl⟩]
      simp only
      rw [overlaySecrets_eq_ok_iff.2 ⟨hstored, rfl⟩]
      rfl

/-! ## Without a secret -/

theorem secretMissing_of_overlayDependencies {f : Fault} (h : overlayDependencies p secrets vars l = .error f) :
    ∃ k, k ∉ secrets.keys ∧ f = .secretMissing k := by
  induction l generalizing vars with
  | nil => cases h
  | cons d l ih =>
    simp only [overlayDependencies, Dependency.deployedVariables] at h
    split at h
    · rename_i hvariables
      cases h
      split at hvariables
      · cases hvariables
      · rename_i name secret _
        split at hvariables
        · cases hvariables
        · rename_i hmissing
          cases hvariables
          exact ⟨secret, by simp [SortedMap.mem_keys_iff, hmissing], rfl⟩
    · exact ih h

theorem secretMissing_of_overlaySecrets {f : Fault} (h : overlaySecrets secrets vars keys = .error f) :
    ∃ k, k ∉ secrets.keys ∧ f = .secretMissing k := by
  induction keys generalizing vars with
  | nil => cases h
  | cons k keys ih =>
    simp only [overlaySecrets] at h
    split at h
    · exact ih h
    · rename_i hmissing
      cases h
      exact ⟨k, by simp [SortedMap.mem_keys_iff, hmissing], rfl⟩

/-- a deployed service has no environment if it is not there, or if a secret is not in the store -/
theorem fault_of_inCloud {f : Fault} (h : inCloud p role origins secrets = .error f) :
    p.service role = .error f ∨ ∃ k, k ∉ secrets.keys ∧ f = .secretMissing k := by
  simp only [inCloud] at h
  split at h
  · rename_i hservice
    cases h
    exact .inl hservice
  split at h
  · rename_i hdependencies
    cases h
    exact .inr (secretMissing_of_overlayDependencies hdependencies)
  split at h
  · rename_i hsecrets
    cases h
    exact .inr (secretMissing_of_overlaySecrets hsecrets)
  · cases h

/-! ## As one text -/

theorem readPair_pairJson (e : String × String) : readPair (pairJson e) = some e := rfl

theorem readPairs_pairs (l : List (String × String)) : readPairs (l.map pairJson) = some l := by
  induction l with
  | nil => rfl
  | cons e l ih => simp [readPairs, readPair_pairJson, ih]

theorem spelled_pairs (l : List (String × String)) : (Json.array (l.map pairJson)).Spelled := by
  refine .array fun j hj => ?_
  obtain ⟨e, _, rfl⟩ := List.mem_map.1 hj
  refine .record fun m hm => ?_
  simp only [List.mem_cons, List.not_mem_nil, or_false] at hm
  rcases hm with rfl | rfl
  · exact .text e.1
  · exact .text e.2

/-- **An environment is decoded from its own text.** -/
theorem decode_encode (vars : Variables) : decode (encode vars) = .ok vars := by
  have houter : parse (encode vars) = some (.text (Json.array (vars.entries.map pairJson)).compact) :=
    (Spelled.text _).parse_compact
  have hinner := (spelled_pairs vars.entries).parse_compact
  simp only [decode, houter, Json.text, hinner, readPairs_pairs, SortedMap.ofList_entries]

/-- **Encoding is undone by decoding.** An environment is decoded from its text, which is printable throughout, so no
two environments have the same text. A text that decodes at all decodes to an environment that can be encoded again. -/
theorem encode_is_undone :
    (∀ vars, decode (encode vars) = .ok vars ∧ ∀ c ∈ (encode vars).toList, 0x20 ≤ c.toNat) ∧
    Function.Injective encode ∧ ∀ text vars, decode text = .ok vars → decode (encode vars) = .ok vars := by
  refine ⟨fun vars => ⟨decode_encode vars, fun c hc => ?_⟩, fun vars vars' h => ?_, fun _ vars _ => decode_encode vars⟩
  · rw [encode, compact, String.toList_ofList] at hc
    exact printable_of_mem_quote hc
  · have hdecoded := decode_encode vars
    rw [h, decode_encode] at hdecoded
    exact (Except.ok.inj hdecoded).symm

/-- a text of plain pairs, one name twice, with characters that are escaped two times over -/
theorem plain_pairs_are_spelled_anew :
    let text := "\"[[\\\"MOTTO\\\",\\\"none\\\"],[\\\"MOTTO\\\",\\\"say \\\\\\\"é\\\\\\\"\\\\u0001\\\"]]\""
    let vars := SortedMap.singleton "MOTTO" "say \"é\"\x01"
    decode text = .ok vars ∧ encode vars ≠ text ∧ decode (encode vars) = .ok vars := by
  intro text vars
  have hdecoded : decode text = .ok vars := by decide +kernel
  exact ⟨hdecoded, by decide +kernel, encode_is_undone.2.2 text vars hdecoded⟩

end Fleet.Environment
