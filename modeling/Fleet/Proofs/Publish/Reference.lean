/-
References of images: which tag an image is published under, and whether its names are ones that image stores take.

A reference names a registry or none, a path, and a tag or none (`ImageReference`). The image of a service that comes as
a reference is published under what stands behind the last colon of it; that of a service that is built, under the
version of the application.
- `tagOf_text`, `slash_mem_tagOf_text`: behind the last colon stands the tag, unless there is none and the registry has
  a colon in it; then it is the rest of the registry and the path, with a slash between them.
- `version_is_tag_iff`: so it is with the version of the job, and just then no slash gets into the published tag.
- `port_is_taken_for_tag`: a shop that takes an image from a registry with a port publishes it under `5000/cache`.
- `references_are_well_formed_iff`: where a project is accepted, an image that is built has names that image stores take
  just if the role has no capital letters and the application has a version. Validation asks for neither.
- `shops_have_bad_references`: two shops that are accepted, one without a version and one with a service `Web`.
-/
import Fleet.Proofs.Deploy.Completion
import Fleet.Proofs.Local.BuildContext
import Fleet.Proofs.Text

namespace Fleet

open Naming

/-! ## References -/

/-- where images are kept: a host, and a port or none -/
structure Registry where
  host : String
  port : Option String

/-- neither a port nor another colon, such as a host that is spelled as a number has -/
structure Registry.Portless (r : Registry) : Prop where
  port : r.port = none
  host : ':' ∉ r.host.toList

def Registry.text (r : Registry) : String := r.host ++ r.port.elim "" (":" ++ ·)

theorem Registry.portless_iff {r : Registry} : r.Portless ↔ ':' ∉ r.text.toList := by
  obtain ⟨host, port⟩ := r
  cases port with
  | none =>
    simp only [Registry.text, Option.elim_none, String.append_empty]
    exact ⟨fun h => h.host, fun h => ⟨rfl, h⟩⟩
  | some port =>
    refine iff_of_false (fun h => nomatch h.port) (not_not.2 ?_)
    simp [Registry.text]

/-- `[host[:port]/]path[:tag]`, with slashes between the segments of the path -/
structure ImageReference where
  registry : Option Registry
  path : List String
  tag : Option String

namespace ImageReference

variable {x : ImageReference}

def text (x : ImageReference) : String :=
  x.registry.elim "" (fun r => r.text ++ "/") ++ "/".intercalate x.path ++ x.tag.elim "" (":" ++ ·)

/-- colons stand in front of ports and tags only, and a tag has no slashes -/
structure WellFormed (x : ImageReference) : Prop where
  path : ∀ segment ∈ x.path, ':' ∉ segment.toList
  tag : ∀ tag ∈ x.tag, '/' ∉ tag.toList ∧ ':' ∉ tag.toList

/-- a tag is given, or nothing else can be taken for one -/
def TellsTag (x : ImageReference) : Prop := x.tag ≠ none ∨ ∀ r ∈ x.registry, r.Portless

/-! ## What stands behind the last colon -/

open ImageJob

theorem tagOf_append {front tag : String} (h : ':' ∉ tag.toList) : tagOf (front ++ (":" ++ tag)) = tag := by
  have hreverse : (front ++ (":" ++ tag)).toList.reverse = tag.toList.reverse ++ ':' :: front.toList.reverse := by
    simp
  rw [tagOf, afterLastColon?, hreverse, Text.cut?_append (by simpa using h)]
  simp

theorem tagOf_of_not_mem {s : String} (h : ':' ∉ s.toList) : tagOf s = "latest" := by
  rw [tagOf, afterLastColon?, Text.cut?_of_not_mem (by simpa using h)]
  rfl

/-- a text with a colon is cut at its last one -/
theorem exists_last_colon {s : String} (h : ':' ∈ s.toList) :
    ∃ front back, s = front ++ (":" ++ back) ∧ ':' ∉ back.toList := by
  obtain ⟨back, front, hs, hback⟩ := List.eq_append_cons_of_mem (List.mem_reverse.2 h)
  refine ⟨.ofList front.reverse, .ofList back.reverse, ?_, by simpa using hback⟩
  rw [← String.toList_inj, ← List.reverse_inj, hs]
  simp

theorem colon_not_mem_path {path : List String} (h : ∀ segment ∈ path, ':' ∉ segment.toList) :
    ':' ∉ ("/".intercalate path).toList := by
  induction path with
  | nil => simp
  | cons segment path ih =>
    obtain ⟨hsegment, hpath⟩ := List.forall_mem_cons.1 h
    by_cases hnil : path = []
    · rwa [hnil, String.intercalate_singleton]
    · rw [String.intercalate_cons_of_ne_nil hnil, Text.not_mem_append_iff, Text.not_mem_append_iff]
      exact ⟨⟨hsegment, by decide⟩, ih hpath⟩

theorem tagOf_text (hx : x.WellFormed) (htells : x.TellsTag) : tagOf x.text = x.tag.getD "latest" := by
  obtain ⟨registry, path, tag⟩ := x
  cases tag with
  | some tag => exact tagOf_append (hx.tag tag rfl).2
  | none =>
    obtain hgiven | hportless := htells
    · exact absurd rfl hgiven
    have hregistry : ':' ∉ (registry.elim "" (fun r => r.text ++ "/")).toList := by
      cases registry with
      | none => decide
      | some r => exact Text.not_mem_append_iff.2 ⟨Registry.portless_iff.1 (hportless r rfl), by decide⟩
    refine tagOf_of_not_mem (Text.not_mem_append_iff.2 ⟨Text.not_mem_append_iff.2 ⟨hregistry, ?_⟩, nofun⟩)
    exact colon_not_mem_path hx.path

/-- without a tag, the path is taken for one where a colon stands in front of it -/
theorem slash_mem_tagOf_text (hx : x.WellFormed) (htells : ¬ x.TellsTag) : '/' ∈ (tagOf x.text).toList := by
  obtain ⟨registry, path, tag⟩ := x
  simp only [TellsTag, not_or, not_not, not_forall] at htells
  obtain ⟨rfl, r, rfl, hport⟩ := htells
  rw [Registry.portless_iff, not_not] at hport
  obtain ⟨front, back, htext, hback⟩ := exists_last_colon hport
  have hcut : text ⟨some r, path, none⟩ = front ++ (":" ++ (back ++ "/" ++ "/".intercalate path)) := by
    simp only [text, Option.elim_some, Option.elim_none, String.append_empty, htext, String.append_assoc]
  have hbehind : ':' ∉ (back ++ "/" ++ "/".intercalate path).toList :=
    Text.not_mem_append_iff.2 ⟨Text.not_mem_append_iff.2 ⟨hback, by decide⟩, colon_not_mem_path hx.path⟩
  rw [hcut, tagOf_append hbehind]
  simp

theorem slash_not_mem_tag (hx : x.WellFormed) : '/' ∉ (x.tag.getD "latest").toList := by
  cases htag : x.tag with
  | none => decide
  | some tag => exact (hx.tag tag htag).1

theorem tagOf_text_iff (hx : x.WellFormed) : tagOf x.text = x.tag.getD "latest" ↔ x.TellsTag := by
  refine ⟨fun h => ?_, tagOf_text hx⟩
  by_contra htells
  exact slash_not_mem_tag hx (h ▸ slash_mem_tagOf_text hx htells)

theorem slash_not_mem_tagOf_text_iff (hx : x.WellFormed) : '/' ∉ (tagOf x.text).toList ↔ x.TellsTag := by
  refine ⟨fun h => by_contra fun htells => h (slash_mem_tagOf_text hx htells), fun htells => ?_⟩
  rw [tagOf_text hx htells]
  exact slash_not_mem_tag hx

end ImageReference

/-! ## Images that are taken over -/

theorem ImageJob.target_eq (j : ImageJob) (registry appName : String) :
    j.target registry appName = s!"{registry}/{appName}-{j.name}:{j.version}" := by
  simp only [target, repository, toString, String.append_assoc]

namespace Project

variable {p : Project} {role : String} {source : Source}

/-- **When the tag of an image is the one that its reference gives.** The image of a service that comes as a reference
has a job, which is among the images of every project that can be worked with. Its version is the tag of the reference,
or else `latest`, just if a tag is given or no colon stands in front of the path; and just then the published tag has no
slashes. -/
theorem version_is_tag_iff {x : ImageReference} (hx : x.WellFormed) (hcomes : source.ComesFrom (.image x.text)) :
    ∃ j, p.serviceJob role source = .ok j ∧ j.name = role ∧ j.origin = .pull x.text ∧
      (p.Ready → p.source? role = some source → ∃ jobs, p.imageJobs = .ok jobs ∧ j ∈ jobs) ∧
      (∀ registry, j.target registry p.name = s!"{registry}/{p.name}-{role}:{j.version}") ∧
      (j.version = x.tag.getD "latest" ↔ x.tag ≠ none ∨ ∀ r ∈ x.registry, r.Portless) ∧
      ('/' ∉ j.version.toList ↔ x.tag ≠ none ∨ ∀ r ∈ x.registry, r.Portless) := by
  have hjob : p.serviceJob role source = .ok ⟨role, ImageJob.tagOf x.text, .pull x.text⟩ := by
    rw [serviceJob, Source.origin_eq_ok_iff.2 hcomes]
  refine ⟨_, hjob, rfl, rfl, fun hready hsource => ?_, fun _ => ImageJob.target_eq _ _ _, x.tagOf_text_iff hx,
    x.slash_not_mem_tagOf_text_iff hx⟩
  obtain ⟨jobs, hjobs, _⟩ := exists_imageJobs hready
  refine ⟨jobs, hjobs, ?_⟩
  obtain ⟨own, hown, rfl⟩ := map_eq_ok_iff.1 hjobs
  obtain ⟨j, hmem, hj⟩ := exists_related (serviceJobs_eq_ok_iff.1 hown) (SortedMap.mem_entries_iff.2 hsource)
  cases hjob.symm.trans hj
  exact List.mem_append_left _ hmem

/-- a shop that takes over an image under this reference -/
def shopWithImage (reference : String) : Project where
  dir := "."
  application := {
    name := "shop", version := "1"
    services := .singleton "sessions" { image := some reference }
    site := { url := "shop.example", accountId := "1", region := "eu", certificate := "cert" } }
  services := .singleton "sessions" { inCloud := { cpu := some "1", memory := some "1" } }

/-- with a tag, a registry with a port does no harm -/
theorem redis_keeps_its_tag :
    ImageReference.WellFormed ⟨some ⟨"images.example", some "5000"⟩, ["library", "redis"], some "7.2"⟩ ∧
    ∃ jobs j, (shopWithImage "images.example:5000/library/redis:7.2").imageJobs = .ok jobs ∧ j ∈ jobs ∧
      j.name = "sessions" ∧ j.version = "7.2" ∧ '/' ∉ j.version.toList := by
  have hx : ImageReference.WellFormed ⟨some ⟨"images.example", some "5000"⟩, ["library", "redis"], some "7.2"⟩ :=
    ⟨by decide, by decide⟩
  have hcomes : ({ image := some "images.example:5000/library/redis:7.2" } : Source).ComesFrom (.image
      (ImageReference.text ⟨some ⟨"images.example", some "5000"⟩, ["library", "redis"], some "7.2"⟩)) :=
    ⟨by decide +kernel, by decide +kernel, rfl⟩
  obtain ⟨j, -, hname, -, hlisted, -, hversion, hslash⟩ :=
    @version_is_tag_iff (shopWithImage "images.example:5000/library/redis:7.2") "sessions" _ _ hx hcomes
  obtain ⟨jobs, hjobs, hmem⟩ := hlisted (ready_of_checkDeployable (by decide +kernel)) (by decide +kernel)
  exact ⟨hx, jobs, j, hjobs, hmem, hname, hversion.2 (.inl nofun), hslash.2 (.inl nofun)⟩

/-- without one, the port and the path are taken for it -/
theorem port_is_taken_for_tag : ¬ ∀ (p : Project) (role : String) (source : Source) (x : ImageReference)
    (jobs : List ImageJob) (j : ImageJob), x.WellFormed → p.source? role = some source →
      source.ComesFrom (.image x.text) → p.imageJobs = .ok jobs → j ∈ jobs → j.name = role →
        j.version = x.tag.getD "latest" ∧ '/' ∉ j.version.toList := by
  intro h
  have hx : ImageReference.WellFormed ⟨some ⟨"images.example", some "5000"⟩, ["cache"], none⟩ := ⟨by decide, by decide⟩
  have hcomes : ({ image := some "images.example:5000/cache" } : Source).ComesFrom (.image
      (ImageReference.text ⟨some ⟨"images.example", some "5000"⟩, ["cache"], none⟩)) :=
    ⟨by decide +kernel, by decide +kernel, rfl⟩
  have hjobs : (shopWithImage "images.example:5000/cache").imageJobs =
      .ok [⟨"sessions", "5000/cache", .pull "images.example:5000/cache"⟩] := by decide +kernel
  obtain ⟨hversion, -⟩ := h _ "sessions" _ _ _ _ hx (by decide +kernel) hcomes hjobs (List.mem_singleton_self _) rfl
  exact absurd hversion (by decide)

end Project

/-! ## Images that are built -/

/-- a repository as image stores take it: lower-case words and digits, with single hyphens between them -/
def IsRepository (s : String) : Prop := Hyphenated true s.toList

/-- the local copy and the published image are called in a way that image stores take -/
structure ImageJob.WellNamed (j : ImageJob) (appName : String) : Prop where
  localTag : IsRepository j.localReference
  repository : IsRepository (j.repository appName)
  version : j.version ≠ ""

namespace Naming

variable {lowercaseOnly : Bool} {cs : List Char} {front back : String}

/-- two names with a hyphen between them are accepted just if both are -/
theorem hyphenated_append_iff : Hyphenated lowercaseOnly s!"{front}-{back}".toList ↔
    Hyphenated lowercaseOnly front.toList ∧ Hyphenated lowercaseOnly back.toList := by
  have htext : s!"{front}-{back}".toList = front.toList ++ '-' :: back.toList := by simp [toString]
  rw [← isHyphenated_iff, ← isHyphenated_iff, ← isHyphenated_iff, isHyphenated, htext, Path.splitFrom_separated,
    List.all_append, Bool.and_eq_true]
  rfl

theorem nameChar_lowercase_iff {c : Char} : NameChar true c ↔ NameChar false c ∧ c.isUpper = false := by
  have hupper : c.isUpper = decide ('A' ≤ c ∧ c ≤ 'Z') := rfl
  simp only [NameChar, hupper, Char.le_def]
  grind

theorem word_lowercase_iff : Word true cs ↔ Word false cs ∧ ∀ c ∈ cs, c.isUpper = false := by
  simp only [word_iff, nameChar_lowercase_iff]
  grind

/-- capital letters are all that lower-case names leave out -/
theorem hyphenated_lowercase_iff : Hyphenated true cs ↔ Hyphenated false cs ∧ ∀ c ∈ cs, c.isUpper = false := by
  constructor
  · intro h
    induction h with
    | word hcs =>
      obtain ⟨hword, hlower⟩ := word_lowercase_iff.1 hcs
      exact ⟨.word hword, hlower⟩
    | hyphen hcs _ ih =>
      obtain ⟨hword, hlower⟩ := word_lowercase_iff.1 hcs
      refine ⟨.hyphen hword ih.1, List.forall_mem_append.2 ⟨hlower, List.forall_mem_cons.2 ⟨by decide, ih.2⟩⟩⟩
  · rintro ⟨h, hlower⟩
    induction h with
    | word hcs => exact .word (word_lowercase_iff.2 ⟨hcs, hlower⟩)
    | hyphen hcs _ ih =>
      obtain ⟨hword, hrest⟩ := List.forall_mem_append.1 hlower
      exact .hyphen (word_lowercase_iff.2 ⟨hcs, hword⟩) (ih (List.forall_mem_cons.1 hrest).2)

end Naming

namespace Project

variable {p : Project} {role path : String} {source : Source}

/-- **When the references of an image that is built are well formed.** In a project that is accepted, a service with a
location has a job among the images. Its local tag and its repository are the names of the application and the role with
a hyphen between them, and its version is that of the application. Image stores take less than what is accepted: the
role must not have capital letters, and there has to be a version. -/
theorem references_are_well_formed_iff (haccepted : p.checkDeployable = .ok ()) (hsource : p.source? role = some source)
    (hcomes : source.ComesFrom (.location path)) :
    ∃ jobs j, p.imageJobs = .ok jobs ∧ j ∈ jobs ∧ j.name = role ∧ j.version = p.application.version ∧
      j.localReference = s!"{p.name}-{role}" ∧ j.repository p.name = s!"{p.name}-{role}" ∧
      (∀ registry, j.target registry p.name = s!"{registry}/{p.name}-{role}:{p.application.version}") ∧
      Hyphenated false s!"{p.name}-{role}".toList ∧
      (IsRepository s!"{p.name}-{role}" ↔ ∀ c ∈ role.toList, c.isUpper = false) ∧
      (j.WellNamed p.name ↔ (∀ c ∈ role.toList, c.isUpper = false) ∧ p.application.version ≠ "") := by
  obtain ⟨jobs, hjobs, _⟩ := exists_imageJobs (ready_of_checkDeployable haccepted)
  have horigin : source.origin role = .ok (.location path) := Source.origin_eq_ok_iff.2 hcomes
  have hmem := build_mem_of_imageJobs hsource horigin (Source.buildContext_of_located horigin _) hjobs
  have hdeployable := checkDeployable_eq_ok_iff.1 haccepted
  have hname : Hyphenated true p.name.toList := hdeployable.name
  have hrole : Hyphenated false role.toList := (hdeployable.roles role source hsource).1
  have hrepository : IsRepository s!"{p.name}-{role}" ↔ ∀ c ∈ role.toList, c.isUpper = false := by
    rw [IsRepository, hyphenated_append_iff, and_iff_right hname, hyphenated_lowercase_iff, and_iff_right hrole]
  refine ⟨jobs, _, hjobs, hmem, rfl, rfl, rfl, rfl, fun _ => ImageJob.target_eq _ _ _,
    hyphenated_append_iff.2 ⟨(hyphenated_lowercase_iff.1 hname).1, hrole⟩, hrepository, ?_⟩
  constructor
  · intro h
    exact ⟨hrepository.1 h.repository, h.version⟩
  · rintro ⟨hlower, hversion⟩
    exact ⟨hrepository.2 hlower, hrepository.2 hlower, hversion⟩

/-- the pages of the shop with its stock are published as `shop-web`, with a version -/
theorem stocked_references_are_well_formed : Deploy.stockedShop.project.checkDeployable = .ok () ∧
    ∃ jobs j, Deploy.stockedShop.project.imageJobs = .ok jobs ∧ j ∈ jobs ∧ j.localReference = "shop-web" ∧
      j.target "registry.example" "shop" = "registry.example/shop-web:1" ∧
      j.WellNamed "shop" := by
  have haccepted : Deploy.stockedShop.project.checkDeployable = .ok () := by decide +kernel
  have hsource : Deploy.stockedShop.project.source? "web" = some { location := some "web" } := by decide +kernel
  have hcomes : ({ location := some "web" } : Source).ComesFrom (.location "web") := ⟨rfl, by decide, rfl⟩
  obtain ⟨jobs, j, hjobs, hmem, -, -, hlocal, -, htarget, -, -, hnamed⟩ :=
    references_are_well_formed_iff haccepted hsource hcomes
  exact ⟨haccepted, jobs, j, hjobs, hmem, hlocal.trans (by decide +kernel), (htarget _).trans (by decide +kernel),
    hnamed.2 ⟨by simp, by decide +kernel⟩⟩

/-- a shop with one service under this role -/
def shopWithRole (role : String) : Project where
  dir := "."
  application := {
    name := "shop", version := "1"
    services := .singleton role { location := some "web" }
    site := { url := "shop.example", accountId := "1", region := "eu", certificate := "cert" } }
  services := .singleton role { inCloud := { cpu := some "1", memory := some "1" } }

/-- neither the version nor the role follows from what is accepted -/
theorem shops_have_bad_references :
    (¬ ∀ (p : Project) (role path : String) (source : Source) (jobs : List ImageJob) (j : ImageJob),
      p.checkDeployable = .ok () → p.source? role = some source → source.ComesFrom (.location path) →
        p.imageJobs = .ok jobs → j ∈ jobs → j.name = role → j.version ≠ "") ∧
    ¬ ∀ (p : Project) (role path : String) (source : Source) (jobs : List ImageJob) (j : ImageJob),
      p.checkDeployable = .ok () → p.source? role = some source → source.ComesFrom (.location path) →
        p.imageJobs = .ok jobs → j ∈ jobs → j.name = role → IsRepository (j.repository p.name) := by
  constructor
  · intro h
    have hjobs : openShop.imageJobs = .ok [⟨"web", "", .build "./web" "Dockerfile.prod" "shop-web"⟩] := by
      decide +kernel
    exact h openShop "web" "web" { location := some "web" } _ _ (by decide +kernel) (by decide +kernel)
      ⟨rfl, by decide, rfl⟩ hjobs (List.mem_singleton_self _) rfl rfl
  · intro h
    have hjobs : (shopWithRole "Web").imageJobs = .ok [⟨"Web", "1", .build "./web" "Dockerfile.prod" "shop-Web"⟩] := by
      decide +kernel
    have hrepository := h (shopWithRole "Web") "Web" "web" { location := some "web" } _ _ (by decide +kernel)
      (by decide +kernel) ⟨rfl, by decide, rfl⟩ hjobs (List.mem_singleton_self _) rfl
    rw [IsRepository, ← isHyphenated_iff] at hrepository
    revert hrepository
    decide +kernel

end Project

end Fleet
