/-
Modules: what the infrastructure of an application holds, as it is written out.

What a deploy provides is worked out once (`cloudDependencies`), and read by those who publish images, by those who
declare variables and by those who write modules. A module is a name and its arguments (`render_eq`); the values of
arguments stand in quotes, and those that come from the application are copied there as they are.
- `cloudDependencies_eq`: what is provided is what is declared, where a name comes for the first time.
- `imageJobs_split`: behind the images of the services come those of what is provided in containers.
- `module_names_differ_iff`: modules have names of their own just if no service or dependency is called like the module
  that every application has, and no service like a dependency.
- `aws_is_declared_twice`: a shop that is accepted, with a service that is called like the module of the account.
-/
import Fleet.Proofs.Deploy.Flags
import Fleet.Proofs.Text

namespace Fleet

/-! ## What is provided -/

namespace Project

variable {p : Project} {d : Dependency} {l : List Dependency} {seen seen' : List String} {jobs own : List ImageJob}

/-- what stands at a position, if its name is none of these and none that comes before -/
def newName? (seen : List String) (l : List Dependency) (i : Nat) : Option Dependency :=
  l[i]?.filter fun d => d.name ∉ seen ∧ d.name ∉ (l.take i).map Dependency.name

theorem newName?_zero (seen : List String) (d : Dependency) (l : List Dependency) :
    newName? seen (d :: l) 0 = if d.name ∈ seen then none else some d := by
  simp [newName?, Option.filter]

theorem newName?_succ (hseen : ∀ name, name ∈ seen' ↔ name ∈ seen ∨ name = d.name) (i : Nat) :
    newName? seen (d :: l) (i + 1) = newName? seen' l i := by
  unfold newName?
  rw [List.getElem?_cons_succ, List.take_succ_cons, List.map_cons]
  refine congrArg (fun keep => l[i]?.filter keep) (funext fun x => ?_)
  simp only [hseen, List.mem_cons, not_or, decide_eq_decide]
  tauto

/-- what is kept is what has a new name -/
theorem firstOfEachName_eq (seen : List String) (l : List Dependency) :
    firstOfEachName seen l = (List.range l.length).filterMap (newName? seen l) := by
  induction l generalizing seen with
  | nil => rfl
  | cons d l ih =>
    have hrest : ∀ seen', (∀ name, name ∈ seen' ↔ name ∈ seen ∨ name = d.name) →
        ((List.range l.length).map Nat.succ).filterMap (newName? seen (d :: l)) = firstOfEachName seen' l := by
      intro seen' hseen
      rw [ih, List.filterMap_map]
      exact congrArg (List.filterMap · _) (funext (newName?_succ hseen))
    rw [firstOfEachName, List.length_cons, List.range_succ_eq_map]
    by_cases hd : d.name ∈ seen
    · rw [if_pos (by simpa using hd), List.filterMap_cons_none (by rw [newName?_zero, if_pos hd])]
      refine (hrest seen fun name => (or_iff_left_of_imp ?_).symm).symm
      rintro rfl
      exact hd
    · rw [if_neg (by simpa using hd), List.filterMap_cons_some (by rw [newName?_zero, if_neg hd])]
      exact congrArg (d :: ·) (hrest (d.name :: seen) fun name => by rw [List.mem_cons, or_comm]).symm

/-- **What is provided is what is declared, where a name comes for the first time.** -/
theorem cloudDependencies_eq (p : Project) :
    p.cloudDependencies = (List.range p.declaredInCloud.length).filterMap fun i =>
      p.declaredInCloud[i]?.filter fun d => d.name ∉ (p.declaredInCloud.take i).map Dependency.name := by
  refine (firstOfEachName_eq [] p.declaredInCloud).trans (congrArg (List.filterMap · _) (funext fun i => ?_))
  simp [newName?]

/-! ## Images -/

/-- the image of a dependency is published as the one that its container runs -/
structure Publishes (p : Project) (d : Dependency) (j : ImageJob) : Prop where
  name : j.name = d.name
  version : j.version = d.version
  origin : ∃ c image, d.container? p = some c ∧ c.image = some image ∧ j.origin = .pull image

theorem publishes_of_dependencyJob? {j : ImageJob} (h : p.dependencyJob? d = some j) : p.Publishes d j := by
  obtain ⟨image, himage, rfl⟩ := Option.map_eq_some_iff.1 h
  obtain ⟨c, hc, himage⟩ := Option.bind_eq_some_iff.1 himage
  exact ⟨rfl, rfl, c, image, hc, himage, rfl⟩

theorem publishes_dependencyJobs (p : Project) (l : List Dependency) :
    List.Forall₂ p.Publishes (l.filter Dependency.isContainerised) (l.filterMap p.dependencyJob?) := by
  induction l with
  | nil => exact .nil
  | cons d l ih =>
    obtain ⟨hcontainerised, hjob⟩ | ⟨hcontainerised, j, hjob, _⟩ := p.dependencyJob?_cases d
    · rw [List.filterMap_cons_none hjob, List.filter_cons_of_neg (by simp [hcontainerised])]
      exact ih
    · rw [List.filterMap_cons_some hjob, List.filter_cons_of_pos hcontainerised]
      exact .cons (publishes_of_dependencyJob? hjob) ih

/-- images are those of the services, then those of what is provided in containers -/
theorem imageJobs_split (h : p.imageJobs = .ok jobs) : ∃ own provided, jobs = own ++ provided ∧
    p.serviceJobs p.application.services.entries = .ok own ∧ own.map ImageJob.name = p.roles ∧
    List.Forall₂ p.Publishes (p.cloudDependencies.filter Dependency.isContainerised) provided := by
  obtain ⟨own, hown, rfl⟩ := map_eq_ok_iff.1 h
  exact ⟨own, _, rfl, hown, names_serviceJobs hown, publishes_dependencyJobs p _⟩

end Project

/-! ## Modules -/

namespace Infrastructure

variable {p : Project} {account : Account} {images : Images} {i : Infrastructure} {jobs : List ImageJob} {name : String}

/-- a module: its name and its arguments; keys bring the blanks that line values up -/
structure Block where
  name : String
  arguments : List (String × String)
  deriving DecidableEq

def Block.text (b : Block) : String :=
  blockText s!"module \"{b.name}\"" (b.arguments.map fun a => setting a.1 a.2)

/-- the module that every application has -/
def baseBlock (i : Infrastructure) : Block where
  name := "aws"
  arguments := [
    ("source             ", "./modules/aws"),
    ("name               ", i.appName),
    ("region             ", i.account.region),
    ("url                ", i.url),
    ("ssl_certificate_arn", i.certificate)]

def serviceBlock (m : ServiceModule) : Block where
  name := m.role
  arguments :=
    let kind := if m.isPublic then "public-service" else "worker-service"
    [ ("source      ", s!"./modules/{kind}"),
      ("name        ", m.role),
      ("cpu         ", m.cpu),
      ("memory      ", m.memory),
      ("docker_image", reference (imageVariable m.role)),
      ("env_vars    ", reference (envVariable m.role))] ++
    (m.port.map fun p => ("port        ", toString p.val)).toList ++
    (m.url.map fun u => ("url         ", u)).toList ++
    (m.healthCheck.map fun h => ("health_check", h)).toList

def dependencyBlock (declared : SortedMap Unit) (m : DependencyModule) : Block where
  name := m.name
  arguments :=
    [ ("source  ", s!"./modules/dependencies/{m.name}"),
      ("env_vars", reference (envVariable m.name))] ++
    (if m.isContainerised && declared.contains (imageVariable m.name) then
      [("docker_image", reference (imageVariable m.name))] else []) ++
    m.settings.entries

/-- the modules of services and dependencies -/
def ownBlocks (i : Infrastructure) : List Block :=
  i.services.map serviceBlock ++ i.dependencies.map (dependencyBlock i.declared)

def blocks (i : Infrastructure) : List Block := i.baseBlock :: i.ownBlocks

theorem serviceText_eq (m : ServiceModule) : serviceText m = "\n" ++ (serviceBlock m).text := by
  obtain ⟨role, isPublic, cpu, memory, port, url, healthCheck⟩ := m
  cases port <;> cases url <;> cases healthCheck <;> rfl

theorem dependencyText_eq (declared : SortedMap Unit) (m : DependencyModule) :
    dependencyText declared m = "\n" ++ (dependencyBlock declared m).text := by
  simp only [dependencyText, Block.text, dependencyBlock, List.map_append]
  split <;> rfl

theorem join_written {α : Type} {f : α → String} {g : α → Block} (h : ∀ a, f a = "\n" ++ (g a).text) (l : List α) :
    String.join (l.map f) = String.join ((l.map g).map fun b => "\n" ++ b.text) := by
  rw [List.map_map]
  exact congrArg String.join (List.map_congr_left fun a _ => h a)

/-- **What is written out are the modules**, behind the variables that are declared. -/
theorem render_eq (i : Infrastructure) :
    i.render = preamble i.account ++ String.join (i.declared.keys.map variableText) ++
      "\n".intercalate (i.blocks.map Block.text) := by
  have hbase : i.baseModule = i.baseBlock.text := rfl
  have hblocks : "\n".intercalate (i.blocks.map Block.text) =
      i.baseBlock.text ++ String.join (i.ownBlocks.map fun b => "\n" ++ b.text) := by
    rw [blocks, List.map_cons, Text.intercalate_cons, List.map_map]
    rfl
  rw [hblocks, ownBlocks, List.map_append, String.join_append, ← join_written serviceText_eq,
    ← join_written (dependencyText_eq i.declared), ← hbase]
  simp only [render, String.append_assoc]

/-! ## What is in modules -/

theorem roles_of_servicesOf {roles : List String} {l : List (String × Service)} (h : servicesOf p roles = .ok l) :
    l.map Prod.fst = roles := by
  have hnames := map_eq_map_of_related (g := id) (servicesOf_eq_ok_iff.1 h) fun _ _ he => he.2.symm
  rw [← hnames, List.map_id]

theorem ofProject_eq_ok (h : ofProject p account images = .ok i) : i.services.map ServiceModule.role = p.roles ∧
    i.dependencies = p.cloudDependencies.map (dependencyModule p) := by
  rw [ofProject] at h
  split at h
  · cases h
  rename_i services hservices
  cases h
  refine ⟨?_, rfl⟩
  rw [← roles_of_servicesOf hservices, List.map_map]
  rfl

/-- the modules are called like roles and like what is provided -/
theorem names_blocks (h : ofProject p account images = .ok i) :
    i.blocks.map Block.name = "aws" :: (p.roles ++ p.cloudDependencies.map Dependency.name) := by
  obtain ⟨hservices, hdependencies⟩ := ofProject_eq_ok h
  rw [blocks, ownBlocks, List.map_cons, List.map_append, ← hservices, hdependencies, List.map_map, List.map_map,
    List.map_map]
  rfl

/-! ## Names of modules -/

/-- **Modules have names of their own just if no service or dependency is called like the module that every application
has, and no service is called like a dependency.** -/
theorem module_names_differ_iff (haccepted : p.checkDeployable = .ok ()) (account : Account) (images : Images) :
    ∃ i, ofProject p account images = .ok i ∧
      i.render = preamble i.account ++ String.join (i.declared.keys.map variableText) ++
        "\n".intercalate (i.blocks.map Block.text) ∧
      i.blocks.map Block.name = "aws" :: (p.roles ++ p.cloudDependencies.map Dependency.name) ∧
      ((i.blocks.map Block.name).Nodup ↔
        "aws" ∉ p.roles ∧ ∀ d ∈ p.cloudDependencies, d.name ≠ "aws" ∧ d.name ∉ p.roles) := by
  obtain ⟨i, hi⟩ := Project.exists_ofProject (Project.ready_of_checkDeployable haccepted) account images
  refine ⟨i, hi, render_eq i, names_blocks hi, ?_⟩
  have hroles : p.roles.Nodup := SortedMap.nodup_keys _
  have hdependencies : (p.cloudDependencies.map Dependency.name).Nodup := Project.nodup_firstOfEachName [] _
  rw [names_blocks hi, List.nodup_cons, List.mem_append, not_or, List.nodup_append]
  constructor
  · rintro ⟨⟨hrole, hdependency⟩, -, -, hdiffer⟩
    exact ⟨hrole, fun d hd => ⟨fun haws => hdependency (haws ▸ List.mem_map_of_mem hd),
      fun hname => hdiffer _ hname _ (List.mem_map_of_mem hd) rfl⟩⟩
  · rintro ⟨hrole, hothers⟩
    refine ⟨⟨hrole, fun haws => ?_⟩, hroles, hdependencies, fun role hrole name hname heq => ?_⟩
    · obtain ⟨d, hd, hname⟩ := List.mem_map.1 haws
      exact (hothers d hd).1 hname
    · obtain ⟨d, hd, rfl⟩ := List.mem_map.1 hname
      exact (hothers d hd).2 (heq ▸ hrole)

/-- the modules of the shop with its stock have names of their own -/
theorem stocked_module_names_differ : Deploy.stockedShop.project.checkDeployable = .ok () ∧
    ∃ i, ofProject Deploy.stockedShop.project Deploy.stockedShop.account Deploy.stockedImages = .ok i ∧
      i.blocks.map Block.name = ["aws", "web", "mysql", "redis"] ∧ (i.blocks.map Block.name).Nodup := by
  have haccepted : Deploy.stockedShop.project.checkDeployable = .ok () := by decide +kernel
  obtain ⟨i, hi, _, hnames, hiff⟩ :=
    module_names_differ_iff haccepted Deploy.stockedShop.account Deploy.stockedImages
  exact ⟨haccepted, i, hi, hnames.trans (by decide +kernel), hiff.2 (by decide +kernel)⟩

/-- a shop with one service, which looks after its account and is called like that module -/
def shopWithAws : Project where
  dir := "."
  application := {
    name := "shop", version := "1"
    services := .singleton "aws" { location := some "aws" }
    site := { url := "shop.example", accountId := "1", region := "eu", certificate := "cert" } }
  services := .singleton "aws" { inCloud := { cpu := some "1", memory := some "1" } }

/-- the shop is accepted, and its infrastructure has two modules of one name -/
theorem aws_is_declared_twice : ¬ ∀ (p : Project) (account : Account) (images : Images) (i : Infrastructure),
    p.checkDeployable = .ok () → ofProject p account images = .ok i → (i.blocks.map Block.name).Nodup := by
  intro h
  have haccepted : shopWithAws.checkDeployable = .ok () := by decide +kernel
  have hready := Project.ready_of_checkDeployable haccepted
  obtain ⟨i, hi⟩ := Project.exists_ofProject hready ⟨"default", "eu", "1", "shop"⟩ .empty
  have hnames := h shopWithAws _ _ i haccepted hi
  rw [names_blocks hi] at hnames
  revert hnames
  decide +kernel

end Infrastructure

end Fleet
