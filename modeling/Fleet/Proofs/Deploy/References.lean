/-
References: which variables the modules of an infrastructure refer to, as they are written out.

What a module refers to is read off its text. The application's own texts are copied into their quotes as they are, so
an expression in one of them is an expression of the module, and may refer to a variable that nobody declares.
- `refersTo_block_iff`: if values end where their quotes end, a module refers to what its values refer to, each by
  itself.
- `readers_agree`: all who read what is provided agree, and once the images are published every reference of a module is
  declared just if those are that an application brings along.
- `address_refers_to_nothing`: a shop that is accepted, with an address that refers to a variable nobody declares.
-/
import Fleet.Proofs.Deploy.Hcl
import Fleet.Proofs.Deploy.Rendering

namespace Fleet.Infrastructure

open Hcl

variable {text name key value : String} {b : Block} {l : List (String × String)}

/-! ## Values -/

/-- in the braces of a module -/
def inModule : Reader := ⟨[.braces], .code⟩

/-- in the quotes of a value -/
def inValue : Reader := ⟨[.quotes, .braces], .text⟩

/-- what is read of a value and of the quotes behind it -/
def readValue (value : String) : Reader × List Token := inValue.run (value.toList ++ ['"'])

/-- the quotes behind a value are those that end it -/
def Contained (value : String) : Prop := (readValue value).1 = inModule

instance : DecidablePred Contained := fun _ => inferInstanceAs (Decidable (_ = _))

/-- a value refers to a variable -/
def Brings (value name : String) : Prop := Refers (readValue value).2 name

theorem isName_of_brings (h : Brings value name) : IsName name.toList := isName_of_refers h nofun

theorem readValue_eq_of_plain (h : Plain value) : readValue value = (inModule, [.sign '"']) := by
  obtain ⟨mode, hmode, hrun⟩ := run_plain [.quotes, .braces] h
  exact run_append hrun (run_cons (read_quotes hmode) rfl)

theorem contained_of_plain (h : Plain value) : Contained value := congrArg Prod.fst (readValue_eq_of_plain h)

theorem not_brings_of_plain (name : String) (h : Plain value) : ¬ Brings value name := by
  rw [Brings, readValue_eq_of_plain h]
  exact not_refers (by simp)

theorem plain_of_parts (h : NameParts value.toList) : Plain value where
  quotes hin := absurd (h _ hin) (by decide)
  backslash hin := absurd (h _ hin) (by decide)
  brace hin := absurd (h _ hin) (by decide)

theorem plain_append (h : Plain value) (htext : Plain text) : Plain (value ++ text) where
  quotes := by simpa using ⟨h.quotes, htext.quotes⟩
  backslash := by simpa using ⟨h.backslash, htext.backslash⟩
  brace := by simpa using ⟨h.brace, htext.brace⟩

theorem readValue_reference {v : String} (h : NameParts v.toList) :
    Contained (reference v) ∧ ∀ name, Brings (reference v) name ↔ name = v ∧ IsName name.toList := by
  obtain ⟨ts, hrun, hts⟩ := run_reference [.braces] h
  have hread : readValue (reference v) = (inModule, ts ++ [.sign '"']) := run_append hrun rfl
  refine ⟨congrArg Prod.fst hread, fun name => ?_⟩
  rw [Brings, hread, refers_separated_iff (by decide), hts, or_iff_left (not_refers List.not_mem_nil)]

/-- the last that is read of a value are the quotes behind it -/
theorem readValue_ends (h : Contained value) : ∃ ts, (readValue value).2 = ts ++ [.sign '"'] := by
  obtain ⟨r, ts, hvalue⟩ : ∃ r ts, inValue.run value.toList = (r, ts) := ⟨_, _, rfl⟩
  have hquotes : r.run ['"'] = ((r.read '"').1, (r.read '"').2) := by simp [Reader.run]
  have hread : readValue value = ((r.read '"').1, ts ++ (r.read '"').2) := run_append hvalue hquotes
  rw [Contained, hread] at h
  exact ⟨ts, by rw [hread, read_quotes_of_code (congrArg Reader.mode h)]⟩

/-! ## Modules -/

/-- what stands in front of the sign in a setting is one word -/
def IsKey (key : String) : Prop := ∃ word, inModule.run (key.toList ++ [' ']) = (inModule, [.word word])

/-- a setting that is read as one: what it sets is a word, and the value ends where its quotes end -/
structure IsSetting (key value : String) : Prop where
  key : IsKey key
  value : Contained value

/-- a setting is a word, a sign, and what is read of its value -/
theorem run_setting (h : IsSetting key value) :
    ∃ word, inModule.run ((setting key value).toList ++ ['\n']) =
      (inModule, .word word :: .sign '=' :: .sign '"' :: (readValue value).2) := by
  obtain ⟨⟨word, hword⟩, hvalue⟩ := h
  have htext : (setting key value).toList ++ ['\n'] =
      [' ', ' '] ++ ((key.toList ++ [' ']) ++ (['=', ' ', '"'] ++ ((value.toList ++ ['"']) ++ ['\n']))) := by
    simp [toList_setting]
  have hblanks : inModule.run [' ', ' '] = (inModule, []) := rfl
  have hequals : inModule.run ['=', ' ', '"'] = (inValue, [.sign '=', .sign '"']) := rfl
  have hread : inValue.run (value.toList ++ ['"']) = (inModule, (readValue value).2) := Prod.ext hvalue rfl
  have hbreak : inModule.run ['\n'] = (inModule, []) := rfl
  refine ⟨word, ?_⟩
  rw [htext]
  simpa using run_append hblanks (run_append hword (run_append hequals (run_append hread hbreak)))

/-- what is read of the lines of a module refers to what the values do -/
theorem run_body (h : ∀ a ∈ l, IsSetting a.1 a.2) : ∃ ts,
    inModule.run (String.join ((l.map fun a => setting a.1 a.2).map fun line => line ++ "\n")).toList = (inModule, ts) ∧
      ∀ name, Refers ts name ↔ ∃ a ∈ l, Brings a.2 name := by
  induction l with
  | nil => exact ⟨[], rfl, fun name => by simpa using not_refers List.not_mem_nil⟩
  | cons a l ih =>
    obtain ⟨ha, hl⟩ := List.forall_mem_cons.1 h
    obtain ⟨word, hsetting⟩ := run_setting ha
    obtain ⟨ts, hbody, hts⟩ := ih hl
    obtain ⟨read, hread⟩ := readValue_ends ha.value
    have hlines : (String.join (((a :: l).map fun a => setting a.1 a.2).map fun line => line ++ "\n")).toList =
        ((setting a.1 a.2).toList ++ ['\n']) ++
          (String.join ((l.map fun a => setting a.1 a.2).map fun line => line ++ "\n")).toList := by
      simp [String.join_cons]
    have hrun := run_append hsetting hbody
    rw [← hlines] at hrun
    refine ⟨_, hrun, fun name => ?_⟩
    have hfirst : Brings a.2 name ↔ Refers read name := by
      rw [Brings, hread, refers_separated_iff (by decide), or_iff_left (not_refers List.not_mem_nil)]
    have hword : ¬ Refers [.word word] name := not_refers (by simp)
    have hempty : ¬ Refers [] name := not_refers List.not_mem_nil
    have hsplit : (.word word :: .sign '=' :: .sign '"' :: (readValue a.2).2) ++ ts =
        [.word word] ++ .sign '=' :: ([] ++ .sign '"' :: (read ++ .sign '"' :: ts)) := by
      simp [hread]
    rw [hsplit, refers_separated_iff (by decide), refers_separated_iff (by decide), refers_separated_iff (by decide),
      or_iff_right hword, or_iff_right hempty, hts, List.exists_mem_cons_iff, hfirst]

/-- **A module refers to what its values refer to**, if they end where their quotes end. -/
theorem refersTo_block_iff (hname : Plain b.name) (h : ∀ a ∈ b.arguments, IsSetting a.1 a.2) (name : String) :
    RefersTo b.text name ↔ ∃ a ∈ b.arguments, Brings a.2 name := by
  obtain ⟨ts, hbody, hts⟩ := run_body h
  obtain ⟨mode, hmode, hheading⟩ := run_plain [.quotes] hname
  have htext : b.text.toList = "module \"".toList ++ (b.name.toList ++ (('"' :: " \x7b\n".toList) ++
      ((String.join ((b.arguments.map fun a => setting a.1 a.2).map fun line => line ++ "\n")).toList ++
        "\x7d\n".toList))) := by
    simp [Block.text, blockText, toString]
  have hopen : Reader.run ⟨[], .code⟩ "module \"".toList = (⟨[.quotes], .text⟩, [.word "module".toList, .sign '"']) :=
    rfl
  have hbraces : Reader.run ⟨[.quotes], mode⟩ ('"' :: " \x7b\n".toList) = (inModule, [.sign '"', .sign '\x7b']) :=
    run_cons (read_quotes hmode) rfl
  have hclose : inModule.run "\x7d\n".toList = (⟨[], .code⟩, [.sign '\x7d']) := rfl
  have hrun := run_append hopen (run_append hheading (run_append hbraces (run_append hbody hclose)))
  have htokens : tokens b.text = ([.word "module".toList] ++ .sign '"' :: ([] ++ .sign '"' :: ([] ++ .sign '\x7b' ::
      (ts ++ .sign '\x7d' :: [])))) := by
    rw [tokens, htext, hrun]
    simp [Reader.rest]
  have hword : ¬ Refers [.word "module".toList] name := not_refers (by simp)
  have hempty : ¬ Refers [] name := not_refers List.not_mem_nil
  rw [RefersTo, htokens, refers_separated_iff (by decide), refers_separated_iff (by decide),
    refers_separated_iff (by decide), refers_separated_iff (by decide), or_iff_right hword, or_iff_right hempty,
    or_iff_right hempty, or_iff_left hempty, hts]

/-! ## Services and dependencies -/

variable {m : ServiceModule} {d : DependencyModule} {declared : SortedMap Unit}

/-- what an application writes into the module of a service -/
def textsOfService (m : ServiceModule) : List String := [m.cpu, m.memory] ++ m.url.toList ++ m.healthCheck.toList

theorem parts_of_toString (n : Nat) : NameParts (toString n).toList := by
  intro c hc
  rw [Nat.toString_eq_repr, Nat.toList_repr] at hc
  have hdigit : c.isDigit = true := Nat.isDigit_of_mem_toDigits (by decide) (by decide) hc
  simp [isNamePart, hdigit]

theorem plain_source (m : ServiceModule) {kind : String}
    (h : kind = if m.isPublic then "public-service" else "worker-service") : Plain s!"./modules/{kind}" := by
  subst h
  cases m.isPublic <;> decide

theorem parts_append {suffix : String} (h : NameParts name.toList) (hsuffix : NameParts suffix.toList) :
    NameParts (name ++ suffix).toList := by
  rw [String.toList_append]
  exact List.forall_mem_append.2 ⟨h, hsuffix⟩

theorem readValue_imageVariable (h : NameParts name.toList) :
    Contained (reference (imageVariable name)) ∧
      ∀ v, Brings (reference (imageVariable name)) v ↔ v = imageVariable name ∧ IsName v.toList :=
  readValue_reference (parts_append h (by decide))

theorem readValue_envVariable (h : NameParts name.toList) :
    Contained (reference (envVariable name)) ∧
      ∀ v, Brings (reference (envVariable name)) v ↔ v = envVariable name ∧ IsName v.toList :=
  readValue_reference (parts_append h (by decide))

theorem isSetting_of_service (hrole : NameParts m.role.toList) (h : ∀ t ∈ textsOfService m, Contained t) :
    ∀ a ∈ (serviceBlock m).arguments, IsSetting a.1 a.2 := by
  simp only [textsOfService, List.forall_mem_append, List.forall_mem_cons] at h
  obtain ⟨⟨⟨hcpu, hmemory, -⟩, hurl⟩, hhealth⟩ := h
  simp only [serviceBlock, List.forall_mem_append, List.forall_mem_cons]
  refine ⟨⟨⟨⟨?source, ?role, ⟨⟨_, rfl⟩, hcpu⟩, ⟨⟨_, rfl⟩, hmemory⟩, ?image, ?environment, List.forall_mem_nil _⟩,
    fun a ha => ?port⟩, fun a ha => ?url⟩, fun a ha => ?healthCheck⟩
  case source => exact ⟨⟨_, rfl⟩, contained_of_plain (plain_source m rfl)⟩
  case role => exact ⟨⟨_, rfl⟩, contained_of_plain (plain_of_parts hrole)⟩
  case image => exact ⟨⟨_, rfl⟩, (readValue_imageVariable hrole).1⟩
  case environment => exact ⟨⟨_, rfl⟩, (readValue_envVariable hrole).1⟩
  case port =>
    have hkey : IsKey "port        " := ⟨_, rfl⟩
    obtain ⟨port, -, rfl⟩ := Option.mem_map.1 (Option.mem_toList.1 ha)
    exact ⟨hkey, contained_of_plain (plain_of_parts (parts_of_toString port))⟩
  case url =>
    have hkey : IsKey "url         " := ⟨_, rfl⟩
    obtain ⟨url, hin, rfl⟩ := Option.mem_map.1 (Option.mem_toList.1 ha)
    exact ⟨hkey, hurl url (Option.mem_toList.2 hin)⟩
  case healthCheck =>
    have hkey : IsKey "health_check" := ⟨_, rfl⟩
    obtain ⟨healthCheck, hin, rfl⟩ := Option.mem_map.1 (Option.mem_toList.1 ha)
    exact ⟨hkey, hhealth healthCheck (Option.mem_toList.2 hin)⟩

/-- **A service refers to its image and its environment**, and to what an application writes into its module. -/
theorem refersTo_serviceBlock_iff (hrole : NameParts m.role.toList)
    (h : ∀ t ∈ textsOfService m, Contained t) (v : String) : RefersTo (serviceBlock m).text v ↔
      ((v = imageVariable m.role ∨ v = envVariable m.role) ∧ IsName v.toList) ∨ ∃ t ∈ textsOfService m, Brings t v := by
  have hsource := not_brings_of_plain v (plain_source m rfl)
  have hname : ¬ Brings m.role v := not_brings_of_plain _ (plain_of_parts hrole)
  have hport : ¬ ∃ port, m.port = some port ∧ Brings (toString port.val) v := by
    rintro ⟨port, -, hbrings⟩
    exact not_brings_of_plain _ (plain_of_parts (parts_of_toString port.val)) hbrings
  rw [refersTo_block_iff (plain_of_parts hrole) (isSetting_of_service hrole h)]
  simp only [serviceBlock, textsOfService, List.mem_append, List.mem_cons, List.not_mem_nil, or_false, or_and_right,
    exists_or, exists_eq_left, Option.mem_toList, Option.map_eq_some_iff, exists_exists_and_eq_and, hsource,
    hname, hport, (readValue_imageVariable hrole).2, (readValue_envVariable hrole).2, false_or]
  simp only [or_assoc, or_comm, or_left_comm]

theorem isKey_moduleSettings (p : Project) (x : Dependency) :
    ∀ key ∈ (dependencyModule p x).settings.keys, IsKey key := by
  have hversion : IsKey "version" := ⟨_, rfl⟩
  have hdns : IsKey "dnsName" := ⟨_, rfl⟩
  have hengine : IsKey "engine" := ⟨_, rfl⟩
  intro key hkey
  simp only [dependencyModule, Dependency.moduleSettings] at hkey
  split at hkey
  · rcases List.mem_pair.1 (SortedMap.mem_keys_ofList_iff.1 hkey) with rfl | rfl
    · exact hversion
    · exact hdns
  · rcases List.mem_pair.1 (SortedMap.mem_keys_ofList_iff.1 hkey) with rfl | rfl
    · exact hengine
    · exact hversion
  · cases hkey

theorem isSetting_of_dependency (hname : NameParts d.name.toList) (hkeys : ∀ key ∈ d.settings.keys, IsKey key)
    (h : ∀ t ∈ d.settings.values, Contained t) : ∀ a ∈ (dependencyBlock declared d).arguments, IsSetting a.1 a.2 := by
  simp only [dependencyBlock, List.forall_mem_append, List.forall_mem_cons]
  refine ⟨⟨⟨?source, ?environment, List.forall_mem_nil _⟩, ?image⟩, fun a ha => ?setting⟩
  case source => exact ⟨⟨_, rfl⟩, contained_of_plain (plain_append (by decide) (plain_of_parts hname))⟩
  case environment => exact ⟨⟨_, rfl⟩, (readValue_envVariable hname).1⟩
  case image =>
    have hkey : IsKey "docker_image" := ⟨_, rfl⟩
    split
    · exact List.forall_mem_singleton.2 ⟨hkey, (readValue_imageVariable hname).1⟩
    · exact List.forall_mem_nil _
  case setting => exact ⟨hkeys _ (List.mem_map_of_mem ha), h _ (List.mem_map_of_mem ha)⟩

/-- **A dependency refers to its environment, and to its image if it runs in a container and the image is published**,
and to what an application writes into its module. -/
theorem refersTo_dependencyBlock_iff (hname : NameParts d.name.toList)
    (hkeys : ∀ key ∈ d.settings.keys, IsKey key) (h : ∀ t ∈ d.settings.values, Contained t) (v : String) :
    RefersTo (dependencyBlock declared d).text v ↔
      ((v = envVariable d.name ∨
        (d.isContainerised = true ∧ imageVariable d.name ∈ declared.keys) ∧ v = imageVariable d.name) ∧
          IsName v.toList) ∨
        ∃ t ∈ d.settings.values, Brings t v := by
  have hsource : Plain s!"./modules/dependencies/{d.name}" := plain_append (by decide) (plain_of_parts hname)
  have hsettings : (∃ a ∈ d.settings.entries, Brings a.2 v) ↔ ∃ t ∈ d.settings.values, Brings t v := by
    constructor
    · rintro ⟨a, ha, hbrings⟩
      exact ⟨a.2, List.mem_map_of_mem ha, hbrings⟩
    · rintro ⟨_, ht, hbrings⟩
      obtain ⟨a, ha, rfl⟩ := List.mem_map.1 ht
      exact ⟨a, ha, hbrings⟩
  have himage : (∃ a ∈ (if d.isContainerised && declared.contains (imageVariable d.name) then
      [("docker_image", reference (imageVariable d.name))] else []), Brings a.2 v) ↔
      ((d.isContainerised = true ∧ imageVariable d.name ∈ declared.keys) ∧ v = imageVariable d.name) ∧
      IsName v.toList := by
    rw [← SortedMap.contains_iff_mem_keys, ← Bool.and_eq_true]
    cases d.isContainerised && declared.contains (imageVariable d.name) with
    | false => simp
    | true => simp [(readValue_imageVariable hname).2]
  rw [refersTo_block_iff (plain_of_parts hname) (isSetting_of_dependency hname hkeys h)]
  simp only [dependencyBlock, List.mem_append, List.mem_cons, List.not_mem_nil, or_false,
    or_and_right, exists_or, exists_eq_left, not_brings_of_plain v hsource, false_or, hsettings, himage,
    (readValue_envVariable hname).2]

/-! ## Infrastructures -/

variable {p : Project} {account : Account} {images : Images} {i : Infrastructure} {jobs : List ImageJob}

/-- what an application writes into the modules of its services and dependencies -/
def texts (i : Infrastructure) : List String :=
  i.services.flatMap textsOfService ++ i.dependencies.flatMap fun d => d.settings.values

/-- names are made of what variables are made of, and what an application writes ends where its quotes end -/
structure Readable (i : Infrastructure) : Prop where
  roles : ∀ m ∈ i.services, NameParts m.role.toList
  names : ∀ d ∈ i.dependencies, NameParts d.name.toList
  texts : ∀ t ∈ i.texts, Contained t

/-- roles that are accepted are made of what variables are made of -/
theorem parts_of_role (h : p.application.checkNames = .ok ()) : ∀ role ∈ p.roles, NameParts role.toList := by
  intro role hrole c hc
  obtain ⟨e, he, rfl⟩ := List.mem_map.1 hrole
  obtain ⟨hhyphenated, -⟩ := (Application.checkNames_eq_ok_iff.1 h).2 e he
  rcases Naming.mem_of_isHyphenated hhyphenated hc with rfl | hchar
  · decide
  · have hpart : c.isDigit = true ∨ c.isAlpha = true := by simpa [Naming.isNameChar] using hchar
    rcases hpart with hdigit | hletter
    · simp [isNamePart, hdigit]
    · simp [isNamePart, isNameStart, hletter]

/-- plain texts end where their quotes end, and accepted roles are made of what variables are made of -/
theorem readable_of_plain (h : ofProject p account images = .ok i) (hroles : p.application.checkNames = .ok ())
    (hnames : ∀ x ∈ p.cloudDependencies, NameParts x.name.toList) (htexts : ∀ t ∈ i.texts, Plain t) : i.Readable := by
  obtain ⟨hservices, hdependencies⟩ := ofProject_eq_ok h
  refine ⟨fun m hm => ?_, ?_, fun t ht => contained_of_plain (htexts t ht)⟩
  · exact parts_of_role hroles m.role (hservices ▸ List.mem_map_of_mem hm)
  · rw [hdependencies]
    exact List.forall_mem_map.2 hnames

/-- an environment is no image -/
theorem envVariable_ne_imageVariable (name : String) : envVariable name ≠ imageVariable name := by
  unfold envVariable imageVariable
  rw [Ne, String.append_right_inj]
  decide

/-- every image has its variable -/
theorem declared_of_published (h : ofProject p account images = .ok i) (himage : name ∈ images.keys) :
    imageVariable name ∈ i.declared.keys :=
  (mem_declared_iff h).2 (.inl (.image himage))

/-- the images of services are declared once they are published, and those of what runs in containers -/
theorem imageVariables_declared (h : ofProject p account images = .ok i) (hjobs : p.imageJobs = .ok jobs)
    (hpublished : ∀ j ∈ jobs, j.name ∈ images.keys) :
    (∀ m ∈ i.services, imageVariable m.role ∈ i.declared.keys) ∧
      ∀ d ∈ i.dependencies, d.isContainerised = true → imageVariable d.name ∈ i.declared.keys := by
  obtain ⟨hservices, hdependencies⟩ := ofProject_eq_ok h
  obtain ⟨own, provided, rfl, _, hown, hprovided⟩ := Project.imageJobs_split hjobs
  constructor
  · intro m hm
    have hrole : m.role ∈ own.map ImageJob.name := hown ▸ hservices ▸ List.mem_map_of_mem hm
    obtain ⟨j, hj, hname⟩ := List.mem_map.1 hrole
    exact declared_of_published h (hname ▸ hpublished j (List.mem_append_left _ hj))
  · intro m hm hcontainerised
    rw [hdependencies] at hm
    obtain ⟨x, hx, rfl⟩ := List.mem_map.1 hm
    obtain ⟨j, hj, hpublishes⟩ := exists_related hprovided (List.mem_filter.2 ⟨hx, hcontainerised⟩)
    have hname := hpublished j (List.mem_append_right _ hj)
    rw [hpublishes.name] at hname
    exact declared_of_published h hname

/-- the environments of services and dependencies are declared -/
theorem envVariables_declared (h : ofProject p account images = .ok i) :
    (∀ m ∈ i.services, envVariable m.role ∈ i.declared.keys) ∧
    ∀ d ∈ i.dependencies, envVariable d.name ∈ i.declared.keys := by
  obtain ⟨hservices, hdependencies⟩ := ofProject_eq_ok h
  constructor
  · intro m hm
    have hrole : m.role ∈ p.roles := hservices ▸ List.mem_map_of_mem hm
    exact (mem_declared_iff h).2 (.inl (.service hrole))
  · intro m hm
    rw [hdependencies] at hm
    obtain ⟨x, hx, rfl⟩ := List.mem_map.1 hm
    exact (mem_declared_iff h).2 (.inl (.dependency hx))

theorem isKey_settings (h : ofProject p account images = .ok i) :
    ∀ d ∈ i.dependencies, ∀ key ∈ d.settings.keys, IsKey key := by
  rw [(ofProject_eq_ok h).2]
  intro d hd
  obtain ⟨x, -, rfl⟩ := List.mem_map.1 hd
  exact isKey_moduleSettings p x

namespace Readable

variable (hread : i.Readable) (h : ofProject p account images = .ok i)
include hread

theorem refersTo_service_iff (hm : m ∈ i.services) (v : String) : RefersTo (serviceBlock m).text v ↔
    ((v = imageVariable m.role ∨ v = envVariable m.role) ∧ IsName v.toList) ∨ ∃ t ∈ textsOfService m, Brings t v :=
  refersTo_serviceBlock_iff (hread.roles m hm)
    (fun t ht => hread.texts t (List.mem_append_left _ (List.mem_flatMap.2 ⟨m, hm, ht⟩))) v

include h

theorem refersTo_dependency_iff (hd : d ∈ i.dependencies) (v : String) :
    RefersTo (dependencyBlock i.declared d).text v ↔ ((v = envVariable d.name ∨
      (d.isContainerised = true ∧ imageVariable d.name ∈ i.declared.keys) ∧ v = imageVariable d.name) ∧
        IsName v.toList) ∨
      ∃ t ∈ d.settings.values, Brings t v :=
  refersTo_dependencyBlock_iff (hread.names d hd) (isKey_settings h d hd)
    (fun t ht => hread.texts t (List.mem_append_right _ (List.mem_flatMap.2 ⟨d, hd, ht⟩))) v

/-- the modules of services and dependencies refer to what is declared just if the application's own texts do -/
theorem references_declared_iff (hjobs : p.imageJobs = .ok jobs) (hpublished : ∀ j ∈ jobs, j.name ∈ images.keys) :
    (∀ b ∈ i.ownBlocks, ∀ v, RefersTo b.text v → v ∈ i.declared.keys) ↔
      ∀ t ∈ i.texts, ∀ v, Brings t v → v ∈ i.declared.keys := by
  obtain ⟨hserviceImages, -⟩ := imageVariables_declared h hjobs hpublished
  obtain ⟨hserviceEnvironments, hdependencyEnvironments⟩ := envVariables_declared h
  simp only [ownBlocks, Infrastructure.texts, List.forall_mem_append, List.forall_mem_map, List.forall_mem_flatMap]
  constructor
  · rintro ⟨hservices, hdependencies⟩
    exact ⟨fun m hm t ht v hbrings => hservices m hm v ((hread.refersTo_service_iff hm v).2 (.inr ⟨t, ht, hbrings⟩)),
      fun d hd t ht v hbrings => hdependencies d hd v
        ((hread.refersTo_dependency_iff h hd v).2 (.inr ⟨t, ht, hbrings⟩))⟩
  · rintro ⟨hservices, hdependencies⟩
    refine ⟨fun m hm v hrefers => ?_, fun d hd v hrefers => ?_⟩
    · rcases (hread.refersTo_service_iff hm v).1 hrefers with ⟨rfl | rfl, -⟩ | ⟨t, ht, hbrings⟩
      · exact hserviceImages m hm
      · exact hserviceEnvironments m hm
      · exact hservices m hm t ht v hbrings
    · rcases (hread.refersTo_dependency_iff h hd v).1 hrefers with ⟨rfl | ⟨⟨-, hin⟩, rfl⟩, -⟩ | ⟨t, ht, hbrings⟩
      · exact hdependencyEnvironments d hd
      · exact hin
      · exact hdependencies d hd t ht v hbrings

/-- modules refer to their images: those of services do, and those of what runs in containers -/
theorem refersTo_image_iff (hjobs : p.imageJobs = .ok jobs) (hpublished : ∀ j ∈ jobs, j.name ∈ images.keys) :
    (∀ m ∈ i.services, RefersTo (serviceBlock m).text (imageVariable m.role) ↔ IsName (imageVariable m.role).toList) ∧
      ∀ d ∈ i.dependencies, RefersTo (dependencyBlock i.declared d).text (imageVariable d.name) ↔
        (d.isContainerised = true ∧ IsName (imageVariable d.name).toList) ∨
          ∃ t ∈ d.settings.values, Brings t (imageVariable d.name) := by
  obtain ⟨-, hdependencyImages⟩ := imageVariables_declared h hjobs hpublished
  constructor
  · intro m hm
    rw [hread.refersTo_service_iff hm]
    constructor
    · rintro (⟨-, hname⟩ | ⟨t, -, hbrings⟩)
      · exact hname
      · exact isName_of_brings hbrings
    · exact fun hname => .inl ⟨.inl rfl, hname⟩
  · intro d hd
    have hdeclared : (d.isContainerised = true ∧ imageVariable d.name ∈ i.declared.keys) ↔ d.isContainerised = true :=
      and_iff_left_of_imp (hdependencyImages d hd)
    rw [hread.refersTo_dependency_iff h hd, or_iff_right (envVariable_ne_imageVariable _).symm, hdeclared,
      and_iff_left rfl]

end Readable

/-- **All who read what is provided agree.** It holds each name once, as it is declared first. Behind the images of the
services come those of what is provided in containers, and behind the modules of the services come those of all that is
provided; just those are marked to run in containers that have an image. Once every image is published, every variable
that a module refers to is declared just if those are that the application's own texts refer to. A module refers to its
own image if it is that of a service or runs in a container, and otherwise only if one of these texts does. -/
theorem readers_agree (p : Project) :
    (p.cloudDependencies.map Dependency.name).Nodup ∧
    (p.cloudDependencies = (List.range p.declaredInCloud.length).filterMap fun n =>
      p.declaredInCloud[n]?.filter fun d => d.name ∉ (p.declaredInCloud.take n).map Dependency.name) ∧
    (∀ jobs, p.imageJobs = .ok jobs → ∃ own provided, jobs = own ++ provided ∧ own.map ImageJob.name = p.roles ∧
      List.Forall₂ p.Publishes (p.cloudDependencies.filter Dependency.isContainerised) provided) ∧
    ∀ account images i, ofProject p account images = .ok i →
      i.render = preamble i.account ++ String.join (i.declared.keys.map variableText) ++
        "\n".intercalate (i.blocks.map Block.text) ∧
      i.services.map ServiceModule.role = p.roles ∧
      i.dependencies = p.cloudDependencies.map (dependencyModule p) ∧
      (∀ d, (dependencyModule p d).isContainerised = (p.dependencyJob? d).isSome) ∧
      ∀ jobs, p.imageJobs = .ok jobs → (∀ j ∈ jobs, j.name ∈ images.keys) → i.Readable →
        ((∀ b ∈ i.ownBlocks, ∀ v, RefersTo b.text v → v ∈ i.declared.keys) ↔
          ∀ t ∈ i.texts, ∀ v, Brings t v → v ∈ i.declared.keys) ∧
        (∀ m ∈ i.services, RefersTo (serviceBlock m).text (imageVariable m.role) ↔
          IsName (imageVariable m.role).toList) ∧
        ∀ d ∈ i.dependencies, RefersTo (dependencyBlock i.declared d).text (imageVariable d.name) ↔
          (d.isContainerised = true ∧ IsName (imageVariable d.name).toList) ∨
            ∃ t ∈ d.settings.values, Brings t (imageVariable d.name) := by
  refine ⟨Project.nodup_firstOfEachName [] _, p.cloudDependencies_eq, fun jobs hjobs => ?_,
    fun account images i hi => ?_⟩
  · obtain ⟨own, provided, rfl, _, hown, hprovided⟩ := Project.imageJobs_split hjobs
    exact ⟨own, provided, rfl, hown, hprovided⟩
  obtain ⟨hservices, hdependencies⟩ := ofProject_eq_ok hi
  refine ⟨render_eq i, hservices, hdependencies, fun d => ?_, fun jobs hjobs hpublished hread => ?_⟩
  · obtain ⟨hnot, hjob⟩ | ⟨hcontainerised, j, hjob, _⟩ := p.dependencyJob?_cases d
    · rw [hjob]
      exact hnot
    · rw [hjob]
      exact hcontainerised
  · exact ⟨hread.references_declared_iff hi hjobs hpublished, hread.refersTo_image_iff hi hjobs hpublished⟩

/-- the shop with its stock publishes its pages and its sessions, and its database has no image -/
theorem stocked_readers_agree : ∃ jobs i, Deploy.stockedShop.project.imageJobs = .ok jobs ∧
    ofProject Deploy.stockedShop.project Deploy.stockedShop.account Deploy.stockedImages = .ok i ∧ i.Readable ∧
    jobs.map ImageJob.name = ["web", "redis"] ∧
    (i.dependencies.map fun d => (d.name, d.isContainerised)) = [("mysql", false), ("redis", true)] ∧
    (∀ b ∈ i.ownBlocks, ∀ v, RefersTo b.text v → v ∈ i.declared.keys) ∧
    ∀ d ∈ i.dependencies, RefersTo (dependencyBlock i.declared d).text (imageVariable d.name) ↔
      d.isContainerised = true := by
  have haccepted : Deploy.stockedShop.project.checkDeployable = .ok () := by decide +kernel
  have hready := Project.ready_of_checkDeployable haccepted
  obtain ⟨jobs, hjobs, hnames⟩ := Project.exists_imageJobs hready
  obtain ⟨i, hi⟩ := Project.exists_ofProject hready Deploy.stockedShop.account Deploy.stockedImages
  obtain ⟨_, _, _, hall⟩ := readers_agree Deploy.stockedShop.project
  obtain ⟨_, _, hdependencies, _, hrefers⟩ := hall _ _ i hi
  have hweb : jobs.map ImageJob.name = ["web", "redis"] := hnames.trans (by decide +kernel)
  have htexts : (ofProject Deploy.stockedShop.project Deploy.stockedShop.account Deploy.stockedImages).map
      (fun i => decide (∀ t ∈ i.texts, Plain t)) = .ok true := by decide +kernel
  have hplain : ∀ t ∈ i.texts, Plain t := by simpa [hi, Except.map] using htexts
  have hread : i.Readable := readable_of_plain hi (by decide +kernel) (by decide +kernel) hplain
  have hpublished : ∀ j ∈ jobs, j.name ∈ Deploy.stockedImages.keys := fun j hj => by
    have hname : j.name ∈ ["web", "redis"] := hweb ▸ List.mem_map_of_mem hj
    have hkeys : ∀ name ∈ ["web", "redis"], name ∈ Deploy.stockedImages.keys := by decide +kernel
    exact hkeys _ hname
  obtain ⟨hdeclared, -, himages⟩ := hrefers jobs hjobs hpublished hread
  refine ⟨jobs, i, hjobs, hi, hread, hweb, ?_, hdeclared.2 fun t ht v hbrings => ?_, fun d hd => ?_⟩
  · rw [hdependencies]
    decide +kernel
  · exact absurd hbrings (not_brings_of_plain _ (hplain t ht))
  · rw [himages d hd]
    have hname : IsName (imageVariable d.name).toList := by
      rw [hdependencies] at hd
      revert d
      decide +kernel
    refine ⟨?_, fun hcontainerised => .inl ⟨hcontainerised, hname⟩⟩
    rintro (⟨hcontainerised, -⟩ | ⟨t, ht, hbrings⟩)
    · exact hcontainerised
    · exact absurd hbrings (not_brings_of_plain _ (hplain t (List.mem_append_right _ (List.mem_flatMap.2 ⟨d, hd, ht⟩))))

/-- the shop is accepted, and its pages refer to a variable that nobody declares -/
theorem address_refers_to_nothing : ¬ ∀ (p : Project) (account : Account) (images : Images) (i : Infrastructure)
    (jobs : List ImageJob), p.checkDeployable = .ok () → ofProject p account images = .ok i → p.imageJobs = .ok jobs →
      (∀ j ∈ jobs, j.name ∈ images.keys) → ∀ b ∈ i.ownBlocks, ∀ v, RefersTo b.text v → v ∈ i.declared.keys := by
  intro h
  have haccepted : (shopWithPages (reference "nowhere") none).checkDeployable = .ok () := by decide +kernel
  obtain ⟨jobs, hjobs, hnames⟩ := Project.exists_imageJobs (Project.ready_of_checkDeployable haccepted)
  have hi : ofProject (shopWithPages (reference "nowhere") none) ⟨"default", "eu", "1", "shop"⟩
      (.singleton "web" "r/shop-web:1") = .ok { pagesOf (reference "nowhere") none with
        declared := .ofList [(profileVariable, ()), (envVariable "web", ()), (imageVariable "web", ())] } := by
    decide +kernel
  have hweb : jobs.map ImageJob.name = (SortedMap.singleton "web" "r/shop-web:1" : Images).keys :=
    hnames.trans (by decide +kernel)
  have hpublished : ∀ j ∈ jobs, j.name ∈ (SortedMap.singleton "web" "r/shop-web:1" : Images).keys := fun j hj =>
    hweb ▸ List.mem_map_of_mem hj
  have hpages := h _ _ _ _ jobs haccepted hi hjobs hpublished
    (serviceBlock ⟨"web", true, "1", "256", some ⟨8443, by decide⟩, some (reference "nowhere"), none⟩)
    List.mem_cons_self "nowhere"
  have hbrings : Brings (reference "nowhere") "nowhere" :=
    ((readValue_reference (by decide)).2 "nowhere").2 ⟨rfl, by decide⟩
  refine absurd (hpages ((refersTo_serviceBlock_iff (by decide) (by decide +kernel) "nowhere").2
    (.inr ⟨_, ?_, hbrings⟩))) ?_
  · exact .tail _ (.tail _ (.head _))
  · decide +kernel

end Fleet.Infrastructure
