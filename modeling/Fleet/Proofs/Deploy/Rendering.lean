/-
Renderings: whether the text of an infrastructure tells what it holds.

A deploy compares the text with the one that was there before (`Drift.compare`), and asks nobody if they are the same.
Values are copied into their quotes as they are. What keeps arguments and modules apart are line breaks, so a value that
has some of its own can look like other arguments.
- `pieces_block_append`: if the values of a module have no line breaks, what stands between those of its text is its
  heading, its arguments one by one, and its brace.
- `services_of_pieces`: services can be read off the pieces, whatever the settings of the dependencies behind them are.
- `texts_agree_iff`: with one account and the same variables, and without line breaks in values, texts are the same just
  if names, addresses, certificates and services are, and the texts of the dependencies.
- `health_check_is_imitated`: two shops that are accepted and have the same text. One has a health check; the address of
  the other ends its quotes and goes on like that health check.
-/
import Fleet.Proofs.Deploy.Modules

namespace Fleet

/-! ## What stands between line breaks -/

namespace Text

variable {s t : String}

/-- a text without line breaks -/
def OneLine (s : String) : Prop := '\n' ∉ s.toList

instance : DecidablePred OneLine := fun _ => inferInstanceAs (Decidable (_ ∉ _))

/-- what stands between the line breaks of a text, before the first one and behind the last one -/
def pieces (s : String) : List (List Char) := Path.splitFrom '\n' [] s.toList

theorem OneLine.append (hs : OneLine s) (ht : OneLine t) : OneLine (s ++ t) := by
  rw [OneLine, String.toList_append, List.mem_append, not_or]
  exact ⟨hs, ht⟩

theorem OneLine.pieces_eq (h : OneLine s) : pieces s = [s.toList] := by
  rw [pieces, Path.splitFrom_of_not_mem h]
  rfl

/-- a line break divides the pieces before it from those behind it -/
theorem pieces_append (s t : String) : pieces (s ++ "\n" ++ t) = pieces s ++ pieces t := by
  have hbreak : (s ++ "\n" ++ t).toList = s.toList ++ '\n' :: t.toList := by simp
  rw [pieces, hbreak, Path.splitFrom_separated]
  rfl

theorem pieces_break_append (t : String) : pieces ("\n" ++ t) = [] :: pieces t := by
  have h := pieces_append "" t
  rwa [String.empty_append] at h

theorem pieces_join_append (body : List String) (t : String) :
    pieces (String.join (body.map fun line => line ++ "\n") ++ t) = body.flatMap pieces ++ pieces t := by
  induction body with
  | nil => simp
  | cons line body ih =>
    rw [List.map_cons, String.join_cons, String.append_assoc, pieces_append, ih, List.flatMap_cons, List.append_assoc]

end Text

open Text

namespace Infrastructure

variable {key key' value value' t t' : String}

theorem pieces_blockText_append (heading : String) (body : List String) (t : String) :
    pieces (blockText heading body ++ t) =
      pieces (heading ++ " \x7b") ++ (body.flatMap pieces ++ ['\x7d'] :: pieces t) := by
  have hopen : (" \x7b\n" : String) = " \x7b" ++ "\n" := rfl
  have hclose : ("\x7d\n" : String) = "\x7d" ++ "\n" := rfl
  have htext : blockText heading body ++ t = heading ++ " \x7b" ++ "\n" ++
      (String.join (body.map fun line => line ++ "\n") ++ ("\x7d" ++ "\n" ++ t)) := by
    simp only [blockText, hopen, hclose, String.append_assoc]
  rw [htext, pieces_append, pieces_join_append, pieces_append]
  rfl

/-! ## Settings -/

theorem toList_setting (key value : String) : (setting key value).toList =
    ' ' :: ' ' :: (key.toList ++ (' ' :: '=' :: ' ' :: '"' :: (value.toList ++ ['"']))) := by
  simp [setting, toString]

theorem oneLine_setting (hkey : OneLine key) (hvalue : OneLine value) : OneLine (setting key value) := by
  rw [OneLine, toList_setting]
  simpa using ⟨hkey, hvalue⟩

/-- keys that are lined up can be told from their values -/
theorem setting_inj (hlength : key.length = key'.length) (h : setting key value = setting key' value') :
    key = key' ∧ value = value' := by
  rw [← String.toList_inj, toList_setting, toList_setting] at h
  simp only [List.cons.injEq, true_and] at h
  obtain ⟨hkey, hvalue⟩ := List.append_inj h (by rwa [String.length_toList, String.length_toList])
  simp only [List.cons.injEq, true_and, List.append_cancel_right_eq] at hvalue
  exact ⟨String.toList_inj.1 hkey, String.toList_inj.1 hvalue⟩

theorem settings_inj {l l' : List (String × String)} {n : Nat} (h : ∀ a ∈ l, a.1.length = n)
    (h' : ∀ a ∈ l', a.1.length = n) (heq : l.map (fun a => setting a.1 a.2) = l'.map fun a => setting a.1 a.2) :
    l = l' := by
  induction l generalizing l' with
  | nil => exact (List.map_eq_nil_iff.1 heq.symm).symm
  | cons a l ih =>
    cases l' with
    | nil => simp at heq
    | cons a' l' =>
      obtain ⟨ha, hl⟩ := List.forall_mem_cons.1 h
      obtain ⟨ha', hl'⟩ := List.forall_mem_cons.1 h'
      obtain ⟨hhead, htail⟩ := List.cons.inj heq
      obtain ⟨hkey, hvalue⟩ := setting_inj (ha.trans ha'.symm) hhead
      rw [Prod.ext hkey hvalue, ih hl hl' htail]

/-! ## Modules -/

namespace Block

variable {b b' : Block}

/-- neither the name nor an argument has line breaks -/
structure OneLine (b : Block) : Prop where
  name : Text.OneLine b.name
  arguments : ∀ a ∈ b.arguments, Text.OneLine a.1 ∧ Text.OneLine a.2

theorem toList_heading (name : String) : (s!"module \"{name}\"" ++ " \x7b").toList =
    "module \"".toList ++ (name.toList ++ "\" \x7b".toList) := by
  simp [toString]

theorem oneLine_heading {name : String} (h : Text.OneLine name) : Text.OneLine (s!"module \"{name}\"" ++ " \x7b") := by
  rw [Text.OneLine, toList_heading, List.mem_append, List.mem_append, not_or, not_or]
  exact ⟨by decide, h, by decide⟩

end Block

/-- a heading, the arguments one by one, and a brace -/
theorem pieces_block_append {b : Block} (h : b.OneLine) (t : String) : pieces (b.text ++ t) =
    (s!"module \"{b.name}\"" ++ " \x7b").toList ::
      ((b.arguments.map fun a => (setting a.1 a.2).toList) ++ ['\x7d'] :: pieces t) := by
  have hbody : (b.arguments.map fun a => setting a.1 a.2).flatMap pieces =
      b.arguments.map fun a => (setting a.1 a.2).toList := by
    rw [List.flatMap_map, List.map_eq_flatMap]
    exact List.flatMap_congr fun a ha => (oneLine_setting (h.arguments a ha).1 (h.arguments a ha).2).pieces_eq
  rw [Block.text, pieces_blockText_append, hbody, (Block.oneLine_heading h.name).pieces_eq]
  rfl

/-- a module can be read off, and what follows is what is left -/
theorem block_of_pieces {b b' : Block} (h : b.OneLine) (h' : b'.OneLine) {n : Nat}
    (hkeys : ∀ a ∈ b.arguments, a.1.length = n) (hkeys' : ∀ a ∈ b'.arguments, a.1.length = n)
    (heq : pieces (b.text ++ t) = pieces (b'.text ++ t')) :
    b.name = b'.name ∧ b.arguments = b'.arguments ∧ pieces t = pieces t' := by
  have hopen (b : Block) : ['\x7d'] ∉ b.arguments.map fun a => (setting a.1 a.2).toList := by
    simp [toList_setting]
  rw [pieces_block_append h, pieces_block_append h', Block.toList_heading, Block.toList_heading] at heq
  obtain ⟨hheading, hbody⟩ := List.cons.inj heq
  obtain ⟨hsettings, hrest⟩ := cut_unique (hopen b) (hopen b') hbody
  rw [List.append_cancel_left_eq, List.append_cancel_right_eq, String.toList_inj] at hheading
  refine ⟨hheading, settings_inj hkeys hkeys' ?_, hrest⟩
  rw [← List.map_inj_right (f := String.toList) fun _ _ => String.toList_inj.1, List.map_map, List.map_map]
  exact hsettings

end Infrastructure

/-! ## Services -/

/-- no value of a service has line breaks -/
structure ServiceModule.OneLine (m : ServiceModule) : Prop where
  role : Text.OneLine m.role
  cpu : Text.OneLine m.cpu
  memory : Text.OneLine m.memory
  url : ∀ url ∈ m.url, Text.OneLine url
  healthCheck : ∀ healthCheck ∈ m.healthCheck, Text.OneLine healthCheck

namespace Infrastructure

variable {m m' : ServiceModule} {d : DependencyModule} {declared : SortedMap Unit}
  {services services' : List ServiceModule} {dependencies dependencies' : List DependencyModule}

theorem oneLine_reference {name : String} (h : OneLine name) : OneLine (reference name) := by
  simpa [OneLine, reference] using h

theorem oneLine_number (n : Nat) : OneLine (toString n) := by
  intro hbreak
  rw [Nat.toString_eq_repr, Nat.toList_repr] at hbreak
  exact absurd (Nat.isDigit_of_mem_toDigits (by decide) (by decide) hbreak) (by decide)

/-- a number is read off its digits -/
theorem number_inj {n n' : Nat} (h : toString n = toString n') : n = n' := by
  rw [Nat.toString_eq_repr, Nat.toString_eq_repr, ← String.toList_inj, Nat.toList_repr, Nat.toList_repr] at h
  rw [← Nat.ofDigitChars_toDigits (b := 10) (n := n) (by decide) (by decide), h,
    Nat.ofDigitChars_toDigits (by decide) (by decide)]

theorem oneLine_source (m : ServiceModule) :
    OneLine ("./modules/" ++ if m.isPublic then "public-service" else "worker-service") := by
  cases m.isPublic <;> decide

theorem oneLine_serviceBlock (h : m.OneLine) : (serviceBlock m).OneLine := by
  have himage := oneLine_reference (h.role.append (t := "_docker_image") (by decide))
  have henvironment := oneLine_reference (h.role.append (t := "_env_vars") (by decide))
  refine ⟨h.role, ?_⟩
  simp only [serviceBlock, List.forall_mem_append, List.forall_mem_cons]
  refine ⟨⟨⟨⟨⟨by decide, oneLine_source m⟩, ⟨by decide, h.role⟩, ⟨by decide, h.cpu⟩, ⟨by decide, h.memory⟩,
    ⟨by decide, himage⟩, ⟨by decide, henvironment⟩, by simp⟩, ?_⟩, ?_⟩, ?_⟩
  · cases m.port with
    | none => simp
    | some port => simpa using ⟨by decide, oneLine_number port⟩
  · cases hurl : m.url with
    | none => simp
    | some url => simpa using ⟨by decide, h.url url hurl⟩
  · cases hhealth : m.healthCheck with
    | none => simp
    | some healthCheck => simpa using ⟨by decide, h.healthCheck healthCheck hhealth⟩

theorem length_key_serviceBlock (m : ServiceModule) : ∀ a ∈ (serviceBlock m).arguments, a.1.length = 12 := by
  obtain ⟨role, isPublic, cpu, memory, port, url, healthCheck⟩ := m
  cases port <;> cases url <;> cases healthCheck <;> simp [serviceBlock] <;> decide

/-- the values that are written for a service, by their keys -/
theorem lookup_serviceBlock (m : ServiceModule) :
    (serviceBlock m).arguments.lookup "source      " =
      some (if m.isPublic then "./modules/public-service" else "./modules/worker-service") ∧
    (serviceBlock m).arguments.lookup "cpu         " = some m.cpu ∧
    (serviceBlock m).arguments.lookup "memory      " = some m.memory ∧
    (serviceBlock m).arguments.lookup "port        " = m.port.map (fun port => toString port.val) ∧
    (serviceBlock m).arguments.lookup "url         " = m.url ∧
    (serviceBlock m).arguments.lookup "health_check" = m.healthCheck := by
  obtain ⟨role, isPublic, cpu, memory, port, url, healthCheck⟩ := m
  cases isPublic <;> cases port <;> cases url <;> cases healthCheck <;>
    simp [serviceBlock, List.lookup_cons, toString]

/-- a service is read off its arguments -/
theorem service_eq_of_arguments (hrole : m.role = m'.role)
    (h : (serviceBlock m).arguments = (serviceBlock m').arguments) : m = m' := by
  obtain ⟨hsource, hcpu, hmemory, hport, hurl, hhealth⟩ := lookup_serviceBlock m
  obtain ⟨hsource', hcpu', hmemory', hport', hurl', hhealth'⟩ := lookup_serviceBlock m'
  rw [h] at hsource hcpu hmemory hport hurl hhealth
  have hpublic : m.isPublic = m'.isPublic := by
    have hkind := hsource.symm.trans hsource'
    revert hkind
    cases m.isPublic <;> cases m'.isPublic <;> decide
  have hsamePort : m.port = m'.port :=
    Option.map_injective (fun _ _ hnumber => Fin.ext (number_inj hnumber)) (hport.symm.trans hport')
  have hsameCpu := Option.some.inj (hcpu.symm.trans hcpu')
  have hsameMemory := Option.some.inj (hmemory.symm.trans hmemory')
  have hsameUrl := hurl.symm.trans hurl'
  have hsameHealth := hhealth.symm.trans hhealth'
  cases m
  cases m'
  rw [ServiceModule.mk.injEq]
  exact ⟨hrole, hpublic, hsameCpu, hsameMemory, hsamePort, hsameUrl, hsameHealth⟩

/-! ## Behind the services -/

/-- of a module, its heading and its source stand first -/
theorem pieces_of_source {name key value : String} (body : List String) (hname : OneLine name)
    (hsource : OneLine (setting key value)) (t : String) :
    pieces ("\n" ++ blockText s!"module \"{name}\"" (setting key value :: body) ++ t) =
      [] :: (s!"module \"{name}\"" ++ " \x7b").toList :: (setting key value).toList ::
        (body.flatMap pieces ++ ['\x7d'] :: pieces t) := by
  rw [String.append_assoc, pieces_break_append, pieces_blockText_append, (Block.oneLine_heading hname).pieces_eq,
    List.flatMap_cons, hsource.pieces_eq]
  rfl

theorem pieces_serviceText_append (h : m.OneLine) (t : String) : ∃ heading kind more,
    pieces (serviceText m ++ t) = [] :: heading :: (setting "source      " kind).toList :: more :=
  ⟨_, _, _, pieces_of_source _ h.role (oneLine_setting (by decide) (oneLine_source m)) t⟩

theorem pieces_dependencyText_append (declared : SortedMap Unit) (h : OneLine d.name) (t : String) :
    ∃ heading path more, pieces (dependencyText declared d ++ t) =
      [] :: heading :: (setting "source  " path).toList :: more := by
  have hpath : OneLine ("./modules/dependencies/" ++ d.name) := OneLine.append (by decide) h
  exact ⟨_, _, _, pieces_of_source _ h (oneLine_setting (by decide) hpath) t⟩

/-- dependencies are not taken for a service: their sources are lined up with shorter keys -/
theorem service_ne_dependencies (h : m.OneLine) (hd : ∀ d ∈ dependencies, OneLine d.name) (t : String) :
    pieces (serviceText m ++ t) ≠ pieces (String.join (dependencies.map (dependencyText declared))) := by
  obtain ⟨heading, kind, more, hservice⟩ := pieces_serviceText_append h t
  rw [hservice]
  cases dependencies with
  | nil => exact fun heq => absurd (congrArg List.length heq) (by simp [pieces, Path.splitFrom])
  | cons d dependencies =>
    rw [List.map_cons, String.join_cons]
    obtain ⟨heading', path, more', hdependency⟩ := pieces_dependencyText_append declared (hd d List.mem_cons_self)
      (String.join (dependencies.map (dependencyText declared)))
    rw [hdependency]
    intro heq
    have hsource : (setting "source      " kind).toList = (setting "source  " path).toList := by
      simp only [List.cons.injEq] at heq
      exact heq.2.2.1
    simp [toList_setting] at hsource

/-- **Services are read off what stands between line breaks**, whatever the settings of the dependencies behind them
are. -/
theorem services_of_pieces (h : ∀ m ∈ services, m.OneLine) (h' : ∀ m ∈ services', m.OneLine)
    (hd : ∀ d ∈ dependencies, OneLine d.name) (hd' : ∀ d ∈ dependencies', OneLine d.name)
    (heq : pieces (String.join (services.map serviceText) ++ String.join (dependencies.map (dependencyText declared))) =
      pieces (String.join (services'.map serviceText) ++ String.join (dependencies'.map (dependencyText declared)))) :
    services = services' := by
  induction services generalizing services' with
  | nil =>
    cases services' with
    | nil => rfl
    | cons m' services' =>
      rw [List.map_cons, String.join_cons, String.append_assoc, List.map_nil, String.join_nil,
        String.empty_append] at heq
      exact absurd heq.symm (service_ne_dependencies (h' m' List.mem_cons_self) hd _)
  | cons m services ih =>
    cases services' with
    | nil =>
      rw [List.map_cons, String.join_cons, String.append_assoc, List.map_nil, String.join_nil,
        String.empty_append] at heq
      exact absurd heq (service_ne_dependencies (h m List.mem_cons_self) hd' _)
    | cons m' services' =>
      obtain ⟨hm, hrest⟩ := List.forall_mem_cons.1 h
      obtain ⟨hm', hrest'⟩ := List.forall_mem_cons.1 h'
      simp only [List.map_cons, String.join_cons, String.append_assoc, serviceText_eq, pieces_break_append] at heq
      obtain ⟨hrole, harguments, hbehind⟩ := block_of_pieces (oneLine_serviceBlock hm) (oneLine_serviceBlock hm')
        (length_key_serviceBlock m) (length_key_serviceBlock m') (List.cons.inj heq).2
      rw [service_eq_of_arguments hrole harguments, ih hrest hrest' hbehind]

end Infrastructure

/-! ## Infrastructures -/

/-- no value of the application, of its services and no name of a dependency has line breaks -/
structure Infrastructure.OneLine (i : Infrastructure) : Prop where
  appName : Text.OneLine i.appName
  url : Text.OneLine i.url
  certificate : Text.OneLine i.certificate
  services : ∀ m ∈ i.services, m.OneLine
  dependencies : ∀ d ∈ i.dependencies, Text.OneLine d.name

namespace Infrastructure

variable {i i' : Infrastructure}

/-- the module that every application has can be read off, whatever the region is -/
theorem base_of_pieces (h : i.OneLine) (h' : i'.OneLine) (haccount : i.account = i'.account)
    (heq : pieces (i.baseModule ++ t) = pieces (i'.baseModule ++ t')) :
    i.appName = i'.appName ∧ i.url = i'.url ∧ i.certificate = i'.certificate ∧ pieces t = pieces t' := by
  have hname (i : Infrastructure) (h : i.OneLine) : pieces (setting "name               " i.appName) =
      [(setting "name               " i.appName).toList] := (oneLine_setting (by decide) h.appName).pieces_eq
  have hurl (i : Infrastructure) (h : i.OneLine) : pieces (setting "url                " i.url) =
      [(setting "url                " i.url).toList] := (oneLine_setting (by decide) h.url).pieces_eq
  have hcertificate (i : Infrastructure) (h : i.OneLine) : pieces (setting "ssl_certificate_arn" i.certificate) =
      [(setting "ssl_certificate_arn" i.certificate).toList] := (oneLine_setting (by decide) h.certificate).pieces_eq
  have hvalue (key value value' : String) :
      (setting key value).toList = (setting key value').toList ↔ value = value' := by
    rw [String.toList_inj]
    exact ⟨fun h => (setting_inj rfl h).2, congrArg _⟩
  simp only [baseModule, pieces_blockText_append, List.flatMap_cons, List.flatMap_nil, haccount, hname i h, hname i' h',
    hurl i h, hurl i' h', hcertificate i h, hcertificate i' h'] at heq
  simpa [hvalue, and_assoc] using heq

/-- **When infrastructures have the same text.** They may differ in all but their account and their variables. If no
value of theirs has line breaks, the text tells the name of the application, its address, its certificate and its
services, whatever the settings of dependencies are. -/
theorem texts_agree_iff (haccount : i.account = i'.account) (hdeclared : i.declared = i'.declared) (h : i.OneLine)
    (h' : i'.OneLine) : i.render = i'.render ↔
      i.appName = i'.appName ∧ i.url = i'.url ∧ i.certificate = i'.certificate ∧ i.services = i'.services ∧
        String.join (i.dependencies.map (dependencyText i.declared)) =
          String.join (i'.dependencies.map (dependencyText i.declared)) := by
  constructor
  · intro htext
    simp only [render, haccount, ← hdeclared, String.append_assoc, String.append_right_inj] at htext
    obtain ⟨hname, hurl, hcertificate, hbehind⟩ := base_of_pieces h h' haccount (congrArg pieces htext)
    have hservices := services_of_pieces h.services h'.services h.dependencies h'.dependencies hbehind
    have hbase : i.baseModule = i'.baseModule := by simp only [baseModule, haccount, hname, hurl, hcertificate]
    rw [hbase, String.append_right_inj, hservices, String.append_right_inj] at htext
    exact ⟨hname, hurl, hcertificate, hservices, htext⟩
  · rintro ⟨hname, hurl, hcertificate, hservices, hdependencies⟩
    simp only [render, baseModule, haccount, hname, hurl, hcertificate, hservices, ← hdeclared, hdependencies]

/-- a shop whose pages are at this address, and have a health check or none -/
def shopWithPages (url : String) (healthCheck : Option String) : Project where
  dir := "."
  application := {
    name := "shop", version := "1"
    services := .singleton "web" { location := some "web" }
    site := { url := "shop.example", accountId := "1", region := "eu", certificate := "cert" } }
  services := .singleton "web" {
    reach := .everyone, productionPort := some ⟨8443, by decide⟩
    inCloud := { url := some url, cpu := some "1", memory := some "256", healthCheck } }

/-- what is provided for it -/
def pagesOf (url : String) (healthCheck : Option String) : Infrastructure where
  appName := "shop"
  account := ⟨"default", "eu", "1", "shop"⟩
  url := "shop.example"
  certificate := "cert"
  services := [⟨"web", true, "1", "256", some ⟨8443, by decide⟩, some url, healthCheck⟩]
  dependencies := []
  declared := .ofList [(profileVariable, ()), (envVariable "web", ())]

theorem oneLine_pagesOf {url : String} {healthCheck : Option String} (hurl : Text.OneLine url)
    (hhealth : ∀ path ∈ healthCheck, Text.OneLine path) : (pagesOf url healthCheck).OneLine where
  appName := show Text.OneLine "shop" by decide
  url := show Text.OneLine "shop.example" by decide
  certificate := show Text.OneLine "cert" by decide
  services := List.forall_mem_singleton.2 {
    role := show Text.OneLine "web" by decide
    cpu := show Text.OneLine "1" by decide
    memory := show Text.OneLine "256" by decide
    url := fun _ hin => Option.some.inj hin ▸ hurl
    healthCheck := hhealth }
  dependencies := nofun

/-- quotes alone do no harm: the shop with the health check has another text than the one whose address holds its
quotes -/
theorem quotes_are_told : (pagesOf "shop.example" (some "/ok")).OneLine ∧
    (pagesOf "shop.example\" health_check = \"/ok" none).OneLine ∧
    (pagesOf "shop.example" (some "/ok")).render ≠ (pagesOf "shop.example\" health_check = \"/ok" none).render := by
  have h : (pagesOf "shop.example" (some "/ok")).OneLine := oneLine_pagesOf (by decide) (by decide)
  have h' : (pagesOf "shop.example\" health_check = \"/ok" none).OneLine := oneLine_pagesOf (by decide) nofun
  refine ⟨h, h', fun hsame => ?_⟩
  obtain ⟨-, -, -, hservices, -⟩ := (texts_agree_iff (by rfl) (by rfl) h h').1 hsame
  exact absurd hservices (by decide)

/-- a line break lets the address go on like the health check -/
theorem health_check_is_imitated : ¬ ∀ (p p' : Project) (account : Account) (images : Images) (i i' : Infrastructure),
    p.checkDeployable = .ok () → p'.checkDeployable = .ok () → ofProject p account images = .ok i →
      ofProject p' account images = .ok i' → i.declared = i'.declared → i.render = i'.render →
        i.url = i'.url ∧ i.certificate = i'.certificate ∧ i.services = i'.services := by
  intro h
  obtain ⟨-, -, hservices⟩ := h (shopWithPages "shop.example" (some "/ok"))
    (shopWithPages "shop.example\"\n  health_check = \"/ok" none) ⟨"default", "eu", "1", "shop"⟩ .empty
    (pagesOf "shop.example" (some "/ok")) (pagesOf "shop.example\"\n  health_check = \"/ok" none) (by decide +kernel)
    (by decide +kernel) (by decide +kernel) (by decide +kernel) rfl (by decide +kernel)
  exact absurd hservices (by decide)

end Infrastructure

end Fleet
