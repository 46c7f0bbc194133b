import ApiCatalog.Command.Run
import ApiCatalog.Proofs.Command.Arguments
import ApiCatalog.Proofs.Library.LineEnds
import ApiCatalog.Proofs.Library.Modules
import ApiCatalog.Proofs.Source.Writing

/-!
What is generated is up to date: a check of the same project finds what was written as it was written. This holds as
long as the files that were written are no inputs, and the directories that were made for them lead no path
elsewhere.
-/

namespace ApiCatalog

open Text

namespace Path

variable {p q : Path}

theorem isAbsolute_join (h : p.isAbsolute) (q : Path) : (p.join q).isAbsolute := by
  unfold join
  split
  · assumption
  · exact h

theorem isAbsolute_parent (p : Path) : p.parent.isAbsolute = p.isAbsolute := rfl

theorem join_of_isAbsolute (h : q.isAbsolute) : p.join q = q :=
  if_pos h

theorem expand?_of_isAbsolute (homes : Homes) (h : p.isAbsolute) : p.expand? homes = some p := by
  obtain ⟨slashes, parts⟩ := p
  cases slashes with
  | zero => cases h
  | succ n => rfl

end Path

/-! Settings -/

namespace Config

variable {t t' : FileTree} {changed : List Place} {working p q : Path} {homes : Homes} {c : Config}

theorem isAbsolute_fileAt (h : working.isAbsolute) : (fileAt t working p).isAbsolute := by
  have hjoin := Path.isAbsolute_join h p
  simp only [fileAt]
  split
  · exact Path.isAbsolute_join hjoin _
  · exact hjoin

theorem locate_fileAt (h : working.isAbsolute) (s : FileTree) :
    s.locate (fileAt t working p) = .ok (fileAt t working p).parts := by
  have hjoin := Path.isAbsolute_join h p
  simp only [fileAt]
  split
  · exact FileTree.locate_normalize (Path.isAbsolute_join hjoin _)
  · exact FileTree.locate_normalize hjoin

theorem root_of_ofText {root : Path} {name text : String} (h : ofText root name text = .ok c) : c.root = root := by
  unfold ofText at h
  split at h
  · cases h
    rfl
  · split at h
    · cases h
    · cases h
      rfl
    · cases h
      rfl
    · cases h

theorem load_of_expand? (h : p.expand? homes = some q) : load t working p homes = loadFile t (fileAt t working q) := by
  rw [load, h]

theorem exists_expand? (h : load t working p homes = .ok c) : ∃ q, p.expand? homes = some q := by
  cases hexpand : p.expand? homes with
  | some q => exact ⟨q, rfl⟩
  | none =>
    rw [load, hexpand] at h
    cases h

theorem root_of_loadFile {file : Path} (h : loadFile t file = .ok c) : c.root = file.parent := by
  simp only [loadFile] at h
  split at h
  · split at h
    · exact root_of_ofText h
    · cases h
  · cases h
    rfl

theorem loadFile_of_changedAt (h : t.ChangedAt changed t') (hworking : working.isAbsolute)
    (hdirectory : t'.isDirectory (working.join p) → t.isDirectory (working.join p))
    (hplace : (fileAt t working p).parts ∉ changed)
    (hfile : t'.isDirectoryAt (fileAt t working p).parts → t.isDirectoryAt (fileAt t working p).parts)
    (hload : loadFile t (fileAt t working p) = .ok c) : loadFile t' (fileAt t' working p) = .ok c := by
  have hat : fileAt t' working p = fileAt t working p := by
    have hiff : t'.isDirectory (working.join p) ↔ t.isDirectory (working.join p) :=
      ⟨hdirectory, h.isDirectory⟩
    simp only [fileAt, hiff]
  have hlocate (s : FileTree) := locate_fileAt (t := t) (p := p) hworking s
  have hsame := h.fileAt? hplace
  rw [← hload]
  simp only [loadFile, hat, FileTree.holds_eq (hlocate t), FileTree.holds_eq (hlocate t'), hsame]
  cases hcontent : t.fileAt? (fileAt t working p).parts with
  | some content =>
    rw [FileTree.read_of_fileAt? (hlocate t) hcontent, FileTree.read_of_fileAt? (hlocate t') (hsame.trans hcontent)]
    simp
  | none =>
    by_cases hd : t.isDirectoryAt (fileAt t working p).parts
    · have hread := FileTree.read_of_fileAt?_eq_none (hlocate t) hcontent
      simp [loadFile, FileTree.holds_eq (hlocate t), hcontent, hd, hread] at hload
    · have hd' : t'.isDirectoryAt (fileAt t working p).parts = false := by
        simpa using fun hd' => hd (hfile hd')
      simp [hd, hd']

end Config

namespace Command

variable {platform : Platform} {t t' : FileTree} {working : Path} {a : Arguments} {c : Config} {rs : Results}

/-! The tree with the results -/

section Written

def places (rs : Results) : List Place :=
  rs.map fun r => r.1.normalize.parts

theorem applyTo_cons (r : Path × String) (rs : Results) : applyTo t (r :: rs) = applyTo (t.create r.1 r.2) rs := rfl

theorem changedAt_applyTo {changed : List Place} (h : places rs ⊆ changed) : t.ChangedAt changed (applyTo t rs) := by
  induction rs generalizing t with
  | nil => exact .refl
  | cons r rs ih =>
    obtain ⟨hr, hrs⟩ := List.cons_subset.mp h
    rw [applyTo_cons]
    exact (FileTree.changedAt_create hr).trans (ih hrs)

theorem fileAt?_applyTo (hdistinct : (places rs).Nodup) {r : Path × String} (hr : r ∈ rs) :
    (applyTo t rs).fileAt? r.1.normalize.parts = some r.2 := by
  induction rs generalizing t with
  | nil => cases hr
  | cons first rs ih =>
    obtain ⟨hfirst, hrest⟩ := List.nodup_cons.mp hdistinct
    rw [applyTo_cons]
    rcases List.mem_cons.mp hr with rfl | hr
    · -- The later files go elsewhere.
      have hlater : (t.create r.1 r.2).ChangedAt (places rs) (applyTo (t.create r.1 r.2) rs) :=
        changedAt_applyTo (List.Subset.refl _)
      rw [hlater.fileAt? hfirst, FileTree.fileAt?_create, if_pos rfl]
    · exact ih hrest hr

theorem dotless_applyTo (ht : ∀ f ∈ t.files, ".." ∉ f.1) (habsolute : ∀ r ∈ rs, r.1.isAbsolute) :
    ∀ f ∈ (applyTo t rs).files, ".." ∉ f.1 := by
  intro f hf
  by_cases hplace : f.1 ∈ places rs
  · obtain ⟨r, hr, heq⟩ := List.mem_map.mp hplace
    rw [← heq]
    exact Path.not_mem_normalize (habsolute r hr)
  · have hchanged : t.ChangedAt (places rs) (applyTo t rs) := changedAt_applyTo (List.Subset.refl _)
    exact ht f ((hchanged.mem_files hplace).mp hf)

theorem locate_applyTo {r : Path × String} (hr : r ∈ rs) (habsolute : r.1.isAbsolute) :
    (applyTo t rs).locate r.1 = .ok r.1.normalize.parts := by
  induction rs generalizing t with
  | nil => cases hr
  | cons first rs ih =>
    rw [applyTo_cons]
    rcases List.mem_cons.mp hr with rfl | hr
    · have hlater : (t.create r.1 r.2).ChangedAt (places rs) (applyTo (t.create r.1 r.2) rs) :=
        changedAt_applyTo (List.Subset.refl _)
      apply FileTree.locate_of_passed habsolute
      intro q hq
      exact hlater.directories q (FileTree.isDirectoryAt_passed hq)
    · exact ih hr

theorem read_applyTo (hdistinct : (places rs).Nodup) {r : Path × String} (hr : r ∈ rs) (habsolute : r.1.isAbsolute)
    (htext : HasNoReturn r.2) : (applyTo t rs).read r.1 = .ok r.2 := by
  rw [FileTree.read_of_fileAt? (locate_applyTo hr habsolute) (fileAt?_applyTo hdistinct hr),
    htext.ofList_readLineEnds]

end Written

/-! Results of a run -/

section Results

structure Stages (platform : Platform) (t : FileTree) (working : Path) (a : Arguments) (c : Config) (rs : Results)
    (package : Package) (files : List SourceFile) (r : GenerateResult) (target : Path) : Prop where
  loaded : loadConfig platform t working a = .ok c
  accepted : (sourceOptions platform c).validate = .ok ()
  manifest : Package.load t c.packagePath = .ok package
  sources : (SourceFile.readAll (sourceOptions platform c) t .commandLine).outcome = .ok files
  generated : (generateLibrary files package (sourceOptions platform c) (settings platform a c)).outcome = .ok r
  directory : outputDirectory platform working a c = .ok target
  results : rs = resultsOf target c.output r.output

theorem outcome_ofConfig_eq_ok {α : Type} {x : Except ConfigError α} {v : α} :
    (Run.ofConfig x).outcome = .ok v ↔ x = .ok v := by
  cases x with
  | error e => exact ⟨nofun, nofun⟩
  | ok w => exact ⟨fun h => by cases h; rfl, fun h => by cases h; rfl⟩

theorem results_eq_ok : (results platform t working a).outcome = .ok rs ↔
    ∃ c package files r target, Stages platform t working a c rs package files r target := by
  constructor
  · intro h
    obtain ⟨c, hconfig, h⟩ := Run.outcome_bind_eq_ok.mp h
    unfold projectResults at h
    obtain ⟨_, hoptions, h⟩ := Run.outcome_bind_eq_ok.mp h
    split at h
    · cases h
    · case h_2 package hpackage =>
      obtain ⟨files, hfiles, h⟩ := Run.outcome_bind_eq_ok.mp h
      obtain ⟨r, hr, h⟩ := Run.outcome_bind_eq_ok.mp h
      obtain ⟨target, hdirectory, h⟩ := Run.outcome_bind_eq_ok.mp h
      cases h
      refine ⟨c, package, files, r, target, outcome_ofConfig_eq_ok.mp hconfig, ?_, hpackage, hfiles, hr,
        outcome_ofConfig_eq_ok.mp hdirectory, rfl⟩
      cases hvalid : (sourceOptions platform c).validate with
      | ok _ => rfl
      | error e =>
        rw [Run.outcome_ofOptions, hvalid] at hoptions
        cases hoptions
  · rintro ⟨c, package, files, r, target, h⟩
    refine Run.outcome_bind_eq_ok.mpr ⟨c, outcome_ofConfig_eq_ok.mpr h.loaded, ?_⟩
    unfold projectResults
    refine Run.outcome_bind_eq_ok.mpr ⟨(), by rw [Run.outcome_ofOptions, h.accepted]; rfl, ?_⟩
    simp only [h.manifest]
    refine Run.outcome_bind_eq_ok.mpr ⟨files, h.sources, ?_⟩
    refine Run.outcome_bind_eq_ok.mpr ⟨r, h.generated, ?_⟩
    refine Run.outcome_bind_eq_ok.mpr ⟨target, outcome_ofConfig_eq_ok.mpr h.directory, ?_⟩
    rw [h.results]
    rfl

theorem isAbsolute_typedPath (hworking : working.isAbsolute) {text : String} {p : Path}
    (h : typedPath platform working text = .ok p) : p.isAbsolute := by
  unfold typedPath at h
  split at h
  · cases h
    exact Path.isAbsolute_join hworking _
  · cases h

theorem isAbsolute_normalized (hworking : working.isAbsolute) {text : String} {p : Path}
    (h : (do pure (← typedPath platform working text).normalize) = .ok p) : p.isAbsolute := by
  obtain ⟨q, hq, h⟩ := bind_eq_ok.mp h
  cases h
  have habsolute : q.isAbsolute := isAbsolute_typedPath hworking hq
  exact habsolute

theorem isAbsolute_root (hworking : working.isAbsolute) (h : loadConfig platform t working a = .ok c) :
    c.root.isAbsolute := by
  obtain ⟨root, hroot, h⟩ := bind_eq_ok.mp h
  split at h
  · obtain ⟨_, _, h⟩ := bind_eq_ok.mp h
    cases h
    exact isAbsolute_normalized hworking hroot
  · obtain ⟨q, hq⟩ := Config.exists_expand? h
    rw [Config.load_of_expand? hq] at h
    rw [Config.root_of_loadFile h, Path.isAbsolute_parent]
    exact Config.isAbsolute_fileAt hworking

theorem isAbsolute_outputDirectory (hworking : working.isAbsolute) (hroot : c.root.isAbsolute) {directory : Path}
    (h : outputDirectory platform working a c = .ok directory) : directory.isAbsolute := by
  unfold outputDirectory at h
  split at h
  · exact isAbsolute_normalized hworking h
  · cases h
    exact Path.isAbsolute_join hroot _

theorem isAbsolute_results {directory : Path} (hdirectory : directory.isAbsolute) {out : Output} :
    ∀ r ∈ resultsOf directory c.output out, r.1.isAbsolute := by
  intro r hr
  unfold resultsOf at hr
  rcases List.mem_cons.mp hr with rfl | hr
  · exact Path.isAbsolute_join hdirectory _
  · split at hr
    · rw [List.mem_singleton.mp hr]
      exact Path.isAbsolute_join hdirectory _
    · cases hr

structure PlainNames (t : FileTree) (c : Config) : Prop where
  package : ∀ package, Package.load t c.packagePath = .ok package → HasNoReturn package.name ∧ HasNoReturn package.version
  jsonFile : HasNoReturn c.output.jsonFile

section Stages

variable {package : Package} {files : List SourceFile} {g : GenerateResult} {target : Path}

theorem Stages.isAbsolute (h : Stages platform t working a c rs package files g target)
    (hworking : working.isAbsolute) : ∀ r ∈ rs, r.1.isAbsolute := by
  rw [h.results]
  exact isAbsolute_results (isAbsolute_outputDirectory hworking (isAbsolute_root hworking h.loaded) h.directory)

theorem Stages.hasNoReturn (h : Stages platform t working a c rs package files g target) (hnames : PlainNames t c) : ∀ r ∈ rs, HasNoReturn r.2 := by
  obtain ⟨hname, hversion⟩ := hnames.package package h.manifest
  obtain ⟨ms, _, rfl⟩ := result_of_generateLibrary h.generated
  intro r hr
  rw [h.results] at hr
  unfold resultsOf at hr
  rcases List.mem_cons.mp hr with rfl | hr
  · exact Library.hasNoReturn_serialize _
  · split at hr
    · case h_1 text _ htext _ =>
      rw [List.mem_singleton.mp hr]
      obtain ⟨_, htext⟩ := Option.ite_none_right_eq_some.mp htext
      rw [← Option.some.inj htext]
      exact Library.hasNoReturn_wrapper hname hversion hnames.jsonFile
    · cases hr

end Stages

end Results

/-! Checking after generating -/

def projectText (c : Config) : String :=
  String.ofList (dropRightWhile (· == '/') c.root.toString.toList)

theorem projectRoot_sourceOptions (c : Config) : (sourceOptions platform c).projectRoot = some (projectText c) := rfl

def sourceDirectory (c : Config) (p : String) : Path :=
  (Path.ofString (projectText c)).join (Path.ofString p)

def configFile (platform : Platform) (t : FileTree) (working : Path) (a : Arguments) : Option Path :=
  (configPath platform working a).map (Config.fileAt t working)

/-- Each result goes to a file of its own, which is neither the manifest nor the configuration file, nor a source file
in scope. -/
structure Apart (platform : Platform) (t : FileTree) (working : Path) (a : Arguments) (c : Config) (rs : Results) :
    Prop where
  distinct : (places rs).Nodup
  manifest : ∀ q ∈ places rs, t.locate c.packagePath ≠ .ok q
  config : ∀ file ∈ configFile platform t working a, file.parts ∉ places rs
  sources : ∀ q ∈ places rs, SourceFile.OutOfScope (sourceOptions platform c) (applyTo t rs) (projectText c) q

/-- Directories that are new in a tree change neither where the configuration file is looked for nor whether there is
one, and lead no source path to another place. -/
structure LeadsAsBefore (platform : Platform) (t t' : FileTree) (working : Path) (a : Arguments) (c : Config) :
    Prop where
  config : ∀ p ∈ configPath platform working a, t'.isDirectory p → t.isDirectory p
  file : ∀ file ∈ configFile platform t working a, t'.isDirectoryAt file.parts → t.isDirectoryAt file.parts
  sources : ∀ p ∈ c.source.sourcePaths, ∀ place,
    t'.locate (sourceDirectory c p) = .ok place → t.locate (sourceDirectory c p) = .ok place

theorem load_of_configPath {changed : List Place} (h : t.ChangedAt changed t') (hworking : working.isAbsolute)
    (hleads : LeadsAsBefore platform t t' working a c)
    (hfile : ∀ file ∈ configFile platform t working a, file.parts ∉ changed) {p q : Path}
    (hexpand : p.expand? platform.homes = some q) (hpath : configPath platform working a = some (working.join q))
    {c' : Config} (hload : Config.load t working p platform.homes = .ok c') :
    Config.load t' working p platform.homes = .ok c' := by
  have hat : Config.fileAt t working (working.join q) = Config.fileAt t working q := by
    simp only [Config.fileAt, Path.join_of_isAbsolute (Path.isAbsolute_join hworking q)]
  have hlooked : configFile platform t working a = some (Config.fileAt t working q) := by
    rw [configFile, hpath, Option.map_some, hat]
  rw [Config.load_of_expand? hexpand] at hload ⊢
  exact Config.loadFile_of_changedAt h hworking (hleads.config _ hpath) (hfile _ hlooked) (hleads.file _ hlooked) hload

theorem loadConfig_of_changedAt {changed : List Place} (h : t.ChangedAt changed t') (hworking : working.isAbsolute)
    (hleads : LeadsAsBefore platform t t' working a c)
    (hfile : ∀ file ∈ configFile platform t working a, file.parts ∉ changed)
    (hload : loadConfig platform t working a = .ok c) : loadConfig platform t' working a = .ok c := by
  obtain ⟨root, hroot, hload⟩ := bind_eq_ok.mp hload
  refine bind_eq_ok.mpr ⟨root, hroot, ?_⟩
  cases hgiven : given? a.config with
  | none =>
    have habsolute : root.isAbsolute := isAbsolute_normalized hworking hroot
    have hpath : configPath platform working a = some (working.join root) := by
      rw [configPath, hgiven, hroot, Path.join_of_isAbsolute habsolute]
      rfl
    simp only [hgiven] at hload ⊢
    exact load_of_configPath h hworking hleads hfile (Path.expand?_of_isAbsolute _ habsolute) hpath hload
  | some file =>
    simp only [hgiven] at hload ⊢
    obtain ⟨c', hc', hpure⟩ := bind_eq_ok.mp hload
    obtain ⟨q, hq⟩ := Config.exists_expand? hc'
    have hpath : configPath platform working a = some (working.join q) := by
      rw [configPath, hgiven]
      simp only [typedPath, hq]
      rfl
    exact bind_eq_ok.mpr ⟨c', load_of_configPath h hworking hleads hfile hq hpath hc', hpure⟩

theorem packageLoad_of_changedAt {changed : List Place} (h : t.ChangedAt changed t') {p : Path} {package : Package}
    (hplace : ∀ q ∈ changed, t.locate p ≠ .ok q) (hload : Package.load t p = .ok package) :
    Package.load t' p = .ok package := by
  unfold Package.load at *
  cases hread : t.read p with
  | error e => simp [hread] at hload
  | ok text =>
    rw [h.read hread fun place hlocate hmem => hplace place hmem hlocate]
    simpa only [hread] using hload

theorem results_applyTo (hworking : working.isAbsolute) (ht : ∀ f ∈ t.files, ".." ∉ f.1)
    (hresults : (results platform t working a).outcome = .ok rs) (hconfig : loadConfig platform t working a = .ok c)
    (hapart : Apart platform t working a c rs) (hleads : LeadsAsBefore platform t (applyTo t rs) working a c) :
    (results platform (applyTo t rs) working a).outcome = .ok rs := by
  obtain ⟨c', package, files, g, target, h⟩ := results_eq_ok.mp hresults
  cases h.loaded.symm.trans hconfig
  have hchanged : t.ChangedAt (places rs) (applyTo t rs) := changedAt_applyTo (List.Subset.refl _)
  have hwritten : ∀ q ∈ places rs, ((applyTo t rs).fileAt? q).isSome := by
    intro q hq
    obtain ⟨r, hr, rfl⟩ := List.mem_map.mp hq
    rw [fileAt?_applyTo hapart.distinct hr]
    rfl
  have hsources := SourceFile.readAll_of_changedAt (o := sourceOptions platform c) hchanged ht
    (dotless_applyTo ht (h.isAbsolute hworking)) (projectRoot_sourceOptions c) hleads.sources
    (fun q hq => ⟨hwritten q hq, hapart.sources q hq⟩) h.sources
  exact results_eq_ok.mpr ⟨c, package, files, g, target, {
    loaded := loadConfig_of_changedAt hchanged hworking hleads hapart.config h.loaded
    accepted := h.accepted
    manifest := packageLoad_of_changedAt hchanged hapart.manifest h.manifest
    sources := hsources
    generated := h.generated
    directory := h.directory
    results := h.results }⟩

theorem stale_applyTo (hworking : working.isAbsolute) (hresults : (results platform t working a).outcome = .ok rs)
    (hconfig : loadConfig platform t working a = .ok c) (hdistinct : (places rs).Nodup) (hnames : PlainNames t c) :
    stale (applyTo t rs) rs = [] := by
  obtain ⟨c', package, files, g, target, h⟩ := results_eq_ok.mp hresults
  cases h.loaded.symm.trans hconfig
  apply List.filter_eq_nil_iff.mpr
  intro r hr
  have hread : (applyTo t rs).read r.1 = .ok r.2 :=
    read_applyTo hdistinct hr (h.isAbsolute hworking r hr) (h.hasNoReturn hnames r hr)
  simp [hread, Except.toOption]

theorem run_of_ok (h : (results platform t working a).outcome = .ok rs) :
    (run t working a platform).exitCode = (finish t working a rs).exitCode ∧
      (run t working a platform).stdout = (finish t working a rs).stdout ∧
      (run t working a platform).written = (finish t working a rs).written := by
  have hvalue : (results platform t working a).run.value = .ok rs := h
  simp [run, hvalue]

theorem results_of_config (h : loadConfig platform t working a = .ok c) :
    (results platform t working a).outcome = (projectResults platform t working a c).outcome := by
  have hloaded := outcome_ofConfig_eq_ok.mpr h
  cases hx : (projectResults platform t working a c).outcome with
  | ok rs => exact Run.outcome_bind_eq_ok.mpr ⟨c, hloaded, hx⟩
  | error e => exact Run.outcome_bind_eq_error.mpr (.inr ⟨c, hloaded, hx⟩)

theorem run_generate (h : (results platform t working a).outcome = .ok rs) (ha : a.action = .generate) :
    (run t working a platform).exitCode = 0 ∧ (run t working a platform).written = rs := by
  obtain ⟨hexit, _, hwritten⟩ := run_of_ok h
  rw [hexit, hwritten, finish, ha]
  exact ⟨rfl, rfl⟩

theorem run_check_of_stale (h : (results platform t working a).outcome = .ok rs) (ha : a.action = .check)
    (hstale : stale t rs ≠ []) : (run t working a platform).exitCode = 1 := by
  rw [(run_of_ok h).1, finish, ha]
  dsimp only
  split
  · contradiction
  · rfl

theorem exists_results (h : (run t working a platform).exitCode = 0) :
    ∃ rs, (results platform t working a).outcome = .ok rs := by
  cases hvalue : (results platform t working a).outcome with
  | ok rs => exact ⟨rs, rfl⟩
  | error e =>
    have hvalue' : (results platform t working a).run.value = .error e := hvalue
    simp only [run, hvalue'] at h
    cases h

def here : Path := ⟨1, ["p"]⟩

def unconfigured : Config where
  root := here

def manifestFile : Place × String :=
  (["p", "package.json"], "\x7b\"name\": \"p\", \"version\": \"1\"\x7d")

theorem plainNames_of_load {t : FileTree} {c : Config} {package : Package}
    (h : Package.load t c.packagePath = .ok package)
    (hplain : HasNoReturn package.name ∧ HasNoReturn package.version) (hjson : HasNoReturn c.output.jsonFile) :
    PlainNames t c := by
  refine ⟨fun package' h' => ?_, hjson⟩
  cases h.symm.trans h'
  exact hplain

def sourceTree : FileTree where
  files := [manifestFile, (["p", "src", "lib", "a.ts"], "export const a = 1;")]

def amongSources : Arguments where
  action := .generate
  outputDirectory := some "src/lib"
  wrapper := false

def manifestTree : FileTree where
  files := [manifestFile]

def newDirectory : Arguments where
  action := .generate
  path := "src"

def overConfig : Arguments where
  action := .generate
  outputDirectory := some Config.fileName

def detouring : Config where
  root := here
  source := { sourcePaths := ["a/../b"] }

def detourText : String :=
  "source:\n paths: a/../b"

def detourTree : FileTree where
  files := [manifestFile, (["p", Config.fileName], detourText), (["p", "b", "m.ts"], "export const m = 1;")]

def throughDetour : Arguments where
  action := .generate
  outputDirectory := some "a"

def detourResults : Results :=
  (projectResults {} detourTree here throughDetour detouring).outcome.toOption.getD []

theorem ofText_detourText : Config.ofText here Config.fileName detourText = .ok detouring := by
  have hvalue : Yaml.Value.ofText? detourText =
      some (.mapping [(.text "source", .mapping [(.text "paths", .text "a/../b")])]) := by
    unfold detourText
    cbv
  rw [Config.ofText, if_neg (by decide), hvalue]
  rfl

theorem loadConfig_here {t : FileTree} {a : Arguments} {text : String} (hpath : a.path = ".") (hconfig : a.config = none)
    (hdirectory : t.isDirectory here) (hread : t.read ⟨1, ["p", Config.fileName]⟩ = .ok text) :
    loadConfig {} t here a = Config.ofText here Config.fileName text := by
  have hfile : Config.fileAt t here here = ⟨1, ["p", Config.fileName]⟩ := by
    rw [Config.fileAt, Path.join_of_isAbsolute (by decide), if_pos hdirectory]
    decide
  have hroot : projectRoot {} here a = .ok here := by
    rw [projectRoot, hpath]
    decide +kernel
  rw [loadConfig, hroot, hconfig]
  change Config.load t here here (Platform.homes {}) = _
  rw [Config.load_of_expand? (Path.expand?_of_isAbsolute _ (by decide)), hfile, Config.loadFile, FileTree.holds, hread]
  rfl

theorem loadConfig_detourTree : loadConfig {} detourTree here throughDetour = .ok detouring := by
  have hread : detourTree.read ⟨1, ["p", Config.fileName]⟩ = .ok detourText := by decide +kernel
  rw [loadConfig_here rfl rfl (by decide +kernel) hread, ofText_detourText]

theorem loadConfig_detourResults :
    loadConfig {} (applyTo detourTree detourResults) here (throughDetour.withAction .check) = .ok detouring := by
  have hread : (applyTo detourTree detourResults).read ⟨1, ["p", Config.fileName]⟩ = .ok detourText := by
    decide +kernel
  rw [loadConfig_here rfl rfl (by decide +kernel) hread, ofText_detourText]

structure GeneratesStale (t : FileTree) (a : Arguments) (c : Config) : Prop where
  generated : (run t here a).exitCode = 0
  config : loadConfig {} t here a = .ok c
  names : PlainNames t c
  apart : Apart {} t here a c (run t here a).written
  checked : (run (applyTo t (run t here a).written) here (a.withAction .check)).exitCode = 1

theorem generatesStale_detourTree : GeneratesStale detourTree throughDetour detouring := by
  have hresults : (results {} detourTree here throughDetour).outcome = .ok detourResults := by
    rw [results_of_config loadConfig_detourTree]
    decide +kernel
  obtain ⟨hexit, hwritten⟩ := run_generate hresults rfl
  have hnames := @plainNames_of_load detourTree detouring { name := "p", version := "1" } (by decide +kernel)
    (by decide) (by decide)
  have hstale : (projectResults {} (applyTo detourTree detourResults) here (throughDetour.withAction .check)
      detouring).outcome.toOption.any fun rs => stale (applyTo detourTree detourResults) rs ≠ [] := by
    decide +kernel
  refine ⟨hexit, loadConfig_detourTree, hnames, ?_, ?_⟩
  · rw [hwritten]
    exact ⟨by decide +kernel, by decide +kernel, by decide +kernel, by decide +kernel⟩
  · rw [hwritten]
    obtain ⟨rs, hrs, hold⟩ := (Option.any_eq_true ..).mp hstale
    refine run_check_of_stale ?_ rfl (of_decide_eq_true hold)
    rw [results_of_config loadConfig_detourResults]
    exact Run.outcome_of_toOption hrs

end Command

end ApiCatalog
