import ApiCatalog.Proofs.Code.FirstExport
import ApiCatalog.Proofs.Library.Modules

namespace ApiCatalog

theorem SourceFile.index_of_contains {o : SourceOptions} {f : SourceFile} (parser : Syntax.ScriptParser)
    (hc : o.contains f.id = .ok true) (hcontent : f.content.isSome) :
    ∃ g, (Program.index o.extensions f parser).value = some g := by
  obtain ⟨_, _, _, _, hkind⟩ := SourceOptions.contains_eq_true_iff.mp hc
  obtain ⟨kind, hkind⟩ := Option.isSome_iff_exists.mp hkind
  obtain ⟨content, hcontent⟩ := Option.isSome_iff_exists.mp hcontent
  cases kind with
  | code => exact ⟨_, index_code hkind hcontent⟩
  | component => exact ⟨_, index_component hkind hcontent⟩

/-! Targets of exports -/

namespace Code

def Entry.target? : Entry → Option String
  | .declaration _ => none
  | .reExport e => some e.sourceModule
  | .star t => some t

theorem Candidate.resolve_of_target {s : Surroundings} {c : Candidate} {e : Entry} {t : String}
    (h : c.result? s = some e) (ht : e.target? = some t) : ∃ specifier, s.resolve specifier = some t := by
  cases c with
  | passed specifier localName name =>
    obtain ⟨t', ht', rfl⟩ := Option.map_eq_some_iff.mp h
    cases ht
    exact ⟨specifier, ht'⟩
  | star specifier =>
    obtain ⟨t', ht', rfl⟩ := Option.map_eq_some_iff.mp h
    cases ht
    exact ⟨specifier, ht'⟩
  | declared name node before aliasOf =>
    obtain ⟨_, _, rfl⟩ := Option.map_eq_some_iff.mp h
    cases ht
  | whole specifier name line =>
    obtain ⟨_, _, rfl⟩ := Option.map_eq_some_iff.mp h
    cases ht
  | bound i =>
    cases h
    cases ht
  | unknown name => cases h

theorem resolve_of_extracted {file modulePath : String} {resolve : String → Option String} {root : Syntax.Node}
    {e : Entry} {t : String} (h : (analyzeCode file modulePath resolve root).value.Holds e)
    (ht : e.target? = some t) : ∃ specifier, resolve specifier = some t := by
  obtain ⟨offer, hoffer, rfl⟩ := exists_offer h
  have hmem := List.mem_map_of_mem (f := Offer.entry) hoffer
  rw [offers_entries] at hmem
  obtain ⟨c, _, hc⟩ := List.mem_filterMap.mp hmem
  exact c.resolve_of_target hc ht

end Code

section Closed

variable {package : Package} {o : SourceOptions} {s : GenerateSettings} {channel : Channel}
  {files fs : List SourceFile} {f : SourceFile} {m : Module} {ms : List Module} {project t : String}

open SourceFile (pathIn)

theorem mem_of_program_contains {id : String} (hids : (fs.map SourceFile.id).Nodup)
    (h : (programOf o s fs).contains id) : ∃ f ∈ fs, f.id = id := by
  rw [Program.contains, programOf, Program.get?_ofFiles hids, Program.indexed?] at h
  cases hfind : fs.find? fun f => f.id == id with
  | none => rw [hfind] at h; cases h
  | some f => exact ⟨f, List.mem_of_find?_eq_some hfind, by simpa using List.find?_some hfind⟩

theorem exists_targetPath (hids : (fs.map SourceFile.id).Nodup) {fromId specifier : String}
    (h : (programOf o s fs).targetPath? o fromId specifier = some t) : t ∈ fs.map (pathIn o) := by
  obtain ⟨id, hid, rfl⟩ := Option.map_eq_some_iff.mp h
  rw [Program.resolve?] at hid
  split at hid
  · obtain ⟨f, hf, rfl⟩ := mem_of_program_contains hids (List.find?_some hid)
    exact List.mem_map_of_mem hf
  · cases hid

def FromFile (p : Program) (o : SourceOptions) (f : SourceFile) (m : Module) : Prop :=
  o.modulePath f.id = .ok m.path ∧
    ∃ g, p.get? f.id = some g ∧ (extract p o g m.path).outcome = .ok m.extracted

theorem FromFile.target_mem (hids : (fs.map SourceFile.id).Nodup) (h : FromFile (programOf o s fs) o f m)
    {e : Code.Entry} (he : m.extracted.Holds e) (ht : e.target? = some t) : t ∈ fs.map (pathIn o) := by
  obtain ⟨_, g, _, hx⟩ := h
  rw [extract] at hx
  split at hx
  · rw [Run.outcome_ofNoted, Except.ok.injEq] at hx
    rw [← hx] at he
    obtain ⟨specifier, hs⟩ := Code.resolve_of_extracted he ht
    exact exists_targetPath hids hs
  · obtain ⟨d, comment, hx, _⟩ := analyze_eq_ok hx
    rw [hx] at he
    cases e with
    | declaration d => cases ht
    | reExport e => cases he
    | star t => cases he

theorem forall₂_fromFile {p : Program} (hall : ∀ f ∈ fs, ∃ g, p.get? f.id = some g)
    (hms : (analyzeFiles p o channel fs).outcome = .ok ms) : List.Forall₂ (FromFile p o) fs ms := by
  obtain ⟨rs, hrs, hpure⟩ := Run.outcome_bind_eq_ok.mp hms
  cases hpure
  replace hrs := Run.forall₂_of_mapM hrs
  clear hms
  induction hrs with
  | nil => exact .nil
  | @cons f r fs rs hr _ ih =>
    obtain ⟨⟨g, hg⟩, hrest⟩ := List.forall_mem_cons.mp hall
    obtain ⟨hnone, _⟩ | ⟨g', m, hg', rfl, hpath, hextract⟩ := analyzeFile_eq_ok hr
    · cases hg.symm.trans hnone
    · exact .cons ⟨hpath, g', hg', hextract⟩ (ih hrest)

theorem paths_of_forall₂ {p : Program} (h : List.Forall₂ (FromFile p o) fs ms) :
    (ms.map fun m => .ok m.path) = fs.map (fun f => o.modulePath f.id) ∧
      ms.map Module.path = fs.map (pathIn o) := by
  induction h with
  | nil => exact ⟨rfl, rfl⟩
  | cons hf _ ih =>
    simp only [List.map_cons, ih.1, ih.2, hf.1, SourceFile.modulePath_eq_pathIn hf.1, and_self]

theorem exists_fromFile {p : Program} (h : List.Forall₂ (FromFile p o) fs ms) (hm : m ∈ ms) :
    ∃ f, FromFile p o f m := by
  induction h with
  | nil => cases hm
  | @cons f m' _ _ hf _ ih =>
    rcases List.mem_cons.mp hm with rfl | hm
    · exact ⟨f, hf⟩
    · exact ih hm

theorem mem_paths_of_target (hids : (fs.map SourceFile.id).Nodup)
    (hmodules : List.Forall₂ (FromFile (programOf o s fs) o) fs ms) (hm : m ∈ ms) {e : Code.Entry}
    (he : m.extracted.Holds e) (ht : e.target? = some t) : t ∈ ms.map Module.path := by
  obtain ⟨f, hf⟩ := exists_fromFile hmodules hm
  rw [(paths_of_forall₂ hmodules).2]
  exact hf.target_mem hids he ht

theorem exists_reExport_of_unresolved {u : Unresolved} (hids : (fs.map SourceFile.id).Nodup)
    (hmodules : List.Forall₂ (FromFile (programOf o s fs) o) fs ms) (hu : u ∈ (Links.ofModules ms).unresolved) :
    ∃ m ∈ ms, m.path = u.module ∧ ∃ e ∈ m.reExports, e.sourceModule = u.sourceModule ∧ e.localName = u.name := by
  obtain ⟨m, hm, ⟨e, he, _, rfl⟩ | ⟨t, ht, hnone, _⟩⟩ := Link.mem_unresolved_ofModules.mp hu
  · exact ⟨m, hm, rfl, e, he, rfl, rfl⟩
  · -- A star export always finds its module.
    have hmem := mem_paths_of_target (e := .star t) hids hmodules hm ht rfl
    obtain ⟨m', hm', rfl⟩ := List.mem_map.mp hmem
    exact absurd rfl (Link.moduleAt?_eq_none_iff.mp hnone m' hm')

theorem generateLibrary_closed {r : GenerateResult} (hproject : o.projectRoot = some project)
    (hcontent : ∀ f ∈ files, f.content.isSome) (hids : (files.map SourceFile.id).Nodup)
    (hcollect : (SourceFile.collect o channel files).outcome = .ok fs)
    (hr : (generateLibrary fs package o s).outcome = .ok r) :
    (r.library.modules.map fun m => .ok m.path) = fs.map (fun f => o.modulePath f.id) ∧
      (r.library.modules.map Module.path).Pairwise (· < ·) ∧
      (∃ ms, (analysis o s fs).outcome = .ok ms ∧ r.library.modules = mergeLinks r.links ms) ∧
      (∀ m ∈ r.library.modules,
        (∀ t ∈ m.starExports, t ∈ r.library.modules.map Module.path) ∧
          ∀ e ∈ m.reExports, e.sourceModule ∈ r.library.modules.map Module.path) ∧
      ∀ u ∈ r.links.unresolved,
        u.sourceModule ∈ r.library.modules.map Module.path ∧
          ∃ m ∈ r.library.modules, m.path = u.module ∧
            ∃ e ∈ m.reExports, e.sourceModule = u.sourceModule ∧ e.localName = u.name := by
  obtain ⟨ms, hms, rfl⟩ := result_of_generateLibrary hr
  have hids' := SourceFile.collect_ids_nodup hcollect hids
  have hall : ∀ f ∈ fs, ∃ g, (programOf o s fs).get? f.id = some g := by
    intro f hf
    obtain ⟨hmem, hc⟩ := SourceFile.mem_of_mem_collect hcollect hf
    rw [get?_programOf hids' hf]
    exact SourceFile.index_of_contains s.parser hc (hcontent f hmem)
  have hmodules : List.Forall₂ (FromFile (programOf o s fs) o) fs ms := forall₂_fromFile hall hms
  have hlt : (ms.map Module.path).Pairwise (· < ·) := by
    rw [(paths_of_forall₂ hmodules).2]
    exact SourceFile.collect_paths_lt hcollect hids hproject
  have hsorted : (resultOf package s ms).library.modules = mergeLinks (Links.ofModules ms) ms :=
    modules_of_sorted hlt
  have hpaths : (resultOf package s ms).library.modules.map Module.path = ms.map Module.path := by
    rw [hsorted, mergeLinks_paths]
  rw [hpaths]
  refine ⟨?_, hlt, ⟨ms, hms, hsorted⟩, ?_, ?_⟩
  · rw [← (paths_of_forall₂ hmodules).1, hsorted, mergeLinks, List.map_map]
    rfl
  · intro m hm
    rw [hsorted] at hm
    obtain ⟨m', hm', rfl⟩ := List.mem_map.mp hm
    exact ⟨fun t ht => mem_paths_of_target (e := .star t) hids' hmodules hm' ht rfl,
      fun e he => mem_paths_of_target (e := .reExport e) hids' hmodules hm' he rfl⟩
  · intro u hu
    obtain ⟨m, hm, hmodule, e, he, hsource, hname⟩ := exists_reExport_of_unresolved hids' hmodules hu
    refine ⟨?_, { m with declarations := m.declarations.map (Declaration.withExporters (Links.ofModules ms) m.path) },
      ?_, hmodule, e, he, hsource, hname⟩
    · rw [← hsource]
      exact mem_paths_of_target (e := .reExport e) hids' hmodules hm he rfl
    · rw [hsorted]
      exact List.mem_map_of_mem hm

def anchored : SourceOptions := { projectRoot := some "/p" }

def reExportingFiles (statement : String) : List SourceFile :=
  [{ id := "/p/src/lib/index.ts", content := some statement },
    { id := "/p/src/lib/math.ts", content := some "export const one = 1;" }]

theorem collect_reExportingFiles (statement : String) :
    (SourceFile.collect anchored .sources (reExportingFiles statement)).outcome =
      .ok (reExportingFiles statement) := by
  apply SourceFile.collect_of_sorted
  · nofun
  · simp only [reExportingFiles, List.forall_mem_cons]
    exact ⟨by decide +kernel, by decide +kernel, nofun⟩
  · have hindex : anchored.modulePath "/p/src/lib/index.ts" = .ok "index.ts" := by decide +kernel
    have hmath : anchored.modulePath "/p/src/lib/math.ts" = .ok "math.ts" := by decide +kernel
    rw [reExportingFiles, List.pairwise_pair]
    simp only [SourceFile.keyOf, SourceFile.Keyed.le, hindex, hmath]
    decide

theorem generateLibrary_closed_star :
    ∃ r, (generateLibrary (reExportingFiles "export * from './math';") { name := "lib", version := "1" }
        anchored {}).outcome = .ok r ∧
      (SourceFile.collect anchored .sources (reExportingFiles "export * from './math';")).outcome =
        .ok (reExportingFiles "export * from './math';") ∧
      (r.library.modules.map Module.path).Pairwise (· < ·) ∧
      ∀ m ∈ r.library.modules, ∀ t ∈ m.starExports, t ∈ r.library.modules.map Module.path := by
  have hcontent : ∀ f ∈ reExportingFiles "export * from './math';", f.content.isSome := by decide
  have hids : ((reExportingFiles "export * from './math';").map SourceFile.id).Nodup := by decide
  have hcollect := collect_reExportingFiles "export * from './math';"
  obtain ⟨r, hr⟩ := @Run.outcome_of_isSome _ (generateLibrary (reExportingFiles "export * from './math';")
    { name := "lib", version := "1" } anchored {}) (by decide +kernel)
  have hproject : anchored.projectRoot = some "/p" := rfl
  obtain ⟨_, hlt, _, hclosed, _⟩ := generateLibrary_closed hproject hcontent hids hcollect hr
  exact ⟨r, hr, hcollect, hlt, fun m hm => (hclosed m hm).1⟩

theorem star_named_unresolved :
    anchored.validate = .ok () ∧
      (SourceFile.collect anchored .sources (reExportingFiles "export \x7b '*' as all \x7d from './math';")).outcome =
        .ok (reExportingFiles "export \x7b '*' as all \x7d from './math';") ∧
      (generateLibrary (reExportingFiles "export \x7b '*' as all \x7d from './math';")
          { name := "lib", version := "1" } anchored {}).outcome.toOption.map (fun r => r.links.unresolved) =
        some [⟨"index.ts", "math.ts", "*"⟩] :=
  ⟨by decide, collect_reExportingFiles _, by decide +kernel⟩

end Closed

end ApiCatalog
