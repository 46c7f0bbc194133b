import ApiCatalog.Proofs.Code.DefaultExport
import ApiCatalog.Proofs.Library.FileOrder

namespace ApiCatalog

section Modules

variable {package : Package} {o : SourceOptions} {s : GenerateSettings} {files : List SourceFile}
  {f : SourceFile} {ms : List Module} {parser : Syntax.ScriptParser} {path content : String}

def programOf (o : SourceOptions) (s : GenerateSettings) (files : List SourceFile) : Program :=
  (Program.ofFiles o.extensions files s.parser).value

theorem get?_programOf (hids : (files.map SourceFile.id).Nodup) (hf : f ∈ files) :
    (programOf o s files).get? f.id = (Program.index o.extensions f s.parser).value := by
  have hfind : files.find? (fun g => g.id == f.id) = some f := (find?_key_eq_some_iff hids).mpr ⟨hf, rfl⟩
  rw [programOf, Program.get?_ofFiles hids, Program.indexed?, hfind]
  rfl

theorem index_code (hkind : fileKind? o.extensions f.id = some .code) (hcontent : f.content = some content) :
    (Program.index o.extensions f parser).value =
      some { id := f.id, kind := .code, content, script := some (parser content) } := by
  rw [Program.index, hkind, hcontent]
  rfl

theorem index_component (hkind : fileKind? o.extensions f.id = some .component)
    (hcontent : f.content = some content) :
    (Program.index o.extensions f parser).value =
      some { id := f.id, kind := .component, content, script := none } := by
  rw [Program.index, hkind, hcontent]
  rfl

theorem exists_module (hids : (files.map SourceFile.id).Nodup) (hms : (analysis o s files).outcome = .ok ms)
    (hf : f ∈ files) {g : IndexedFile} (hg : (Program.index o.extensions f s.parser).value = some g)
    (hpath : o.modulePath f.id = .ok path) :
    ∃ m ∈ ms, m.path = path ∧ (extract (programOf o s files) o g path).outcome = .ok m.extracted := by
  obtain ⟨rs, hrs, hpure⟩ := Run.outcome_bind_eq_ok.mp hms
  cases hpure
  obtain ⟨r, hr, hfile⟩ := Run.outcome_of_mapM hrs hf
  have hget : (programOf o s files).get? f.id = some g := (get?_programOf hids hf).trans hg
  obtain ⟨hnone, _⟩ | ⟨g', m, hg', rfl, hmpath, hextract⟩ := analyzeFile_eq_ok hfile
  · cases hget.symm.trans hnone
  · cases hget.symm.trans hg'
    cases hpath.symm.trans hmpath
    exact ⟨m, List.mem_filterMap.mpr ⟨_, hr, rfl⟩, rfl, hextract⟩

theorem describe_shape (d : Declaration) (file : String) (b : Bool) (root : Syntax.Node) :
    (Component.describe d file b root).value.name = d.name ∧
      (Component.describe d file b root).value.kind = d.kind := by
  simp only [Component.describe]
  split
  · exact Code.Reader.documented_shape d _
  · exact ⟨rfl, rfl⟩

theorem analyze_eq_ok {file : String} {b : Bool} {x : Code.Extracted}
    (h : (Component.analyze parser file path content b).outcome = .ok x) :
    ∃ d comment, x = { declarations := [d], moduleComment := comment } ∧ d.name = componentName path ∧
      d.kind = .component := by
  rw [Component.analyze] at h
  obtain ⟨tree, _, h⟩ := Run.outcome_bind_eq_ok.mp h
  cases tree with
  | none =>
    obtain ⟨d, hd, h⟩ := Run.outcome_bind_eq_ok.mp h
    obtain ⟨_, _, h⟩ := Run.outcome_bind_eq_ok.mp h
    cases hd
    cases h
    exact ⟨_, _, rfl, by dsimp only, by dsimp only⟩
  | some root =>
    obtain ⟨d, hd, h⟩ := Run.outcome_bind_eq_ok.mp h
    obtain ⟨_, _, h⟩ := Run.outcome_bind_eq_ok.mp h
    rw [Run.outcome_ofNoted, Except.ok.injEq] at hd
    subst hd
    cases h
    obtain ⟨hname, hkind⟩ := describe_shape
      { name := componentName path, kind := .component, sourceLine := some 1,
        comment := Component.componentComment? content.toList } file b root
    refine ⟨_, _, rfl, ?_, ?_⟩
    · rw [hname]
    · rw [hkind]

theorem stages_of_generateLibrary {r : GenerateResult} (hr : (generateLibrary files package o s).outcome = .ok r) :
    ∃ ms, (analysis o s files).outcome = .ok ms ∧ (checkDuplicates s (libraryOf package ms)).outcome = .ok () := by
  have hsound : ¬ (generateLibrary files package o s).Fails := Run.not_fails_iff.mpr ⟨r, hr⟩
  obtain ⟨ms, hms⟩ := Run.not_fails_iff.mp fun h => hsound (generateLibrary_fails_of_analysis h)
  obtain ⟨_, hchecked⟩ := Run.not_fails_iff.mp fun h =>
    hsound (generateLibrary_fails_of_finish hms (finish_fails h))
  exact ⟨ms, hms, hchecked⟩

theorem result_of_generateLibrary {r : GenerateResult}
    (hr : (generateLibrary files package o s).outcome = .ok r) :
    ∃ ms, (analysis o s files).outcome = .ok ms ∧ r = resultOf package s ms := by
  obtain ⟨ms, hms, hchecked⟩ := stages_of_generateLibrary hr
  obtain ⟨hout, _⟩ := generateLibrary_of_ok hms (finish_of_ok hchecked).1
  rw [hr] at hout
  exact ⟨ms, hms, Except.ok.inj hout⟩

theorem modules_of_sorted (h : (ms.map Module.path).Pairwise (· < ·)) :
    (resultOf package s ms).library.modules = mergeLinks (Links.ofModules ms) ms :=
  sortModules_of_lt (by rw [mergeLinks_paths]; exact h)

theorem diagnostics_of_generateLibrary {r : GenerateResult}
    (hr : (generateLibrary files package o s).outcome = .ok r) :
    (generateLibrary files package o s).diagnostics = (analysis o s files).diagnostics := by
  obtain ⟨ms, hms, hchecked⟩ := stages_of_generateLibrary hr
  obtain ⟨hfinish, hnone⟩ := finish_of_ok hchecked
  obtain ⟨_, hnotes⟩ := generateLibrary_of_ok hms hfinish
  rw [hnotes, hnone, List.append_nil]

end Modules

end ApiCatalog
