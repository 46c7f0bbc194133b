import ApiCatalog.Proofs.Analysis.Diagnostics
import ApiCatalog.Proofs.Library.Modules
import ApiCatalog.Proofs.Link.Merge

namespace ApiCatalog

def EditOf (i : String) (f f' : SourceFile) : Prop :=
  ∃ content, f' = { f with content } ∧ content.isSome = f.content.isSome ∧ (f.id ≠ i → content = f.content)

section Edit

variable {i : String} {f f' : SourceFile} {files files' : List SourceFile} {o : SourceOptions} {channel : Channel}

theorem EditOf.id_eq (h : EditOf i f f') : f'.id = f.id := by
  obtain ⟨_, rfl, _⟩ := h
  rfl

theorem EditOf.eq_of_ne (h : EditOf i f f') (hne : f.id ≠ i) : f' = f := by
  obtain ⟨content, rfl, _, hcontent⟩ := h
  rw [hcontent hne]

/-! The programs before and after -/

namespace Program

variable {extensions : List String} {parser : Syntax.ScriptParser} {p p' : Program}

structure AgreeBut (i : String) (p p' : Program) : Prop where
  get? : ∀ id, id ≠ i → p.get? id = p'.get? id
  contains : p.contains = p'.contains
  parser : p.parser = p'.parser

theorem isSome_index (f : SourceFile) :
    (index extensions f parser).value.isSome = ((fileKind? extensions f.id).isSome && f.content.isSome) := by
  rw [index]
  cases fileKind? extensions f.id <;> cases f.content <;> rfl

theorem AgreeBut.add (hp : AgreeBut i p p') (hf : EditOf i f f') :
    AgreeBut i (add extensions p f).value (add extensions p' f').value := by
  have hsome : (index extensions f' p'.parser).value.isSome = (index extensions f p.parser).value.isSome := by
    obtain ⟨content, rfl, hcontent, _⟩ := hf
    simp only [isSome_index, hcontent]
  refine ⟨?_, ?_, by rw [parser_add, parser_add, hp.parser]⟩
  · intro id hid
    rw [get?_add, get?_add, hf.id_eq, hp.get? id hid, hp.parser]
    split
    · case isTrue heq => rw [hf.eq_of_ne (heq ▸ hid)]
    · rfl
  · funext id
    have hcontains : (p.get? id).isSome = (p'.get? id).isSome := congrFun hp.contains id
    rw [Program.contains, Program.contains, get?_add, get?_add, hf.id_eq]
    split
    · simp only [Option.isSome_or, hsome, hcontains]
    · exact hcontains

theorem agreeBut_ofFiles (hedit : List.Forall₂ (EditOf i) files files') :
    AgreeBut i (ofFiles extensions files parser).value (ofFiles extensions files' parser).value := by
  suffices ∀ p p' : Program, AgreeBut i p p' → AgreeBut i (files.foldlM (Program.add extensions) p).value
      (files'.foldlM (Program.add extensions) p').value from this _ _ ⟨fun _ _ => rfl, rfl, rfl⟩
  induction hedit with
  | nil => exact fun _ _ hp => hp
  | cons hf _ ih =>
    intro p p' hp
    rw [List.foldlM_cons, List.foldlM_cons, Noted.value_bind, Noted.value_bind]
    exact ih _ _ (hp.add hf)

end Program

/-! Modules before and after -/

structure Versions where
  file : SourceFile
  before : Module
  after : Module

structure Versions.LocalTo (o : SourceOptions) (i : String) (v : Versions) : Prop where
  path_before : o.modulePath v.file.id = .ok v.before.path
  path_after : v.after.path = v.before.path
  unlinked : v.file.id ≠ i → v.before.unlinked = v.after.unlinked

def Versions.linked (l l' : Links) (v : Versions) : Versions :=
  { v with before := v.before.linked l, after := v.after.linked l' }

theorem Versions.LocalTo.linked {v : Versions} (h : v.LocalTo o i) (l l' : Links) : (v.linked l l').LocalTo o i where
  path_before := h.path_before
  path_after := h.path_after
  unlinked hne := by
    simp only [Versions.linked, Module.unlinked_linked]
    exact h.unlinked hne

variable {p p' : Program}

theorem analyzeFile_edit (hp : p.AgreeBut i p') (hf : EditOf i f f') (hne : f.id ≠ i) :
    analyzeFile p' o channel f' = analyzeFile p o channel f := by
  rw [hf.eq_of_ne hne]
  exact (analyzeFile_congr hp.parser (hp.get? f.id hne) hp.contains).symm

theorem versions_of_analyzeFile (hp : p.AgreeBut i p') (hf : EditOf i f f') {r r' : Option Module}
    (hr : (analyzeFile p o channel f).outcome = .ok r) (hr' : (analyzeFile p' o channel f').outcome = .ok r') :
    (p.contains f.id = false ∧ r = none ∧ r' = none) ∨
      ∃ m m', p.contains f.id = true ∧ r = some m ∧ r' = some m' ∧ Versions.LocalTo o i ⟨f, m, m'⟩ := by
  have hcontains : (p.get? f.id).isSome = (p'.get? f.id).isSome := congrFun hp.contains f.id
  obtain ⟨hnone, hrnone⟩ | ⟨g, m, hg, rfl, hpath, _⟩ := analyzeFile_eq_ok hr
  · obtain ⟨_, hrnone'⟩ | ⟨_, _, hg', _⟩ := analyzeFile_eq_ok hr'
    · exact .inl ⟨by rw [Program.contains, hnone]; rfl, hrnone, hrnone'⟩
    · rw [hf.id_eq] at hg'
      simp [hnone, hg'] at hcontains
  · obtain ⟨hnone', _⟩ | ⟨_, m', _, rfl, hpath', _⟩ := analyzeFile_eq_ok hr'
    · rw [hf.id_eq] at hnone'
      simp [hnone', hg] at hcontains
    · refine .inr ⟨m, m', by rw [Program.contains, hg]; rfl, rfl, rfl, hpath, ?_, ?_⟩
      · rw [hf.id_eq, hpath] at hpath'
        exact (Except.ok.inj hpath').symm
      · intro hne
        rw [analyzeFile_edit hp hf hne, hr] at hr'
        cases hr'
        rfl

theorem exists_versions (hp : p.AgreeBut i p') (hedit : List.Forall₂ (EditOf i) files files')
    {rs rs' : List (Option Module)}
    (hrs : List.Forall₂ (fun f r => (analyzeFile p o channel f).outcome = .ok r) files rs)
    (hrs' : List.Forall₂ (fun f r => (analyzeFile p' o channel f).outcome = .ok r) files' rs') :
    ∃ vs : List Versions, vs.map Versions.file = files.filter (fun f => p.contains f.id) ∧
      rs.filterMap id = vs.map Versions.before ∧ rs'.filterMap id = vs.map Versions.after ∧
      ∀ v ∈ vs, v.LocalTo o i := by
  induction hedit generalizing rs rs' with
  | nil =>
    cases hrs
    cases hrs'
    exact ⟨[], rfl, rfl, rfl, nofun⟩
  | @cons f f' files files' hf _ ih =>
    cases hrs with
    | cons hr hrs =>
    cases hrs' with
    | cons hr' hrs' =>
    obtain ⟨vs, hfiles, hbefore, hafter, hlocal⟩ := ih hrs hrs'
    obtain ⟨hout, rfl, rfl⟩ | ⟨m, m', hin, rfl, rfl, hv⟩ := versions_of_analyzeFile hp hf hr hr'
    · exact ⟨vs, by rw [hfiles, List.filter_cons_of_neg (by simp [hout])], hbefore, hafter, hlocal⟩
    · refine ⟨⟨f, m, m'⟩ :: vs, ?_, ?_, ?_, List.forall_mem_cons.mpr ⟨hv, hlocal⟩⟩
      · rw [List.map_cons, hfiles, List.filter_cons_of_pos (by simp [hin])]
      · exact congrArg (m :: ·) hbefore
      · exact congrArg (m' :: ·) hafter

theorem sortModules_versions {vs : List Versions} (hlocal : ∀ v ∈ vs, v.LocalTo o i) :
    ∃ ws : List Versions, ws.Perm vs ∧ sortModules (vs.map Versions.before) = ws.map Versions.before ∧
      sortModules (vs.map Versions.after) = ws.map Versions.after := by
  refine ⟨vs.mergeSort fun v w => textLE v.before.path w.before.path, List.mergeSort_perm _ _, ?_, ?_⟩
  · rw [sortModules, List.map_mergeSort]
    exact fun _ _ _ _ => rfl
  · rw [sortModules, List.map_mergeSort]
    intro v hv w hw
    rw [(hlocal v hv).path_after, (hlocal w hw).path_after]

/-! Diagnostics before and after -/

theorem filter_diagnostics_edited (p : Program) (hid : f.id = i) :
    (analyzeFile p o channel f).diagnostics.filter (fun d => d.file ≠ i) = [] := by
  refine List.filter_eq_nil_iff.mpr fun d hd => ?_
  rw [(about_analyzeFile p o channel f).file_eq hd, hid]
  simp

theorem diagnostics_edit (hp : p.AgreeBut i p') (hedit : List.Forall₂ (EditOf i) files files') :
    (files.flatMap fun f => (analyzeFile p o channel f).diagnostics).filter (fun d => d.file ≠ i) =
      (files'.flatMap fun f => (analyzeFile p' o channel f).diagnostics).filter (fun d => d.file ≠ i) := by
  induction hedit with
  | nil => rw [List.flatMap_nil, List.flatMap_nil]
  | @cons f f' files files' hf _ ih =>
    have hfile : (analyzeFile p o channel f).diagnostics.filter (fun d => d.file ≠ i) =
        (analyzeFile p' o channel f').diagnostics.filter (fun d => d.file ≠ i) := by
      by_cases hid : f.id = i
      · rw [filter_diagnostics_edited p hid, filter_diagnostics_edited p' (hf.id_eq.trans hid)]
      · rw [analyzeFile_edit hp hf hid]
    rw [List.flatMap_cons, List.flatMap_cons, List.filter_append, List.filter_append, hfile, ih]

theorem diagnostics_analysis {s : GenerateSettings} {ms : List Module} (hms : (analysis o s files).outcome = .ok ms) :
    (analysis o s files).diagnostics =
      files.flatMap fun f => (analyzeFile (programOf o s files) o s.channel f).diagnostics := by
  obtain ⟨rs, hrs, _⟩ := Run.outcome_bind_eq_ok.mp hms
  rw [analysis, (analyzeFiles_of_ok hrs).2]
  exact (Run.mapM_of_ok (Run.not_fails_of_mapM hrs)).2

theorem generateLibrary_edit_local {package : Package} {s : GenerateSettings} {r r' : GenerateResult}
    (hedit : List.Forall₂ (EditOf i) files files') (hr : (generateLibrary files package o s).outcome = .ok r)
    (hr' : (generateLibrary files' package o s).outcome = .ok r') :
    (∃ vs : List Versions,
      (vs.map Versions.file).Perm (files.filter fun f => (programOf o s files).contains f.id) ∧
      r.library.modules = vs.map Versions.before ∧ r'.library.modules = vs.map Versions.after ∧
      ∀ v ∈ vs, v.LocalTo o i) ∧
    (generateLibrary files package o s).diagnostics.filter (fun d => d.file ≠ i) =
      (generateLibrary files' package o s).diagnostics.filter (fun d => d.file ≠ i) := by
  obtain ⟨ms, hms, rfl⟩ := result_of_generateLibrary hr
  obtain ⟨ms', hms', rfl⟩ := result_of_generateLibrary hr'
  have hp : (programOf o s files).AgreeBut i (programOf o s files') := Program.agreeBut_ofFiles hedit
  constructor
  · obtain ⟨rs, hrs, hpure⟩ := Run.outcome_bind_eq_ok.mp hms
    obtain ⟨rs', hrs', hpure'⟩ := Run.outcome_bind_eq_ok.mp hms'
    cases hpure
    cases hpure'
    obtain ⟨vs, hfiles, hbefore, hafter, hlocal⟩ :=
      exists_versions hp hedit (Run.forall₂_of_mapM hrs) (Run.forall₂_of_mapM hrs')
    let l := Links.ofModules (rs.filterMap id)
    let l' := Links.ofModules (rs'.filterMap id)
    have hlinked : ∀ v ∈ vs.map (Versions.linked l l'), v.LocalTo o i := by
      intro v hv
      obtain ⟨w, hw, rfl⟩ := List.mem_map.mp hv
      exact (hlocal w hw).linked l l'
    obtain ⟨ws, hperm, hsorted, hsorted'⟩ := sortModules_versions hlinked
    refine ⟨ws, ?_, ?_, ?_, fun v hv => hlinked v (hperm.mem_iff.mp hv)⟩
    · rw [← hfiles]
      refine (hperm.map _).trans (.of_eq ?_)
      rw [List.map_map]
      rfl
    · rw [← hsorted, List.map_map]
      change sortModules ((rs.filterMap id).map (Module.linked l)) = _
      rw [hbefore, List.map_map]
      rfl
    · rw [← hsorted', List.map_map]
      change sortModules ((rs'.filterMap id).map (Module.linked l')) = _
      rw [hafter, List.map_map]
      rfl
  · rw [diagnostics_of_generateLibrary hr, diagnostics_of_generateLibrary hr', diagnostics_analysis hms,
      diagnostics_analysis hms']
    exact diagnostics_edit hp hedit

end Edit

def passingFiles (content : Option String) : List SourceFile :=
  [{ id := "src/lib/a.ts", content := some "export * from './b';" }, { id := "src/lib/b.ts", content }]

def passingRun (content : Option String) : Run GenerateResult :=
  generateLibrary (passingFiles content) { name := "p", version := "1" } {} {}

theorem generateLibrary_edit_local_passingFiles :
    ∃ r r', (passingRun (some "export const y = 1;")).outcome = .ok r ∧
      (passingRun (some "export let z = 2;")).outcome = .ok r' ∧
      List.Forall₂ (EditOf "src/lib/b.ts") (passingFiles (some "export const y = 1;"))
        (passingFiles (some "export let z = 2;")) ∧
      ∃ vs : List Versions, r.library.modules = vs.map Versions.before ∧ r'.library.modules = vs.map Versions.after ∧
        ∀ v ∈ vs, v.LocalTo {} "src/lib/b.ts" := by
  obtain ⟨r, hr⟩ := @Run.outcome_of_isSome _ (passingRun (some "export const y = 1;")) (by decide +kernel)
  obtain ⟨r', hr'⟩ := @Run.outcome_of_isSome _ (passingRun (some "export let z = 2;")) (by decide +kernel)
  have hedit : List.Forall₂ (EditOf "src/lib/b.ts") (passingFiles (some "export const y = 1;"))
      (passingFiles (some "export let z = 2;")) :=
    .cons ⟨_, rfl, rfl, fun _ => rfl⟩ (.cons ⟨_, rfl, rfl, fun hne => absurd rfl hne⟩ .nil)
  obtain ⟨⟨vs, _, hbefore, hafter, hlocal⟩, _⟩ := generateLibrary_edit_local hedit hr hr'
  exact ⟨r, r', hr, hr', hedit, vs, hbefore, hafter, hlocal⟩

theorem starExports_passingRun {content : Option String} {exports : List (String × List String)}
    (hrun : (passingRun content).outcome.toOption.isSome)
    (hanalysis : (analysis {} {} (passingFiles content)).outcome.toOption.map
      (List.map fun m => (m.path, m.starExports)) = some exports)
    (hlt : (exports.map Prod.fst).Pairwise (· < ·)) :
    ∃ r, (passingRun content).outcome = .ok r ∧
      (r.library.modules.map fun m => (m.path, m.starExports)) = exports := by
  obtain ⟨r, hr⟩ := Run.outcome_of_isSome hrun
  refine ⟨r, hr, ?_⟩
  obtain ⟨ms, hms, rfl⟩ := result_of_generateLibrary hr
  rw [hms] at hanalysis
  cases hanalysis
  have hpaths : (ms.map Module.path).Pairwise (· < ·) := by
    rw [List.map_map] at hlt
    exact hlt
  rw [modules_of_sorted hpaths, mergeLinks, List.map_map]
  rfl

theorem unread_file_not_passed :
    ∃ r r', (passingRun (some "export const y = 1;")).outcome = .ok r ∧ (passingRun none).outcome = .ok r' ∧
      (r.library.modules.map fun m => (m.path, m.starExports)) = [("a.ts", ["b.ts"]), ("b.ts", [])] ∧
      (r'.library.modules.map fun m => (m.path, m.starExports)) = [("a.ts", [])] := by
  obtain ⟨r, hr, hexports⟩ := @starExports_passingRun (some "export const y = 1;")
    [("a.ts", ["b.ts"]), ("b.ts", [])] (by decide +kernel) (by decide +kernel) (by decide)
  obtain ⟨r', hr', hexports'⟩ := @starExports_passingRun none [("a.ts", [])] (by decide +kernel)
    (by decide +kernel) (by decide)
  exact ⟨r, r', hr, hr', hexports, hexports'⟩

end ApiCatalog
