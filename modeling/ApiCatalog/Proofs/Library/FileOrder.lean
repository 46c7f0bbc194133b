import ApiCatalog.Library.Generate
import ApiCatalog.Proofs.Link.ModuleOrder
import ApiCatalog.Proofs.Source.Collect

namespace ApiCatalog

/-! The program is known by its files, in whatever order they were added. -/

namespace Program

variable {extensions : List String} {parser : Syntax.ScriptParser} {files files' : List SourceFile}

theorem get?_insert (p : Program) (f : IndexedFile) (id : String) :
    (p.insert f).get? id = if f.id = id then some f else p.get? id := by
  have hid (g : IndexedFile) : (if g.id == f.id then f else g).id = g.id := by
    split
    · case isTrue h => exact (eq_of_beq h).symm
    · rfl
  simp only [insert]
  split
  · case isTrue hc =>
    have hfind : (p.insert f).get? id = (p.get? id).map fun g => if g.id == f.id then f else g := by
      simp only [get?, insert, if_pos hc, List.find?_map, Function.comp_def, hid]
    simp only [insert, if_pos hc] at hfind
    rw [hfind]
    cases hg : p.get? id with
    | none =>
      have hne : f.id ≠ id := by
        rintro rfl
        simp [contains, hg] at hc
      simp [hne]
    | some g =>
      have hgid : g.id = id := by simpa using List.find?_some hg
      by_cases h : f.id = id
      · simp [h, hgid]
      · have hne : ¬ g.id = f.id := fun he => h (he.symm.trans hgid)
        simp [h, hne]
  · case isFalse hc =>
    rw [get?, List.find?_append]
    by_cases h : f.id = id
    · subst h
      have hnone : p.files.find? (fun g => g.id == f.id) = none := by simpa [contains, get?] using hc
      simp [hnone]
    · have hfind : List.find? (fun g : IndexedFile => g.id == id) [f] = none := by simp [h]
      rw [hfind, Option.or_none, if_neg h, get?]

def indexed? (extensions : List String) (parser : Syntax.ScriptParser) (files : List SourceFile) (id : String) :
    Option IndexedFile :=
  (files.find? fun f => f.id == id).bind fun f => (index extensions f parser).value

theorem index_id {f : SourceFile} {g : IndexedFile} (h : (index extensions f parser).value = some g) :
    g.id = f.id := by
  rw [index] at h
  split at h
  · cases h
  · cases h
  · cases h; rfl

theorem get?_add (p : Program) (f : SourceFile) (id : String) :
    (add extensions p f).value.get? id =
      if f.id = id then (index extensions f p.parser).value.or (p.get? id) else p.get? id := by
  rw [add, Noted.value_bind, Noted.value_pure]
  cases h : (index extensions f p.parser).value with
  | none => simp
  | some g =>
    rw [Option.elim_some, get?_insert, index_id h]
    split <;> rfl

theorem parser_add (p : Program) (f : SourceFile) : (add extensions p f).value.parser = p.parser := by
  rw [add, Noted.value_bind, Noted.value_pure]
  cases (index extensions f p.parser).value <;> rfl

theorem parser_foldlM (p : Program) (files : List SourceFile) :
    (files.foldlM (add extensions) p).value.parser = p.parser := by
  induction files generalizing p with
  | nil => rfl
  | cons f fs ih => rw [List.foldlM_cons, Noted.value_bind, ih, parser_add]

theorem parser_ofFiles (extensions : List String) (files : List SourceFile) (parser : Syntax.ScriptParser) :
    (ofFiles extensions files parser).value.parser = parser :=
  parser_foldlM _ files

theorem get?_foldlM (p : Program) (hids : (files.map SourceFile.id).Nodup) (id : String) :
    (files.foldlM (add extensions) p).value.get? id = (indexed? extensions p.parser files id).or (p.get? id) := by
  induction files generalizing p with
  | nil => rfl
  | cons f fs ih =>
    obtain ⟨hf, hfs⟩ := List.nodup_cons.mp hids
    rw [List.foldlM_cons, Noted.value_bind, ih _ hfs, get?_add, parser_add]
    by_cases h : f.id = id
    · subst h
      have hnone : fs.find? (fun g => g.id == f.id) = none :=
        List.find?_eq_none.mpr fun g hg hx => hf (List.mem_map.mpr ⟨g, hg, by simpa using hx⟩)
      simp [indexed?, hnone]
    · simp [indexed?, h]

theorem get?_ofFiles (hids : (files.map SourceFile.id).Nodup) (id : String) :
    (ofFiles extensions files parser).value.get? id = indexed? extensions parser files id := by
  rw [ofFiles, get?_foldlM _ hids]
  exact Option.or_none

theorem diagnostics_add (p : Program) (f : SourceFile) : (add extensions p f).diagnostics = [] := by
  rw [add, Noted.diagnostics_bind, Noted.diagnostics_pure, List.append_nil, index]
  split <;> rfl

theorem diagnostics_ofFiles : (ofFiles extensions files parser).diagnostics = [] := by
  suffices ∀ p : Program, (files.foldlM (add extensions) p).diagnostics = [] from this { parser }
  induction files with
  | nil => exact fun _ => rfl
  | cons f fs ih =>
    intro p
    rw [List.foldlM_cons, Noted.diagnostics_bind, diagnostics_add, ih, List.append_nil]

theorem indexed?_perm (h : files.Perm files') (hids : (files.map SourceFile.id).Nodup) (id : String) :
    indexed? extensions parser files id = indexed? extensions parser files' id := by
  rw [indexed?, indexed?, find?_key_perm h hids]

theorem get?_ofFiles_perm (h : files.Perm files') (hids : (files.map SourceFile.id).Nodup) :
    (ofFiles extensions files parser).value.get? = (ofFiles extensions files' parser).value.get? := by
  funext id
  rw [get?_ofFiles hids, get?_ofFiles ((h.map _).nodup_iff.mp hids), indexed?_perm h hids]

end Program

/-! Analysis -/

section Analysis

variable {p p' : Program} {o : SourceOptions} {channel : Channel} {files files' : List SourceFile}

theorem analyzeFile_congr {f : SourceFile} (hparser : p.parser = p'.parser) (hget : p.get? f.id = p'.get? f.id)
    (hcontains : p.contains = p'.contains) : analyzeFile p o channel f = analyzeFile p' o channel f := by
  have htarget : p.targetPath? o = p'.targetPath? o := by
    funext fromId specifier
    rw [Program.targetPath?, Program.targetPath?, Program.resolve?, Program.resolve?, hcontains]
  have hextract : extract p o = extract p' o := by
    funext f path
    rw [extract, extract, htarget, hparser]
  rw [analyzeFile, analyzeFile, hget, hextract]

def Module.extracted (m : Module) : Code.Extracted where
  declarations := m.declarations
  moduleComment := m.moduleComment
  reExports := m.reExports
  starExports := m.starExports

theorem analyzeFile_eq_ok {f : SourceFile} {r : Option Module}
    (h : (analyzeFile p o channel f).outcome = .ok r) :
    (p.get? f.id = none ∧ r = none) ∨
      ∃ g m, p.get? f.id = some g ∧ r = some m ∧ o.modulePath f.id = .ok m.path ∧
        (extract p o g m.path).outcome = .ok m.extracted := by
  rw [analyzeFile] at h
  split at h
  · case h_1 hg =>
    obtain ⟨_, _, hr⟩ := Run.outcome_bind_eq_ok.mp h
    cases hr
    exact .inl ⟨hg, rfl⟩
  · case h_2 g hg =>
    obtain ⟨path, hpath, h⟩ := Run.outcome_bind_eq_ok.mp h
    obtain ⟨_, hextract, h⟩ := Run.outcome_bind_eq_ok.mp h
    obtain ⟨_, _, h⟩ := Run.outcome_bind_eq_ok.mp h
    obtain ⟨_, _, h⟩ := Run.outcome_bind_eq_ok.mp h
    obtain ⟨_, _, h⟩ := Run.outcome_bind_eq_ok.mp h
    cases h
    rw [Run.outcome_ofOptions] at hpath
    cases hx : o.modulePath f.id <;> rw [hx] at hpath <;> cases hpath
    exact .inr ⟨g, _, hg, rfl, rfl, hextract⟩

def modulesOf (p : Program) (o : SourceOptions) (channel : Channel) (files : List SourceFile) : List Module :=
  (Run.results (analyzeFile p o channel) files).filterMap id

theorem distinctPaths_modulesOf (hpaths : (files.map fun f => o.modulePath f.id).Nodup) :
    Link.DistinctPaths (modulesOf p o channel files) := by
  rw [Link.DistinctPaths, modulesOf, Run.results, List.filterMap_filterMap, List.Nodup, List.pairwise_map,
    List.pairwise_filterMap]
  refine (List.pairwise_map.mp hpaths).imp ?_
  intro f g hne m hm m' hm' he
  have hpath (f : SourceFile) (m : Module)
      (hm : ((analyzeFile p o channel f).outcome.toOption.bind id) = some m) :
      o.modulePath f.id = .ok m.path := by
    have hok : (analyzeFile p o channel f).outcome = .ok (some m) := by
      cases hx : (analyzeFile p o channel f).outcome with
      | error e => simp [hx, Except.toOption] at hm
      | ok r => simp_all [Except.toOption]
    obtain ⟨_, hnone⟩ | ⟨_, m', _, hm', hpath, _⟩ := analyzeFile_eq_ok hok
    · cases hnone
    · cases hm'
      exact hpath
  exact hne (by rw [hpath f m hm, hpath g m' hm', he])

theorem distinctPaths_of_analyzeFiles {ms : List Module} (hpaths : (files.map fun f => o.modulePath f.id).Nodup)
    (hms : (analyzeFiles p o channel files).outcome = .ok ms) : Link.DistinctPaths ms := by
  obtain ⟨rs, hrs, hpure⟩ := Run.outcome_bind_eq_ok.mp hms
  cases hpure
  rw [Run.results_of_mapM hrs]
  exact distinctPaths_modulesOf hpaths

theorem analyzeFiles_of_ok {rs : List (Option Module)}
    (h : (files.mapM (analyzeFile p o channel)).outcome = .ok rs) :
    (analyzeFiles p o channel files).outcome = .ok (rs.filterMap id) ∧
      (analyzeFiles p o channel files).diagnostics = (files.mapM (analyzeFile p o channel)).diagnostics := by
  constructor
  · rw [analyzeFiles, Run.outcome_bind, h]
    rfl
  · rw [analyzeFiles, Run.diagnostics_bind_of_ok _ h, Run.diagnostics_pure, List.append_nil]

theorem analyzeFiles_perm (h : files.Perm files') :
    ((analyzeFiles p o channel files).Fails ∧ (analyzeFiles p o channel files').Fails) ∨
      ((analyzeFiles p o channel files).outcome = .ok (modulesOf p o channel files) ∧
        (analyzeFiles p o channel files').outcome = .ok (modulesOf p o channel files') ∧
        (modulesOf p o channel files).Perm (modulesOf p o channel files') ∧
        (analyzeFiles p o channel files).diagnostics.Perm (analyzeFiles p o channel files').diagnostics) := by
  rcases Run.mapM_perm (analyzeFile p o channel) h with ⟨hfails, hfails'⟩ | ⟨hout, hout', hdiag⟩
  · exact .inl ⟨Run.fails_bind _ hfails, Run.fails_bind _ hfails'⟩
  · obtain ⟨hres, hnotes⟩ := analyzeFiles_of_ok hout
    obtain ⟨hres', hnotes'⟩ := analyzeFiles_of_ok hout'
    refine .inr ⟨hres, hres', (h.filterMap _).filterMap _, ?_⟩
    rw [hnotes, hnotes']
    exact hdiag

end Analysis

/-! What follows the analysis -/

section Finish

variable {package : Package} {o : SourceOptions} {s : GenerateSettings} {ms ms' : List Module}

def libraryOf (package : Package) (ms : List Module) : Library :=
  Library.assemble package (mergeLinks (Links.ofModules ms) ms)

def checkDuplicates (s : GenerateSettings) (l : Library) : Run Unit :=
  match s.duplicates with
  | some policy => policy.apply s.channel l.duplicates
  | none => pure ()

def finish (package : Package) (o : SourceOptions) (s : GenerateSettings) (noted : List Diagnostic)
    (ms : List Module) : Run GenerateResult := do
  let links ← Run.ofNoted (linkModules s.channel ms)
  let library := Library.assemble package (mergeLinks links ms)
  checkDuplicates s library
  Run.ofNoted (.writeAll (reportRecords s.channel o.projectRoot noted))
  .write .info s.channel
    ("library metadata generation complete: " ++ toString library.modules.length ++ " modules")
  pure { library, output := Output.of package library.modules s, links }

theorem generateFrom_eq (program : Program) (files : List SourceFile) :
    generateFrom program files package o s =
      analyzeFiles program o s.channel files >>=
        finish package o s (analyzeFiles program o s.channel files).diagnostics := by
  unfold generateFrom finish checkDuplicates
  cases s.duplicates with
  | none => simp only [pure_bind]; rfl
  | some policy => rfl

@[grind =] def resultOf (package : Package) (s : GenerateSettings) (ms : List Module) : GenerateResult where
  library := libraryOf package ms
  output := Output.of package (libraryOf package ms).modules s
  links := Links.ofModules ms

theorem diagnostics_checkDuplicates (l : Library) : (checkDuplicates s l).diagnostics = [] := by
  rw [checkDuplicates]
  split
  · case h_1 policy _ =>
    simp only [DuplicatePolicy.apply]
    split
    · rfl
    · cases policy <;> rfl
  · rfl

theorem finish_of_ok {noted : List Diagnostic}
    (h : (checkDuplicates s (libraryOf package ms)).outcome = .ok ()) :
    (finish package o s noted ms).outcome = .ok (resultOf package s ms) ∧
      (finish package o s noted ms).diagnostics = [] := by
  have hlink : (Run.ofNoted (linkModules s.channel ms)).outcome = .ok (Links.ofModules ms) := rfl
  constructor
  · rw [finish, Run.outcome_bind, hlink]
    change (checkDuplicates s (libraryOf package ms) >>= _).outcome = _
    rw [Run.outcome_bind, h]
    rfl
  · rw [finish, Run.diagnostics_bind_of_ok _ hlink]
    change [] ++ (checkDuplicates s (libraryOf package ms) >>= _).diagnostics = _
    rw [Run.diagnostics_bind_of_ok _ h, diagnostics_checkDuplicates]
    rfl

theorem finish_fails {noted : List Diagnostic} (h : (checkDuplicates s (libraryOf package ms)).Fails) :
    (finish package o s noted ms).Fails :=
  Run.fails_bind_of_ok (a := Links.ofModules ms) rfl (Run.fails_bind _ h)

theorem libraryOf_perm (h : ms.Perm ms') (hd : Link.DistinctPaths ms) :
    libraryOf package ms = libraryOf package ms' := by
  have hmerged := mergeLinks_perm (Links.ofModules_edges_perm h hd) h
  rw [libraryOf, libraryOf, Library.assemble, Library.assemble, sortModules_eq_of_perm hmerged]
  rw [mergeLinks_paths]
  exact hd

theorem finish_perm {noted noted' : List Diagnostic} (h : ms.Perm ms') (hd : Link.DistinctPaths ms) :
    ((finish package o s noted ms).Fails ∧ (finish package o s noted' ms').Fails) ∨
      ((finish package o s noted ms).outcome = .ok (resultOf package s ms) ∧
        (finish package o s noted' ms').outcome = .ok (resultOf package s ms') ∧
        (finish package o s noted ms).diagnostics = [] ∧
        (finish package o s noted' ms').diagnostics = []) := by
  have hl := @libraryOf_perm package ms ms' h hd
  by_cases hc : (checkDuplicates s (libraryOf package ms)).Fails
  · exact .inl ⟨finish_fails hc, finish_fails (hl ▸ hc)⟩
  · obtain ⟨u, hu⟩ := Run.not_fails_iff.mp hc
    obtain ⟨hout, hdiag⟩ := @finish_of_ok package o s ms noted hu
    obtain ⟨hout', hdiag'⟩ := @finish_of_ok package o s ms' noted' (hl ▸ hu)
    exact .inr ⟨hout, hout', hdiag, hdiag'⟩

end Finish

/-! A whole run -/

section Generate

variable {package : Package} {o : SourceOptions} {s : GenerateSettings} {files files' : List SourceFile}

def analysis (o : SourceOptions) (s : GenerateSettings) (files : List SourceFile) : Run (List Module) :=
  analyzeFiles (Program.ofFiles o.extensions files s.parser).value o s.channel files

theorem generateLibrary_eq : generateLibrary files package o s =
    Run.ofNoted (Program.ofFiles o.extensions files s.parser) >>= fun p =>
      analyzeFiles p o s.channel files >>=
        finish package o s (analyzeFiles p o s.channel files).diagnostics := by
  simp only [generateLibrary, generateFrom_eq]

theorem generateLibrary_fails_of_analysis (h : (analysis o s files).Fails) :
    (generateLibrary files package o s).Fails := by
  rw [generateLibrary_eq]
  exact Run.fails_bind_of_ok (Run.outcome_ofNoted _) (Run.fails_bind _ h)

theorem generateLibrary_fails_of_finish {ms : List Module} (hms : (analysis o s files).outcome = .ok ms)
    (h : (finish package o s (analysis o s files).diagnostics ms).Fails) :
    (generateLibrary files package o s).Fails := by
  rw [generateLibrary_eq]
  exact Run.fails_bind_of_ok (Run.outcome_ofNoted _) (Run.fails_bind_of_ok hms h)

theorem generateLibrary_of_ok {ms : List Module} {r : GenerateResult}
    (hms : (analysis o s files).outcome = .ok ms)
    (hr : (finish package o s (analysis o s files).diagnostics ms).outcome = .ok r) :
    (generateLibrary files package o s).outcome = .ok r ∧
      (generateLibrary files package o s).diagnostics =
        (analysis o s files).diagnostics ++
          (finish package o s (analysis o s files).diagnostics ms).diagnostics := by
  rw [generateLibrary_eq]
  constructor
  · exact Run.outcome_bind_eq_ok.mpr
      ⟨_, Run.outcome_ofNoted _, Run.outcome_bind_eq_ok.mpr ⟨ms, hms, hr⟩⟩
  · rw [Run.diagnostics_bind_of_ok _ (Run.outcome_ofNoted _), Run.diagnostics_ofNoted,
      Program.diagnostics_ofFiles, List.nil_append]
    exact Run.diagnostics_bind_of_ok _ hms

theorem analysis_perm (h : files.Perm files') (hids : (files.map SourceFile.id).Nodup)
    (hpaths : (files.map fun f => o.modulePath f.id).Nodup) :
    ((analysis o s files).Fails ∧ (analysis o s files').Fails) ∨
      ∃ ms ms', (analysis o s files).outcome = .ok ms ∧ (analysis o s files').outcome = .ok ms' ∧
        ms.Perm ms' ∧ Link.DistinctPaths ms ∧
        (analysis o s files).diagnostics.Perm (analysis o s files').diagnostics := by
  have hget := @Program.get?_ofFiles_perm o.extensions s.parser _ _ h hids
  have hprogram : analyzeFile (Program.ofFiles o.extensions files s.parser).value o s.channel =
      analyzeFile (Program.ofFiles o.extensions files' s.parser).value o s.channel := by
    funext f
    have hparser := Program.parser_ofFiles o.extensions files s.parser
    have hparser' := Program.parser_ofFiles o.extensions files' s.parser
    exact analyzeFile_congr (hparser.trans hparser'.symm) (by rw [hget])
      (funext fun id => by rw [Program.contains, Program.contains, hget])
  have hsame : analysis o s files' =
      analyzeFiles (Program.ofFiles o.extensions files s.parser).value o s.channel files' := by
    rw [analysis, analyzeFiles, analyzeFiles, hprogram]
  rw [hsame, analysis]
  rcases analyzeFiles_perm h with hfails | ⟨hms, hms', hperm, hdiag⟩
  · exact .inl hfails
  · exact .inr ⟨_, _, hms, hms', hperm, distinctPaths_modulesOf hpaths, hdiag⟩

theorem generateLibrary_perm (package : Package) (o : SourceOptions) (s : GenerateSettings)
    (h : files.Perm files') (hids : (files.map SourceFile.id).Nodup)
    (hpaths : (files.map fun f => o.modulePath f.id).Nodup) :
    (((generateLibrary files package o s).Fails ∧ (generateLibrary files' package o s).Fails) ∨
      ∃ r r', (generateLibrary files package o s).outcome = .ok r ∧
        (generateLibrary files' package o s).outcome = .ok r' ∧
        r.output = r'.output ∧ r.library.duplicates = r'.library.duplicates ∧
        r.links.alsoExportedFrom = r'.links.alsoExportedFrom ∧
        r.links.unresolved.Perm r'.links.unresolved ∧
        (generateLibrary files package o s).diagnostics.Perm
          (generateLibrary files' package o s).diagnostics) ∧
    (∀ (channel : Channel) (extra given : List SourceFile), (∀ f ∈ extra, o.contains f.id = .ok false) →
      given.Perm (files ++ extra) →
      ((SourceFile.collect o channel files).Fails ∧ (SourceFile.collect o channel given).Fails) ∨
        ∃ fs, (SourceFile.collect o channel files).outcome = .ok fs ∧
          (SourceFile.collect o channel given).outcome = .ok fs) ∧
    (files ≠ [] → (∀ f ∈ files, o.contains f.id = .ok true) → ∀ channel : Channel,
      ∃ fs, (SourceFile.collect o channel files).outcome = .ok fs ∧ fs.Perm files) := by
  refine ⟨?_, fun _ _ _ hextra hgiven => SourceFile.collect_perm hids hextra hgiven,
    fun hne hscope _ => SourceFile.collect_of_contains hne hscope⟩
  rcases analysis_perm h hids hpaths with ⟨hf, hf'⟩ | ⟨ms, ms', hms, hms', hperm, hd, hdiag⟩
  · exact .inl ⟨generateLibrary_fails_of_analysis hf, generateLibrary_fails_of_analysis hf'⟩
  rcases finish_perm hperm hd with ⟨hf, hf'⟩ | ⟨hr, hr', hnone, hnone'⟩
  · exact .inl ⟨generateLibrary_fails_of_finish hms hf, generateLibrary_fails_of_finish hms' hf'⟩
  · obtain ⟨hout, hnotes⟩ := generateLibrary_of_ok hms hr
    obtain ⟨hout', hnotes'⟩ := generateLibrary_of_ok hms' hr'
    have hl := @libraryOf_perm package ms ms' hperm hd
    have hedges := Links.ofModules_edges_perm hperm hd
    refine .inr ⟨_, _, hout, hout', ?_, ?_, Links.alsoExportedFrom_perm hedges,
      Links.ofModules_unresolved_perm hperm hd, ?_⟩
    · simp only [resultOf, hl]
    · simp only [resultOf, hl]
    · rw [hnotes, hnotes', hnone, hnone', List.append_nil, List.append_nil]
      exact hdiag

def linkedFiles : List SourceFile :=
  [{ id := "src/lib/index.ts", content := some "export * from './math';" },
    { id := "src/lib/math.ts", content := some "export const one = 1;" }]

theorem generateLibrary_perm_linkedFiles :
    linkedFiles.Perm linkedFiles.reverse ∧ (linkedFiles.map SourceFile.id).Nodup ∧
      (linkedFiles.map fun f => ({} : SourceOptions).modulePath f.id).Nodup ∧
      (generateLibrary linkedFiles ⟨"lib", "1", none, none, none⟩ {} {}).outcome.toOption.map
        GenerateResult.output =
        (generateLibrary linkedFiles.reverse ⟨"lib", "1", none, none, none⟩ {} {}).outcome.toOption.map
          GenerateResult.output := by
  have hperm : linkedFiles.Perm linkedFiles.reverse := (List.reverse_perm _).symm
  have hids : (linkedFiles.map SourceFile.id).Nodup := by decide
  have hpaths : (linkedFiles.map fun f => ({} : SourceOptions).modulePath f.id).Nodup := by decide
  refine ⟨hperm, hids, hpaths, ?_⟩
  obtain ⟨⟨⟨e, he⟩, ⟨e', he'⟩⟩ | ⟨r, r', hr, hr', ho, _⟩, _⟩ :=
    generateLibrary_perm ⟨"lib", "1", none, none, none⟩ {} {} hperm hids hpaths
  · rw [he, he']; rfl
  · rw [hr, hr']
    exact congrArg some ho

end Generate

end ApiCatalog
