import ApiCatalog.Analysis.Basic
import ApiCatalog.Proofs.Source.Collect

namespace ApiCatalog

/-! Faults of options -/

namespace SourceOptions

variable {o : SourceOptions} {path : String} {e : OptionsError}

theorem fault_of_modulePathsOf {ids : List String} (h : SourceFile.modulePathsOf o ids = .error e) :
    ids ≠ [] ∧ (o.Malformed e ∨ o.effectiveRoot = .error e) := by
  constructor
  · rintro rfl
    cases h
  · rw [SourceFile.modulePathsOf] at h
    rcases bind_eq_error.mp h with h | ⟨chosen, _, h⟩
    · obtain ⟨id, _, hid⟩ := exists_of_filterM_error h
      exact fault_of_contains hid
    · rcases bind_eq_error.mp h with h | ⟨_, _, h⟩
      · obtain ⟨id, _, hid⟩ := exists_of_mapM_error h
        exact .inr (effectiveRoot_of_modulePath_error hid)
      · cases h

theorem effectiveRoot_of_modulePath {p : String} (h : o.modulePath path = .ok p) :
    ∃ root, o.effectiveRoot = .ok root := by
  obtain ⟨offset, hoffset, _⟩ := bind_eq_ok.mp h
  exact effectiveRoot_of_rootOffset? hoffset

end SourceOptions

/-! Entries of a program -/

namespace Program

def Consistent (p : Program) : Prop :=
  ∀ g ∈ p.files, g.script = none ↔ g.kind = .component

variable {p : Program} {extensions : List String}

theorem Consistent.insert {g : IndexedFile} (hp : p.Consistent) (hg : g.script = none ↔ g.kind = .component) :
    (p.insert g).Consistent := by
  intro g' hg'
  rw [Program.insert] at hg'
  dsimp only at hg'
  split at hg'
  · obtain ⟨x, hx, rfl⟩ := List.mem_map.mp hg'
    split
    · exact hg
    · exact hp x hx
  · rcases List.mem_append.mp hg' with hg' | hg'
    · exact hp g' hg'
    · rw [List.mem_singleton.mp hg']
      exact hg

theorem Consistent.add (hp : p.Consistent) (f : SourceFile) : (add extensions p f).value.Consistent := by
  rw [Program.add, Noted.value_bind, Noted.value_pure]
  cases hg : (index extensions f p.parser).value with
  | none => exact hp
  | some g =>
    refine hp.insert ?_
    rw [index] at hg
    split at hg
    · cases hg
    · cases hg
    · case h_3 kind content _ _ =>
      cases hg
      cases kind with
      | code => exact ⟨nofun, nofun⟩
      | component => exact ⟨fun _ => rfl, fun _ => rfl⟩

theorem consistent_ofFiles (extensions : List String) (files : List SourceFile) (parser : Syntax.ScriptParser) :
    (ofFiles extensions files parser).value.Consistent := by
  suffices ∀ p : Program, p.Consistent → (files.foldlM (Program.add extensions) p).value.Consistent from
    this { parser } nofun
  induction files with
  | nil => exact fun _ hp => hp
  | cons f fs ih =>
    intro p hp
    rw [List.foldlM_cons, Noted.value_bind]
    exact ih _ (hp.add f)

theorem Consistent.get? (hp : p.Consistent) {id : String} {g : IndexedFile} (hg : p.get? id = some g) :
    (g.script = none ↔ g.kind = .component) ∧ g.id = id :=
  ⟨hp g (List.mem_of_find?_eq_some hg), by simpa using List.find?_some hg⟩

end Program

/-! Files that fail -/

section Components

variable {parser : Syntax.ScriptParser}

theorem Component.file_of_parse {s : Script} {file : String} {content : List Char} {e : FileError}
    (h : s.parse parser file content = .error e) : e.file = file := by
  unfold Script.parse at h
  dsimp only at h
  split at h
  · nomatch h
  · injection h with h
    rw [← h]

theorem Component.file_of_instanceTree {file : String} {content : List Char} {blocks : List Script} {e : FileError}
    (h : instanceTree parser file content blocks = .error e) : e.file = file := by
  rw [instanceTree] at h
  rcases bind_eq_error.mp h with h | ⟨_, _, h⟩
  · obtain ⟨s, _, hs⟩ := exists_of_mapM_error h
    rcases bind_eq_error.mp hs with hs | ⟨_, _, hs⟩
    · exact file_of_parse hs
    · cases hs
  · cases h

def Component.scriptTree (parser : Syntax.ScriptParser) (file content : String) :
    Except FileError (Option Syntax.Node) := do
  let blocks ← readScripts file content.toList
  checkExpressions file content.toList
  instanceTree parser file content.toList blocks

theorem Component.file_of_scriptTree {file content : String} {e : FileError}
    (h : scriptTree parser file content = .error e) : e.file = file := by
  rcases bind_eq_error.mp h with h | ⟨blocks, _, h⟩
  · rw [readScripts] at h
    cases hs : scripts content.toList with
    | ok ss => rw [hs] at h; cases h
    | error offset => rw [hs] at h; cases h; rfl
  · rcases bind_eq_error.mp h with h | ⟨_, _, h⟩
    · rw [checkExpressions] at h
      split at h <;> cases h
      rfl
    · exact file_of_instanceTree h

theorem Component.analyze_eq_error {file modulePath content : String} {b : Bool} {e : Failure}
    (h : (analyze parser file modulePath content b).outcome = .error e) :
    (∃ fe : FileError, e = .file fe ∧ fe.file = file) ∧
      (analyze parser file modulePath content b).diagnostics = [] := by
  rw [analyze] at h
  rcases Run.outcome_bind_eq_error.mp h with htree | ⟨tree, _, h⟩
  · constructor
    · replace htree : (scriptTree parser file content).mapError Failure.file = .error e := htree
      cases hfaults : scriptTree parser file content with
      | ok tree => rw [hfaults] at htree; cases htree
      | error fe =>
        rw [hfaults] at htree
        cases htree
        exact ⟨fe, rfl, file_of_scriptTree hfaults⟩
    · rw [analyze, Run.diagnostics_bind_of_error _ htree]
      rfl
  · -- Past the faults nothing fails.
    cases tree <;> cases h

end Components

theorem extract_eq_error {p : Program} {o : SourceOptions} {g : IndexedFile} {path : String} {e : Failure}
    (h : (extract p o g path).outcome = .error e) :
    g.script = none ∧ (∃ fe : FileError, e = .file fe ∧ fe.file = g.id) ∧ (extract p o g path).diagnostics = [] := by
  rw [extract] at h ⊢
  cases hscript : g.script with
  | some root =>
    rw [hscript] at h
    cases h
  | none =>
    rw [hscript] at h
    exact ⟨rfl, Component.analyze_eq_error h⟩

section Files

variable {p : Program} {o : SourceOptions} {channel : Channel} {f : SourceFile} {e : Failure}

/-- The options are at fault for a failure of the analysis of a file. A source root that is left open is found out
before anything is noted, a malformed pattern only when the dependencies of the file are looked at. -/
def OptionsFault (p : Program) (o : SourceOptions) (channel : Channel) (f : SourceFile) (e : Failure) : Prop :=
  ∃ oe, e = .options oe ∧
    ((o.effectiveRoot = .error oe ∧ (analyzeFile p o channel f).diagnostics = []) ∨
      (o.Malformed oe ∧ (f.dependencies ≠ [] ∨ f.dependents ≠ [])))

theorem ofOptions_eq_error {α : Type} {x : Except OptionsError α} (h : (Run.ofOptions x).outcome = .error e) :
    ∃ oe, x = .error oe ∧ e = .options oe := by
  cases x with
  | ok a => cases h
  | error oe =>
    cases h
    exact ⟨oe, rfl, rfl⟩

theorem analyzeFile_eq_error (h : (analyzeFile p o channel f).outcome = .error e) :
    ∃ g, p.get? f.id = some g ∧
      (OptionsFault p o channel f e ∨
        ((∃ fe : FileError, e = .file fe ∧ fe.file = g.id) ∧ g.script = none ∧
          (analyzeFile p o channel f).diagnostics = [])) := by
  cases hg : p.get? f.id with
  | none =>
    rw [analyzeFile, hg] at h
    cases h
  | some g =>
    have hrun := analyzeFile.eq_def p o channel f
    rw [hg] at hrun
    rw [hrun] at h
    refine ⟨g, rfl, ?_⟩
    rcases Run.outcome_bind_eq_error.mp h with hpath | ⟨path, hpath, h⟩
    · obtain ⟨oe, hoe, rfl⟩ := ofOptions_eq_error hpath
      refine .inl ⟨oe, rfl, .inl ⟨SourceOptions.effectiveRoot_of_modulePath_error hoe, ?_⟩⟩
      rw [hrun, Run.diagnostics_bind_of_error _ hpath, hoe]
      rfl
    have hroot : ∃ root, o.effectiveRoot = .ok root := by
      cases hx : o.modulePath f.id with
      | error oe =>
        rw [hx] at hpath
        cases hpath
      | ok path => exact SourceOptions.effectiveRoot_of_modulePath hx
    have hlist (ids : List String) (hids : (Run.ofOptions (SourceFile.modulePathsOf o ids)).outcome = .error e) :
        ∃ oe, e = .options oe ∧ o.Malformed oe ∧ ids ≠ [] := by
      obtain ⟨oe, hoe, rfl⟩ := ofOptions_eq_error hids
      obtain ⟨hne, hbad | hopen⟩ := SourceOptions.fault_of_modulePathsOf hoe
      · exact ⟨oe, rfl, hbad, hne⟩
      · obtain ⟨root, hroot⟩ := hroot
        cases hroot.symm.trans hopen
    rcases Run.outcome_bind_eq_error.mp h with hextract | ⟨x, _, h⟩
    · obtain ⟨hscript, hfile, hdiag⟩ := extract_eq_error hextract
      refine .inr ⟨hfile, hscript, ?_⟩
      have hnotes : (Run.ofOptions (o.modulePath f.id)).diagnostics = [] := by cases o.modulePath f.id <;> rfl
      rw [hrun, Run.diagnostics_bind_of_ok _ hpath, Run.diagnostics_bind_of_error _ hextract, hnotes, hdiag]
      rfl
    rcases Run.outcome_bind_eq_error.mp h with hdep | ⟨_, _, h⟩
    · obtain ⟨oe, rfl, hbad, hne⟩ := hlist _ hdep
      exact .inl ⟨oe, rfl, .inr ⟨hbad, .inl hne⟩⟩
    rcases Run.outcome_bind_eq_error.mp h with hdep | ⟨_, _, h⟩
    · obtain ⟨oe, rfl, hbad, hne⟩ := hlist _ hdep
      exact .inl ⟨oe, rfl, .inr ⟨hbad, .inr hne⟩⟩
    · cases h

theorem analyzeFile_eq_none_iff {r : Option Module} (h : (analyzeFile p o channel f).outcome = .ok r) :
    r = none ↔ p.get? f.id = none := by
  rw [analyzeFile] at h
  cases hg : p.get? f.id with
  | none =>
    rw [hg] at h
    cases h
    exact ⟨fun _ => rfl, fun _ => rfl⟩
  | some g =>
    rw [hg] at h
    obtain ⟨_, _, h⟩ := Run.outcome_bind_eq_ok.mp h
    obtain ⟨_, _, h⟩ := Run.outcome_bind_eq_ok.mp h
    obtain ⟨_, _, h⟩ := Run.outcome_bind_eq_ok.mp h
    obtain ⟨_, _, h⟩ := Run.outcome_bind_eq_ok.mp h
    cases h
    exact ⟨nofun, nofun⟩

/-- The analysis of files after whatever was noted before. If no file fails on its own, it gives the modules of the
files in order, without those that the program does not hold, and adds the notes of all files in order. If it fails, it
fails as the first file that fails on its own. The notes of the files before that one are added and none of its own:
it is a component with a fault. Only where the options are at fault may it be any file, and only with a malformed pattern
may it have left notes. -/
theorem analyzeFiles_exact (extensions : List String) (indexed : List SourceFile) (parser : Syntax.ScriptParser)
    (o : SourceOptions) (channel : Channel) (files : List SourceFile) (before : Noted Unit) :
    let p := (Program.ofFiles extensions indexed parser).value
    let batch := Run.ofNoted before >>= fun _ => analyzeFiles p o channel files
    ((∀ f ∈ files, ¬ (analyzeFile p o channel f).Fails) →
      ∃ rs : List (Option Module),
        List.Forall₂ (fun f r => (analyzeFile p o channel f).outcome = .ok r ∧ (r = none ↔ p.get? f.id = none)) files rs ∧
        batch.outcome = .ok (rs.filterMap id) ∧
        batch.diagnostics =
          before.diagnostics ++ files.flatMap fun f => (analyzeFile p o channel f).diagnostics) ∧
    ∀ e, batch.outcome = .error e →
      ∃ earlier f later, files = earlier ++ f :: later ∧
        (∀ f' ∈ earlier, ¬ (analyzeFile p o channel f').Fails) ∧ (analyzeFile p o channel f).outcome = .error e ∧
        batch.diagnostics =
          before.diagnostics ++ (earlier.flatMap fun f' => (analyzeFile p o channel f').diagnostics) ++
            (analyzeFile p o channel f).diagnostics ∧
        (OptionsFault p o channel f e ∨
          ((∃ fe : FileError, e = .file fe ∧ fe.file = f.id) ∧ (∃ g, p.get? f.id = some g ∧ g.kind = .component) ∧
            (analyzeFile p o channel f).diagnostics = [])) := by
  intro p batch
  have hbefore : (Run.ofNoted before).outcome = .ok () := Run.outcome_ofNoted before
  have hnotes : batch.diagnostics = before.diagnostics ++ (analyzeFiles p o channel files).diagnostics := by
    rw [Run.diagnostics_bind_of_ok _ hbefore, Run.diagnostics_ofNoted]
  have houtcome : batch.outcome = (analyzeFiles p o channel files).outcome := by
    rw [Run.outcome_bind, hbefore]
    rfl
  rw [hnotes, houtcome]
  constructor
  · intro hall
    obtain ⟨hrs, hdiag⟩ := Run.mapM_of_ok hall
    refine ⟨_, (Run.forall₂_of_mapM hrs).imp fun f r hr => ⟨hr, analyzeFile_eq_none_iff hr⟩, ?_, ?_⟩
    · rw [analyzeFiles, Run.outcome_bind, hrs]
      rfl
    · rw [analyzeFiles, Run.diagnostics_bind_of_ok _ hrs, hdiag, Run.diagnostics_pure, List.append_nil]
  · intro e he
    have hmap : (files.mapM (analyzeFile p o channel)).outcome = .error e := by
      rcases Run.outcome_bind_eq_error.mp he with hmap | ⟨_, _, hpure⟩
      · exact hmap
      · cases hpure
    obtain ⟨earlier, f, later, hfiles, hearlier, hf, hdiag⟩ := Run.mapM_of_error hmap
    refine ⟨earlier, f, later, hfiles, hearlier, hf, ?_, ?_⟩
    · rw [analyzeFiles, Run.diagnostics_bind_of_error _ hmap, hdiag, List.append_assoc]
    · obtain ⟨g, hg, hfault | ⟨⟨fe, rfl, hfe⟩, hscript, hnone⟩⟩ := analyzeFile_eq_error hf
      · exact .inl hfault
      · obtain ⟨hkind, hid⟩ := (Program.consistent_ofFiles extensions indexed parser).get? hg
        exact .inr ⟨⟨fe, rfl, hfe.trans hid⟩, ⟨g, hg, hkind.mp hscript⟩, hnone⟩

def brokenFiles : List SourceFile :=
  [{ id := "src/lib/a.ts", content := some "export const a = f();" },
    { id := "src/lib/b.svelte", content := some "\x7boops" }]

def brokenProgram : Program :=
  (Program.ofFiles [".ts", ".svelte"] brokenFiles).value

def brokenBatch : Run (List Module) :=
  Run.ofNoted (pure ()) >>= fun _ => analyzeFiles brokenProgram {} .analysis brokenFiles

theorem analyzeFiles_exact_brokenFiles :
    ∃ e, brokenBatch.outcome = .error e ∧
      ∃ earlier f later, brokenFiles = earlier ++ f :: later ∧ f.id = "src/lib/b.svelte" ∧
        (∃ g, brokenProgram.get? f.id = some g ∧ g.kind = .component) ∧
        brokenBatch.diagnostics =
          earlier.flatMap fun f' => (analyzeFile brokenProgram {} .analysis f').diagnostics := by
  have hfails : brokenBatch.failure? =
      some (.file ⟨"src/lib/b.svelte", .unclosedExpression, some 1, some 1⟩) := by decide +kernel
  have he := Run.outcome_of_failure? hfails
  have hexact := (analyzeFiles_exact [".ts", ".svelte"] brokenFiles Syntax.parseScript {} .analysis brokenFiles (pure ())).2 _ he
  obtain ⟨earlier, f, later, hfiles, _, _, hdiag, ⟨_, hoptions, _⟩ | ⟨⟨fe, hfe, hid⟩, hkind, hnone⟩⟩ := hexact
  · cases hoptions
  · injection hfe with hfe
    subst hfe
    refine ⟨_, he, earlier, f, later, hfiles, hid.symm, hkind, ?_⟩
    rw [hnone, List.append_nil, Noted.diagnostics_pure, List.nil_append] at hdiag
    exact hdiag

theorem code_fails_by_options :
    let unrooted : SourceOptions := { sourcePaths := ["src/a", "src/b"] }
    let f : SourceFile := { id := "src/a/m.ts", content := some "export const a = 1;" }
    let p := (Program.ofFiles unrooted.extensions [f]).value
    let unreadable : SourceOptions := { excludePatterns := ["("] }
    let f' : SourceFile :=
      { id := "src/lib/m.ts", content := some "export const a = f();", dependencies := ["src/lib/n.ts"] }
    let p' := (Program.ofFiles unreadable.extensions [f']).value
    ((p.get? f.id).map IndexedFile.kind = some .code ∧
        (analyzeFiles p unrooted .analysis [f]).failure? = some (.options (.rootRequired ["src/a", "src/b"]))) ∧
      unreadable.validate = .ok () ∧ (p'.get? f'.id).map IndexedFile.kind = some .code ∧
      (analyzeFiles p' unreadable .analysis [f']).failure? = some (.options (.malformedPattern "(")) ∧
      (analyzeFiles p' unreadable .analysis [f']).diagnostics.map Diagnostic.symbol = [some "a"] := by
  refine ⟨⟨?_, ?_⟩, rfl, ?_, ?_, ?_⟩ <;> decide +kernel

end Files

end ApiCatalog
