import ApiCatalog.Proofs.Library.Modules
import ApiCatalog.Proofs.Link.Merge

namespace ApiCatalog

/-! What `default` stands for in a module -/

namespace Link

variable {ms : List Module} {m : Module}

theorem origin?_of_final {p n : String} {o : Origin} (h : final? ms (p, n) = some o) :
    origin? ms p n = some o := by
  rw [origin?, searchBound, search_of_final (q := (p, n)) _ [] h]

theorem origin?_of_stuck {p n : String} (hf : final? ms (p, n) = none) (hn : next ms (p, n) = []) :
    origin? ms p n = none := by
  cases ho : origin? ms p n with
  | none => rfl
  | some o =>
    obtain ⟨q, hq, hfinal⟩ := exists_reaches_of_origin? ho
    rcases Relation.ReflTransGen.cases_head hq with rfl | ⟨r, ⟨_, hr⟩, _⟩
    · rw [hf] at hfinal
      cases hfinal
    · rw [hn] at hr
      cases hr

theorem origin?_of_declares (hd : DistinctPaths ms) (hm : m ∈ ms) {n : String} (h : m.declares n) :
    origin? ms m.path n = some ⟨m.path, n⟩ :=
  origin?_of_final ((final?_eq_some_iff hd).mpr (.declared hm h))

theorem origin?_of_component (hd : DistinctPaths ms) (hm : m ∈ ms) {d : Declaration}
    (hone : m.declarations = [d]) (hkind : d.kind = .component) :
    origin? ms m.path "default" = some ⟨m.path, d.name⟩ := by
  by_cases hname : d.name = "default"
  · rw [hname]
    exact origin?_of_declares hd hm (by simp [Module.declares, hone, hname])
  · refine origin?_of_final ((final?_eq_some_iff hd).mpr (.component hm ?_ ?_))
    · simp [Module.declares, hone, hname]
    · simp [Module.components, hone, hkind]

theorem origin?_default_eq_none (hd : DistinctPaths ms) (hm : m ∈ ms) (hown : "default" ∉ m.ownNames)
    (hcode : ∀ d ∈ m.declarations, d.kind ≠ .component) : origin? ms m.path "default" = none := by
  have hat : moduleAt? ms m.path = some m := (moduleAt?_eq_some_iff hd).mpr ⟨hm, rfl⟩
  simp only [Module.ownNames, List.mem_append, List.mem_map, not_or, not_exists, not_and] at hown
  obtain ⟨hdecl, hre⟩ := hown
  apply origin?_of_stuck
  · have hnone : m.components = [] := by
      simpa [Module.components] using hcode
    have hdeclares : m.declares "default" = false := by
      simpa [Module.declares] using hdecl
    simp [final?, hat, declared?, hdeclares, componentAt?_path hd hm, hnone]
  · have hexplicit : m.reExport? "default" = none := reExport?_eq_none_iff.mpr hre
    simp [next, hat, hexplicit]

/-! Star exports -/

theorem exists_explicit_of_reaches {a : String × String} {q : String} (hn : a.2 ≠ "default")
    (h : Reaches ms a (q, "default")) :
    ∃ y m, StarLeads ms a.1 y ∧ moduleAt? ms y = some m ∧
      ∃ e ∈ m.reExports, Reaches ms (e.sourceModule, e.localName) (q, "default") := by
  -- Star exports keep the name, so the first step that changes it is the explicit one.
  induction h using Relation.ReflTransGen.head_induction_on with
  | refl => exact absurd rfl hn
  | @head a c hstep hrest ih =>
    obtain ⟨_, hc⟩ := hstep
    cases hat : moduleAt? ms a.1 with
    | none =>
      rw [next_of_unknown hat] at hc
      cases hc
    | some m =>
      simp only [next, hat] at hc
      split at hc
      · case h_1 e he =>
        rw [List.mem_singleton.mp hc] at hrest
        exact ⟨a.1, m, .refl, hat, e, List.mem_of_find?_eq_some he, hrest⟩
      · rw [if_neg hn] at hc
        obtain ⟨t, ht, rfl⟩ := List.mem_map.mp hc
        obtain ⟨y, m', hstar, hat', hexplicit⟩ := ih hn
        exact ⟨y, m', .head ⟨m, hat, ht⟩ hstar, hat', hexplicit⟩

theorem final_default {r : String × String} {q : String} (hd : DistinctPaths ms)
    (h : final? ms r = some ⟨q, "default"⟩) : r = (q, "default") := by
  cases (final?_eq_some_iff hd).mp h <;> rfl

theorem exists_explicit_of_exporter (hd : DistinctPaths ms) {x q : String}
    (h : x ∈ (Links.ofModules ms).exportersOf "default" q) :
    ∃ m ∈ ms, StarLeads ms x m.path ∧
      ∃ e ∈ m.reExports, Leads ms (e.sourceModule, e.localName) (q, "default") := by
  obtain ⟨_, m, hm, rfl, hpass⟩ := mem_exportersOf_ofModules.mp h
  rcases hpass with ⟨e, he, ho⟩ | ⟨t, ht, n, hn, _, ho⟩
  · obtain ⟨r, hr, hfinal⟩ := exists_reaches_of_origin? ho
    rw [final_default hd hfinal] at hr
    exact ⟨m, hm, .refl, e, he, (reaches_iff_leads hd).mp hr⟩
  · obtain ⟨r, hr, hfinal⟩ := exists_reaches_of_origin? ho
    rw [final_default hd hfinal] at hr
    obtain ⟨y, m', hstar, hat, e, he, hlead⟩ := exists_explicit_of_reaches hn hr
    obtain ⟨hm', rfl⟩ := (moduleAt?_eq_some_iff hd).mp hat
    exact ⟨m', hm', .head ⟨m, (moduleAt?_eq_some_iff hd).mpr ⟨hm, rfl⟩, ht⟩ hstar, e, he,
      (reaches_iff_leads hd).mp hlead⟩

theorem mem_exportersOf_of_star (hd : DistinctPaths ms) (hm : m ∈ ms) {k : String} (hk : k ≠ "default")
    (hdecl : m.declares k) {m' : Module} (hm' : m' ∈ ms) (hne : m'.path ≠ m.path)
    (hstar : m.path ∈ m'.starExports) (hown : k ∉ m'.ownNames) :
    m'.path ∈ (Links.ofModules ms).exportersOf k m.path :=
  mem_exportersOf_ofModules.mpr
    ⟨hne, m', hm', rfl, .inr ⟨m.path, hstar, k, hk, hown, origin?_of_declares hd hm hdecl⟩⟩

end Link

/-! What files offer -/

section Modules

variable {o : SourceOptions} {s : GenerateSettings} {files : List SourceFile} {f : SourceFile}
  {ms : List Module} {path content : String}

def offeredBy (o : SourceOptions) (s : GenerateSettings) (files : List SourceFile) (f : SourceFile) : List Code.Entry :=
  match fileKind? o.extensions f.id, f.content, o.modulePath f.id with
  | some .code, some content, .ok path =>
    (Code.offers (Code.surroundingsOf f.id path ((programOf o s files).targetPath? o f.id)
      (s.parser content)) (s.parser content)).map Code.Offer.entry
  | _, _, _ => []

def firstOffered? (o : SourceOptions) (s : GenerateSettings) (files : List SourceFile) (f : SourceFile) (n : String) :
    Option Code.Entry :=
  (offeredBy o s files f).find? fun e => e.name? == some n

theorem exists_firstOffered {e : Code.Entry} {n : String} (he : e ∈ offeredBy o s files f)
    (hn : e.name? = some n) :
    ∃ e', firstOffered? o s files f n = some e' ∧ e'.name? = some n := by
  have hsome : ((offeredBy o s files f).find? fun e => e.name? == some n).isSome :=
    List.find?_isSome.mpr ⟨e, he, beq_iff_eq.mpr hn⟩
  obtain ⟨e', he'⟩ := Option.isSome_iff_exists.mp hsome
  exact ⟨e', he', by simpa using List.find?_some he'⟩

theorem exists_codeModule (hids : (files.map SourceFile.id).Nodup)
    (hms : (analysis o s files).outcome = .ok ms) (hf : f ∈ files)
    (hkind : fileKind? o.extensions f.id = some .code) (hcontent : f.content = some content)
    (hpath : o.modulePath f.id = .ok path) :
    ∃ m ∈ ms, m.path = path ∧ (∀ d ∈ m.declarations, d.kind ≠ .component) ∧
      (∀ n e, firstOffered? o s files f n = some e → m.extracted.Holds e) ∧
      ∀ e, m.extracted.Holds e → e ∈ offeredBy o s files f := by
  obtain ⟨m, hm, hmpath, hx⟩ := exists_module hids hms hf (index_code hkind hcontent) hpath
  rw [extract, Run.outcome_ofNoted, Except.ok.injEq] at hx
  simp only [firstOffered?, offeredBy, hkind, hcontent, hpath, List.mem_map, List.find?_map]
  refine ⟨m, hm, hmpath, ?_, ?_, ?_⟩
  · intro d hd
    change d ∈ m.extracted.declarations at hd
    rw [← hx] at hd
    exact Code.not_component_of_extracted hd
  · intro n e he
    obtain ⟨offer, hoffer, rfl⟩ := Option.map_eq_some_iff.mp he
    rw [← hx]
    exact Code.extracted_of_first hoffer
  · intro e he
    rw [← hx] at he
    exact Code.exists_offer he

theorem exists_componentModule (hids : (files.map SourceFile.id).Nodup)
    (hms : (analysis o s files).outcome = .ok ms) (hf : f ∈ files)
    (hkind : fileKind? o.extensions f.id = some .component) (hcontent : f.content = some content)
    (hpath : o.modulePath f.id = .ok path) :
    ∃ m ∈ ms, m.path = path ∧
      ∃ d, m.declarations = [d] ∧ d.name = componentName path ∧ d.kind = .component := by
  obtain ⟨m, hm, hmpath, hx⟩ := exists_module hids hms hf (index_component hkind hcontent) hpath
  obtain ⟨d, _, hx, hname, hcomponent⟩ := analyze_eq_ok hx
  exact ⟨m, hm, hmpath, d, congrArg Code.Extracted.declarations hx, hname, hcomponent⟩

end Modules

/-! Defaults in a run -/

section Defaults

variable {package : Package} {o : SourceOptions} {s : GenerateSettings} {files : List SourceFile}
  {a b : SourceFile} {ms : List Module} {path k n : String}

inductive HasDefault (o : SourceOptions) (s : GenerateSettings) (f : SourceFile) : String → Prop
  | component {path content : String} (hkind : fileKind? o.extensions f.id = some .component)
      (hcontent : f.content = some content) (hpath : o.modulePath f.id = .ok path) :
      HasDefault o s f (componentName path)
  | code {content k : String} (hkind : fileKind? o.extensions f.id = some .code)
      (hcontent : f.content = some content)
      (hdefault : Code.DefaultExport f.id (s.parser content) k) : HasDefault o s f k

/-- What a file offers first as `default` is a default export of its own that is recorded so. -/
def DefaultFirst (o : SourceOptions) (s : GenerateSettings) (files : List SourceFile) (f : SourceFile) (k : String) : Prop :=
  ∀ e ∈ firstOffered? o s files f "default", k = "default" ∧ ∃ d, e = .declaration d

instance (e : Code.Entry) : Decidable (∃ d, e = .declaration d) :=
  match e with
  | .declaration d => isTrue ⟨d, rfl⟩
  | .reExport _ => isFalse nofun
  | .star _ => isFalse nofun

instance (o : SourceOptions) (s : GenerateSettings) (files : List SourceFile) (f : SourceFile) (k : String) :
    Decidable (DefaultFirst o s files f k) :=
  inferInstanceAs (Decidable (∀ e ∈ firstOffered? o s files f "default", _))

instance (e : Code.Entry) (r : ReExport) : Decidable (e = .reExport r) :=
  match e with
  | .reExport r' => decidable_of_iff (r' = r) ⟨fun h => h ▸ rfl, fun h => by cases h; rfl⟩
  | .declaration _ => isFalse nofun
  | .star _ => isFalse nofun

inductive PassesDefault (o : SourceOptions) (s : GenerateSettings) (files : List SourceFile) (a b : SourceFile) (n : String) :
    Prop
  | code {content specifier : String} (hkind : fileKind? o.extensions a.id = some .code)
      (hcontent : a.content = some content)
      (hpass : Code.PassesDefault (s.parser content) specifier n)
      (hresolve : (programOf o s files).resolve? specifier a.id = some b.id)

def KnownAsDefault (o : SourceOptions) (f : SourceFile) (k : String) : Prop :=
  k = "default" ∨ fileKind? o.extensions f.id = some .component

theorem exists_declaring (hids : (files.map SourceFile.id).Nodup)
    (hms : (analysis o s files).outcome = .ok ms) (hd : Link.DistinctPaths ms) (hb : b ∈ files)
    (hpath : o.modulePath b.id = .ok path) (hdefault : HasDefault o s b k) (hfirst : DefaultFirst o s files b k) :
    ∃ m ∈ ms, m.path = path ∧
      (KnownAsDefault o b k → m.declares k ∧ Link.origin? ms path "default" = some ⟨path, k⟩) ∧
      (¬ KnownAsDefault o b k → Link.origin? ms path "default" = none) := by
  cases hdefault with
  | component hkind hcontent hpath' =>
    cases hpath.symm.trans hpath'
    obtain ⟨m, hm, rfl, d, hone, hname, hcomponent⟩ := exists_componentModule hids hms hb hkind hcontent hpath
    have hdeclares : m.declares (componentName m.path) := by simp [Module.declares, hone, hname]
    have horigin := Link.origin?_of_component hd hm hone hcomponent
    rw [hname] at horigin
    exact ⟨m, hm, rfl, fun _ => ⟨hdeclares, horigin⟩, fun h => absurd (.inr hkind) h⟩
  | code hkind hcontent hcode =>
    obtain ⟨m, hm, rfl, hplain, hkept, hheld⟩ := exists_codeModule hids hms hb hkind hcontent hpath
    refine ⟨m, hm, rfl, ?_, ?_⟩
    · rintro (rfl | hcomponent)
      · obtain ⟨offer, hoffer, d, hentry, hnamed, _⟩ :=
          @Code.DefaultExport.offered _ m.path ((programOf o s files).targetPath? o b.id) _ _ hcode
        have hmem : .declaration d ∈ offeredBy o s files b := by
          simp only [offeredBy, hkind, hcontent, hpath]
          exact List.mem_map.mpr ⟨offer, hoffer, hentry⟩
        obtain ⟨e, he, hname⟩ := exists_firstOffered hmem (congrArg some hnamed)
        obtain ⟨_, d', rfl⟩ := hfirst e he
        have hdeclares : m.declares "default" :=
          List.any_eq_true.mpr ⟨d', hkept _ _ he, beq_iff_eq.mpr (Option.some.inj hname)⟩
        exact ⟨hdeclares, Link.origin?_of_declares hd hm hdeclares⟩
      · rw [hkind] at hcomponent
        cases hcomponent
    · intro hknown
      have habsent (e : Code.Entry) (he : m.extracted.Holds e) : e.name? ≠ some "default" := by
        intro hname
        obtain ⟨e', he', _⟩ := exists_firstOffered (hheld e he) hname
        exact hknown (.inl (hfirst e' he').1)
      refine Link.origin?_default_eq_none hd hm ?_ hplain
      intro hown
      rcases List.mem_append.mp hown with hown | hown
      · obtain ⟨d, hmem, hname⟩ := List.mem_map.mp hown
        exact habsent (.declaration d) hmem (congrArg some hname)
      · obtain ⟨e, hmem, hname⟩ := List.mem_map.mp hown
        exact habsent (.reExport e) hmem (congrArg some hname)

theorem exists_passing (hids : (files.map SourceFile.id).Nodup) (hms : (analysis o s files).outcome = .ok ms)
    (ha : a ∈ files) {x : String} (hx : o.modulePath a.id = .ok x) (hpath : o.modulePath b.id = .ok path)
    (hpass : PassesDefault o s files a b n)
    (hfirst : ∀ e ∈ firstOffered? o s files a n, e = .reExport ⟨"default", path, n⟩) :
    ∃ m ∈ ms, m.path = x ∧ ⟨"default", path, n⟩ ∈ m.reExports := by
  obtain @⟨content, specifier, hkind, hcontent, hcode, hresolve⟩ := hpass
  obtain ⟨m, hm, hmx, _, hkept, _⟩ := exists_codeModule hids hms ha hkind hcontent hx
  have htarget : (programOf o s files).targetPath? o a.id specifier = some path := by
    rw [Program.targetPath?, hresolve, Option.map_some, hpath]
    rfl
  obtain ⟨offer, hoffer, hentry⟩ := @Code.PassesDefault.offered a.id x _ _ _ _ _ hcode htarget
  have hmem : .reExport ⟨"default", path, n⟩ ∈ offeredBy o s files a := by
    simp only [offeredBy, hkind, hcontent, hx]
    exact List.mem_map.mpr ⟨offer, hoffer, hentry⟩
  obtain ⟨e, he, _⟩ := exists_firstOffered hmem rfl
  have hheld := hkept n e he
  rw [hfirst e he] at hheld
  exact ⟨m, hm, hmx, hheld⟩

theorem exists_linked {m : Module} (hm : m ∈ ms) (hk : m.declares k) :
    ∃ m' ∈ (libraryOf package ms).modules, m'.path = m.path ∧ ∃ d ∈ m'.declarations, d.name = k ∧
      ∀ x ∈ (Links.ofModules ms).exportersOf k m.path, x ∈ d.alsoExportedFrom := by
  obtain ⟨m', hm', hpath, d, hd, hname, hexporters⟩ := exists_merged (Links.ofModules ms) hm hk
  refine ⟨m', ?_, hpath, d, hd, hname, ?_⟩
  · rw [libraryOf, Library.assemble, sortModules, List.mem_mergeSort]
    exact hm'
  · intro x hx
    rw [hexporters (List.ne_nil_of_mem hx)]
    exact hx

theorem mem_unresolved_default_iff {m : Module} {e : ReExport} (hm : m ∈ ms) (he : e ∈ m.reExports)
    (hlocal : e.localName = "default") :
    ⟨m.path, e.sourceModule, "default"⟩ ∈ (Links.ofModules ms).unresolved ↔
      Link.origin? ms e.sourceModule "default" = none := by
  rw [Link.mem_unresolved_ofModules]
  constructor
  · rintro ⟨m', _, ⟨e', _, hnone, heq⟩ | ⟨t, _, _, heq⟩⟩
    · injection heq with _ hsource hname
      rw [hsource, hname]
      exact hnone
    · injection heq with _ _ hname
      exact absurd hname (by decide)
  · intro hnone
    exact ⟨m, hm, .inl ⟨e, he, hlocal ▸ hnone, by rw [hlocal]⟩⟩

/-! Files at work -/

def takerFile : SourceFile :=
  { id := "src/lib/a.ts", content := some "export { default as n } from './b';" }

def givingFile (content : String) : SourceFile :=
  { id := "src/lib/b.ts", content := some content }

def takersOf (content : String) : List SourceFile :=
  [takerFile, givingFile content, { id := "src/lib/c.ts", content := some "export * from './b';" }]

def smallPackage : Package := { name := "lib", version := "1" }

theorem parser_default : GenerateSettings.parser {} = Syntax.parseScript := rfl

theorem passesDefault_clause :
    Code.PassesDefault (Syntax.parseScript "export { default as n } from './b';") "./b" "n" := by
  obtain ⟨st, hst, hkind, hd, hsource, hclause⟩ :
      ∃ st ∈ Code.statements (Syntax.parseScript "export { default as n } from './b';"),
        st.node.kind = .exportStatement ∧ st.node.child? .declaration = none ∧
        ((st.node.child? .source).any fun source => Code.unquote source.text == "./b") ∧
        (st.node.childOfKind? .exportClause).any fun clause =>
          (Code.Surroundings.specifiers clause).contains ("default", "n") := by
    decide +kernel
  obtain ⟨source, hsome, hname⟩ := (Option.any_eq_true ..).mp hsource
  obtain ⟨clause, hfound, hn⟩ := (Option.any_eq_true ..).mp hclause
  exact beq_iff_eq.mp hname ▸ .clause hst hkind hd hsome hfound (List.contains_iff_mem.mp hn)

theorem passesDefault_takerFile {content : String}
    (hresolve : (programOf {} {} (takersOf content)).resolve? "./b" takerFile.id = some (givingFile content).id) :
    PassesDefault {} {} (takersOf content) takerFile (givingFile content) "n" := by
  refine .code (by decide) rfl ?_ hresolve
  rw [parser_default]
  exact passesDefault_clause

theorem hasDefault_value : HasDefault {} {} (givingFile "export default 5;") "default" := by
  obtain ⟨st, hst, hkind, hdefault, hd, hsource, hvalue, hshown⟩ :
      ∃ st ∈ Code.statements (Syntax.parseScript "export default 5;"),
        st.node.kind = .exportStatement ∧ st.node.hasToken "default" ∧ st.node.child? .declaration = none ∧
        st.node.child? .source = none ∧
        ((st.node.child? .value).any fun v => (Code.unwrap v).kind != .identifier) ∧ st.before = none := by
    decide +kernel
  obtain ⟨v, hv, hplain⟩ := (Option.any_eq_true ..).mp hvalue
  have hunhidden :
      ¬ (Code.Reader.ofRoot "src/lib/b.ts" (Syntax.parseScript "export default 5;")).Hides st.before := by
    rw [hshown]
    nofun
  refine .code (by decide) rfl ?_
  rw [parser_default]
  exact .value hst hkind hdefault hd hsource hv (fun h => absurd h (bne_iff_ne.mp hplain)) hunhidden

theorem hasDefault_named : HasDefault {} {} (givingFile "export default function foo() {}") "foo" := by
  obtain ⟨st, hst, hkind, hdefault, hdeclaration, hshown⟩ :
      ∃ st ∈ Code.statements (Syntax.parseScript "export default function foo() {}"),
        st.node.kind = .exportStatement ∧ st.node.hasToken "default" ∧
        ((st.node.child? .declaration).any fun d =>
          Code.isNamedDeclaration d.kind && (d.child? .name).map Syntax.Node.text == some "foo") ∧
        st.before = none := by
    decide +kernel
  obtain ⟨d, hd, hnamed⟩ := (Option.any_eq_true ..).mp hdeclaration
  obtain ⟨hdecl, hname⟩ := Bool.and_eq_true_iff.mp hnamed
  have hunhidden : ¬ (Code.Reader.ofRoot "src/lib/b.ts"
      (Syntax.parseScript "export default function foo() {}")).Hides st.before := by
    rw [hshown]
    nofun
  have hcode := Code.DefaultExport.declaration hst hkind hdefault hd hdecl hunhidden
  rw [beq_iff_eq.mp hname] at hcode
  refine .code (by decide) rfl ?_
  rw [parser_default]
  exact hcode

/-- A re-export of the default export of another file is linked to its declaration exactly if that is recorded as
`default` or is a component; a default export that keeps a name of its own is not found. What is recorded as
`default` is never passed on by star exports alone, but what has another name is. -/
theorem generateLibrary_default_linked {r : GenerateResult} (hids : (files.map SourceFile.id).Nodup)
    (hpaths : (files.map fun f => o.modulePath f.id).Nodup)
    (hr : (generateLibrary files package o s).outcome = .ok r) (hb : b ∈ files)
    (hpath : o.modulePath b.id = .ok path) (hdefault : HasDefault o s b k) (hfirst : DefaultFirst o s files b k) :
    ∃ ms, (analysis o s files).outcome = .ok ms ∧
      (∀ a ∈ files, a ≠ b → ∀ x n, o.modulePath a.id = .ok x → PassesDefault o s files a b n →
        (∀ e ∈ firstOffered? o s files a n, e = .reExport ⟨"default", path, n⟩) →
        (⟨x, path, "default"⟩ ∉ r.links.unresolved ↔ KnownAsDefault o b k) ∧
        (KnownAsDefault o b k → x ∈ r.links.listed k path ∧
          ∃ m ∈ r.library.modules, m.path = path ∧
            ∃ d ∈ m.declarations, d.name = k ∧ x ∈ d.alsoExportedFrom)) ∧
      (k = "default" → ∀ x ∈ r.links.listed k path, ∃ m ∈ ms, Link.StarLeads ms x m.path ∧
        ∃ e ∈ m.reExports, Link.Leads ms (e.sourceModule, e.localName) (path, k)) ∧
      (k ≠ "default" → ∀ m ∈ ms, m.path = path → m.declares k → ∀ m' ∈ ms, m'.path ≠ path →
        path ∈ m'.starExports → k ∉ m'.ownNames → m'.path ∈ r.links.listed k path) := by
  obtain ⟨ms, hms, rfl⟩ := result_of_generateLibrary hr
  have hd : Link.DistinctPaths ms := distinctPaths_of_analyzeFiles hpaths hms
  obtain ⟨m, hm, rfl, hknown, hunknown⟩ := exists_declaring hids hms hd hb hpath hdefault hfirst
  simp only [resultOf, Links.listed_eq_exportersOf]
  refine ⟨ms, hms, ?_, ?_, ?_⟩
  · intro a ha hab x n hx hpass honly
    obtain ⟨ma, hma, rfl, hre⟩ := exists_passing hids hms ha hx hpath hpass honly
    have hne : ma.path ≠ m.path := by
      intro heq
      rw [heq, ← hpath] at hx
      exact hab (List.inj_on_of_nodup_map hpaths ha hb hx)
    constructor
    · rw [mem_unresolved_default_iff hma hre rfl]
      constructor
      · intro hsome
        by_contra hk
        exact hsome (hunknown hk)
      · intro hk
        rw [(hknown hk).2]
        nofun
    · intro hk
      obtain ⟨hdeclares, horigin⟩ := hknown hk
      have hlisted : ma.path ∈ (Links.ofModules ms).exportersOf k m.path :=
        Link.mem_exportersOf_ofModules.mpr ⟨hne, ma, hma, rfl, .inl ⟨_, hre, horigin⟩⟩
      obtain ⟨m', hm', hmpath, d, hdm, hname, hlists⟩ := @exists_linked package ms k m hm hdeclares
      exact ⟨hlisted, m', hm', hmpath, d, hdm, hname, hlists _ hlisted⟩
  · rintro rfl x hx
    exact Link.exists_explicit_of_exporter hd hx
  · intro hk mb hmb hmbpath hdeclares mx hmx hne hstar hown
    rw [← hmbpath] at hne hstar ⊢
    exact Link.mem_exportersOf_of_star hd hmb hk hdeclares hmx hne hstar hown

theorem generateLibrary_default_linked_value :
    ∃ r, (generateLibrary (takersOf "export default 5;") smallPackage {} {}).outcome = .ok r ∧
      ⟨"a.ts", "b.ts", "default"⟩ ∉ r.links.unresolved ∧ "a.ts" ∈ r.links.listed "default" "b.ts" := by
  have hids : ((takersOf "export default 5;").map SourceFile.id).Nodup := by decide
  have hpaths : ((takersOf "export default 5;").map fun f => ({} : SourceOptions).modulePath f.id).Nodup := by
    decide
  have hrun : (generateLibrary (takersOf "export default 5;") smallPackage {} {}).outcome.toOption.isSome := by
    decide +kernel
  obtain ⟨r, hr⟩ : ∃ r, (generateLibrary (takersOf "export default 5;") smallPackage {} {}).outcome = .ok r := by
    cases h : (generateLibrary (takersOf "export default 5;") smallPackage {} {}).outcome with
    | error e => rw [h] at hrun; cases hrun
    | ok r => exact ⟨r, rfl⟩
  have hfirst : DefaultFirst {} {} (takersOf "export default 5;") (givingFile "export default 5;") "default" := by
    decide +kernel
  have honly : ∀ e ∈ firstOffered? {} {} (takersOf "export default 5;") takerFile "n",
      e = .reExport ⟨"default", "b.ts", "n"⟩ := by
    decide +kernel
  have hpass : PassesDefault {} {} (takersOf "export default 5;") takerFile (givingFile "export default 5;") "n" :=
    passesDefault_takerFile (by decide +kernel)
  have hpath : ({} : SourceOptions).modulePath (givingFile "export default 5;").id = .ok "b.ts" := by decide
  obtain ⟨_, _, hlinked, _⟩ :=
    generateLibrary_default_linked hids hpaths hr (.tail _ (.head _)) hpath hasDefault_value hfirst
  obtain ⟨hresolved, hlisted⟩ :=
    hlinked takerFile (.head _) (by decide) "a.ts" "n" (by decide) hpass honly
  exact ⟨r, hr, hresolved.mpr (.inl rfl), (hlisted (.inl rfl)).1⟩

theorem named_default_not_linked :
    HasDefault {} {} (givingFile "export default function foo() {}") "foo" ∧
      PassesDefault {} {} (takersOf "export default function foo() {}") takerFile
        (givingFile "export default function foo() {}") "n" ∧
      (generateLibrary (takersOf "export default function foo() {}") smallPackage {} {}).outcome.toOption.map
        (fun r => (r.links.unresolved, r.links.alsoExportedFrom)) =
          some ([⟨"a.ts", "b.ts", "default"⟩], [("foo", [("b.ts", ["c.ts"])])]) :=
  ⟨hasDefault_named, passesDefault_takerFile (by decide +kernel), by decide +kernel⟩

end Defaults

end ApiCatalog
