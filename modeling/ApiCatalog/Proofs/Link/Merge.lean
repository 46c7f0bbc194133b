import ApiCatalog.Proofs.Link.ModuleOrder

namespace ApiCatalog

variable {ms : List Module}

/-! Modules with and without links -/

def Module.unlinked (m : Module) : Module :=
  { m with declarations := m.declarations.map fun d => { d with alsoExportedFrom := [] } }

def Module.linked (l : Links) (m : Module) : Module :=
  { m with declarations := m.declarations.map (Declaration.withExporters l m.path) }

theorem Module.unlinked_linked (l : Links) (m : Module) : (m.linked l).unlinked = m.unlinked := by
  have hdeclaration (d : Declaration) :
      { Declaration.withExporters l m.path d with alsoExportedFrom := [] } = { d with alsoExportedFrom := [] } := by
    rw [Declaration.withExporters]
    split <;> rfl
  simp only [unlinked, linked, List.map_map, Function.comp_def, hdeclaration]

theorem withExporters_name (l : Links) (path : String) (d : Declaration) :
    (d.withExporters l path).name = d.name := by
  rw [Declaration.withExporters]
  split <;> rfl

theorem mergeLinks_unlinked (l : Links) (ms : List Module) :
    (mergeLinks l ms).map Module.unlinked = ms.map Module.unlinked := by
  change (ms.map (Module.linked l)).map Module.unlinked = _
  simp only [List.map_map, Function.comp_def, Module.unlinked_linked]

theorem exists_merged (l : Links) {m : Module} {n : String} (hm : m ∈ ms) (hn : m.declares n) :
    ∃ m' ∈ mergeLinks l ms, m'.path = m.path ∧ ∃ d ∈ m'.declarations, d.name = n ∧
      (l.exportersOf n m.path ≠ [] → d.alsoExportedFrom = l.exportersOf n m.path) := by
  obtain ⟨d, hd, hname⟩ := List.any_eq_true.mp hn
  obtain rfl : d.name = n := eq_of_beq hname
  refine ⟨_, List.mem_map_of_mem hm, rfl, _, List.mem_map_of_mem hd, withExporters_name l m.path d, ?_⟩
  intro hne
  rw [Declaration.withExporters]
  split
  · case h_1 hnil => exact absurd hnil hne
  · rfl

theorem withExporters_withExporters (l : Links) (path : String) (d : Declaration) :
    (d.withExporters l path).withExporters l path = d.withExporters l path := by
  cases h : l.exportersOf d.name path with
  | nil => simp [Declaration.withExporters, h]
  | cons x xs => simp [Declaration.withExporters, h]

theorem mergeLinks_mergeLinks (l : Links) (ms : List Module) : mergeLinks l (mergeLinks l ms) = mergeLinks l ms := by
  simp [mergeLinks, Function.comp_def, withExporters_withExporters]

/-! Linking reads nothing that links add. -/

namespace Module

@[simp] theorem declares_unlinked (m : Module) (n : String) : m.unlinked.declares n = m.declares n := by
  simp [declares, unlinked, Function.comp_def]

@[simp] theorem components_unlinked (m : Module) : m.unlinked.components = m.components := by
  simp [components, unlinked, List.filter_map, Function.comp_def]

@[simp] theorem ownNames_unlinked (m : Module) : m.unlinked.ownNames = m.ownNames := by
  simp [ownNames, unlinked, Function.comp_def]

end Module

namespace Link

@[simp] theorem moduleAt?_unlinked (p : String) :
    moduleAt? (ms.map Module.unlinked) p = (moduleAt? ms p).map Module.unlinked := by
  rw [moduleAt?, ← List.map_reverse, List.find?_map]
  rfl

@[simp] theorem componentAt?_unlinked (p : String) : componentAt? (ms.map Module.unlinked) p = componentAt? ms p := by
  have hpath : (fun m : Module => m.path == p) ∘ Module.unlinked = fun m => m.path == p := rfl
  simp [componentAt?, List.filter_map, hpath, List.flatMap_map]

@[simp] theorem declared?_unlinked (m : Module) (p n : String) :
    declared? (ms.map Module.unlinked) m.unlinked p n = declared? ms m p n := by
  simp [declared?]

theorem search_unlinked (fuel : Nat) (p n : String) : search (ms.map Module.unlinked) fuel p n = search ms fuel p n := by
  induction fuel generalizing p n with
  | zero => rfl
  | succ fuel ih =>
    rw [search, search, moduleAt?_unlinked]
    cases moduleAt? ms p with
    | none => rfl
    | some m => simp only [Option.map_some, declared?_unlinked, ih]; rfl

@[simp] theorem origin?_unlinked (p n : String) : origin? (ms.map Module.unlinked) p n = origin? ms p n := by
  have hbound : searchBound (ms.map Module.unlinked) = searchBound ms := by
    rw [searchBound, searchBound, List.length_map, List.flatMap_map]
    rfl
  rw [origin?, origin?, hbound, search_unlinked]

theorem gather_unlinked (fuel : Nat) (p : String) : gather (ms.map Module.unlinked) fuel p = gather ms fuel p := by
  induction fuel generalizing p with
  | zero => rfl
  | succ fuel ih =>
    have hf : gather (ms.map Module.unlinked) fuel = gather ms fuel := funext ih
    rw [gather, gather, moduleAt?_unlinked, hf]
    cases moduleAt? ms p with
    | none => rfl
    | some m => simp only [Option.map_some, Module.ownNames_unlinked]; rfl

@[simp] theorem exportedNames_unlinked (p : String) : exportedNames (ms.map Module.unlinked) p = exportedNames ms p := by
  rw [exportedNames, exportedNames, List.length_map, gather_unlinked]

end Link

namespace Links

theorem ofModule_unlinked (m : Module) : ofModule (ms.map Module.unlinked) m.unlinked = ofModule ms m := by
  have hre : ofReExport (ms.map Module.unlinked) m.unlinked = ofReExport ms m := by
    funext e
    rw [ofReExport, ofReExport, Link.origin?_unlinked]
    rfl
  have hstar : ofStar (ms.map Module.unlinked) m.unlinked = ofStar ms m := by
    funext t
    simp [ofStar]
    rfl
  rw [ofModule, ofModule, hre, hstar]
  rfl

theorem ofModules_unlinked (ms : List Module) : ofModules (ms.map Module.unlinked) = ofModules ms := by
  rw [ofModules, ofModules, List.map_map]
  simp only [Function.comp_def, ofModule_unlinked]

theorem ofModules_mergeLinks (l : Links) (ms : List Module) : ofModules (mergeLinks l ms) = ofModules ms := by
  rw [← ofModules_unlinked, mergeLinks_unlinked, ofModules_unlinked]

end Links

namespace Link

theorem linkModules_mergeLinks (channel : Channel) (l : Links) (ms : List Module) :
    linkModules channel (mergeLinks l ms) = linkModules channel ms := by
  rw [linkModules, linkModules, Links.ofModules_mergeLinks]

/-! Every link names a declaration. -/

theorem declares_of_origin? (hd : DistinctPaths ms) {p n : String} {o : Origin} (h : origin? ms p n = some o) :
    ∃ m ∈ ms, m.path = o.module ∧ m.declares o.name := by
  obtain ⟨q, _, hq⟩ := exists_reaches_of_origin? h
  cases (final?_eq_some_iff hd).mp hq with
  | @declared m n hm hn => exact ⟨m, hm, rfl, hn⟩
  | @component m c hm hn hc =>
    obtain ⟨d, hmem, rfl⟩ := List.mem_map.mp (List.mem_of_getLast? hc)
    exact ⟨m, hm, rfl, List.any_eq_true.mpr ⟨d, (List.mem_filter.mp hmem).1, by simp⟩⟩

theorem declares_of_edge (hd : DistinctPaths ms) {o : Origin} {x : String}
    (h : (⟨o, x⟩ : ExportEdge) ∈ (Links.ofModules ms).edges) : ∃ m ∈ ms, m.path = o.module ∧ m.declares o.name := by
  obtain ⟨_, m, _, _, hpasses⟩ := mem_edges_ofModules.mp h
  rcases hpasses with ⟨e, _, ho⟩ | ⟨t, _, k, _, _, ho⟩ <;> exact declares_of_origin? hd ho

theorem mem_alsoExportedFrom {l : Links} {n o : String} {xs : List String} :
    (∃ os, (n, os) ∈ l.alsoExportedFrom ∧ (o, xs) ∈ os) ↔ xs = l.exportersOf n o ∧ xs ≠ [] := by
  constructor
  · rintro ⟨os, hn, ho⟩
    obtain ⟨n', _, heq⟩ := List.mem_map.mp hn
    obtain ⟨rfl, rfl⟩ := Prod.mk.inj heq
    obtain ⟨o', hmem, heq⟩ := List.mem_map.mp ho
    obtain ⟨rfl, rfl⟩ := Prod.mk.inj heq
    obtain ⟨x, hx⟩ := Links.mem_originsOf.mp hmem
    exact ⟨rfl, List.ne_nil_of_mem (Links.mem_exportersOf.mpr hx)⟩
  · rintro ⟨rfl, hne⟩
    obtain ⟨x, hx⟩ := List.exists_mem_of_ne_nil _ hne
    have hedge := Links.mem_exportersOf.mp hx
    refine ⟨_, List.mem_map_of_mem (mem_sortedDistinct.mpr (List.mem_map_of_mem hedge)), ?_⟩
    exact List.mem_map.mpr ⟨o, Links.mem_originsOf.mpr ⟨x, hedge⟩, rfl⟩

theorem linkModules_stable (channel : Channel) (hd : DistinctPaths ms) :
    (∀ n os, (n, os) ∈ (linkModules channel ms).value.alsoExportedFrom → ∀ o xs, (o, xs) ∈ os →
      (∃ m ∈ ms, m.path = o ∧ m.declares n) ∧ xs ≠ [] ∧ xs.Pairwise (· < ·) ∧ o ∉ xs ∧
        ∃ m ∈ mergeLinks (linkModules channel ms).value ms, m.path = o ∧
          ∃ d ∈ m.declarations, d.name = n ∧ d.alsoExportedFrom = xs) ∧
    (mergeLinks (linkModules channel ms).value ms).map Module.unlinked = ms.map Module.unlinked ∧
    linkModules channel (mergeLinks (linkModules channel ms).value ms) = linkModules channel ms ∧
    mergeLinks (linkModules channel (mergeLinks (linkModules channel ms).value ms)).value
        (mergeLinks (linkModules channel ms).value ms) =
      mergeLinks (linkModules channel ms).value ms := by
  refine ⟨?_, mergeLinks_unlinked _ _, linkModules_mergeLinks _ _ _, ?_⟩
  · intro n os hn o xs ho
    obtain ⟨rfl, hne⟩ := mem_alsoExportedFrom.mp ⟨os, hn, ho⟩
    obtain ⟨x, hx⟩ := List.exists_mem_of_ne_nil _ hne
    obtain ⟨m, hm, rfl, hdeclares⟩ := declares_of_edge hd (Links.mem_exportersOf.mp hx)
    refine ⟨⟨m, hm, rfl, hdeclares⟩, hne, sortedDistinct_lt _, ?_, ?_⟩
    · intro hself
      exact (mem_exportersOf_ofModules.mp hself).1 rfl
    · obtain ⟨m', hm', hpath, d, hmem, hname, hexporters⟩ := exists_merged _ hm hdeclares
      exact ⟨m', hm', hpath, d, hmem, hname, hexporters hne⟩
  · rw [linkModules_mergeLinks, mergeLinks_mergeLinks]

def renamedModules : List Module :=
  [{ path := "a.ts", declarations := [{ name := "add", kind := .function }],
      reExports := [⟨"plus", "index.ts", "sum"⟩] },
    { path := "Box.svelte", declarations := [{ name := "Box", kind := .component }] },
    { path := "index.ts", reExports := [⟨"add", "a.ts", "plus"⟩, ⟨"default", "Box.svelte", "Box"⟩] },
    { path := "app.ts", starExports := ["index.ts", "a.ts"] }]

theorem linkModules_stable_renamedModules :
    DistinctPaths renamedModules ∧
      (∃ m ∈ mergeLinks (linkModules .linker renamedModules).value renamedModules, m.path = "a.ts" ∧
        ∃ d ∈ m.declarations, d.name = "add" ∧ "index.ts" ∈ d.alsoExportedFrom ∧ "a.ts" ∉ d.alsoExportedFrom) ∧
      (∃ m ∈ mergeLinks (linkModules .linker renamedModules).value renamedModules, m.path = "Box.svelte" ∧
        ∃ d ∈ m.declarations, d.name = "Box" ∧ "app.ts" ∈ d.alsoExportedFrom) ∧
      linkModules .linker (mergeLinks (linkModules .linker renamedModules).value renamedModules) =
        linkModules .linker renamedModules := by
  -- The first module gets its own declaration back under another name, and is not listed for it.
  have hd : DistinctPaths renamedModules := by unfold DistinctPaths; decide
  obtain ⟨hkeys, _, hlink, _⟩ := linkModules_stable .linker hd
  have hindex : "index.ts" ∈ (linkModules .linker renamedModules).value.exportersOf "add" "a.ts" :=
    mem_exportersOf_ofModules.mpr ⟨by decide, _, .tail _ (.tail _ (.head _)), rfl, .inl ⟨_, .head _, by decide⟩⟩
  have happ : "app.ts" ∈ (linkModules .linker renamedModules).value.exportersOf "Box" "Box.svelte" :=
    mem_exportersOf_ofModules.mpr ⟨by decide, _, .tail _ (.tail _ (.tail _ (.head _))), rfl,
      .inr ⟨"index.ts", .head _, "Box", by decide, by decide, by decide⟩⟩
  obtain ⟨os, hos, hadd⟩ := mem_alsoExportedFrom.mpr ⟨rfl, List.ne_nil_of_mem hindex⟩
  obtain ⟨os', hos', hbox⟩ := mem_alsoExportedFrom.mpr ⟨rfl, List.ne_nil_of_mem happ⟩
  obtain ⟨_, _, _, hself, m, hm, hpath, d, hmem, hname, hexporters⟩ := hkeys _ os hos _ _ hadd
  obtain ⟨_, _, _, _, m', hm', hpath', d', hmem', hname', hexporters'⟩ := hkeys _ os' hos' _ _ hbox
  refine ⟨hd, ⟨m, hm, hpath, d, hmem, hname, ?_, ?_⟩, ⟨m', hm', hpath', d', hmem', hname', ?_⟩, hlink⟩
  · rw [hexporters]; exact hindex
  · rw [hexporters]; exact hself
  · rw [hexporters']; exact happ

end Link

end ApiCatalog
