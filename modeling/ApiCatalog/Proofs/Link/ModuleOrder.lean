import ApiCatalog.Proofs.Link.Exporters

namespace ApiCatalog

variable {ms ms' : List Module}

namespace Link

theorem DistinctPaths.perm (h : ms.Perm ms') (hd : DistinctPaths ms) : DistinctPaths ms' :=
  (h.map Module.path).nodup_iff.mp hd

theorem moduleAt?_perm (h : ms.Perm ms') (hd : DistinctPaths ms) (p : String) :
    moduleAt? ms p = moduleAt? ms' p := by
  apply Option.ext
  intro m
  rw [moduleAt?_eq_some_iff hd, moduleAt?_eq_some_iff (hd.perm h), h.mem_iff]

theorem componentAt?_perm (h : ms.Perm ms') (hd : DistinctPaths ms) (p : String) :
    componentAt? ms p = componentAt? ms' p := by
  by_cases hp : ∃ m ∈ ms, m.path = p
  · obtain ⟨m, hm, rfl⟩ := hp
    rw [componentAt?_path hd hm, componentAt?_path (hd.perm h) (h.mem_iff.mp hm)]
  · have hnil : ms.filter (fun m => m.path == p) = [] :=
      List.filter_eq_nil_iff.mpr fun m hm hx => hp ⟨m, hm, by simpa using hx⟩
    have hperm := h.filter fun m => m.path == p
    rw [hnil] at hperm
    have hnil' : ms'.filter (fun m => m.path == p) = [] := List.nil_perm.mp hperm
    rw [componentAt?, componentAt?, hnil, hnil']

theorem declared?_perm (h : ms.Perm ms') (hd : DistinctPaths ms) (m : Module) (p n : String) :
    declared? ms m p n = declared? ms' m p n := by
  rw [declared?, declared?, componentAt?_perm h hd]

theorem search_perm (h : ms.Perm ms') (hd : DistinctPaths ms) (fuel : Nat) (p n : String) :
    search ms fuel p n = search ms' fuel p n := by
  induction fuel generalizing p n with
  | zero => rfl
  | succ fuel ih => simp only [search, moduleAt?_perm h hd, declared?_perm h hd, ih]

theorem searchBound_perm (h : ms.Perm ms') : searchBound ms = searchBound ms' := by
  rw [searchBound, searchBound, h.length_eq, (h.flatMap_right Module.reExports).length_eq]

theorem origin?_perm (h : ms.Perm ms') (hd : DistinctPaths ms) (p n : String) :
    origin? ms p n = origin? ms' p n := by
  rw [origin?, origin?, searchBound_perm h, search_perm h hd]

theorem gather_perm (h : ms.Perm ms') (hd : DistinctPaths ms) (fuel : Nat) (p : String) :
    gather ms fuel p = gather ms' fuel p := by
  induction fuel generalizing p with
  | zero => rfl
  | succ fuel ih =>
    have hf : gather ms fuel = gather ms' fuel := funext ih
    simp only [gather, moduleAt?_perm h hd, hf]

theorem exportedNames_perm (h : ms.Perm ms') (hd : DistinctPaths ms) (p : String) :
    exportedNames ms p = exportedNames ms' p := by
  rw [exportedNames, exportedNames, h.length_eq, gather_perm h hd]

end Link

namespace Links

open Link

theorem ofModule_perm (h : ms.Perm ms') (hd : DistinctPaths ms) (m : Module) :
    ofModule ms m = ofModule ms' m := by
  have hre : ofReExport ms m = ofReExport ms' m := by
    funext e
    rw [ofReExport, ofReExport, origin?_perm h hd]
  have hstar : ofStar ms m = ofStar ms' m := by
    funext t
    simp only [ofStar, moduleAt?_perm h hd, exportedNames_perm h hd, origin?_perm h hd]
  rw [ofModule, ofModule, hre, hstar]

theorem ofModules_edges_perm (h : ms.Perm ms') (hd : DistinctPaths ms) :
    (ofModules ms).edges.Perm (ofModules ms').edges := by
  have hf : ofModule ms = ofModule ms' := funext (ofModule_perm h hd)
  rw [ofModules, ofModules, edges_foldl, edges_foldl, hf]
  exact (h.map (ofModule ms')).flatMap_right edges

theorem ofModules_unresolved_perm (h : ms.Perm ms') (hd : DistinctPaths ms) :
    (ofModules ms).unresolved.Perm (ofModules ms').unresolved := by
  have hf : ofModule ms = ofModule ms' := funext (ofModule_perm h hd)
  rw [ofModules, ofModules, unresolved_foldl, unresolved_foldl, hf]
  exact (h.map (ofModule ms')).flatMap_right unresolved

variable {l l' : Links}

theorem exportersOf_perm (h : l.edges.Perm l'.edges) (name origin : String) :
    l.exportersOf name origin = l'.exportersOf name origin :=
  sortedDistinct_congr fun _ => ((h.filter _).map _).mem_iff

theorem originsOf_perm (h : l.edges.Perm l'.edges) (name : String) : l.originsOf name = l'.originsOf name :=
  sortedDistinct_congr fun _ => ((h.filter _).map _).mem_iff

theorem alsoExportedFrom_perm (h : l.edges.Perm l'.edges) : l.alsoExportedFrom = l'.alsoExportedFrom := by
  have hnames : sortedDistinct (l.edges.map fun e => e.origin.name) =
      sortedDistinct (l'.edges.map fun e => e.origin.name) :=
    sortedDistinct_congr fun _ => (h.map _).mem_iff
  simp only [alsoExportedFrom, hnames, originsOf_perm h, exportersOf_perm h]

end Links

theorem mergeLinks_perm {l l' : Links} (hl : l.edges.Perm l'.edges) (h : ms.Perm ms') :
    (mergeLinks l ms).Perm (mergeLinks l' ms') := by
  have hw (path : String) : Declaration.withExporters l path = Declaration.withExporters l' path := by
    funext d
    rw [Declaration.withExporters, Declaration.withExporters, Links.exportersOf_perm hl]
  simp only [mergeLinks, hw]
  exact h.map _

theorem mergeLinks_paths (l : Links) (ms : List Module) :
    (mergeLinks l ms).map Module.path = ms.map Module.path := by
  simp [mergeLinks]

end ApiCatalog
