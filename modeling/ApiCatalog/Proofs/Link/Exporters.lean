import ApiCatalog.Proofs.Link.StarClosure

namespace ApiCatalog

namespace Links

theorem edges_foldl (ls : List Links) (l : Links) :
    (ls.foldl append l).edges = l.edges ++ ls.flatMap edges := by
  induction ls generalizing l with
  | nil => simp
  | cons a as ih => rw [List.foldl_cons, ih, append, List.flatMap_cons, List.append_assoc]

theorem unresolved_foldl (ls : List Links) (l : Links) :
    (ls.foldl append l).unresolved = l.unresolved ++ ls.flatMap unresolved := by
  induction ls generalizing l with
  | nil => simp
  | cons a as ih => rw [List.foldl_cons, ih, append, List.flatMap_cons, List.append_assoc]

/-! The index of names and origins -/

def listed (l : Links) (name origin : String) : List String :=
  (((l.alsoExportedFrom.lookup name).getD []).lookup origin).getD []

theorem lookup_map_key {β : Type} (f : String → β) (ks : List String) (k : String) :
    (ks.map fun k => (k, f k)).lookup k = if k ∈ ks then some (f k) else none := by
  induction ks with
  | nil => rfl
  | cons a as ih =>
    by_cases h : k = a
    · subst h; simp
    · simp [List.lookup_cons, beq_false_of_ne h, h, ih]

theorem mem_exportersOf {l : Links} {name origin x : String} :
    x ∈ l.exportersOf name origin ↔ ⟨⟨origin, name⟩, x⟩ ∈ l.edges := by
  rw [exportersOf, mem_sortedDistinct, List.mem_map]
  constructor
  · rintro ⟨⟨⟨o, n⟩, e⟩, he, rfl⟩
    obtain ⟨hmem, hcond⟩ := List.mem_filter.mp he
    simp only [Bool.and_eq_true, beq_iff_eq] at hcond
    obtain ⟨rfl, rfl⟩ := hcond
    exact hmem
  · intro h
    exact ⟨_, List.mem_filter.mpr ⟨h, by simp⟩, rfl⟩

theorem exportersOf_eq_nil {l : Links} {name origin : String}
    (h : ∀ x, (⟨⟨origin, name⟩, x⟩ : ExportEdge) ∉ l.edges) : l.exportersOf name origin = [] :=
  List.eq_nil_iff_forall_not_mem.mpr fun x hx => h x (mem_exportersOf.mp hx)

theorem mem_originsOf {l : Links} {name origin : String} :
    origin ∈ l.originsOf name ↔ ∃ x, (⟨⟨origin, name⟩, x⟩ : ExportEdge) ∈ l.edges := by
  rw [originsOf, mem_sortedDistinct, List.mem_map]
  constructor
  · rintro ⟨⟨⟨o, n⟩, x⟩, he, rfl⟩
    obtain ⟨hmem, hcond⟩ := List.mem_filter.mp he
    obtain rfl : n = name := by simpa using hcond
    exact ⟨x, hmem⟩
  · rintro ⟨x, h⟩
    exact ⟨_, List.mem_filter.mpr ⟨h, by simp⟩, rfl⟩

theorem listed_eq_exportersOf (l : Links) (name origin : String) :
    l.listed name origin = l.exportersOf name origin := by
  have hinner : (((l.originsOf name).map fun o => (o, l.exportersOf name o)).lookup origin).getD [] =
      l.exportersOf name origin := by
    rw [lookup_map_key]
    split
    · rfl
    · case isFalse h =>
      exact (exportersOf_eq_nil fun x hx => h (mem_originsOf.mpr ⟨x, hx⟩)).symm
  rw [listed, alsoExportedFrom, lookup_map_key]
  split
  · exact hinner
  · case isFalse h =>
    refine (exportersOf_eq_nil fun x hx => h ?_).symm
    rw [mem_sortedDistinct]
    exact List.mem_map.mpr ⟨_, hx, rfl⟩

end Links

namespace Link

variable {ms : List Module}

/-! What one module contributes -/

theorem mem_edges_ofOrigin {o o' : Origin} {x x' : String} :
    (⟨o', x'⟩ : ExportEdge) ∈ (Links.ofOrigin o x).edges ↔ o' = o ∧ x' = x ∧ x ≠ o.module := by
  rw [Links.ofOrigin]
  split
  · case isTrue h => simp [eq_of_beq h]
  · case isFalse h =>
    have hne : x ≠ o.module := fun hx => h (by simp [hx])
    simp [hne]

theorem mem_edges_ofReExport {m : Module} {e : ReExport} {o : Origin} {x : String} :
    (⟨o, x⟩ : ExportEdge) ∈ (Links.ofReExport ms m e).edges ↔
      x = m.path ∧ x ≠ o.module ∧ origin? ms e.sourceModule e.localName = some o := by
  rw [Links.ofReExport]
  split
  · case h_1 o' ho =>
    rw [mem_edges_ofOrigin, ho]
    constructor
    · rintro ⟨rfl, rfl, hne⟩; exact ⟨rfl, hne, rfl⟩
    · rintro ⟨rfl, hne, hx⟩; cases hx; exact ⟨rfl, rfl, hne⟩
  · case h_2 ho => simp [ho]

theorem mem_edges_ofStar {m : Module} {t : String} {o : Origin} {x : String} :
    (⟨o, x⟩ : ExportEdge) ∈ (Links.ofStar ms m t).edges ↔
      x = m.path ∧ x ≠ o.module ∧
        ∃ n, n ≠ "default" ∧ n ∉ m.ownNames ∧ origin? ms t n = some o := by
  rw [Links.ofStar]
  split
  · case isTrue hu =>
    have hnone (n : String) : origin? ms t n = none := by
      rw [origin?, search_of_unknown (searchBound ms) (q := (t, n)) [] (by simpa using hu)]
    simp [hnone]
  · simp only [Links.edges_foldl, List.nil_append, List.mem_flatMap, List.mem_map, List.mem_filter,
      mem_sortedDistinct, Bool.and_eq_true, bne_iff_ne, ne_eq, Bool.not_eq_true', List.contains_eq_mem,
      decide_eq_false_iff_not]
    constructor
    · rintro ⟨l, ⟨n, ⟨_, hn, hown⟩, rfl⟩, hl⟩
      split at hl
      · case h_1 o' ho =>
        obtain ⟨rfl, rfl, hne⟩ := mem_edges_ofOrigin.mp hl
        exact ⟨rfl, hne, n, hn, hown, ho⟩
      · cases hl
    · rintro ⟨rfl, hne, n, hn, hown, ho⟩
      refine ⟨_, ⟨n, ⟨mem_exportedNames_of_origin? ho hn, hn, hown⟩, rfl⟩, ?_⟩
      rw [ho]
      exact mem_edges_ofOrigin.mpr ⟨rfl, rfl, hne⟩

/-- A module passes a declaration on: by name, or under a name that it has from a star export alone. -/
def PassesOn (ms : List Module) (m : Module) (o : Origin) : Prop :=
  (∃ e ∈ m.reExports, origin? ms e.sourceModule e.localName = some o) ∨
    ∃ t ∈ m.starExports, ∃ n, n ≠ "default" ∧ n ∉ m.ownNames ∧ origin? ms t n = some o

theorem mem_edges_ofModules {o : Origin} {x : String} :
    (⟨o, x⟩ : ExportEdge) ∈ (Links.ofModules ms).edges ↔
      x ≠ o.module ∧ ∃ m ∈ ms, m.path = x ∧ PassesOn ms m o := by
  simp only [Links.ofModules, Links.ofModule, Links.edges_foldl, List.nil_append, List.mem_flatMap,
    List.mem_map, List.mem_append, exists_exists_and_eq_and, or_and_right, exists_or, mem_edges_ofReExport,
    mem_edges_ofStar, PassesOn]
  constructor
  · rintro ⟨m, hm, ⟨e, he, rfl, hne, ho⟩ | ⟨t, ht, rfl, hne, n, hn⟩⟩
    · exact ⟨hne, m, hm, rfl, .inl ⟨e, he, ho⟩⟩
    · exact ⟨hne, m, hm, rfl, .inr ⟨t, ht, n, hn⟩⟩
  · rintro ⟨hne, m, hm, rfl, ⟨e, he, ho⟩ | ⟨t, ht, n, hn⟩⟩
    · exact ⟨m, hm, .inl ⟨e, he, rfl, hne, ho⟩⟩
    · exact ⟨m, hm, .inr ⟨t, ht, rfl, hne, n, hn⟩⟩

theorem mem_exportersOf_ofModules {n o x : String} :
    x ∈ (Links.ofModules ms).exportersOf n o ↔ x ≠ o ∧ ∃ m ∈ ms, m.path = x ∧ PassesOn ms m ⟨o, n⟩ := by
  rw [Links.mem_exportersOf, mem_edges_ofModules]

/-! What is not resolved -/

theorem unresolved_ofOrigin (o : Origin) (x : String) : (Links.ofOrigin o x).unresolved = [] := by
  rw [Links.ofOrigin]
  split <;> rfl

theorem mem_unresolved_ofReExport {m : Module} {e : ReExport} {u : Unresolved} :
    u ∈ (Links.ofReExport ms m e).unresolved ↔
      origin? ms e.sourceModule e.localName = none ∧ u = ⟨m.path, e.sourceModule, e.localName⟩ := by
  rw [Links.ofReExport]
  split
  · case h_1 o ho => simp [ho, unresolved_ofOrigin]
  · case h_2 ho => simp [ho]

theorem mem_unresolved_ofStar {m : Module} {t : String} {u : Unresolved} :
    u ∈ (Links.ofStar ms m t).unresolved ↔ moduleAt? ms t = none ∧ u = ⟨m.path, t, "*"⟩ := by
  rw [Links.ofStar]
  split
  · case isTrue hu => simp [Option.isNone_iff_eq_none.mp hu]
  · case isFalse hu =>
    have hknown : moduleAt? ms t ≠ none := by simpa using hu
    simp only [Links.unresolved_foldl, hknown, false_and, iff_false, List.nil_append, List.mem_flatMap,
      List.mem_map, not_exists, not_and]
    rintro l ⟨n, _, rfl⟩
    split
    · rw [unresolved_ofOrigin]; exact List.not_mem_nil
    · exact List.not_mem_nil

theorem mem_unresolved_ofModules {u : Unresolved} :
    u ∈ (Links.ofModules ms).unresolved ↔
      ∃ m ∈ ms, (∃ e ∈ m.reExports, origin? ms e.sourceModule e.localName = none ∧
          u = ⟨m.path, e.sourceModule, e.localName⟩) ∨
        ∃ t ∈ m.starExports, moduleAt? ms t = none ∧ u = ⟨m.path, t, "*"⟩ := by
  simp only [Links.ofModules, Links.ofModule, Links.unresolved_foldl, List.nil_append, List.mem_flatMap,
    List.mem_map, List.mem_append, exists_exists_and_eq_and, or_and_right, exists_or,
    mem_unresolved_ofReExport, mem_unresolved_ofStar]

theorem isSome_origin?_iff (hd : DistinctPaths ms) {p n : String} :
    (origin? ms p n).isSome ↔ ∃ q o, Leads ms (p, n) q ∧ Final ms q o := by
  constructor
  · intro h
    obtain ⟨o, ho⟩ := Option.isSome_iff_exists.mp h
    obtain ⟨q, hq, hf⟩ := exists_reaches_of_origin? ho
    exact ⟨q, o, (reaches_iff_leads hd).mp hq, (final?_eq_some_iff hd).mp hf⟩
  · rintro ⟨q, o, hq, hf⟩
    rw [Option.isSome_iff_ne_none]
    intro hnone
    have hq := final?_of_origin?_eq_none hnone ((reaches_iff_leads hd).mpr hq)
    rw [(final?_eq_some_iff hd).mpr hf] at hq
    cases hq

theorem linkModules_correct (channel : Channel) (hd : DistinctPaths ms) :
    (∀ p n, ((origin? ms p n).isSome ↔ ∃ q o, Leads ms (p, n) q ∧ Final ms q o) ∧
      ∀ o, origin? ms p n = some o → ∃ q, Leads ms (p, n) q ∧ Final ms q o) ∧
    (∀ n o x, x ∈ (linkModules channel ms).value.listed n o ↔
      x ≠ o ∧ ∃ m ∈ ms, m.path = x ∧
        ((∃ e ∈ m.reExports, origin? ms e.sourceModule e.localName = some ⟨o, n⟩) ∨
          ∃ t ∈ m.starExports, ∃ k, k ≠ "default" ∧ k ∉ m.ownNames ∧ origin? ms t k = some ⟨o, n⟩)) ∧
    (∀ t k o, k ≠ "default" → origin? ms t k = some o → k ∈ exportedNames ms t) ∧
    ∀ u, u ∈ (linkModules channel ms).value.unresolved ↔
      ∃ m ∈ ms, (∃ e ∈ m.reExports, origin? ms e.sourceModule e.localName = none ∧
          u = ⟨m.path, e.sourceModule, e.localName⟩) ∨
        ∃ t ∈ m.starExports, (∀ m' ∈ ms, m'.path ≠ t) ∧ u = ⟨m.path, t, "*"⟩ := by
  refine ⟨fun p n => ⟨isSome_origin?_iff hd, ?_⟩, ?_, ?_, ?_⟩
  · intro o ho
    obtain ⟨q, hq, hf⟩ := exists_reaches_of_origin? ho
    exact ⟨q, (reaches_iff_leads hd).mp hq, (final?_eq_some_iff hd).mp hf⟩
  · intro n o x
    rw [Links.listed_eq_exportersOf]
    exact mem_exportersOf_ofModules
  · intro t k o hk ho
    exact mem_exportedNames_of_origin? ho hk
  · intro u
    simp only [← moduleAt?_eq_none_iff]
    exact mem_unresolved_ofModules

def cyclicModules : List Module :=
  [{ path := "a.ts", starExports := ["b.ts"] },
    { path := "b.ts", declarations := [{ name := "add", kind := .function }], starExports := ["a.ts"] },
    { path := "Box.svelte", declarations := [{ name := "Box", kind := .component }] },
    { path := "index.ts",
      reExports := [⟨"add", "a.ts", "plus"⟩, ⟨"default", "Box.svelte", "Box"⟩, ⟨"gone", "a.ts", "gone"⟩] }]

theorem linkModules_correct_cyclic :
    DistinctPaths cyclicModules ∧
      "index.ts" ∈ (linkModules .linker cyclicModules).value.listed "add" "b.ts" ∧
      "a.ts" ∈ (linkModules .linker cyclicModules).value.listed "add" "b.ts" ∧
      "index.ts" ∈ (linkModules .linker cyclicModules).value.listed "Box" "Box.svelte" ∧
      ⟨"index.ts", "a.ts", "gone"⟩ ∈ (linkModules .linker cyclicModules).value.unresolved := by
  have hd : DistinctPaths cyclicModules := by unfold DistinctPaths; decide
  obtain ⟨_, hlisted, _, hunresolved⟩ := linkModules_correct .linker hd
  refine ⟨hd, (hlisted _ _ _).mpr ?_, (hlisted _ _ _).mpr ?_, (hlisted _ _ _).mpr ?_, (hunresolved _).mpr ?_⟩
  · exact ⟨by decide, _, .tail _ (.tail _ (.tail _ (.head _))), rfl, .inl ⟨_, .head _, by decide⟩⟩
  · exact ⟨by decide, _, .head _, rfl, .inr ⟨_, .head _, "add", by decide, by decide, by decide⟩⟩
  · exact ⟨by decide, _, .tail _ (.tail _ (.tail _ (.head _))), rfl, .inl ⟨_, .tail _ (.head _), by decide⟩⟩
  · exact ⟨_, .tail _ (.tail _ (.tail _ (.head _))), .inl ⟨_, .tail _ (.tail _ (.head _)), by decide, rfl⟩⟩

end Link

end ApiCatalog
