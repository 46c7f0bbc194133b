import ApiCatalog.Proofs.Link.StarOrigins

namespace ApiCatalog.Link

variable {ms : List Module} {m : Module} {t n : String}

theorem origin?_next_eq_none {q : String × String} (h : origin? ms t n = none) (hq : q ∈ next ms (t, n)) :
    origin? ms q.1 q.2 = none := by
  rw [← Option.not_isSome_iff_eq_none, ← live_iff]
  intro hlive
  have hf : final? ms (t, n) = none := final?_of_origin?_eq_none h .refl
  have hback : (origin? ms t n).isSome := live_iff.mp (hlive.of_next hf hq)
  simp [h] at hback

theorem reExport?_of_ownNames (hm : moduleAt? ms t = some m) (hn : n ∈ m.ownNames) (h : origin? ms t n = none) :
    ∃ e, m.reExport? n = some e := by
  have hf : final? ms (t, n) = none := final?_of_origin?_eq_none h .refl
  rcases List.mem_append.mp hn with hdeclared | hpassed
  · -- A declaration of the name would be its origin.
    obtain ⟨d, hd, hname⟩ := List.mem_map.mp hdeclared
    have hdeclares : m.declares n := List.any_eq_true.mpr ⟨d, hd, by simp [hname]⟩
    simp [final?, hm, declared?, hdeclares] at hf
  · obtain ⟨e, he, hname⟩ := List.mem_map.mp hpassed
    apply Option.ne_none_iff_exists'.mp
    rw [Ne, reExport?_eq_none_iff]
    intro hnone
    exact hnone e he hname

theorem exists_reExport_of_starLeads {q : String} {k : Module} (hq : StarLeads ms t q) (hk : moduleAt? ms q = some k)
    (hn : n ∈ k.ownNames) (hdefault : n ≠ "default") (h : origin? ms t n = none) :
    ∃ p m e, StarLeads ms t p ∧ moduleAt? ms p = some m ∧ m.reExport? n = some e ∧
      origin? ms e.sourceModule e.localName = none := by
  -- Along the star exports, the first module that re-exports the name is the one to blame.
  have hblame {p : String} {m : Module} {e : ReExport} (hp : origin? ms p n = none) (hm : moduleAt? ms p = some m)
      (he : m.reExport? n = some e) : origin? ms e.sourceModule e.localName = none :=
    origin?_next_eq_none (q := (e.sourceModule, e.localName)) hp (by simp [next, hm, he])
  induction hq using Relation.ReflTransGen.head_induction_on with
  | refl =>
    obtain ⟨e, he⟩ := reExport?_of_ownNames hk hn h
    exact ⟨q, k, e, .refl, hk, he, hblame h hk he⟩
  | @head t s hedge _ ih =>
    obtain ⟨m, hm, hs⟩ := hedge
    cases he : m.reExport? n with
    | some e => exact ⟨t, m, e, .refl, hm, he, hblame h hm he⟩
    | none =>
      have hnext : (s, n) ∈ next ms (t, n) := by simp [next, hm, he, hdefault, hs]
      obtain ⟨p, k, e, hp, hrest⟩ := ih (origin?_next_eq_none h hnext)
      exact ⟨p, k, e, .head ⟨m, hm, hs⟩ hp, hrest⟩

theorem mem_log_of_unresolved (channel : Channel) {u : Unresolved} (h : u ∈ (Links.ofModules ms).unresolved) :
    u.record channel ∈ (linkModules channel ms).log := by
  change u.record channel ∈ (Links.ofModules ms).unresolved.map (Unresolved.record channel) ++ []
  rw [List.append_nil]
  exact List.mem_map_of_mem h

theorem star_names_accounted (channel : Channel) (hd : DistinctPaths ms) (hm : m ∈ ms) (ht : t ∈ m.starExports)
    (hn : n ∈ exportedNames ms t) (hdefault : n ≠ "default") (hown : n ∉ m.ownNames) :
    (∀ o, origin? ms t n = some o → m.path ≠ o.module →
      m.path ∈ (linkModules channel ms).value.listed o.name o.module) ∧
    (origin? ms t n = none → ∃ q ∈ ms, StarLeads ms t q.path ∧ ∃ e, q.reExport? n = some e ∧
      (⟨q.path, e.sourceModule, e.localName⟩ : Unresolved) ∈ (linkModules channel ms).value.unresolved ∧
      Unresolved.record channel ⟨q.path, e.sourceModule, e.localName⟩ ∈ (linkModules channel ms).log) := by
  constructor
  · intro o ho hne
    rw [Links.listed_eq_exportersOf]
    exact mem_exportersOf_ofModules.mpr ⟨hne, m, hm, rfl, .inr ⟨t, ht, n, hdefault, hown, ho⟩⟩
  · intro hnone
    obtain ⟨p, k, hp, hk, hmem, _⟩ := mem_exportedNames_iff.mp hn
    obtain ⟨p, q, e, hlead, hq, he, horigin⟩ := exists_reExport_of_starLeads hp hk hmem hdefault hnone
    obtain ⟨hqms, rfl⟩ := (moduleAt?_eq_some_iff hd).mp hq
    have hreported : (⟨q.path, e.sourceModule, e.localName⟩ : Unresolved) ∈ (Links.ofModules ms).unresolved :=
      mem_unresolved_ofModules.mpr ⟨q, hqms, .inl ⟨e, List.mem_of_find?_eq_some he, horigin, rfl⟩⟩
    exact ⟨q, hqms, hlead, e, he, hreported, mem_log_of_unresolved channel hreported⟩

def brokenModules : List Module :=
  [{ path := "core.ts", declarations := [{ name := "add", kind := .function }] },
    { path := "deep.ts", reExports := [⟨"gone", "core.ts", "x"⟩, ⟨"add", "core.ts", "x"⟩], starExports := ["core.ts"] },
    { path := "mid.ts", starExports := ["index.ts", "deep.ts"] },
    { path := "index.ts", starExports := ["mid.ts"] },
    { path := "app.ts", starExports := ["index.ts"] }]

theorem star_names_accounted_brokenModules :
    DistinctPaths brokenModules ∧ "app.ts" ∈ (linkModules .linker brokenModules).value.listed "add" "core.ts" ∧
      origin? brokenModules "index.ts" "x" = none ∧
      ∃ q ∈ brokenModules, StarLeads brokenModules "index.ts" q.path ∧ ∃ e, q.reExport? "x" = some e ∧
        (⟨q.path, e.sourceModule, e.localName⟩ : Unresolved) ∈ (linkModules .linker brokenModules).value.unresolved := by
  have hd : DistinctPaths brokenModules := by unfold DistinctPaths; decide
  have hmem : { path := "app.ts", starExports := ["index.ts"] } ∈ brokenModules :=
    .tail _ (.tail _ (.tail _ (.tail _ (.head _))))
  have hnone : origin? brokenModules "index.ts" "x" = none := by decide
  obtain ⟨hlisted, _⟩ := star_names_accounted .linker hd (n := "add") hmem (.head _) (by decide) (by decide) (by decide)
  obtain ⟨_, hreported⟩ := star_names_accounted .linker hd (n := "x") hmem (.head _) (by decide) (by decide) (by decide)
  obtain ⟨q, hq, hlead, e, he, hu, _⟩ := hreported hnone
  exact ⟨hd, hlisted ⟨"core.ts", "add"⟩ (by decide) (by decide), hnone, q, hq, hlead, e, he, hu⟩

end ApiCatalog.Link
