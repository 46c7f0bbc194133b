import ApiCatalog.Proofs.Link.StarClosure

/-!
All names that a module exports. Gathering them ends whatever diamonds and cycles the star exports form. A call inside
may leave names out, since a module that was met before gives nothing, but then another call has gathered them: the
outermost call gives the closure under star exports.
-/

namespace ApiCatalog.Link

variable {ms : List Module}

/-! Derivations are finite trees of calls. There is one for each call, and no module is entered twice in it. -/

theorem Gathers.unique {ts seen seen₁ seen₂ : List String} {ns₁ ns₂ : List (List String)}
    (h₁ : Gathers ms ts seen ns₁ seen₁) (h₂ : Gathers ms ts seen ns₂ seen₂) : ns₁ = ns₂ ∧ seen₁ = seen₂ := by
  -- A path may be both unknown and met before, and gives nothing in either case.
  induction h₁ generalizing ns₂ seen₂ with
  | nil =>
    cases h₂
    exact ⟨rfl, rfl⟩
  | unknown ht _ ih =>
    cases h₂ with
    | unknown _ hts | met _ hts =>
      obtain ⟨rfl, rfl⟩ := ih hts
      exact ⟨rfl, rfl⟩
    | fresh hm _ _ _ => cases ht.symm.trans hm
  | met ht _ ih =>
    cases h₂ with
    | unknown _ hts | met _ hts =>
      obtain ⟨rfl, rfl⟩ := ih hts
      exact ⟨rfl, rfl⟩
    | fresh _ hfresh _ _ => exact absurd ht hfresh
  | fresh hm ht _ _ ihp ihts =>
    cases h₂ with
    | unknown hnone _ => cases hnone.symm.trans hm
    | met hmet _ => exact absurd hmet ht
    | fresh hm' _ hp hts =>
      cases hm.symm.trans hm'
      obtain ⟨rfl, rfl⟩ := ihp hp
      obtain ⟨rfl, rfl⟩ := ihts hts
      exact ⟨rfl, rfl⟩

theorem Gathers.nodup {ts seen seen' : List String} {ns : List (List String)} (h : Gathers ms ts seen ns seen')
    (hseen : seen.Nodup) : seen'.Nodup := by
  induction h with
  | nil => exact hseen
  | unknown _ _ ih | met _ _ ih => exact ih hseen
  | fresh _ ht _ _ ihp ihts => exact ihts (ihp (List.nodup_cons.mpr ⟨ht, hseen⟩))

theorem gather_eq_exportedNames {p : String} {seen : List String} (h : Gathers ms [p] [] [exportedNames ms p] seen)
    {fuel : Nat} (hfuel : ms.length < fuel) : (gather ms fuel p).run [] = (exportedNames ms p, seen) := by
  obtain ⟨hnames, hseen⟩ := (gather_gathers hfuel p).unique h
  exact Prod.ext (List.singleton_inj.mp hnames) hseen

/-! Star exports between the modules of the list -/

def StarExport (ms : List Module) (m q : Module) : Prop :=
  m ∈ ms ∧ q ∈ ms ∧ q.path ∈ m.starExports

theorem StarExport.edge (hd : DistinctPaths ms) {m q : Module} (h : StarExport ms m q) :
    StarEdge ms m.path q.path :=
  ⟨m, (moduleAt?_eq_some_iff hd).mpr ⟨h.1, rfl⟩, h.2.2⟩

theorem reflTransGen_of_starLeads (hd : DistinctPaths ms) {m q : Module} {t : String} (hm : m ∈ ms)
    (h : StarLeads ms m.path t) (hq : moduleAt? ms t = some q) : Relation.ReflTransGen (StarExport ms) m q := by
  -- A path on the way has a star export, so that it is the path of a module.
  induction h generalizing q with
  | refl =>
    rw [(moduleAt?_eq_some_iff hd).mpr ⟨hm, rfl⟩] at hq
    cases hq
    exact .refl
  | tail _ hedge ih =>
    obtain ⟨k, hk, ht⟩ := hedge
    obtain ⟨hkms, _⟩ := (moduleAt?_eq_some_iff hd).mp hk
    obtain ⟨hqms, rfl⟩ := (moduleAt?_eq_some_iff hd).mp hq
    exact (ih hk).tail ⟨hkms, hqms, ht⟩

theorem offers_iff (hd : DistinctPaths ms) {m : Module} {n : String} (hm : m ∈ ms) :
    Offers ms m.path n ↔
      n ∈ m.ownNames ∨ n ≠ "default" ∧ ∃ q, Relation.TransGen (StarExport ms) m q ∧ n ∈ q.ownNames := by
  constructor
  · rintro ⟨t, q, hlead, hq, hn, hdefault⟩
    rcases Relation.reflTransGen_iff_eq_or_transGen.mp (reflTransGen_of_starLeads hd hm hlead hq) with rfl | hsteps
    · exact .inl hn
    · by_cases hne : n = "default"
      · rw [hdefault hne, (moduleAt?_eq_some_iff hd).mpr ⟨hm, rfl⟩] at hq
        cases hq
        exact .inl hn
      · exact .inr ⟨hne, q, hsteps, hn⟩
  · rintro (hn | ⟨hne, q, hsteps, hn⟩)
    · exact ⟨m.path, m, .refl, (moduleAt?_eq_some_iff hd).mpr ⟨hm, rfl⟩, hn, fun _ => rfl⟩
    · have hq : q ∈ ms := by
        obtain ⟨_, _, hlast⟩ := Relation.TransGen.tail'_iff.mp hsteps
        exact hlast.2.1
      have hlead : StarLeads ms m.path q.path :=
        (hsteps.lift Module.path fun _ _ h => h.edge hd).to_reflTransGen
      exact ⟨q.path, q, hlead, (moduleAt?_eq_some_iff hd).mpr ⟨hq, rfl⟩, hn, fun h => absurd h hne⟩

theorem exportedNames_star_closure (hd : DistinctPaths ms) {m : Module} (hm : m ∈ ms) :
    (∃ seen, Gathers ms [m.path] [] [exportedNames ms m.path] seen ∧ seen.Nodup ∧
      (∀ names seen', Gathers ms [m.path] [] [names] seen' → names = exportedNames ms m.path) ∧
      ∀ fuel, ms.length < fuel → (gather ms fuel m.path).run [] = (exportedNames ms m.path, seen)) ∧
    ∀ n, n ∈ exportedNames ms m.path ↔
      n ∈ m.ownNames ∨ n ≠ "default" ∧ ∃ q, Relation.TransGen (StarExport ms) m q ∧ n ∈ q.ownNames := by
  constructor
  · obtain ⟨seen, h⟩ := @exportedNames_gathers ms m.path
    refine ⟨seen, h, h.nodup List.nodup_nil, ?_, fun fuel hfuel => gather_eq_exportedNames h hfuel⟩
    intro names seen' h'
    exact List.singleton_inj.mp (h'.unique h).1
  · intro n
    rw [mem_exportedNames_iff, offers_iff hd hm]

def leafModule : Module where
  path := "leaf.ts"
  declarations := [{ name := "add", kind := .function }, { name := "default", kind := .value }]

def leftModule : Module where
  path := "left.ts"
  reExports := [⟨"add", "leaf.ts", "sum"⟩]
  starExports := ["leaf.ts", "top.ts"]

def rightModule : Module where
  path := "right.ts"
  starExports := ["gone.ts", "leaf.ts"]

def topModule : Module where
  path := "top.ts"
  starExports := ["left.ts", "right.ts"]

theorem exportedNames_star_closure_diamond :
    let ms := [topModule, leftModule, rightModule, leafModule]
    DistinctPaths ms ∧ topModule ∈ ms ∧ "sum" ∈ exportedNames ms "top.ts" ∧ "add" ∈ exportedNames ms "top.ts" ∧
      (gather ms 5 "top.ts").run [] = (gather ms 50 "top.ts").run [] := by
  intro ms
  have hd : DistinctPaths ms := by unfold DistinctPaths; decide
  have htop : topModule ∈ ms := List.mem_cons_self
  obtain ⟨⟨seen, _, _, _, hfuel⟩, hnames⟩ := exportedNames_star_closure hd htop
  have hleft : StarExport ms topModule leftModule := ⟨htop, .tail _ (.head _), .head _⟩
  have hleaf : StarExport ms leftModule leafModule := ⟨.tail _ (.head _), .tail _ (.tail _ (.tail _ (.head _))), .head _⟩
  refine ⟨hd, htop, ?_, ?_, (hfuel 5 (by decide)).trans (hfuel 50 (by decide)).symm⟩
  · exact (hnames "sum").mpr (.inr ⟨by decide, leftModule, .single hleft, by decide⟩)
  · exact (hnames "add").mpr (.inr ⟨by decide, leafModule, .tail (.single hleft) hleaf, by decide⟩)

end ApiCatalog.Link
