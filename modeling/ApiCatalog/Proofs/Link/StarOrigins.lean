import ApiCatalog.Proofs.Link.Exporters

/-!
Which origin a module passes on under a name that it has from star exports alone. Several star exports may bring
different declarations of one name; the search from the module decides for one of them.
-/

namespace ApiCatalog.Link

variable {ms : List Module}

def Live (ms : List Module) (q : String × String) : Prop :=
  ∃ r o, Reaches ms q r ∧ final? ms r = some o

theorem Live.of_next {q r : String × String} (hq : final? ms q = none) (hr : r ∈ next ms q) (h : Live ms r) :
    Live ms q := by
  obtain ⟨s, o, hs, ho⟩ := h
  exact ⟨s, o, .head ⟨hq, hr⟩ hs, ho⟩

theorem Explores.live {qs : List (String × String)} {seen seen' : Visited} {o : Origin}
    (h : Explores ms qs seen (some o) seen') : ∃ q ∈ qs, Live ms q := by
  obtain ⟨q, hq, r, hr, ho⟩ := h.sound rfl
  exact ⟨q, hq, r, o, hr, ho⟩

theorem Explores.reached {qs : List (String × String)} {seen seen' : Visited} {x : Option Origin}
    (h : Explores ms qs seen x seen') {r : String × String} (hr : r ∈ seen') :
    r ∈ seen ∨ ∃ q ∈ qs, Reaches ms q r := by
  induction h with
  | nil | final => exact .inl hr
  | unknown _ _ ih | met _ _ _ ih =>
    rcases ih hr with hs | ⟨q, hq, hqr⟩
    · exact .inl hs
    · exact .inr ⟨q, List.mem_cons_of_mem _ hq, hqr⟩
  | @found q qs seen o seen' hq hn ih =>
    rcases ih hr with hs | ⟨p, hp, hpr⟩
    · rcases List.mem_cons.mp hs with rfl | hs
      · exact .inr ⟨_, List.mem_cons_self, .refl⟩
      · exact .inl hs
    · exact .inr ⟨q, List.mem_cons_self, .head ⟨hq.notFinal, hp⟩ hpr⟩
  | @missed q qs seen between x seen' hq hn hqs ihn ihqs =>
    rcases ihqs hr with hb | ⟨p, hp, hpr⟩
    · rcases ihn hb with hs | ⟨p, hp, hpr⟩
      · rcases List.mem_cons.mp hs with rfl | hs
        · exact .inr ⟨_, List.mem_cons_self, .refl⟩
        · exact .inl hs
      · exact .inr ⟨q, List.mem_cons_self, .head ⟨hq.notFinal, hp⟩ hpr⟩
    · exact .inr ⟨p, List.mem_cons_of_mem _ hp, hpr⟩

/-! Searches that have met the same live pairs find the same. -/

/-- Two sets of met pairs that differ, within `S`, in pairs only from which nothing can be found. -/
def Agree (ms : List Module) (S : String × String → Prop) (seen met : Visited) : Prop :=
  ∀ q, S q → Live ms q → (q ∈ seen ↔ q ∈ met)

variable {S : String × String → Prop} {seen met : Visited}

theorem Agree.symm (h : Agree ms S seen met) : Agree ms S met seen :=
  fun q hq hl => (h q hq hl).symm

theorem Agree.cons (h : Agree ms S seen met) (q : String × String) : Agree ms S (q :: seen) (q :: met) := by
  intro p hp hl
  simp [h p hp hl]

theorem Agree.of_missed (h : Agree ms S seen met) {q : String × String} {between : Visited}
    (hq : Fresh ms met q) (hd : ¬ Live ms q) (hn : Explores ms (next ms q) (q :: met) none between) :
    Agree ms S seen between := by
  intro p hp hl
  rw [h p hp hl]
  constructor
  · intro hm
    exact hn.subset (List.mem_cons_of_mem _ hm)
  · intro hb
    rcases hn.reached hb with hm | ⟨r, hr, hrp⟩
    · rcases List.mem_cons.mp hm with rfl | hm
      · exact absurd hl hd
      · exact hm
    · obtain ⟨s, o, hs, ho⟩ := hl
      exact absurd (Live.of_next hq.notFinal hr ⟨s, o, hrp.trans hs, ho⟩) hd

theorem not_found_of_dead {q : String × String} {o : Origin} {seen' : Visited} (hq : Fresh ms seen q)
    (hd : ¬ Live ms q) : ¬ Explores ms (next ms q) (q :: seen) (some o) seen' := by
  intro h
  obtain ⟨r, hr, hl⟩ := h.live
  exact hd (hl.of_next hq.notFinal hr)

theorem Explores.agree (hS : ∀ q, S q → final? ms q = none → ∀ r ∈ next ms q, S r)
    {qs : List (String × String)} {seen' met' : Visited} {x y : Option Origin}
    (h : Explores ms qs seen x seen') (h' : Explores ms qs met y met') (hqs : ∀ q ∈ qs, S q)
    (ha : Agree ms S seen met) : x = y ∧ (x = none → Agree ms S seen' met') := by
  -- Both derivations treat the first pair alike, unless it is one from which nothing can be found.
  induction h generalizing met y met' with
  | nil seen =>
    cases h'
    exact ⟨rfl, fun _ => ha⟩
  | @final q qs seen o hq =>
    cases h' with
    | final hq' => exact ⟨hq.symm.trans hq', nofun⟩
    | unknown hu => simp [final?, hu] at hq
    | met hf => simp [hq] at hf
    | found hf | missed hf => simp [hf.notFinal] at hq
  | @unknown q qs seen x seen' hu hrest ih =>
    have hqs := (List.forall_mem_cons.mp hqs).2
    cases h' with
    | final hq' => simp [final?, hu] at hq'
    | unknown _ hrest' => exact ih hrest' hqs ha
    | met _ _ hrest' => exact ih hrest' hqs ha
    | found hf | missed hf => exact absurd hf.known (by simp [hu])
  | @met q qs seen x seen' hf hm hrest ih =>
    obtain ⟨hq, hqs⟩ := List.forall_mem_cons.mp hqs
    cases h' with
    | final hq' => simp [hf] at hq'
    | unknown _ hrest' => exact ih hrest' hqs ha
    | met _ _ hrest' => exact ih hrest' hqs ha
    | found hfresh hn' =>
      have hd : ¬ Live ms q := fun hl => hfresh.notMet ((ha q hq hl).mp hm)
      exact absurd hn' (not_found_of_dead hfresh hd)
    | missed hfresh hn' hrest' =>
      have hd : ¬ Live ms q := fun hl => hfresh.notMet ((ha q hq hl).mp hm)
      exact ih hrest' hqs (ha.of_missed hfresh hd hn')
  | @found q qs seen o seen' hfresh hn ih =>
    obtain ⟨hq, -⟩ := List.forall_mem_cons.mp hqs
    obtain ⟨r, hr, hl⟩ := hn.live
    have hlive : Live ms q := hl.of_next hfresh.notFinal hr
    have hnext := hS q hq hfresh.notFinal
    cases h' with
    | final hq' => simp [hfresh.notFinal] at hq'
    | unknown hu => exact absurd hfresh.known (by simp [hu])
    | met _ hm => exact absurd ((ha q hq hlive).mpr hm) hfresh.notMet
    | found _ hn' => exact ⟨(ih hn' hnext (ha.cons q)).1, nofun⟩
    | missed _ hn' => cases (ih hn' hnext (ha.cons q)).1
  | @missed q qs seen between x seen' hfresh hn hrest ihn ihqs =>
    obtain ⟨hq, hqs⟩ := List.forall_mem_cons.mp hqs
    have hnext := hS q hq hfresh.notFinal
    cases h' with
    | final hq' => simp [hfresh.notFinal] at hq'
    | unknown hu => exact absurd hfresh.known (by simp [hu])
    | met _ hm hrest' =>
      have hd : ¬ Live ms q := fun hl => hfresh.notMet ((ha q hq hl).mpr hm)
      exact ihqs hrest' hqs (ha.symm.of_missed hfresh hd hn).symm
    | found _ hn' => cases (ihn hn' hnext (ha.cons q)).1
    | missed _ hn' hrest' => exact ihqs hrest' hqs ((ihn hn' hnext (ha.cons q)).2 rfl)

/-! The search from a module with star exports -/

theorem Explores.skip {pre qs : List (String × String)} {seen' : Visited} {x : Option Origin}
    (h : Explores ms (pre ++ qs) seen x seen') (hd : ∀ q ∈ pre, ¬ Live ms q) :
    ∃ between, Explores ms qs between x seen' ∧ Agree ms (fun _ => True) seen between := by
  induction pre generalizing seen with
  | nil => exact ⟨seen, h, fun _ _ _ => Iff.rfl⟩
  | cons q pre ih =>
    obtain ⟨hq, hpre⟩ := List.forall_mem_cons.mp hd
    cases h with
    | final ho => exact absurd ⟨q, _, .refl, ho⟩ hq
    | unknown _ hrest => exact ih hrest hpre
    | met _ _ hrest => exact ih hrest hpre
    | found hfresh hn => exact absurd hn (not_found_of_dead hfresh hq)
    | @missed _ _ _ between _ _ hfresh hn hrest =>
      obtain ⟨later, hx, ha⟩ := ih hrest hpre
      have hb : Agree ms (fun _ => True) seen between :=
        Agree.of_missed (fun _ _ _ => Iff.rfl) hfresh hq hn
      exact ⟨later, hx, fun p hp hl => (hb p hp hl).trans (ha p hp hl)⟩

theorem Explores.head {q : String × String} {qs : List (String × String)} {seen' : Visited} {x : Option Origin}
    (h : Explores ms (q :: qs) seen x seen') :
    ∃ y between, Explores ms [q] seen y between ∧ (y ≠ none → x = y) := by
  cases h with
  | final ho => exact ⟨_, _, .final ho, fun _ => rfl⟩
  | unknown hu => exact ⟨none, seen, .unknown hu (.nil seen), fun hn => absurd rfl hn⟩
  | met hf hm => exact ⟨none, seen, .met hf hm (.nil seen), fun hn => absurd rfl hn⟩
  | found hfresh hn => exact ⟨_, _, .found hfresh hn, fun _ => rfl⟩
  | missed hfresh hn => exact ⟨none, _, .missed hfresh hn (.nil _), fun hn => absurd rfl hn⟩

theorem origin?_explores_next {p n : String} (hk : (moduleAt? ms p).isSome) (hf : final? ms (p, n) = none) :
    ∃ seen', Explores ms (next ms (p, n)) [(p, n)] (origin? ms p n) seen' := by
  obtain ⟨seen', h⟩ := @origin?_explores ms p n
  generalize origin? ms p n = x at h ⊢
  cases h with
  | final ho => simp [hf] at ho
  | unknown hu => simp [hu] at hk
  | met _ hm => cases hm
  | found _ hn => exact ⟨_, hn⟩
  | missed _ hn hnil =>
    cases hnil
    exact ⟨_, hn⟩

theorem live_iff {p n : String} : Live ms (p, n) ↔ (origin? ms p n).isSome := by
  constructor
  · rintro ⟨r, o, hr, ho⟩
    rw [Option.isSome_iff_ne_none]
    intro hnone
    simp [final?_of_origin?_eq_none hnone hr] at ho
  · intro h
    obtain ⟨o, ho⟩ := Option.isSome_iff_exists.mp h
    obtain ⟨r, hr, hf⟩ := exists_reaches_of_origin? ho
    exact ⟨r, o, hr, hf⟩

structure FromStars (ms : List Module) (m : Module) (n : String) : Prop where
  known : moduleAt? ms m.path = some m
  notDefault : n ≠ "default"
  notOwn : n ∉ m.ownNames

variable {m : Module} {n t : String} {o : Origin}

theorem FromStars.final? (h : FromStars ms m n) : final? ms (m.path, n) = none := by
  rw [Option.eq_none_iff_forall_ne_some]
  intro o ho
  obtain ⟨m', hm', hd⟩ := Option.bind_eq_some_iff.mp ho
  cases h.known.symm.trans hm'
  exact h.notOwn (ownNames_of_declared? hd h.notDefault)

theorem FromStars.next (h : FromStars ms m n) : next ms (m.path, n) = m.starExports.map fun t => (t, n) := by
  have hr : m.reExport? n = none := by
    rw [reExport?_eq_none_iff]
    intro e he hname
    exact h.notOwn (List.mem_append_right _ (hname ▸ List.mem_map_of_mem he))
  simp [Link.next, h.known, hr, h.notDefault]

theorem FromStars.reaches (h : FromStars ms m n) (ht : t ∈ m.starExports) {q : String × String}
    (hq : Reaches ms (t, n) q) : Reaches ms (m.path, n) q := by
  apply hq.head
  refine ⟨h.final?, ?_⟩
  rw [h.next]
  exact List.mem_map_of_mem ht

theorem FromStars.origin?_of_first (h : FromStars ms m n)
    (ht : m.starExports.find? (fun t => (origin? ms t n).isSome) = some t) (ho : origin? ms t n = some o)
    (hback : ¬ Reaches ms (t, n) (m.path, n)) : origin? ms m.path n = some o := by
  obtain ⟨seen', hx⟩ := origin?_explores_next (n := n) (by simp [h.known]) h.final?
  obtain ⟨_, pre, post, heq, hpre⟩ := List.find?_eq_some_iff_append.mp ht
  rw [h.next, heq, List.map_append] at hx
  have hdead : ∀ q ∈ pre.map (fun t => (t, n)), ¬ Live ms q := by
    intro q hq
    obtain ⟨s, hs, rfl⟩ := List.mem_map.mp hq
    have hnone := hpre s hs
    rw [live_iff]
    simpa using hnone
  obtain ⟨between, hrest, hagree⟩ := hx.skip hdead
  obtain ⟨y, later, hy, hxy⟩ := hrest.head
  -- The search from the target alone has met nothing, this one only the module itself and what leads nowhere.
  obtain ⟨seen₀, h₀⟩ := @origin?_explores ms t n
  have ha : Agree ms (Reaches ms (t, n)) [] between := by
    intro p hp hl
    rw [← hagree p trivial hl]
    have hne : p ≠ (m.path, n) := fun heq => hback (heq ▸ hp)
    simp [hne]
  have hS : ∀ q, Reaches ms (t, n) q → Link.final? ms q = none → ∀ r ∈ Link.next ms q, Reaches ms (t, n) r :=
    fun q hq hf r hr => hq.tail ⟨hf, hr⟩
  have hall : ∀ q ∈ [(t, n)], Reaches ms (t, n) q := by simp [Relation.ReflTransGen.refl]
  have hyo : some o = y := by
    rw [← ho]
    exact (h₀.agree hS hy hall ha).1
  rw [hxy (by simp [← hyo]), hyo]

def OneOrigin (ms : List Module) (q : String × String) : Prop :=
  ∀ r s o o', Leads ms q r → Final ms r o → Leads ms q s → Final ms s o' → o = o'

/-- A module that has a name from star exports alone is listed for every origin that one of its star exports has for
the name. A search for the name in the module itself has a result too. It is that origin if no other can be
reached from the module, or if the star export is the first with an origin and does not lead back to the module; a
further re-export of the name is then linked to the same declaration. -/
theorem star_origin (channel : Channel) (hd : DistinctPaths ms) (hm : m ∈ ms) (hdefault : n ≠ "default")
    (hown : n ∉ m.ownNames) (ht : t ∈ m.starExports) (ho : origin? ms t n = some o) :
    (m.path ≠ o.module → m.path ∈ (linkModules channel ms).value.listed o.name o.module) ∧
    (∃ o' q, origin? ms m.path n = some o' ∧ Leads ms (m.path, n) q ∧ Final ms q o') ∧
    (OneOrigin ms (m.path, n) ∨
        m.starExports.find? (fun t => (origin? ms t n).isSome) = some t ∧
          ¬ Leads ms (t, n) (m.path, n) →
      origin? ms m.path n = some o ∧
        ∀ k ∈ ms, ∀ e ∈ k.reExports, e.sourceModule = m.path → e.localName = n → k.path ≠ o.module →
          k.path ∈ (linkModules channel ms).value.listed o.name o.module) := by
  have hstars : FromStars ms m n := ⟨(moduleAt?_eq_some_iff hd).mpr ⟨hm, rfl⟩, hdefault, hown⟩
  obtain ⟨r, hr, hfinal⟩ := exists_reaches_of_origin? ho
  have hmr := hstars.reaches ht hr
  have hsome : (origin? ms m.path n).isSome := live_iff.mp ⟨r, o, hmr, hfinal⟩
  obtain ⟨o', ho'⟩ := Option.isSome_iff_exists.mp hsome
  obtain ⟨q, hq, hq'⟩ := exists_reaches_of_origin? ho'
  have hlisted (k : Module) (hk : k ∈ ms) (hp : PassesOn ms k o) (hne : k.path ≠ o.module) :
      k.path ∈ (linkModules channel ms).value.listed o.name o.module := by
    rw [Links.listed_eq_exportersOf]
    exact mem_exportersOf_ofModules.mpr ⟨hne, k, hk, rfl, hp⟩
  refine ⟨?_, ?_, ?_⟩
  · exact hlisted m hm (.inr ⟨t, ht, n, hdefault, hown, ho⟩)
  · exact ⟨o', q, ho', (reaches_iff_leads hd).mp hq, (final?_eq_some_iff hd).mp hq'⟩
  · intro hcond
    have heq : origin? ms m.path n = some o := by
      rcases hcond with hone | ⟨hfirst, hback⟩
      · rw [ho', hone q r o' o ((reaches_iff_leads hd).mp hq) ((final?_eq_some_iff hd).mp hq')
          ((reaches_iff_leads hd).mp hmr) ((final?_eq_some_iff hd).mp hfinal)]
      · exact hstars.origin?_of_first hfirst ho (fun h => hback ((reaches_iff_leads hd).mp h))
    refine ⟨heq, ?_⟩
    intro k hk e he hsource hlocal hne
    exact hlisted k hk (.inl ⟨e, he, by rw [hsource, hlocal, heq]⟩) hne

def sharedModules : List Module :=
  [{ path := "core.ts", declarations := [{ name := "add", kind := .function }] },
    { path := "index.ts", starExports := ["core.ts", "more.ts"] },
    { path := "more.ts", starExports := ["index.ts", "core.ts"] },
    { path := "app.ts", reExports := [⟨"add", "index.ts", "plus"⟩] }]

theorem star_origin_sharedModules :
    DistinctPaths sharedModules ∧
      "index.ts" ∈ (linkModules .linker sharedModules).value.listed "add" "core.ts" ∧
      origin? sharedModules "index.ts" "add" = some ⟨"core.ts", "add"⟩ ∧
      "app.ts" ∈ (linkModules .linker sharedModules).value.listed "add" "core.ts" := by
  have hd : DistinctPaths sharedModules := by unfold DistinctPaths; decide
  have hcore : final? sharedModules ("core.ts", "add") = some ⟨"core.ts", "add"⟩ := by decide
  have hback : ¬ Leads sharedModules ("core.ts", "add") ("index.ts", "add") := by
    intro h
    rcases h.cases_head with heq | ⟨q, hstep, _⟩
    · exact absurd heq (by decide)
    · simp [((step_iff hd).mp hstep).1] at hcore
  have h := star_origin .linker hd (m := { path := "index.ts", starExports := ["core.ts", "more.ts"] }) (n := "add")
    (t := "core.ts") (o := ⟨"core.ts", "add"⟩) (.tail _ (.head _)) (by decide) (by decide) (.head _) (by decide)
  obtain ⟨hlisted, _, hsame⟩ := h
  obtain ⟨horigin, hfurther⟩ := hsame (.inr ⟨by decide, hback⟩)
  refine ⟨hd, hlisted (by decide), horigin, ?_⟩
  exact hfurther _ (.tail _ (.tail _ (.tail _ (.head _)))) _ (.head _) rfl rfl (by decide)

def rivalModules : List Module :=
  [{ path := "a.ts", declarations := [{ name := "x", kind := .value }] },
    { path := "b.ts", declarations := [{ name := "x", kind := .value }] },
    { path := "index.ts", starExports := ["a.ts", "b.ts"] }]

def roundModules : List Module :=
  [{ path := "index.ts", starExports := ["round.ts", "b.ts"] },
    { path := "round.ts", starExports := ["index.ts", "a.ts"] },
    { path := "a.ts", declarations := [{ name := "x", kind := .value }] },
    { path := "b.ts", declarations := [{ name := "x", kind := .value }] }]

theorem rival_stars_differ :
    (¬ ∀ ms : List Module, DistinctPaths ms → ∀ m ∈ ms, ∀ n t o, n ≠ "default" → n ∉ m.ownNames →
      t ∈ m.starExports → origin? ms t n = some o →
      m.path ∈ (linkModules .linker ms).value.listed o.name o.module → origin? ms m.path n = some o) ∧
    origin? roundModules "round.ts" "x" = some ⟨"b.ts", "x"⟩ ∧
      origin? roundModules "b.ts" "x" = some ⟨"b.ts", "x"⟩ ∧
      origin? roundModules "index.ts" "x" = some ⟨"a.ts", "x"⟩ := by
  refine ⟨?_, by decide, by decide, by decide⟩
  intro hall
  have h := hall rivalModules (by unfold DistinctPaths; decide) _ (.tail _ (.tail _ (.head _))) "x" "b.ts"
    ⟨"b.ts", "x"⟩ (by decide) (by decide) (.tail _ (.head _)) (by decide)
  rw [Links.listed_eq_exportersOf] at h
  have horigin := h (mem_exportersOf_ofModules.mpr ⟨by decide, _, .tail _ (.tail _ (.head _)), rfl,
    .inr ⟨"b.ts", .tail _ (.head _), "x", by decide, by decide, by decide⟩⟩)
  exact absurd horigin (by decide)

end ApiCatalog.Link
