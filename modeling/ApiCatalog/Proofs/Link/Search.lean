import Mathlib.Data.Finset.Card
import Mathlib.Data.List.Dedup
import Mathlib.Data.List.ProdSigma
import Mathlib.Logic.Relation
import ApiCatalog.Proofs.Catalog.Order

namespace ApiCatalog.Link

variable {ms : List Module}

def DistinctPaths (ms : List Module) : Prop :=
  (ms.map Module.path).Nodup

inductive Final (ms : List Module) : String × String → Origin → Prop
  | declared {m : Module} {n : String} (hm : m ∈ ms) (hn : m.declares n) :
      Final ms (m.path, n) ⟨m.path, n⟩
  | component {m : Module} {c : String} (hm : m ∈ ms) (hn : ¬ m.declares "default")
      (hc : m.components.getLast? = some c) : Final ms (m.path, "default") ⟨m.path, c⟩

/-- Where a pair that is not final passes its name on from. The first explicit re-export decides alone. -/
inductive Step (ms : List Module) : String × String → String × String → Prop
  | explicit {m : Module} {n : String} {e : ReExport} (hm : m ∈ ms)
      (hf : ∀ o, ¬ Final ms (m.path, n) o) (he : m.reExport? n = some e) :
      Step ms (m.path, n) (e.sourceModule, e.localName)
  | star {m : Module} {n t : String} (hm : m ∈ ms) (hf : ∀ o, ¬ Final ms (m.path, n) o)
      (he : ∀ e ∈ m.reExports, e.exportedName ≠ n) (hn : n ≠ "default") (ht : t ∈ m.starExports) :
      Step ms (m.path, n) (t, n)

abbrev Leads (ms : List Module) : String × String → String × String → Prop :=
  Relation.ReflTransGen (Step ms)

def final? (ms : List Module) (q : String × String) : Option Origin :=
  (moduleAt? ms q.1).bind fun m => declared? ms m q.1 q.2

def next (ms : List Module) (q : String × String) : List (String × String) :=
  match moduleAt? ms q.1 with
  | none => []
  | some m =>
    match m.reExport? q.2 with
    | some e => [(e.sourceModule, e.localName)]
    | none => if q.2 = "default" then [] else m.starExports.map fun t => (t, q.2)

/-! The relations agree with what the search looks at. -/

theorem moduleAt?_eq_some_iff (hd : DistinctPaths ms) {p : String} {m : Module} :
    moduleAt? ms p = some m ↔ m ∈ ms ∧ m.path = p := by
  have hr : (ms.reverse.map Module.path).Nodup := by
    rw [List.map_reverse]
    exact List.nodup_reverse.mpr hd
  rw [moduleAt?, find?_key_eq_some_iff hr, List.mem_reverse]

theorem moduleAt?_eq_none_iff {p : String} : moduleAt? ms p = none ↔ ∀ m ∈ ms, m.path ≠ p := by
  simp [moduleAt?, List.find?_eq_none]

theorem filter_path_eq (hd : DistinctPaths ms) {m : Module} (hm : m ∈ ms) :
    (ms.filter fun m' => m'.path == m.path) = [m] := by
  induction ms with
  | nil => cases hm
  | cons a as ih =>
    obtain ⟨ha, has⟩ := List.nodup_cons.mp hd
    have hne (x : Module) (hx : x ∈ as) : x.path ≠ a.path :=
      fun h => ha (h ▸ List.mem_map_of_mem hx)
    rcases List.mem_cons.mp hm with rfl | hm
    · simpa [List.filter_cons, List.filter_eq_nil_iff] using hne
    · have hp : a.path ≠ m.path := fun h => hne m hm h.symm
      simpa [List.filter_cons, hp] using ih has hm

theorem componentAt?_path (hd : DistinctPaths ms) {m : Module} (hm : m ∈ ms) :
    componentAt? ms m.path = m.components.getLast? := by
  simp [componentAt?, filter_path_eq hd hm]

theorem final?_eq_some_iff (hd : DistinctPaths ms) {q : String × String} {o : Origin} :
    final? ms q = some o ↔ Final ms q o := by
  obtain ⟨p, n⟩ := q
  constructor
  · intro h
    obtain ⟨m, hm, hx⟩ := Option.bind_eq_some_iff.mp h
    obtain ⟨hmem, rfl⟩ := (moduleAt?_eq_some_iff hd).mp hm
    simp only [declared?] at hx
    split at hx
    · case isTrue hn => cases hx; exact .declared hmem hn
    · case isFalse hn =>
      split at hx
      · case isTrue hdef =>
        obtain rfl : n = "default" := by simpa using hdef
        obtain ⟨c, hc, rfl⟩ := Option.map_eq_some_iff.mp hx
        exact .component hmem hn (componentAt?_path hd hmem ▸ hc)
      · cases hx
  · intro h
    cases h with
    | declared hm hn =>
      simp [final?, (moduleAt?_eq_some_iff hd).mpr ⟨hm, rfl⟩, declared?, hn]
    | component hm hn hc =>
      simp [final?, (moduleAt?_eq_some_iff hd).mpr ⟨hm, rfl⟩, declared?, hn, componentAt?_path hd hm, hc]

theorem final?_eq_none_iff (hd : DistinctPaths ms) {q : String × String} :
    final? ms q = none ↔ ∀ o, ¬ Final ms q o := by
  simp only [← final?_eq_some_iff hd, Option.eq_none_iff_forall_ne_some, ne_eq]

theorem reExport?_eq_none_iff {m : Module} {n : String} :
    m.reExport? n = none ↔ ∀ e ∈ m.reExports, e.exportedName ≠ n := by
  simp [Module.reExport?]

theorem step_iff (hd : DistinctPaths ms) {q r : String × String} :
    Step ms q r ↔ final? ms q = none ∧ r ∈ next ms q := by
  obtain ⟨p, n⟩ := q
  constructor
  · intro h
    cases h with
    | explicit hm hf he =>
      refine ⟨(final?_eq_none_iff hd).mpr hf, ?_⟩
      simp [next, (moduleAt?_eq_some_iff hd).mpr ⟨hm, rfl⟩, he]
    | star hm hf he hn ht =>
      refine ⟨(final?_eq_none_iff hd).mpr hf, ?_⟩
      simp [next, (moduleAt?_eq_some_iff hd).mpr ⟨hm, rfl⟩, reExport?_eq_none_iff.mpr he, hn, ht]
  · rintro ⟨hf, hr⟩
    have hf := (final?_eq_none_iff hd).mp hf
    simp only [next] at hr
    split at hr
    · cases hr
    · case h_2 m hm =>
      obtain ⟨hmem, rfl⟩ := (moduleAt?_eq_some_iff hd).mp hm
      split at hr
      · case h_1 e he =>
        rw [List.mem_singleton.mp hr]
        exact .explicit hmem hf he
      · case h_2 he =>
        split at hr
        · cases hr
        · case isFalse hn =>
          obtain ⟨t, ht, rfl⟩ := List.mem_map.mp hr
          exact .star hmem hf (reExport?_eq_none_iff.mp he) hn ht

theorem path_mem_of_moduleAt? {p : String} {m : Module} (h : moduleAt? ms p = some m) :
    p ∈ ms.map Module.path := by
  have hp : m.path = p := by simpa using List.find?_some h
  exact hp ▸ List.mem_map_of_mem (List.mem_reverse.mp (List.mem_of_find?_eq_some h))

/-! A search as a derivation: the pairs still to try, the pairs met before, what is found and the pairs met
after. -/

structure Fresh (ms : List Module) (seen : Visited) (q : String × String) : Prop where
  known : (moduleAt? ms q.1).isSome
  notFinal : final? ms q = none
  notMet : q ∉ seen

inductive Explores (ms : List Module) :
    List (String × String) → Visited → Option Origin → Visited → Prop
  | nil (seen : Visited) : Explores ms [] seen none seen
  | final {q qs seen o} (hq : final? ms q = some o) : Explores ms (q :: qs) seen (some o) seen
  | unknown {q qs seen x seen'} (hq : moduleAt? ms q.1 = none) (hqs : Explores ms qs seen x seen') :
      Explores ms (q :: qs) seen x seen'
  | met {q qs seen x seen'} (hf : final? ms q = none) (hq : q ∈ seen)
      (hqs : Explores ms qs seen x seen') : Explores ms (q :: qs) seen x seen'
  | found {q qs seen o seen'} (hq : Fresh ms seen q)
      (hn : Explores ms (next ms q) (q :: seen) (some o) seen') :
      Explores ms (q :: qs) seen (some o) seen'
  | missed {q qs seen between x seen'} (hq : Fresh ms seen q)
      (hn : Explores ms (next ms q) (q :: seen) none between) (hqs : Explores ms qs between x seen') :
      Explores ms (q :: qs) seen x seen'

theorem Explores.subset {qs : List (String × String)} {seen seen' : Visited} {x : Option Origin}
    (h : Explores ms qs seen x seen') : seen ⊆ seen' := by
  induction h with
  | nil | final => exact List.Subset.refl _
  | unknown _ _ ih | met _ _ _ ih => exact ih
  | found _ _ ih => exact List.subset_of_cons_subset ih
  | missed _ _ _ ihn ihqs => exact List.Subset.trans (List.subset_of_cons_subset ihn) ihqs

abbrev Reaches (ms : List Module) : String × String → String × String → Prop :=
  Relation.ReflTransGen fun q r => final? ms q = none ∧ r ∈ next ms q

theorem reaches_iff_leads (hd : DistinctPaths ms) {q r : String × String} :
    Reaches ms q r ↔ Leads ms q r := by
  have he : (fun q r => final? ms q = none ∧ r ∈ next ms q) = Step ms := by
    funext a b
    exact propext (step_iff hd).symm
  rw [Reaches, he]

theorem Explores.sound {qs : List (String × String)} {seen seen' : Visited} {x : Option Origin}
    (h : Explores ms qs seen x seen') {o : Origin} (hx : x = some o) :
    ∃ q ∈ qs, ∃ r, Reaches ms q r ∧ final? ms r = some o := by
  induction h with
  | nil => cases hx
  | @final q qs seen o' hq => exact ⟨q, List.mem_cons_self, q, .refl, hx ▸ hq⟩
  | unknown _ _ ih | met _ _ _ ih | missed _ _ _ _ ih =>
    obtain ⟨q, hq, r, hr⟩ := ih hx
    exact ⟨q, List.mem_cons_of_mem _ hq, r, hr⟩
  | @found q qs seen o' seen' hq hn ih =>
    obtain ⟨q', hq', r, hr, hf⟩ := ih hx
    exact ⟨q, List.mem_cons_self, r, .head ⟨hq.notFinal, hq'⟩ hr, hf⟩

def Settled (ms : List Module) (seen : Visited) (q : String × String) : Prop :=
  final? ms q = none ∧ (moduleAt? ms q.1 = none ∨ q ∈ seen)

theorem Settled.mono {seen seen' : Visited} {q : String × String} (h : Settled ms seen q)
    (hs : seen ⊆ seen') : Settled ms seen' q :=
  ⟨h.1, h.2.imp_right fun hq => hs hq⟩

theorem Explores.settled {qs : List (String × String)} {seen seen' : Visited} {x : Option Origin}
    (h : Explores ms qs seen x seen') (hx : x = none) :
    (∀ q ∈ qs, Settled ms seen' q) ∧
      ∀ q ∈ seen', q ∉ seen → ∀ r ∈ next ms q, Settled ms seen' r := by
  induction h with
  | nil => exact ⟨by simp, fun q hq hn => absurd hq hn⟩
  | final => cases hx
  | @unknown q qs seen x seen' hq hqs ih =>
    obtain ⟨hall, hclosed⟩ := ih hx
    have hf : final? ms q = none := by simp [final?, hq]
    exact ⟨List.forall_mem_cons.mpr ⟨⟨hf, .inl hq⟩, hall⟩, hclosed⟩
  | @met q qs seen x seen' hf hq hqs ih =>
    obtain ⟨hall, hclosed⟩ := ih hx
    exact ⟨List.forall_mem_cons.mpr ⟨⟨hf, .inr (hqs.subset hq)⟩, hall⟩, hclosed⟩
  | found => cases hx
  | @missed q qs seen between x seen' hq hn hqs ihn ihqs =>
    obtain ⟨hnext, hinner⟩ := ihn rfl
    obtain ⟨hall, hclosed⟩ := ihqs hx
    have hmet : q ∈ seen' := hqs.subset (hn.subset List.mem_cons_self)
    refine ⟨List.forall_mem_cons.mpr ⟨⟨hq.notFinal, .inr hmet⟩, hall⟩, ?_⟩
    -- A pair met on the way is the pair itself, one met below it, or one met by a later try.
    intro r hr hnot s hs
    by_cases hb : r ∈ between
    · by_cases hrq : r = q
      · exact (hnext s (hrq ▸ hs)).mono hqs.subset
      · have : r ∉ q :: seen := by simp [hrq, hnot]
        exact (hinner r hb this s hs).mono hqs.subset
    · exact hclosed r hr hb s hs

theorem next_of_unknown {q : String × String} (hq : moduleAt? ms q.1 = none) : next ms q = [] := by
  simp [next, hq]

theorem Explores.complete {q : String × String} {seen' : Visited}
    (h : Explores ms [q] [] none seen') {r : String × String} (hr : Reaches ms q r) :
    final? ms r = none := by
  obtain ⟨hstart, hclosed⟩ := h.settled rfl
  suffices Settled ms seen' r from this.1
  induction hr with
  | refl => exact hstart q List.mem_cons_self
  | @tail s r _ hstep ih =>
    rcases ih.2 with hu | hm
    · rw [next_of_unknown hu] at hstep
      cases hstep.2
    · exact hclosed s hm List.not_mem_nil r hstep.2

/-! The search follows a derivation as long as its fuel exceeds the number of pairs still to be met. -/

def tryAll (ms : List Module) (fuel : Nat) (qs : List (String × String)) :
    StateM Visited (Option Origin) :=
  qs.findSomeM? fun q => search ms fuel q.1 q.2

theorem tryAll_cons (fuel : Nat) (q : String × String) (qs : List (String × String)) (seen : Visited) :
    (tryAll ms fuel (q :: qs)).run seen =
      match (search ms fuel q.1 q.2).run seen with
      | (some o, between) => (some o, between)
      | (none, between) => (tryAll ms fuel qs).run between := by
  simp only [tryAll, List.findSomeM?, StateT.run_bind]
  rcases (search ms fuel q.1 q.2).run seen with ⟨_ | o, between⟩ <;> rfl

theorem tryAll_singleton (fuel : Nat) (q : String × String) (seen : Visited) :
    (tryAll ms fuel [q]).run seen = (search ms fuel q.1 q.2).run seen := by
  rw [tryAll_cons]
  rcases (search ms fuel q.1 q.2).run seen with ⟨_ | o, between⟩ <;> rfl

theorem findSomeM?_map {α β γ : Type} {μ : Type → Type} [Monad μ] (f : β → μ (Option γ)) (g : α → β)
    (as : List α) : (as.map g).findSomeM? f = as.findSomeM? fun a => f (g a) := by
  induction as with
  | nil => rfl
  | cons a as ih => simp only [List.map_cons, List.findSomeM?, ih]

theorem search_of_unknown (fuel : Nat) {q : String × String} (seen : Visited)
    (hq : moduleAt? ms q.1 = none) : (search ms fuel q.1 q.2).run seen = (none, seen) := by
  cases fuel <;> simp [search, hq] <;> rfl

theorem search_of_final (fuel : Nat) {q : String × String} {o : Origin} (seen : Visited)
    (hq : final? ms q = some o) : (search ms (fuel + 1) q.1 q.2).run seen = (some o, seen) := by
  obtain ⟨m, hm, ho⟩ := Option.bind_eq_some_iff.mp hq
  simp [search, hm, ho]
  rfl

theorem search_of_met (fuel : Nat) {q : String × String} {seen : Visited}
    (hf : final? ms q = none) (hq : q ∈ seen) :
    (search ms (fuel + 1) q.1 q.2).run seen = (none, seen) := by
  cases hm : moduleAt? ms q.1 with
  | none => exact search_of_unknown _ _ hm
  | some m =>
    have hd : declared? ms m q.1 q.2 = none := by simpa [final?, hm] using hf
    simp [search, hm, hd, hq]
    rfl

theorem search_of_fresh (fuel : Nat) {q : String × String} {seen : Visited} (hq : Fresh ms seen q) :
    (search ms (fuel + 1) q.1 q.2).run seen = (tryAll ms fuel (next ms q)).run (q :: seen) := by
  obtain ⟨p, n⟩ := q
  obtain ⟨m, hm⟩ := Option.isSome_iff_exists.mp hq.known
  have hd : declared? ms m p n = none := by simpa [final?, hm] using hq.notFinal
  simp only at hm ⊢
  cases he : m.reExport? n with
  | some e =>
    simp only [next, hm, he, tryAll_singleton]
    simp [search, hm, hd, hq.notMet, he]
  | none =>
    by_cases hn : n = "default"
    · subst hn
      simp only [next, hm, he, if_true]
      simp [search, hm, hd, hq.notMet, he, tryAll]
    · simp only [next, hm, he, hn, if_false, tryAll, findSomeM?_map]
      simp [search, hm, hd, hq.notMet, he, hn]

def pairs (ms : List Module) (names : List String) : Finset (String × String) :=
  ((ms.map Module.path) ×ˢ names).toFinset

def unmet (ms : List Module) (names : List String) (seen : Visited) : Nat :=
  (pairs ms names \ seen.toFinset).card

theorem unmet_le {names : List String} {seen seen' : Visited} (h : seen ⊆ seen') :
    unmet ms names seen' ≤ unmet ms names seen := by
  apply Finset.card_le_card
  intro q hq
  simp only [Finset.mem_sdiff, List.mem_toFinset] at hq ⊢
  exact ⟨hq.1, fun hs => hq.2 (h hs)⟩

theorem unmet_cons_lt {names : List String} {seen : Visited} {q : String × String}
    (hq : Fresh ms seen q) (hn : q.2 ∈ names) : unmet ms names (q :: seen) < unmet ms names seen := by
  obtain ⟨m, hm⟩ := Option.isSome_iff_exists.mp hq.known
  have hmem : q ∈ pairs ms names \ seen.toFinset := by
    simp only [pairs, Finset.mem_sdiff, List.mem_toFinset]
    exact ⟨List.mem_product.mpr ⟨path_mem_of_moduleAt? hm, hn⟩, hq.notMet⟩
  have hset : pairs ms names \ (q :: seen).toFinset = (pairs ms names \ seen.toFinset).erase q := by
    rw [List.toFinset_cons, Finset.sdiff_insert]
  rw [unmet, unmet, hset]
  exact Finset.card_erase_lt_of_mem hmem

def ClosedNames (ms : List Module) (names : List String) : Prop :=
  ∀ m ∈ ms, ∀ e ∈ m.reExports, e.localName ∈ names

theorem next_names {names : List String} (hc : ClosedNames ms names) {q : String × String}
    (hq : q.2 ∈ names) : ∀ r ∈ next ms q, r.2 ∈ names := by
  intro r hr
  simp only [next] at hr
  split at hr
  · cases hr
  · case h_2 m hm =>
    have hmem := List.mem_reverse.mp (List.mem_of_find?_eq_some hm)
    split at hr
    · case h_1 e he =>
      rw [List.mem_singleton.mp hr]
      exact hc m hmem e (List.mem_of_find?_eq_some he)
    · split at hr
      · cases hr
      · obtain ⟨t, ht, rfl⟩ := List.mem_map.mp hr
        exact hq

theorem tryAll_explores {names : List String} (hc : ClosedNames ms names) (fuel : Nat)
    (qs : List (String × String)) (seen : Visited) (hqs : ∀ q ∈ qs, q.2 ∈ names)
    (hfuel : unmet ms names seen < fuel) :
    Explores ms qs seen ((tryAll ms fuel qs).run seen).1 ((tryAll ms fuel qs).run seen).2 := by
  -- Going down a level meets a new pair, so the fuel pays for depth; along the list it stays as it is.
  induction fuel generalizing qs seen with
  | zero => omega
  | succ fuel ihf =>
    induction qs generalizing seen with
    | nil => exact .nil seen
    | cons q qs ihq =>
      obtain ⟨hq, hrest⟩ := List.forall_mem_cons.mp hqs
      rw [tryAll_cons]
      cases hf : final? ms q with
      | some o =>
        rw [search_of_final fuel seen hf]
        exact .final hf
      | none =>
        by_cases hu : moduleAt? ms q.1 = none
        · rw [search_of_unknown _ seen hu]
          exact .unknown hu (ihq seen hrest hfuel)
        · by_cases hm : q ∈ seen
          · rw [search_of_met fuel hf hm]
            exact .met hf hm (ihq seen hrest hfuel)
          · have hfresh : Fresh ms seen q := ⟨Option.isSome_iff_ne_none.mpr hu, hf, hm⟩
            have hlt := unmet_cons_lt hfresh hq
            have hin := ihf (next ms q) (q :: seen) (next_names hc hq) (by omega)
            rw [search_of_fresh fuel hfresh]
            rcases hr : (tryAll ms fuel (next ms q)).run (q :: seen) with ⟨_ | o, between⟩
            · rw [hr] at hin
              have hle : unmet ms names between ≤ unmet ms names (q :: seen) := unmet_le hin.subset
              exact .missed hfresh hin (ihq between hrest (by omega))
            · rw [hr] at hin
              exact .found hfresh hin

def askedNames (ms : List Module) (n : String) : List String :=
  n :: (ms.flatMap Module.reExports).map ReExport.localName

theorem closedNames_askedNames (n : String) : ClosedNames ms (askedNames ms n) := by
  intro m hm e he
  exact List.mem_cons_of_mem _ (List.mem_map_of_mem (List.mem_flatMap.mpr ⟨m, hm, he⟩))

theorem unmet_lt_searchBound (n : String) : unmet ms (askedNames ms n) [] < searchBound ms := by
  have hcard : unmet ms (askedNames ms n) [] ≤ ms.length * ((ms.flatMap Module.reExports).length + 1) := by
    calc unmet ms (askedNames ms n) []
        ≤ ((ms.map Module.path) ×ˢ (askedNames ms n)).length := by
          simpa [unmet, pairs] using List.toFinset_card_le _
      _ = ms.length * ((ms.flatMap Module.reExports).length + 1) := by
          rw [List.length_product]; simp [askedNames]
  rw [searchBound, Nat.succ_mul]
  omega

theorem search_explores (p n : String) (extra : Nat) :
    Explores ms [(p, n)] [] ((search ms (searchBound ms + extra) p n).run []).1
      ((search ms (searchBound ms + extra) p n).run []).2 := by
  have hfuel : unmet ms (askedNames ms n) [] < searchBound ms + extra :=
    Nat.lt_of_lt_of_le (unmet_lt_searchBound n) (Nat.le_add_right _ _)
  have h := tryAll_explores (closedNames_askedNames n) _ [(p, n)] [] (by simp [askedNames]) hfuel
  rwa [tryAll_singleton] at h

theorem origin?_explores (p n : String) : ∃ seen', Explores ms [(p, n)] [] (origin? ms p n) seen' :=
  ⟨_, search_explores p n 0⟩

theorem exists_reaches_of_origin? {p n : String} {o : Origin} (h : origin? ms p n = some o) :
    ∃ q, Reaches ms (p, n) q ∧ final? ms q = some o := by
  obtain ⟨seen', hx⟩ := @origin?_explores ms p n
  obtain ⟨q, hq, r, hr⟩ := hx.sound h
  exact ⟨r, List.mem_singleton.mp hq ▸ hr⟩

theorem final?_of_origin?_eq_none {p n : String} (h : origin? ms p n = none) {q : String × String}
    (hq : Reaches ms (p, n) q) : final? ms q = none := by
  obtain ⟨seen', hx⟩ := @origin?_explores ms p n
  rw [h] at hx
  exact hx.complete hq

end ApiCatalog.Link
