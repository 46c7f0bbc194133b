import Mathlib.Data.Finset.Card
import ApiCatalog.Proofs.Link.Search

namespace ApiCatalog.Link

variable {ms : List Module}

def StarEdge (ms : List Module) (p t : String) : Prop :=
  ∃ m, moduleAt? ms p = some m ∧ t ∈ m.starExports

abbrev StarLeads (ms : List Module) : String → String → Prop :=
  Relation.ReflTransGen (StarEdge ms)

def Offers (ms : List Module) (p n : String) : Prop :=
  ∃ q m, StarLeads ms p q ∧ moduleAt? ms q = some m ∧ n ∈ m.ownNames ∧ (n = "default" → q = p)

/-! The names of several modules as a derivation: the paths to visit, the paths met before, the names of
each path and the paths met after. -/

def namesOf (m : Module) (passed : List (List String)) : List String :=
  m.ownNames ++ passed.flatten.filter (· != "default")

inductive Gathers (ms : List Module) :
    List String → List String → List (List String) → List String → Prop
  | nil (seen : List String) : Gathers ms [] seen [] seen
  | unknown {t ts seen ns seen'} (ht : moduleAt? ms t = none) (hts : Gathers ms ts seen ns seen') :
      Gathers ms (t :: ts) seen ([] :: ns) seen'
  | met {t ts seen ns seen'} (ht : t ∈ seen) (hts : Gathers ms ts seen ns seen') :
      Gathers ms (t :: ts) seen ([] :: ns) seen'
  | fresh {t ts m seen passed between ns seen'} (hm : moduleAt? ms t = some m) (ht : t ∉ seen)
      (hp : Gathers ms m.starExports (t :: seen) passed between) (hts : Gathers ms ts between ns seen') :
      Gathers ms (t :: ts) seen (namesOf m passed :: ns) seen'

theorem Gathers.subset {ts seen seen' : List String} {ns : List (List String)}
    (h : Gathers ms ts seen ns seen') : seen ⊆ seen' := by
  induction h with
  | nil => exact List.Subset.refl _
  | unknown _ _ ih | met _ _ ih => exact ih
  | fresh _ _ _ _ ihp ihts => exact List.Subset.trans (List.subset_of_cons_subset ihp) ihts

theorem Offers.of_star {p t n : String} (h : Offers ms t n) (he : StarEdge ms p t) (hn : n ≠ "default") :
    Offers ms p n := by
  obtain ⟨q, m, hq, hm, hmem, _⟩ := h
  exact ⟨q, m, .head he hq, hm, hmem, fun hd => absurd hd hn⟩

theorem Gathers.sound {ts seen seen' : List String} {ns : List (List String)}
    (h : Gathers ms ts seen ns seen') {n : String} (hn : n ∈ ns.flatten) :
    ∃ t ∈ ts, Offers ms t n := by
  induction h with
  | nil => cases hn
  | unknown _ _ ih | met _ _ ih =>
    obtain ⟨t, ht, ho⟩ := ih (by simpa using hn)
    exact ⟨t, List.mem_cons_of_mem _ ht, ho⟩
  | @fresh t ts m seen passed between ns seen' hm ht hp hts ihp ihts =>
    rw [List.flatten_cons, List.mem_append] at hn
    rcases hn with hn | hn
    · refine ⟨t, List.mem_cons_self, ?_⟩
      rw [namesOf, List.mem_append, List.mem_filter] at hn
      rcases hn with hown | ⟨hpassed, hne⟩
      · exact ⟨t, m, .refl, hm, hown, fun _ => rfl⟩
      · obtain ⟨u, hu, ho⟩ := ihp hpassed
        exact ho.of_star ⟨m, hm, hu⟩ (by simpa using hne)
    · obtain ⟨u, hu, ho⟩ := ihts hn
      exact ⟨u, List.mem_cons_of_mem _ hu, ho⟩

def Entered (ms : List Module) (seen : List String) (t : String) : Prop :=
  moduleAt? ms t = none ∨ t ∈ seen

theorem Entered.mono {seen seen' : List String} {t : String} (h : Entered ms seen t)
    (hs : seen ⊆ seen') : Entered ms seen' t :=
  h.imp_right fun ht => hs ht

theorem Gathers.complete {ts seen seen' : List String} {ns : List (List String)}
    (h : Gathers ms ts seen ns seen') :
    (∀ t ∈ ts, Entered ms seen' t) ∧
      ∀ q ∈ seen', q ∉ seen → ∀ m, moduleAt? ms q = some m →
        (∀ n ∈ m.ownNames, n ≠ "default" → n ∈ ns.flatten) ∧ ∀ t ∈ m.starExports, Entered ms seen' t := by
  induction h with
  | nil => exact ⟨by simp, fun q hq hn => absurd hq hn⟩
  | @unknown t ts seen ns seen' ht hts ih =>
    obtain ⟨hall, hclosed⟩ := ih
    exact ⟨List.forall_mem_cons.mpr ⟨.inl ht, hall⟩, by simpa using hclosed⟩
  | @met t ts seen ns seen' ht hts ih =>
    obtain ⟨hall, hclosed⟩ := ih
    exact ⟨List.forall_mem_cons.mpr ⟨.inr (hts.subset ht), hall⟩, by simpa using hclosed⟩
  | @fresh t ts m seen passed between ns seen' hm ht hp hts ihp ihts =>
    obtain ⟨htargets, hinner⟩ := ihp
    obtain ⟨hall, hclosed⟩ := ihts
    have hmet : t ∈ seen' := hts.subset (hp.subset List.mem_cons_self)
    refine ⟨List.forall_mem_cons.mpr ⟨.inr hmet, hall⟩, ?_⟩
    -- A path entered on the way is the path itself, one entered below it, or one entered later.
    intro q hq hnot m' hm'
    simp only [List.flatten_cons, List.mem_append, namesOf, List.mem_filter, bne_iff_ne, ne_eq]
    by_cases hb : q ∈ between
    · by_cases hqt : q = t
      · obtain rfl : m' = m := Option.some.inj (hm'.symm.trans (hqt ▸ hm))
        exact ⟨fun n hn _ => .inl (.inl hn), fun u hu => (htargets u hu).mono hts.subset⟩
      · obtain ⟨hnames, hstars⟩ := hinner q hb (by simp [hqt, hnot]) m' hm'
        exact ⟨fun n hn hd => .inl (.inr ⟨hnames n hn hd, hd⟩), fun u hu => (hstars u hu).mono hts.subset⟩
    · obtain ⟨hnames, hstars⟩ := hclosed q hq hb m' hm'
      exact ⟨fun n hn hd => .inr (hnames n hn hd), hstars⟩

/-! Gathering follows a derivation as long as its fuel exceeds the number of paths still to be entered. -/

def unentered (ms : List Module) (seen : List String) : Nat :=
  ((ms.map Module.path).toFinset \ seen.toFinset).card

theorem unentered_le {seen seen' : List String} (h : seen ⊆ seen') :
    unentered ms seen' ≤ unentered ms seen := by
  apply Finset.card_le_card
  intro q hq
  simp only [Finset.mem_sdiff, List.mem_toFinset] at hq ⊢
  exact ⟨hq.1, fun hs => hq.2 (h hs)⟩

theorem unentered_cons_lt {seen : List String} {t : String} {m : Module} (hm : moduleAt? ms t = some m)
    (ht : t ∉ seen) : unentered ms (t :: seen) < unentered ms seen := by
  rw [unentered, unentered, List.toFinset_cons, Finset.sdiff_insert]
  apply Finset.card_erase_lt_of_mem
  rw [Finset.mem_sdiff, List.mem_toFinset, List.mem_toFinset]
  exact ⟨path_mem_of_moduleAt? hm, ht⟩

theorem gather_of_unknown (fuel : Nat) {t : String} (seen : List String) (ht : moduleAt? ms t = none) :
    (gather ms fuel t).run seen = ([], seen) := by
  cases fuel <;> simp [gather, ht] <;> rfl

theorem gather_of_met (fuel : Nat) {t : String} {seen : List String} (ht : t ∈ seen) :
    (gather ms (fuel + 1) t).run seen = ([], seen) := by
  cases hm : moduleAt? ms t with
  | none => exact gather_of_unknown _ _ hm
  | some m =>
    simp [gather, hm, ht]
    rfl

theorem gather_of_fresh (fuel : Nat) {t : String} {seen : List String} {m : Module}
    (hm : moduleAt? ms t = some m) (ht : t ∉ seen) :
    (gather ms (fuel + 1) t).run seen =
      (namesOf m ((m.starExports.mapM (gather ms fuel)).run (t :: seen)).1,
        ((m.starExports.mapM (gather ms fuel)).run (t :: seen)).2) := by
  simp [gather, hm, ht, -List.filter_flatten]
  rfl

theorem mapM_gather_cons (fuel : Nat) (t : String) (ts : List String) (seen : List String) :
    ((t :: ts).mapM (gather ms fuel)).run seen =
      (((gather ms fuel t).run seen).1 :: ((ts.mapM (gather ms fuel)).run ((gather ms fuel t).run seen).2).1,
        ((ts.mapM (gather ms fuel)).run ((gather ms fuel t).run seen).2).2) := by
  simp only [List.mapM_cons, StateT.run_bind]
  rfl

theorem mapM_gathers (fuel : Nat) (ts seen : List String) (hfuel : unentered ms seen < fuel) :
    Gathers ms ts seen ((ts.mapM (gather ms fuel)).run seen).1 ((ts.mapM (gather ms fuel)).run seen).2 := by
  induction fuel generalizing ts seen with
  | zero => omega
  | succ fuel ihf =>
    induction ts generalizing seen with
    | nil => exact .nil seen
    | cons t ts iht =>
      rw [mapM_gather_cons]
      by_cases ht : t ∈ seen
      · rw [gather_of_met fuel ht]
        exact .met ht (iht seen hfuel)
      · cases hm : moduleAt? ms t with
        | none =>
          rw [gather_of_unknown _ seen hm]
          exact .unknown hm (iht seen hfuel)
        | some m =>
          have hlt := unentered_cons_lt hm ht
          have hin := ihf m.starExports (t :: seen) (by omega)
          rw [gather_of_fresh fuel hm ht]
          have hle := @unentered_le ms _ _ hin.subset
          exact .fresh hm ht hin (iht _ (by omega))

theorem gather_gathers {fuel : Nat} (hfuel : ms.length < fuel) (p : String) :
    Gathers ms [p] [] [((gather ms fuel p).run []).1] ((gather ms fuel p).run []).2 := by
  have hle : unentered ms [] ≤ ms.length := by
    simpa [unentered] using List.toFinset_card_le (ms.map Module.path)
  have h := @mapM_gathers ms fuel [p] [] (by omega)
  rw [mapM_gather_cons] at h
  exact h

theorem exportedNames_gathers (p : String) : ∃ seen', Gathers ms [p] [] [exportedNames ms p] seen' :=
  ⟨_, gather_gathers (Nat.lt_succ_self _) p⟩

theorem mem_exportedNames_of_own {p n : String} {m : Module} (hm : moduleAt? ms p = some m)
    (hn : n ∈ m.ownNames) : n ∈ exportedNames ms p := by
  rw [exportedNames, gather_of_fresh _ hm List.not_mem_nil]
  exact List.mem_append_left _ hn

theorem mem_exportedNames_iff {p n : String} : n ∈ exportedNames ms p ↔ Offers ms p n := by
  obtain ⟨seen', h⟩ := @exportedNames_gathers ms p
  constructor
  · intro hn
    obtain ⟨t, ht, ho⟩ := h.sound (by simpa using hn)
    exact List.mem_singleton.mp ht ▸ ho
  · rintro ⟨q, m, hq, hm, hmem, hdef⟩
    by_cases hn : n = "default"
    · exact mem_exportedNames_of_own (hdef hn ▸ hm) hmem
    · obtain ⟨hstart, hclosed⟩ := h.complete
      have hall : Entered ms seen' q := by
        clear hm hdef
        induction hq with
        | refl => exact hstart p List.mem_cons_self
        | @tail r q _ he ih =>
          obtain ⟨m', hm', ht⟩ := he
          rcases ih with hu | hr
          · rw [hu] at hm'
            cases hm'
          · exact (hclosed r hr List.not_mem_nil m' hm').2 q ht
      rcases hall with hu | hq'
      · rw [hu] at hm
        cases hm
      · simpa using (hclosed q hq' List.not_mem_nil m hm).1 n hmem hn

/-! A search that succeeds for a name other than `default` finds one of the names that are gathered. -/

theorem ownNames_of_declared? {m : Module} {p n : String} {o : Origin} (h : declared? ms m p n = some o)
    (hn : n ≠ "default") : n ∈ m.ownNames := by
  rw [declared?] at h
  split at h
  · case isTrue hd =>
    obtain ⟨d, hd, hname⟩ := List.any_eq_true.mp hd
    exact List.mem_append_left _ (List.mem_map.mpr ⟨d, hd, by simpa using hname⟩)
  · simp [hn] at h

theorem offers_of_reaches {q r : String × String} {o : Origin} (h : Reaches ms q r)
    (hr : final? ms r = some o) (hn : q.2 ≠ "default") : Offers ms q.1 q.2 := by
  induction h using Relation.ReflTransGen.head_induction_on with
  | refl =>
    obtain ⟨m, hm, hd⟩ := Option.bind_eq_some_iff.mp hr
    exact ⟨r.1, m, .refl, hm, ownNames_of_declared? hd hn, fun hd => absurd hd hn⟩
  | @head q s hstep _ ih =>
    obtain ⟨_, hs⟩ := hstep
    simp only [next] at hs
    split at hs
    · cases hs
    · case h_2 m hm =>
      split at hs
      · case h_1 e he =>
        have hname : e.exportedName = q.2 := by simpa using List.find?_some he
        refine ⟨q.1, m, .refl, hm, ?_, fun hd => absurd hd hn⟩
        exact List.mem_append_right _ (hname ▸ List.mem_map_of_mem (List.mem_of_find?_eq_some he))
      · rw [if_neg hn] at hs
        obtain ⟨t, ht, rfl⟩ := List.mem_map.mp hs
        exact (ih hn).of_star ⟨m, hm, ht⟩ hn

theorem mem_exportedNames_of_origin? {p n : String} {o : Origin} (h : origin? ms p n = some o)
    (hn : n ≠ "default") : n ∈ exportedNames ms p := by
  obtain ⟨q, hq, hf⟩ := exists_reaches_of_origin? h
  exact mem_exportedNames_iff.mpr (offers_of_reaches hq hf hn)

end ApiCatalog.Link
