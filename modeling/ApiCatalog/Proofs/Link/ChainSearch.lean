import ApiCatalog.Proofs.Link.Search

/-!
The search for an origin never forgets a pair that it has met, so it may pass over a pair that was given up only because
the search was still busy above it. Nothing is lost: a search that refuses a pair only while the chain to it holds
it, and may look at a pair any number of times, has the same result.
-/

namespace ApiCatalog.Link

variable {ms : List Module} {chain seen : Visited} {q : String × String}

theorem unmet_names_le {names names' : List String} (h : names ⊆ names') : unmet ms names seen ≤ unmet ms names' seen := by
  apply Finset.card_le_card
  apply Finset.sdiff_subset_sdiff _ (Finset.Subset.refl _)
  intro p hp
  simp only [pairs, List.mem_toFinset] at hp ⊢
  obtain ⟨hpath, hname⟩ := List.mem_product.mp hp
  exact List.mem_product.mpr ⟨hpath, h hname⟩

theorem askedNames_localName {n : String} {p : String} {m : Module} {e : ReExport} (hm : moduleAt? ms p = some m)
    (he : m.reExport? n = some e) : askedNames ms e.localName ⊆ askedNames ms n := by
  have hmem : m ∈ ms := List.mem_reverse.mp (List.mem_of_find?_eq_some hm)
  have hlocal : e.localName ∈ askedNames ms n :=
    closedNames_askedNames n m hmem e (List.mem_of_find?_eq_some he)
  exact List.cons_subset.mpr ⟨hlocal, List.subset_cons_self _ _⟩

theorem fresh_of_declared? {p n : String} {m : Module} (hm : moduleAt? ms p = some m)
    (hd : declared? ms m p n = none) (hc : (p, n) ∉ chain) : Fresh ms chain (p, n) :=
  ⟨by simp [hm], by simp [final?, hm, hd], hc⟩

theorem Fresh.unmet_lt {p n : String} (h : Fresh ms chain (p, n)) :
    unmet ms (askedNames ms n) ((p, n) :: chain) < unmet ms (askedNames ms n) chain :=
  unmet_cons_lt h List.mem_cons_self

theorem Fresh.unmet_localName_lt {p n : String} {m : Module} {e : ReExport} (h : Fresh ms chain (p, n))
    (hm : moduleAt? ms p = some m) (he : m.reExport? n = some e) :
    unmet ms (askedNames ms e.localName) ((p, n) :: chain) < unmet ms (askedNames ms n) chain :=
  Nat.lt_of_le_of_lt (unmet_names_le (askedNames_localName hm he)) h.unmet_lt

/-- Looks for the origin of a name. A pair is refused only if it is on the chain of pairs that leads to it. -/
def chainOrigin? (ms : List Module) (chain : Visited) (path name : String) : Option Origin :=
  match hm : moduleAt? ms path with
  | none => none
  | some m =>
    match hd : declared? ms m path name with
    | some o => some o
    | none =>
      if hc : (path, name) ∈ chain then none
      else
        have hfresh := fresh_of_declared? hm hd hc
        match he : m.reExport? name with
        | some e =>
          have := hfresh.unmet_localName_lt hm he
          chainOrigin? ms ((path, name) :: chain) e.sourceModule e.localName
        | none =>
          if name == "default" then none
          else
            have := hfresh.unmet_lt
            m.starExports.findSome? fun target => chainOrigin? ms ((path, name) :: chain) target name
termination_by unmet ms (askedNames ms name) chain

theorem chainOrigin?_of_unknown (chain : Visited) (hq : moduleAt? ms q.1 = none) :
    chainOrigin? ms chain q.1 q.2 = none := by
  fun_cases chainOrigin? ms chain q.1 q.2 <;> simp_all

theorem chainOrigin?_of_final {o : Origin} (chain : Visited) (hq : final? ms q = some o) :
    chainOrigin? ms chain q.1 q.2 = some o := by
  obtain ⟨m, hm, ho⟩ := Option.bind_eq_some_iff.mp hq
  fun_cases chainOrigin? ms chain q.1 q.2 <;> simp_all

theorem chainOrigin?_of_fresh (hq : Fresh ms chain q) :
    chainOrigin? ms chain q.1 q.2 = (next ms q).findSome? fun r => chainOrigin? ms (q :: chain) r.1 r.2 := by
  obtain ⟨p, n⟩ := q
  have hknown := hq.known
  have hfinal := hq.notFinal
  fun_cases chainOrigin? ms chain p n with
  | case1 hm => simp [hm] at hknown
  | case2 m hm o hd => simp [final?, hm, hd] at hfinal
  | case3 m hm hd hc => exact absurd hc hq.notMet
  | case4 m hm hd hc hfresh e he => simp [next, hm, he]
  | case5 m hm hd hc hfresh he hn =>
    obtain rfl : n = "default" := eq_of_beq hn
    simp [next, hm, he]
  | case6 m hm hd hc hfresh he hn =>
    have hne : n ≠ "default" := by simpa using hn
    simp [next, hm, he, hne, List.findSome?_map, Function.comp_def]

/-! What the search has met and left is a dead end as long as the chain is guarded. -/

def Closed (ms : List Module) (seen chain : Visited) : Prop :=
  ∀ q ∈ seen, q ∉ chain → ∀ r ∈ next ms q, Settled ms seen r

theorem Closed.of_explores {qs : List (String × String)} {seen' : Visited} (h : Closed ms seen chain)
    (hx : Explores ms qs seen none seen') : Closed ms seen' chain := by
  intro q hq hc r hr
  by_cases hs : q ∈ seen
  · exact (h q hs hc r hr).mono hx.subset
  · exact (hx.settled rfl).2 q hq hs r hr

theorem Closed.cons_cons (h : Closed ms seen chain) (q : String × String) :
    Closed ms (q :: seen) (q :: chain) := by
  intro p hp hc r hr
  rw [List.mem_cons, not_or] at hc
  have hs : p ∈ seen := (List.mem_cons.mp hp).resolve_left hc.1
  exact (h p hs hc.2 r hr).mono (List.subset_cons_self q seen)

theorem Closed.cons (h : Closed ms seen chain) (q : String × String) : Closed ms seen (q :: chain) :=
  fun p hp hc => h p hp fun hmem => hc (List.mem_cons_of_mem q hmem)

theorem chainOrigin?_of_settled (h : Closed ms seen chain) {p n : String} (hq : Settled ms seen (p, n)) :
    chainOrigin? ms chain p n = none := by
  -- The chain grows on the way down and guards more; what is off it leads to settled pairs only.
  have hnext {chain : Visited} (h : Closed ms seen chain) {p n : String} (hq : Settled ms seen (p, n))
      (hfresh : Fresh ms chain (p, n)) : ∀ r ∈ next ms (p, n), Settled ms seen r := by
    have hmet : (p, n) ∈ seen := hq.2.resolve_left (Option.isSome_iff_ne_none.mp hfresh.known)
    exact h _ hmet hfresh.notMet
  fun_induction chainOrigin? ms chain p n with
  | case1 | case3 | case5 => rfl
  | case2 chain p n m hm o hd =>
    have hf := hq.1
    simp [final?, hm, hd] at hf
  | case4 chain p n m hm hd hc hfresh e he _ ih =>
    exact ih (h.cons _) (hnext h hq hfresh _ (by simp [next, hm, he]))
  | case6 chain p n m hm hd hc hfresh he hn _ ih =>
    have hne : n ≠ "default" := by simpa using hn
    rw [List.findSome?_eq_none_iff]
    intro t ht
    exact ih t (h.cons _) (hnext h hq hfresh _ (by simp [next, hm, he, hne, ht]))

theorem Explores.eq_findSome? {qs : List (String × String)} {seen' : Visited} {x : Option Origin}
    (h : Explores ms qs seen x seen') (hc : Closed ms seen chain) (hs : chain ⊆ seen) :
    x = qs.findSome? fun q => chainOrigin? ms chain q.1 q.2 := by
  induction h generalizing chain with
  | nil => rfl
  | final hq => rw [List.findSome?_cons, chainOrigin?_of_final chain hq]
  | unknown hq _ ih =>
    rw [List.findSome?_cons, chainOrigin?_of_unknown chain hq]
    exact ih hc hs
  | met hf hq _ ih =>
    rw [List.findSome?_cons, chainOrigin?_of_settled hc ⟨hf, .inr hq⟩]
    exact ih hc hs
  | @found q qs seen o seen' hq hn ih =>
    have hfresh : Fresh ms chain q := ⟨hq.known, hq.notFinal, fun hmem => hq.notMet (hs hmem)⟩
    rw [List.findSome?_cons, chainOrigin?_of_fresh hfresh, ← ih (hc.cons_cons q) (List.cons_subset_cons q hs)]
  | @missed q qs seen between x seen' hq hn hqs ihn ihqs =>
    have hfresh : Fresh ms chain q := ⟨hq.known, hq.notFinal, fun hmem => hq.notMet (hs hmem)⟩
    have hleft : Explores ms [q] seen none between := .missed hq hn (.nil between)
    rw [List.findSome?_cons, chainOrigin?_of_fresh hfresh, ← ihn (hc.cons_cons q) (List.cons_subset_cons q hs)]
    exact ihqs (hc.of_explores hleft) (List.Subset.trans hs hleft.subset)

/-! A search ends in one way only. -/

theorem Explores.unique {qs : List (String × String)} {seen' met' : Visited} {x y : Option Origin}
    (h : Explores ms qs seen x seen') (h' : Explores ms qs seen y met') : x = y ∧ seen' = met' := by
  induction h generalizing y met' with
  | nil =>
    cases h'
    exact ⟨rfl, rfl⟩
  | final hq =>
    cases h' with
    | final hq' => exact ⟨hq.symm.trans hq', rfl⟩
    | unknown hu => simp [final?, hu] at hq
    | met hf => simp [hq] at hf
    | found hf | missed hf => simp [hf.notFinal] at hq
  | unknown hu _ ih =>
    cases h' with
    | final hq' => simp [final?, hu] at hq'
    | unknown _ hrest | met _ _ hrest => exact ih hrest
    | found hf | missed hf => exact absurd hf.known (by simp [hu])
  | met hf hm _ ih =>
    cases h' with
    | final hq' => simp [hf] at hq'
    | unknown _ hrest | met _ _ hrest => exact ih hrest
    | found hfresh | missed hfresh => exact absurd hm hfresh.notMet
  | found hfresh _ ih =>
    cases h' with
    | final hq' => simp [hfresh.notFinal] at hq'
    | unknown hu => exact absurd hfresh.known (by simp [hu])
    | met _ hm => exact absurd hm hfresh.notMet
    | found _ hn' => exact ih hn'
    | missed _ hn' => cases (ih hn').1
  | missed hfresh _ _ ihn ihqs =>
    cases h' with
    | final hq' => simp [hfresh.notFinal] at hq'
    | unknown hu => exact absurd hfresh.known (by simp [hu])
    | met _ hm => exact absurd hm hfresh.notMet
    | found _ hn' => cases (ihn hn').1
    | missed _ hn' hrest =>
      obtain ⟨_, rfl⟩ := ihn hn'
      exact ihqs hrest

theorem origin?_eq_chain_search (ms : List Module) (path name : String) :
    (∃ seen, Explores ms [(path, name)] [] (origin? ms path name) seen ∧
      ∀ extra, (search ms (searchBound ms + extra) path name).run [] = (origin? ms path name, seen)) ∧
    origin? ms path name = chainOrigin? ms [] path name := by
  obtain ⟨seen, hx⟩ := @origin?_explores ms path name
  refine ⟨⟨seen, hx, fun extra => ?_⟩, ?_⟩
  · obtain ⟨hresult, hseen⟩ := (@search_explores ms path name extra).unique hx
    exact Prod.ext hresult hseen
  · have hclosed : Closed ms [] [] := by simp [Closed]
    have h := hx.eq_findSome? hclosed (List.Subset.refl [])
    simpa using h

end ApiCatalog.Link
