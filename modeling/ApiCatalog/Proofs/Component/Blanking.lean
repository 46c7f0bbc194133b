import Mathlib.Data.List.Forall2
import Mathlib.Data.List.Infix
import ApiCatalog.Component.Markup

namespace ApiCatalog.Component

variable {element? : List Char → Option Nat} {c : Char} {m n : Nat} {s t u word : List Char}

/-! Masks -/

def Masks (s t : List Char) : Prop :=
  List.Forall₂ (fun c d => d = c ∨ d = blankChar c) s t

theorem blankChar_blankChar (c : Char) : blankChar (blankChar c) = blankChar c := by
  unfold blankChar
  split <;> simp_all

theorem masks_blankAfter (element? : List Char → Option Nat) (n : Nat) (s : List Char) :
    Masks s (blankAfter element? n s) := by
  fun_induction blankAfter element? n s with
  | case1 => exact .nil
  | case2 n c cs ih => exact .cons (.inr rfl) ih
  | case3 c cs n h ih => exact .cons (.inr rfl) ih
  | case4 c cs h ih => exact .cons (.inl rfl) ih

theorem Masks.trans (h : Masks s t) (h' : Masks t u) : Masks s u := by
  induction h generalizing u with
  | nil => exact h'
  | cons hcd _ ih =>
    cases h' with
    | cons hde h' =>
      refine .cons ?_ (ih h')
      rcases hcd with rfl | rfl
      · exact hde
      · rw [blankChar_blankChar] at hde
        exact .inr (hde.elim id id)

theorem Masks.map_blankChar (h : Masks s t) : t.map blankChar = s.map blankChar := by
  induction h with
  | nil => rfl
  | cons hcd _ ih =>
    rw [List.map_cons, List.map_cons, ih]
    rcases hcd with rfl | rfl
    · rfl
    · rw [blankChar_blankChar]

def isFiller (c : Char) : Bool :=
  c = ' ' || c = '\n'

theorem isFiller_blankChar (c : Char) : isFiller (blankChar c) := by
  unfold blankChar
  split <;> simp_all [isFiller]

theorem Masks.prefix_map {f : Char → Char} (hf : ∀ c, isFiller c → f c = c) (h : Masks s t)
    (hword : word.all (!isFiller ·)) (hstart : word <+: t.map f) : word <+: s.map f := by
  induction h generalizing word with
  | nil => exact hstart
  | @cons c d s t hcd _ ih =>
    cases word with
    | nil => exact List.nil_prefix
    | cons e es =>
      obtain ⟨he, hes⟩ : ¬ isFiller e ∧ es.all (!isFiller ·) := by simpa using hword
      obtain ⟨rfl, htail⟩ := List.cons_prefix_cons.mp hstart
      rcases hcd with rfl | rfl
      · exact List.cons_prefix_cons.mpr ⟨rfl, ih hes htail⟩
      · rw [hf _ (isFiller_blankChar c)] at he
        exact absurd (isFiller_blankChar c) he

theorem Masks.infix_map {f : Char → Char} (hf : ∀ c, isFiller c → f c = c) (h : Masks s t)
    (hword : word.all (!isFiller ·)) (hmem : word <:+: t.map f) : word <:+: s.map f := by
  induction h with
  | nil => exact hmem
  | @cons c d s t hcd hst ih =>
    rcases List.infix_cons_iff.mp hmem with hstart | hmem
    · exact (Masks.prefix_map hf (.cons hcd hst) hword hstart).isInfix
    · exact List.infix_cons_iff.mpr (.inr (ih hmem))

/-! The places that a scan tests -/

/-- The texts at which a scan for elements looks, when it passes over the first characters and then over every
element that it finds. -/
inductive Visits (element? : List Char → Option Nat) : Nat → List Char → List Char → Prop
  | here (s : List Char) : Visits element? 0 s s
  | skip {n : Nat} {s u : List Char} (c : Char) (h : Visits element? n s u) : Visits element? (n + 1) (c :: s) u
  | pass {c : Char} {s u : List Char} (hnone : ∀ m, element? (c :: s) ≠ some (m + 1)) (h : Visits element? 0 s u) :
      Visits element? 0 (c :: s) u
  | enter {c : Char} {n : Nat} {s u : List Char} (hsome : element? (c :: s) = some (n + 1)) (h : Visits element? n s u) :
      Visits element? 0 (c :: s) u

theorem blankAfter_pass (h : ∀ m, element? (c :: s) ≠ some (m + 1)) :
    blankAfter element? 0 (c :: s) = c :: blankAfter element? 0 s := by
  rw [blankAfter]
  split
  · case h_1 hsome => exact absurd hsome (h _)
  · rfl

theorem blankAfter_enter (h : element? (c :: s) = some (n + 1)) :
    blankAfter element? 0 (c :: s) = blankChar c :: blankAfter element? n s := by
  rw [blankAfter, h]

theorem Visits.blankOut_suffix (h : Visits element? n s u) : blankOut element? u <:+ blankAfter element? n s := by
  induction h with
  | here s => exact List.suffix_rfl
  | skip c _ ih => exact ih.trans (List.suffix_cons _ _)
  | pass hnone _ ih =>
    rw [blankAfter_pass hnone]
    exact ih.trans (List.suffix_cons _ _)
  | enter hsome _ ih =>
    rw [blankAfter_enter hsome]
    exact ih.trans (List.suffix_cons _ _)

theorem blankOut_keep (hopen : ∀ c s, c ≠ '<' → element? (c :: s) = none) (hnone : element? ('<' :: (s ++ t)) = none)
    (hs : '<' ∉ s) : blankOut element? ('<' :: (s ++ t)) = '<' :: (s ++ blankOut element? t) := by
  have hrest : blankOut element? (s ++ t) = s ++ blankOut element? t := by
    clear hnone
    induction s with
    | nil => rfl
    | cons c cs ih =>
      obtain ⟨hc, hcs⟩ : '<' ≠ c ∧ '<' ∉ cs := by simpa using hs
      have hpass : ∀ m, element? (c :: (cs ++ t)) ≠ some (m + 1) := by simp [hopen c _ hc.symm]
      rw [List.cons_append, blankOut, blankAfter_pass hpass, List.cons_append, ← ih hcs, blankOut]
  rw [blankOut, blankAfter_pass (by simp [hnone]), ← hrest, blankOut]

theorem exists_visits (hc : ¬ isFiller c) (h : blankAfter element? n s = u ++ c :: t) :
    ∃ v, Visits element? n s (c :: v) ∧ (∀ m, element? (c :: v) ≠ some (m + 1)) ∧ blankOut element? v = t := by
  have hne (e : Char) : c ≠ blankChar e := by
    rintro rfl
    exact hc (isFiller_blankChar e)
  fun_induction blankAfter element? n s generalizing u with
  | case1 => simp at h
  | case2 n e es ih =>
    cases u with
    | nil => exact absurd (List.cons.inj h).1.symm (hne e)
    | cons f fs =>
      obtain ⟨v, hv, hnone, ht⟩ := ih (List.cons.inj h).2
      exact ⟨v, hv.skip e, hnone, ht⟩
  | case3 e es n hsome ih =>
    cases u with
    | nil => exact absurd (List.cons.inj h).1.symm (hne e)
    | cons f fs =>
      obtain ⟨v, hv, hnone, ht⟩ := ih (List.cons.inj h).2
      exact ⟨v, hv.enter hsome, hnone, ht⟩
  | case4 e es hnone ih =>
    cases u with
    | nil =>
      obtain ⟨rfl, rfl⟩ := List.cons.inj h
      exact ⟨es, .here _, hnone, rfl⟩
    | cons f fs =>
      obtain ⟨v, hv, hlast, ht⟩ := ih (List.cons.inj h).2
      exact ⟨v, hv.pass hnone, hlast, ht⟩

/-! Two parts of a text -/

theorem blankAfter_over (h : s.length ≤ n) (t : List Char) :
    blankAfter element? n (s ++ t) = s.map blankChar ++ blankAfter element? (n - s.length) t := by
  induction s generalizing n with
  | nil => rfl
  | cons c cs ih =>
    obtain ⟨m, rfl⟩ : ∃ m, n = m + 1 := ⟨n - 1, by rw [List.length_cons] at h; omega⟩
    rw [List.cons_append, blankAfter, ih (by simpa using h), List.length_cons, Nat.add_sub_add_right]
    rfl

def KeepsElements (element? : List Char → Option Nat) (t : List Char) : Prop :=
  ∀ u m, element? u = some m → element? (u ++ t) = some m ∧ m ≤ u.length

theorem blankAfter_append (hkeep : KeepsElements element? t) (hn : n ≤ s.length)
    (hnone : ∀ u, u ≠ [] → Visits element? n s u → element? u = none → element? (u ++ t) = none) :
    blankAfter element? n (s ++ t) = blankAfter element? n s ++ blankOut element? t := by
  -- The induction is on the scan of the first part; what it finds there is what it finds in the whole text.
  fun_induction blankAfter element? n s with
  | case1 n =>
    obtain rfl : n = 0 := by simpa using hn
    rfl
  | case2 n c cs ih =>
    rw [List.cons_append, blankAfter, ih (by simpa using hn) fun u hu hvisit => hnone u hu (hvisit.skip c)]
    rfl
  | case3 c cs n hsome ih =>
    obtain ⟨hwhole, hle⟩ := hkeep _ _ hsome
    rw [List.cons_append] at hwhole
    rw [List.cons_append, blankAfter_enter hwhole,
      ih (by simpa using hle) fun u hu hvisit => hnone u hu (hvisit.enter hsome)]
    rfl
  | case4 c cs hpass ih =>
    have hwhole : ∀ m, element? (c :: (cs ++ t)) ≠ some (m + 1) := by
      intro m
      cases hfound : element? (c :: cs) with
      | none =>
        rw [← List.cons_append, hnone _ (List.cons_ne_nil c cs) (.here _) hfound]
        exact Option.some_ne_none _ ∘ Eq.symm
      | some k =>
        rw [← List.cons_append, (hkeep _ _ hfound).1, ← hfound]
        exact hpass m
    rw [List.cons_append, blankAfter_pass hwhole, ih (Nat.zero_le _) fun u hu hvisit => hnone u hu (hvisit.pass hpass)]
    rfl

theorem exists_blankAfter_append (hkeep : KeepsElements element? t)
    (hlong : ∀ u m, u ≠ [] → element? u = none → element? (u ++ t) = some m → u.length < m)
    (hvisit : Visits element? n s u) (hu : u ≠ []) (hn : n ≤ s.length) (hnone : element? u = none)
    (hover : element? (u ++ t) = some m) :
    ∃ x k, Masks s x ∧ blankAfter element? n (s ++ t) = x ++ blankAfter element? (k + 1) t := by
  -- An element that reaches over may also start before `u`: then the scan never gets to `u` in the whole text.
  have hreach (c : Char) (cs : List Char) (k : Nat) (hnone : element? (c :: cs) = none)
      (hover : element? (c :: cs ++ t) = some k) :
      ∃ x k, Masks (c :: cs) x ∧ blankAfter element? 0 (c :: cs ++ t) = x ++ blankAfter element? (k + 1) t := by
    have hlt : cs.length + 1 < k := hlong _ _ (List.cons_ne_nil c cs) hnone hover
    obtain ⟨j, rfl⟩ : ∃ j, k = (j + 1 + cs.length) + 1 := ⟨k - cs.length - 2, by omega⟩
    refine ⟨(c :: cs).map blankChar, j, ?_, ?_⟩
    · exact List.forall₂_map_right_iff.mpr (List.forall₂_same.mpr fun d _ => .inr rfl)
    · rw [List.cons_append] at hover ⊢
      rw [blankAfter_enter hover, blankAfter_over (by omega), Nat.add_sub_cancel]
      rfl
  induction hvisit with
  | here s =>
    obtain ⟨c, cs, rfl⟩ := List.exists_cons_of_ne_nil hu
    exact hreach c cs m hnone hover
  | skip c _ ih =>
    obtain ⟨x, k, hx, hblank⟩ := ih hu (by simpa using hn) hnone hover
    exact ⟨blankChar c :: x, k, .cons (.inr rfl) hx, by rw [List.cons_append, blankAfter, hblank]; rfl⟩
  | @pass c s u hpass _ ih =>
    obtain ⟨x, k, hx, hblank⟩ := ih hu (Nat.zero_le _) hnone hover
    by_cases hstop : ∃ k, element? (c :: s) = none ∧ element? (c :: s ++ t) = some k
    · obtain ⟨k, hfirst, hwhole⟩ := hstop
      exact hreach c s k hfirst hwhole
    · have hwhole : ∀ m, element? (c :: (s ++ t)) ≠ some (m + 1) := by
        intro m hm
        cases hfound : element? (c :: s) with
        | none => exact hstop ⟨m + 1, hfound, hm⟩
        | some j =>
          rw [← List.cons_append, (hkeep _ _ hfound).1, ← hfound] at hm
          exact hpass m hm
      exact ⟨c :: x, k, .cons (.inl rfl) hx, by rw [List.cons_append, blankAfter_pass hwhole, hblank]; rfl⟩
  | @enter c n s u hsome _ ih =>
    obtain ⟨hwhole, hle⟩ := hkeep _ _ hsome
    rw [List.cons_append] at hwhole
    obtain ⟨x, k, hx, hblank⟩ := ih hu (by simpa using hle) hnone hover
    exact ⟨blankChar c :: x, k, .cons (.inr rfl) hx, by rw [List.cons_append, blankAfter_enter hwhole, hblank]; rfl⟩

end ApiCatalog.Component
