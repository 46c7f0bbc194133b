import Mathlib.Data.List.Basic
import ApiCatalog.Proofs.Component.Hidden
import ApiCatalog.Proofs.DocComment.Clean

/-!
The members of a union type. A bar divides a type text where it stands within as many brackets as there are arrows before it,
because the head of an arrow is counted as a closing bracket. So a union is divided into its members as long as none before
the last has an arrow, and a member `undefined` that stands after one with an arrow is not seen.
-/

namespace ApiCatalog.Component

open Text

/-! Type texts -/

def isArrowHead (before c : Char) : Bool :=
  before = '=' && c = '>'

def arrowsAfter : Char → List Char → Nat
  | _, [] => 0
  | before, c :: s => (if isArrowHead before c then 1 else 0) + arrowsAfter c s

def bracketsAfter : Char → List Char → Int
  | _, [] => 0
  | before, c :: s => (if isArrowHead before c then 0 else nesting c) + bracketsAfter c s

def arrows (s : List Char) : Nat :=
  arrowsAfter ' ' s

def brackets (s : List Char) : Int :=
  bracketsAfter ' ' s

def closing? : Char → Option Char
  | '(' => some ')'
  | '[' => some ']'
  | '{' => some '}'
  | '<' => some '>'
  | _ => none

def isClosing (c : Char) : Bool :=
  c = ')' || c = ']' || c = '}' || c = '>'

/-- Whether a text closes the given brackets, the innermost first, and all that it opens, and has no bar outside brackets. -/
def nestsAfter : Char → List Char → List Char → Bool
  | _, stack, [] => stack.isEmpty
  | before, stack, c :: s =>
    if isArrowHead before c then nestsAfter c stack s
    else
      match closing? c with
      | some d => nestsAfter c (d :: stack) s
      | none =>
        if isClosing c then stack.head? == some c && nestsAfter c stack.tail s
        else (c != '|' || !stack.isEmpty) && nestsAfter c stack s

def IsMember (t : String) : Prop :=
  nestsAfter ' ' [] t.toList

/-- A bar of the text stands within as many brackets as there are arrows before it. -/
def ShowsBar (t : String) : Prop :=
  ∃ u v, t.toList = u ++ '|' :: v ∧ brackets u = arrows u

def unionOf (ts : List String) : String :=
  " | ".intercalate ts

def arrowFree (t : String) : Bool :=
  arrows t.toList = 0

def BarsShow (ts : List String) : Prop :=
  (∀ t ∈ ts.dropLast, arrowFree t) ∧ ∀ t ∈ ts.getLast?, ¬ ShowsBar t

instance (t : String) : Decidable (IsMember t) :=
  inferInstanceAs (Decidable (nestsAfter ' ' [] t.toList = true))

variable {c : Char} {d : Int} {s t u v p : List Char} {ps : List (List Char)} {ts : List String}

/-! Depth -/

def depth : List Char → Int
  | [] => 0
  | c :: s => nesting c + depth s

theorem depth_eq_after (before : Char) (s : List Char) : depth s = bracketsAfter before s - arrowsAfter before s := by
  induction s generalizing before with
  | nil => rfl
  | cons c s ih =>
    rw [depth, bracketsAfter, arrowsAfter, ih c]
    by_cases harrow : isArrowHead before c
    · obtain ⟨-, rfl⟩ : before = '=' ∧ c = '>' := by simpa [isArrowHead] using harrow
      rw [if_pos harrow, if_pos harrow, show nesting '>' = -1 by decide]
      omega
    · rw [if_neg harrow, if_neg harrow]
      omega

theorem depth_eq (s : List Char) : depth s = brackets s - arrows s :=
  depth_eq_after ' ' s

theorem nesting_of_closing? {o : Char} (h : closing? o = some c) : nesting o = 1 := by
  simp only [closing?] at h
  split at h
  · decide
  · decide
  · decide
  · decide
  · cases h

theorem nesting_of_isClosing (h : isClosing c) : nesting c = -1 := by
  have hc : ((c = ')' ∨ c = ']') ∨ c = '}') ∨ c = '>' := by simpa [isClosing] using h
  rcases hc with ((rfl | rfl) | rfl) | rfl <;> decide

theorem nesting_of_plain (hopen : closing? c = none) (hclose : ¬ isClosing c) : nesting c = 0 := by
  have hnotOpen : ¬ "<([\x7b".toList.contains c := by
    intro hmem
    have hc : c = '<' ∨ c = '(' ∨ c = '[' ∨ c = '{' := by simpa using hmem
    rcases hc with rfl | rfl | rfl | rfl <;> cases hopen
  have hnotClose : ¬ ">)]\x7d".toList.contains c := by
    intro hmem
    have hc : c = '>' ∨ c = ')' ∨ c = ']' ∨ c = '}' := by simpa using hmem
    rcases hc with rfl | rfl | rfl | rfl <;> exact hclose rfl
  rw [nesting, if_neg hnotOpen, if_neg hnotClose]

theorem nestsAfter_cons {before : Char} {stack : List Char} (h : nestsAfter before stack (c :: s)) :
    ∃ stack', nestsAfter c stack' s ∧
      (stack'.length : Int) = stack.length + (if isArrowHead before c then 0 else nesting c) ∧
      (c = '|' → 0 < stack.length) := by
  rw [nestsAfter] at h
  split at h
  · case isTrue harrow =>
    refine ⟨stack, h, by rw [if_pos harrow, Int.add_zero], ?_⟩
    rintro rfl
    exact absurd harrow (by simp [isArrowHead])
  · case isFalse harrow =>
    rw [if_neg harrow]
    split at h
    · case h_1 d hopen =>
      refine ⟨d :: stack, h, by rw [nesting_of_closing? hopen, List.length_cons, Int.natCast_succ], ?_⟩
      rintro rfl
      cases hopen
    · case h_2 hopen =>
      split at h
      · case isTrue hclose =>
        obtain ⟨hhead, hrest⟩ : stack.head? = some c ∧ nestsAfter c stack.tail s := by simpa using h
        obtain ⟨rest, rfl⟩ := List.head?_eq_some_iff.mp hhead
        refine ⟨rest, hrest, ?_, fun _ => Nat.succ_pos _⟩
        rw [nesting_of_isClosing hclose, List.length_cons]
        omega
      · case isFalse hclose =>
        obtain ⟨hbar, hrest⟩ : (c = '|' → stack ≠ []) ∧ nestsAfter c stack s := by
          simpa [imp_iff_not_or] using h
        exact ⟨stack, hrest, by rw [nesting_of_plain hopen hclose, Int.add_zero], fun hc => List.length_pos_of_ne_nil (hbar hc)⟩

theorem brackets_of_nestsAfter {before : Char} {stack : List Char} (h : nestsAfter before stack s) :
    bracketsAfter before s = -stack.length ∧
      ∀ u v, s = u ++ '|' :: v → 0 < bracketsAfter before u + stack.length := by
  induction s generalizing before stack with
  | nil =>
    obtain rfl : stack = [] := by simpa [nestsAfter] using h
    refine ⟨rfl, fun u v huv => ?_⟩
    simp at huv
  | cons c s ih =>
    obtain ⟨stack', hrest, hlength, hbar⟩ := nestsAfter_cons h
    obtain ⟨hzero, hinside⟩ := ih hrest
    refine ⟨by rw [bracketsAfter, hzero]; omega, ?_⟩
    intro u v huv
    cases u with
    | nil =>
      have hpos := hbar (List.cons.inj huv).1
      rw [bracketsAfter]
      omega
    | cons e u =>
      obtain ⟨rfl, hrest⟩ := List.cons.inj huv
      have hpos := hinside u v hrest
      rw [bracketsAfter]
      omega

theorem IsMember.brackets_eq {t : String} (h : IsMember t) : brackets t.toList = 0 := by
  simpa [brackets] using (brackets_of_nestsAfter h).1

theorem IsMember.inside {t : String} (h : IsMember t) (ht : t.toList = u ++ '|' :: v) : 0 < brackets u := by
  simpa [brackets] using (brackets_of_nestsAfter h).2 u v ht

theorem arrowsAfter_append (before : Char) (s t : List Char) : arrowsAfter before s ≤ arrowsAfter before (s ++ t) := by
  induction s generalizing before with
  | nil => exact Nat.zero_le _
  | cons c s ih => exact Nat.add_le_add_left (ih c) _

theorem IsMember.not_showsBar {t : String} (h : IsMember t) (harrows : arrows t.toList = 0) : ¬ ShowsBar t := by
  rintro ⟨u, v, ht, heq⟩
  have hinside := h.inside ht
  have hle : arrows u ≤ arrows t.toList := by
    rw [ht]
    exact arrowsAfter_append ' ' u _
  omega

/-! Division at bars -/

theorem splitBars_ne_nil (d : Int) (s : List Char) : splitBars d s ≠ [] := by
  cases s with
  | nil => exact List.cons_ne_nil _ _
  | cons c s =>
    rw [splitBars]
    split
    · exact List.cons_ne_nil _ _
    · split <;> exact List.cons_ne_nil _ _

theorem splitBars_append (h : ∀ u v, t = u ++ '|' :: v → d + depth u ≠ 0) (hs : splitBars (d + depth t) s = p :: ps) :
    splitBars d (t ++ s) = (t ++ p) :: ps := by
  induction t generalizing d with
  | nil => simpa [depth] using hs
  | cons c t ih =>
    have hrest : splitBars (d + nesting c) (t ++ s) = (t ++ p) :: ps := by
      refine ih (fun u v huv => ?_) ?_
      · have hne := h (c :: u) v (by rw [huv, List.cons_append])
        rwa [depth, ← Int.add_assoc] at hne
      · rwa [depth, ← Int.add_assoc] at hs
    have hkeep : ¬ (c = '|' ∧ d + nesting c = 0) := by
      rintro ⟨rfl, hzero⟩
      exact h [] t rfl (by simpa [depth, nesting] using hzero)
    rw [List.cons_append, splitBars, hrest]
    simp [hkeep]

theorem splitBars_first (h : ∃ u v, t = u ++ '|' :: v ∧ d + depth u = 0) (s : List Char) :
    ∃ u v ps, t = u ++ '|' :: v ∧ splitBars d (t ++ s) = u :: ps := by
  induction t generalizing d with
  | nil =>
    obtain ⟨u, v, huv, -⟩ := h
    simp at huv
  | cons c t ih =>
    rw [List.cons_append, splitBars]
    by_cases hcut : c = '|' ∧ d + nesting c = 0
    · obtain ⟨rfl, hzero⟩ := hcut
      exact ⟨[], t, splitBars 0 (t ++ s), rfl, by simp [hzero]⟩
    · obtain ⟨u, v, huv, hzero⟩ := h
      cases u with
      | nil =>
        obtain ⟨rfl, -⟩ := List.cons.inj huv
        exact absurd ⟨rfl, by simpa [depth, nesting] using hzero⟩ hcut
      | cons e u =>
        obtain ⟨rfl, hrest⟩ := List.cons.inj huv
        rw [depth, ← Int.add_assoc] at hzero
        obtain ⟨u', v', ps, rfl, hparts⟩ := ih ⟨u, v, hrest, hzero⟩
        refine ⟨c :: u', v', ps, rfl, ?_⟩
        rw [hparts]
        simp [hcut]

def parts (s : List Char) : List (List Char) :=
  (splitBars 0 s).map trim

theorem splitUnion_eq (type : String) : splitUnion type = (parts type.toList).map String.ofList := by
  rw [splitUnion, parts, List.map_map]
  rfl

theorem parts_space (s : List Char) : parts (' ' :: s) = parts s := by
  obtain ⟨p, ps, hparts⟩ := List.exists_cons_of_ne_nil (splitBars_ne_nil 0 s)
  have hspace : splitBars 0 (' ' :: s) = (' ' :: p) :: ps :=
    splitBars_append (t := [' ']) (fun u v huv => by cases u <;> simp at huv) hparts
  rw [parts, parts, hspace, hparts, List.map_cons, List.map_cons]
  rfl

theorem count_trim (hc : ¬ isBlank c) (s : List Char) : (trim s).count c = s.count c := by
  have hdrop (s : List Char) : (s.dropWhile isBlank).count c = s.count c := by
    have hblank : (s.takeWhile isBlank).count c = 0 :=
      List.count_eq_zero_of_not_mem fun hmem => hc (List.mem_takeWhile_imp hmem)
    rw [← List.takeWhile_append_dropWhile (p := isBlank) (l := s), List.count_append, hblank, Nat.zero_add,
      List.takeWhile_append_dropWhile]
  rw [trim, trimRight, dropRightWhile, List.count_reverse, hdrop, List.count_reverse, trimLeft, hdrop]

theorem bar_append (s : List Char) : " | ".toList ++ s = ' ' :: '|' :: ' ' :: s := rfl

theorem parts_append (hshow : ∀ u v, t = u ++ '|' :: v → depth u ≠ 0) (hdepth : depth t = 0) (s : List Char) :
    parts (t ++ (" | ".toList ++ s)) = trim t :: parts s := by
  have hrest : splitBars (0 + depth t) (" | ".toList ++ s) = [' '] :: splitBars 0 (' ' :: s) := by
    rw [hdepth, bar_append]
    simp [splitBars, nesting]
  rw [parts, splitBars_append (by simpa using hshow) hrest, List.map_cons, ← parts, parts_space,
    ← trim_pad (l := []) (r := [' ']) (by simp) t (by simp [isBlank]), List.nil_append]

theorem parts_alone (hshow : ∀ u v, t = u ++ '|' :: v → depth u ≠ 0) : parts t = [trim t] := by
  have hparts : splitBars 0 (t ++ []) = [t ++ []] := splitBars_append (by simpa using hshow) rfl
  rw [List.append_nil] at hparts
  rw [parts, hparts]
  rfl

theorem not_showsBar_iff {t : String} : ¬ ShowsBar t ↔ ∀ u v, t.toList = u ++ '|' :: v → depth u ≠ 0 := by
  simp only [ShowsBar, depth_eq, not_exists, not_and, ne_eq, Int.sub_eq_zero]

theorem not_showsBar_of_parts {t : String} (h : parts (t.toList ++ s) = trim t.toList :: ps) : ¬ ShowsBar t := by
  rw [not_showsBar_iff]
  intro u v huv hzero
  obtain ⟨u', v', ps', ht, hparts⟩ := splitBars_first (d := 0) ⟨u, v, huv, by rw [hzero, Int.add_zero]⟩ s
  rw [parts, hparts, List.map_cons, List.cons.injEq] at h
  -- The part before that bar has fewer bars than the text.
  have hcount := congrArg (List.count '|') h.1
  rw [count_trim (by decide), count_trim (by decide), ht, List.count_append, List.count_cons_self] at hcount
  omega

theorem IsMember.arrows_of_parts {t : String} (ht : IsMember t)
    (h : parts (t.toList ++ (" | ".toList ++ s)) = trim t.toList :: ps) : arrows t.toList = 0 := by
  have hshow := not_showsBar_of_parts h
  rw [not_showsBar_iff] at hshow
  by_contra harrows
  have hdepth : depth t.toList ≠ 0 := by
    rw [depth_eq, ht.brackets_eq]
    omega
  obtain ⟨p, ps', hparts⟩ := List.exists_cons_of_ne_nil (splitBars_ne_nil (depth t.toList) s)
  have hrest : splitBars (0 + depth t.toList) (" | ".toList ++ s) = (" | ".toList ++ p) :: ps' := by
    rw [Int.zero_add, bar_append, bar_append]
    simp [splitBars, nesting, hdepth, hparts]
  rw [parts, splitBars_append (by simpa using hshow) hrest, List.map_cons, List.cons.injEq] at h
  have hcount := congrArg (List.count '|') h.1
  rw [count_trim (by decide), count_trim (by decide), List.count_append, bar_append, List.count_cons_of_ne (by decide),
    List.count_cons_self] at hcount
  omega

/-! Unions -/

theorem toList_unionOf_singleton (t : String) : (unionOf [t]).toList = t.toList := by
  rw [unionOf, String.toList_intercalate, List.map_singleton, List.intercalate_singleton]

theorem toList_unionOf_cons (t u : String) (ts : List String) :
    (unionOf (t :: u :: ts)).toList = t.toList ++ (" | ".toList ++ (unionOf (u :: ts)).toList) := by
  rw [unionOf, String.toList_intercalate, List.map_cons, List.map_cons, List.intercalate_cons_cons, List.append_assoc,
    unionOf, String.toList_intercalate, List.map_cons]

theorem IsMember.depth_eq_zero {t : String} (ht : IsMember t) (harrows : arrowFree t) : depth t.toList = 0 := by
  have hnone : arrows t.toList = 0 := by simpa [arrowFree] using harrows
  rw [depth_eq, ht.brackets_eq, hnone]
  rfl

theorem IsMember.parts_cons {t u : String} (ht : IsMember t) (harrows : arrowFree t) (ts : List String) :
    parts (unionOf (t :: u :: ts)).toList = trim t.toList :: parts (unionOf (u :: ts)).toList := by
  rw [toList_unionOf_cons]
  refine parts_append (not_showsBar_iff.mp (ht.not_showsBar ?_)) (ht.depth_eq_zero harrows) _
  simpa [arrowFree] using harrows

theorem parts_unionOf_iff (hne : ts ≠ []) (hts : ∀ t ∈ ts, IsMember t) :
    parts (unionOf ts).toList = ts.map (fun t => trim t.toList) ↔ BarsShow ts := by
  induction ts with
  | nil => exact absurd rfl hne
  | cons t ts ih =>
    obtain ⟨ht, hrest⟩ := List.forall_mem_cons.mp hts
    cases ts with
    | nil =>
      rw [toList_unionOf_singleton]
      have hlast : BarsShow [t] ↔ ¬ ShowsBar t := by simp [BarsShow]
      rw [hlast]
      constructor
      · intro hparts
        exact not_showsBar_of_parts (s := []) (by rw [List.append_nil]; exact hparts)
      · intro hshow
        exact parts_alone (not_showsBar_iff.mp hshow)
    | cons u ts =>
      have hbars : BarsShow (t :: u :: ts) ↔ arrowFree t ∧ BarsShow (u :: ts) := by
        simp [BarsShow, and_assoc]
      rw [hbars, ← ih (List.cons_ne_nil u ts) hrest]
      constructor
      · intro hparts
        have harrows : arrowFree t := by
          rw [toList_unionOf_cons] at hparts
          simpa [arrowFree] using ht.arrows_of_parts hparts
        rw [ht.parts_cons harrows] at hparts
        exact ⟨harrows, (List.cons.inj hparts).2⟩
      · rintro ⟨harrows, hparts⟩
        rw [ht.parts_cons harrows, hparts]
        rfl

theorem parts_unionOf_append {ts us : List String} (hts : ∀ t ∈ ts, IsMember t) (harrows : ∀ t ∈ ts, arrowFree t)
    (hne : us ≠ []) :
    parts (unionOf (ts ++ us)).toList = ts.map (fun t => trim t.toList) ++ parts (unionOf us).toList := by
  induction ts with
  | nil => rfl
  | cons t ts ih =>
    obtain ⟨ht, hrest⟩ := List.forall_mem_cons.mp hts
    obtain ⟨hfree, harrows⟩ := List.forall_mem_cons.mp harrows
    obtain ⟨v, vs, hvs⟩ := List.exists_cons_of_ne_nil (List.append_ne_nil_of_right_ne_nil ts hne)
    rw [List.cons_append, hvs, ht.parts_cons hfree, ← hvs, ih hrest harrows]
    rfl

theorem IsMember.splitBars_append {t : String} (ht : IsMember t) (hbar : '|' ∉ t.toList)
    (hs : splitBars (d - arrows t.toList) s = p :: ps) : splitBars d (t.toList ++ s) = (t.toList ++ p) :: ps := by
  have hdepth : d + depth t.toList = d - arrows t.toList := by
    rw [depth_eq, ht.brackets_eq]
    omega
  refine Component.splitBars_append (fun u v huv => ?_) (by rw [hdepth, hs])
  exact absurd (huv ▸ List.mem_append_right u List.mem_cons_self) hbar

theorem splitBars_unionOf {t : String} (hts : ∀ u ∈ t :: ts, IsMember u) (hbars : ∀ u ∈ t :: ts, '|' ∉ u.toList)
    (hd : d - arrows t.toList < 0) : splitBars d (unionOf (t :: ts)).toList = [(unionOf (t :: ts)).toList] := by
  induction ts generalizing t d with
  | nil =>
    rw [toList_unionOf_singleton]
    simpa using (hts t List.mem_cons_self).splitBars_append (s := []) (hbars t List.mem_cons_self) rfl
  | cons u ts ih =>
    obtain ⟨ht, hts⟩ := List.forall_mem_cons.mp hts
    obtain ⟨hbar, hbars⟩ := List.forall_mem_cons.mp hbars
    have hparts := ih (d := d - arrows t.toList) hts hbars (by omega)
    rw [toList_unionOf_cons]
    refine ht.splitBars_append hbar ?_
    rw [bar_append]
    simp [splitBars, nesting, hparts, Int.ne_of_lt hd]

theorem mem_of_arrowsAfter {before : Char} (h : arrowsAfter before s ≠ 0) : '>' ∈ s := by
  induction s generalizing before with
  | nil => exact absurd rfl h
  | cons c s ih =>
    by_cases harrow : isArrowHead before c
    · obtain ⟨-, rfl⟩ : before = '=' ∧ c = '>' := by simpa [isArrowHead] using harrow
      exact List.mem_cons_self
    · rw [arrowsAfter, if_neg harrow, Nat.zero_add] at h
      exact List.mem_cons_of_mem _ (ih h)

theorem barsShow_of_arrowFree (hts : ∀ t ∈ ts, IsMember t) (harrows : ∀ t ∈ ts, arrowFree t) : BarsShow ts := by
  refine ⟨fun t ht => harrows t (List.mem_of_mem_dropLast ht), fun t ht => ?_⟩
  have hmem := List.mem_of_getLast? ht
  exact (hts t hmem).not_showsBar (by simpa [arrowFree] using harrows t hmem)

theorem parts_unionOf_split (hne : ts ≠ []) (hts : ∀ t ∈ ts, IsMember t) :
    parts (unionOf ts).toList = (ts.takeWhile arrowFree).map (fun t => trim t.toList) ++
      if ts.dropWhile arrowFree = [] then [] else parts (unionOf (ts.dropWhile arrowFree)).toList := by
  have hfree : ∀ t ∈ ts.takeWhile arrowFree, arrowFree t := fun t ht => List.mem_takeWhile_imp ht
  have hsplit := List.takeWhile_append_dropWhile (p := arrowFree) (l := ts)
  split
  · case isTrue hrest =>
    rw [hrest, List.append_nil] at hsplit
    rw [hsplit] at hfree ⊢
    rw [(parts_unionOf_iff hne hts).mpr (barsShow_of_arrowFree hts hfree), List.append_nil]
  · case isFalse hrest =>
    nth_rewrite 1 [← hsplit]
    exact parts_unionOf_append (fun t ht => hts t (List.takeWhile_subset _ ht)) hfree hrest

theorem parts_of_arrow {t : String} (hts : ∀ u ∈ t :: ts, IsMember u) (hbars : ∀ u ∈ t :: ts, '|' ∉ u.toList)
    (harrow : ¬ arrowFree t) : parts (unionOf (t :: ts)).toList = [trim (unionOf (t :: ts)).toList] := by
  have hpos : arrows t.toList ≠ 0 := by simpa [arrowFree] using harrow
  rw [parts, splitBars_unionOf hts hbars (by omega)]
  rfl

theorem mem_unionOf_of_arrow {t : String} (harrow : ¬ arrowFree t) : '>' ∈ (unionOf (t :: ts)).toList := by
  have hpos : arrows t.toList ≠ 0 := by simpa [arrowFree] using harrow
  have hmem : '>' ∈ t.toList := mem_of_arrowsAfter hpos
  cases ts with
  | nil => rwa [toList_unionOf_singleton]
  | cons u ts =>
    rw [toList_unionOf_cons]
    exact List.mem_append_left _ hmem

theorem mem_takeWhile_of_mem_parts {x : List Char} (hne : ts ≠ []) (hts : ∀ t ∈ ts, IsMember t)
    (hbars : ∀ t ∈ ts, '|' ∉ t.toList) (hx : '>' ∉ x) (h : x ∈ parts (unionOf ts).toList) :
    x ∈ (ts.takeWhile arrowFree).map fun t => trim t.toList := by
  rw [parts_unionOf_split hne hts, List.mem_append] at h
  rcases h with h | h
  · exact h
  · cases hrest : ts.dropWhile arrowFree with
    | nil =>
      rw [hrest, if_pos rfl] at h
      cases h
    | cons t us =>
      have hsub : t :: us ⊆ ts := hrest ▸ List.dropWhile_subset _
      have harrow : ¬ arrowFree t := by
        have hhead := List.head?_dropWhile_not arrowFree ts
        rw [hrest] at hhead
        simpa using hhead
      rw [hrest, if_neg (List.cons_ne_nil t us),
        parts_of_arrow (fun u hu => hts u (hsub hu)) (fun u hu => hbars u (hsub hu)) harrow, List.mem_singleton] at h
      -- The head of the arrow is still there after trimming.
      refine absurd ?_ hx
      rw [h, ← List.count_pos_iff, count_trim (by decide), List.count_pos_iff]
      exact mem_unionOf_of_arrow harrow

theorem mem_map_ofList {x : String} : x ∈ ps.map String.ofList ↔ x.toList ∈ ps := by
  constructor
  · intro hmem
    obtain ⟨p, hp, rfl⟩ := List.mem_map.mp hmem
    rwa [String.toList_ofList]
  · intro hmem
    exact List.mem_map.mpr ⟨_, hmem, String.ofList_toList⟩

theorem includesUndefined_iff (type : String) :
    includesUndefined type ↔ "undefined".toList ∈ parts type.toList := by
  rw [includesUndefined, List.contains_iff_mem, splitUnion_eq, mem_map_ofList]

theorem map_trimmed (ts : List String) : ts.map trimmed = (ts.map fun t => trim t.toList).map String.ofList := by
  rw [List.map_map]
  rfl

theorem mem_map_trimmed {x : String} : x ∈ ts.map trimmed ↔ x.toList ∈ ts.map fun t => trim t.toList := by
  rw [map_trimmed, mem_map_ofList]

theorem PropReader.exists_of_variableProp {r : PropReader} {doc : Option DocComment} {n : Syntax.Node} {prop : ComponentProp}
    (h : (r.variableProp doc n).value = some prop) : ∃ t d, prop = r.prop t d := by
  simp only [variableProp] at h
  split at h
  · cases h
  · split at h
    · cases h
    · split at h <;> exact ⟨_, _, (Option.some.inj h).symm⟩

theorem PropReader.From.optional {r : PropReader} {prop : ComponentProp} (h : r.From prop)
    (hundefined : includesUndefined prop.type) : prop.optional := by
  obtain ⟨t, d, rfl⟩ : ∃ t d, prop = r.prop t d := by
    rcases h with ⟨-, -, -, -, -, hvalue⟩ | ⟨-, -⟩ | ⟨-, -, -⟩
    · exact exists_of_variableProp hvalue
    · exact ⟨_, _, rfl⟩
    · exact ⟨_, _, rfl⟩
  have htype : includesUndefined t.type := hundefined
  simp [PropReader.prop, htype]

theorem optional_of_describe {d : Declaration} {file : String} {b : Bool} {root : Syntax.Node} {prop : ComponentProp}
    (h : prop ∈ (describe d file b root).value.props) (hundefined : includesUndefined prop.type) : prop.optional :=
  ((describe_from d file b root).1 prop h).optional hundefined

/-- How a union is divided into its members. It is, where no text before the last has an arrow and the last shows no bar: there
`undefined` is seen if it is a member. Wherever it stands before the first text with an arrow it is seen, and a property with
the type is optional; and if there are no bars in brackets, it is seen nowhere else. -/
theorem unionOf_members (hne : ts ≠ []) (hts : ∀ t ∈ ts, IsMember t) :
    ((∀ t ∈ ts, arrowFree t) → BarsShow ts) ∧
    (splitUnion (unionOf ts) = ts.map trimmed ↔ BarsShow ts) ∧
    (BarsShow ts → (includesUndefined (unionOf ts) ↔ "undefined" ∈ ts.map trimmed)) ∧
    ("undefined" ∈ (ts.takeWhile arrowFree).map trimmed →
      includesUndefined (unionOf ts) ∧
      ∀ d file b root, ∀ prop ∈ (describe d file b root).value.props, prop.type = unionOf ts → prop.optional) ∧
    ((∀ t ∈ ts, '|' ∉ t.toList) → includesUndefined (unionOf ts) →
      "undefined" ∈ (ts.takeWhile arrowFree).map trimmed) := by
  have hexact := parts_unionOf_iff hne hts
  refine ⟨barsShow_of_arrowFree hts, ?_, ?_, ?_, ?_⟩
  · rw [← hexact, splitUnion_eq, map_trimmed]
    exact List.map_inj_right fun _ _ heq => String.ofList_inj.mp heq
  · intro hbars
    rw [includesUndefined_iff, mem_map_trimmed, hexact.mpr hbars]
  · intro hmem
    have hincludes : includesUndefined (unionOf ts) := by
      rw [includesUndefined_iff, parts_unionOf_split hne hts]
      exact List.mem_append_left _ (mem_map_trimmed.mp hmem)
    exact ⟨hincludes, fun d file b root prop hprop htype => optional_of_describe hprop (htype ▸ hincludes)⟩
  · intro hbars hincludes
    rw [includesUndefined_iff] at hincludes
    exact mem_map_trimmed.mpr (mem_takeWhile_of_mem_parts hne hts hbars (by decide) hincludes)

def handlerMembers : List String :=
  ["Map<string, [A | B]>", "undefined", "((e: Event) => void)"]

theorem unionOf_members_handlerMembers :
    (∀ t ∈ handlerMembers, IsMember t) ∧ BarsShow handlerMembers ∧
    splitUnion (unionOf handlerMembers) = handlerMembers ∧ includesUndefined (unionOf handlerMembers) := by
  have hts : ∀ t ∈ handlerMembers, IsMember t := by decide +kernel
  have hne : handlerMembers ≠ [] := List.cons_ne_nil _ _
  obtain ⟨-, hexact, hincludes, -⟩ := unionOf_members hne hts
  have hshow : BarsShow handlerMembers := by
    refine ⟨by decide +kernel, fun t ht => ?_⟩
    obtain rfl : "((e: Event) => void)" = t := by simpa [handlerMembers] using ht
    rintro ⟨u, v, huv, -⟩
    exact absurd (huv ▸ List.mem_append_right u List.mem_cons_self : '|' ∈ "((e: Event) => void)".toList) (by decide)
  have htrimmed : handlerMembers.map trimmed = handlerMembers := by decide +kernel
  refine ⟨hts, hshow, (hexact.mpr hshow).trans htrimmed, (hincludes hshow).mpr ?_⟩
  rw [htrimmed]
  exact List.mem_cons_of_mem _ List.mem_cons_self

def handlerScript : Syntax.Node :=
  Syntax.parseScript "let \x7b f \x7d: \x7b f: (() => void) | undefined \x7d = $props();"

theorem undefined_after_arrow :
    (IsMember "(() => void)" ∧ IsMember "undefined" ∧ includesUndefined (unionOf ["(() => void)", "undefined"]) = false) ∧
    (IsMember "(() => void | undefined | null)" ∧ includesUndefined "(() => void | undefined | null)") ∧
    (describe { name := "C", kind := .component } "C.svelte" true handlerScript).value.props.map
      (fun p => (p.name, p.type, p.optional)) = [("f", "(() => void) | undefined", false)] := by
  refine ⟨⟨?_, ?_, ?_⟩, ⟨?_, ?_⟩, ?_⟩ <;> decide +kernel

end ApiCatalog.Component
