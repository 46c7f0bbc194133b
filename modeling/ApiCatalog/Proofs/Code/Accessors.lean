import Mathlib.Data.List.Count
import Mathlib.Data.List.Perm.Basic
import ApiCatalog.Proofs.Code.Twins
import ApiCatalog.Syntax.Program

/-!
The members of a class by their names. A setter is left out after a member of its name, and anything else is listed
whatever stands before it. So an accessor pair gives one member if the getter comes first, and two if the setter does.
-/

namespace ApiCatalog.Code

open Syntax

/-! The nodes of a class body -/

def memberName? (n : Node) : Option String :=
  if Reader.isClassMember n.kind then
    (n.child? .name).bind fun name => if name.kind = .privateName then none else some name.text
  else none

def isGetter (n : Node) : Bool :=
  n.kind != .fieldDefinition && n.hasToken "get"

def isSetter (n : Node) : Bool :=
  n.kind != .fieldDefinition && !n.hasToken "get" && n.hasToken "set"

theorem isSetter_of_isGetter {n : Node} (h : isGetter n) : isSetter n = false := by
  simp only [isGetter, Bool.and_eq_true] at h
  simp [isSetter, h.2]

theorem kind_of_memberName? {n : Node} {x : String} (h : memberName? n = some x) : Reader.isClassMember n.kind := by
  rw [memberName?] at h
  split at h
  · assumption
  · cases h

def HasBody (n : Node) (cs : List Node) : Prop :=
  (n.child? .body).map Node.children = some cs

/-! Names in the order in which they are listed -/

structure Member where
  name : String
  setter : Bool

namespace Member

variable {x y : String} {m : Member} {ms : List Member} {names : List String}

def addTo (names : List String) (m : Member) : List String :=
  if m.setter && names.contains m.name then names else names ++ [m.name]

def listed (ms : List Member) : List String :=
  ms.foldl addTo []

def named (x : String) (ms : List Member) : List Member :=
  ms.filter fun m => m.name == x

def entries : List Member → Nat
  | [] => 0
  | _ :: later => 1 + later.countP fun m => !m.setter

theorem named_cons : named x (m :: ms) = if m.name = x then m :: named x ms else named x ms := by
  simp [named, List.filter_cons]

theorem named_append (ms ms' : List Member) : named x (ms ++ ms') = named x ms ++ named x ms' :=
  List.filter_append ..

theorem count_addTo_of_mem (h : x ∈ names) :
    (addTo names m).count x = names.count x + if m.name = x ∧ m.setter = false then 1 else 0 := by
  by_cases hx : m.name = x
  · subst hx
    cases hset : m.setter <;> simp [addTo, hset, h]
  · rw [if_neg fun hand => hx hand.1, addTo]
    split
    · rfl
    · simp [List.count_append, hx]

theorem mem_addTo_of_mem (h : x ∈ names) : x ∈ addTo names m := by
  rw [addTo]
  split
  · exact h
  · exact List.mem_append_left _ h

theorem count_foldl_of_mem (h : x ∈ names) :
    (ms.foldl addTo names).count x = names.count x + (named x ms).countP fun m => !m.setter := by
  induction ms generalizing names with
  | nil => rfl
  | cons m ms ih =>
    rw [List.foldl_cons, ih (mem_addTo_of_mem h), count_addTo_of_mem h, named_cons]
    by_cases hx : m.name = x
    · cases hset : m.setter
      · simp [hx, hset]
        omega
      · simp [hx, hset]
    · simp [hx]

theorem count_foldl_of_not_mem (h : x ∉ names) : (ms.foldl addTo names).count x = entries (named x ms) := by
  induction ms generalizing names with
  | nil => exact List.count_eq_zero.mpr h
  | cons m ms ih =>
    rw [List.foldl_cons, named_cons]
    by_cases hx : m.name = x
    · subst hx
      have hadd : addTo names m = names ++ [m.name] := by simp [addTo, h]
      have hcount : (names ++ [m.name]).count m.name = 1 := by simp [List.count_append, List.count_eq_zero.mpr h]
      rw [hadd, count_foldl_of_mem (List.mem_append_right _ List.mem_cons_self), hcount]
      simp [entries]
    · have hadd : x ∉ addTo names m := by
        rw [addTo]
        split
        · exact h
        · simp [h, Ne.symm hx]
      rw [ih hadd, if_neg hx]

theorem count_listed (x : String) (ms : List Member) : (listed ms).count x = entries (named x ms) :=
  count_foldl_of_not_mem List.not_mem_nil

end Member

/-! Reading a class body -/

namespace Reader

variable (r : Reader) {d : Declaration} {n : Node} {doc : Option DocComment}

def member? (p : Placed) : Option Member :=
  if r.Hides p.before ∨ p.node.hasError then none else (memberName? p.node).map fun x => ⟨x, isSetter p.node⟩

theorem documented_name (d : Declaration) (doc : Option DocComment) : (documented d doc).name = d.name := by
  cases doc <;> rfl

theorem fieldMember_name (symbol : String) : (r.fieldMember d n doc symbol).value.name = d.name := by
  have htyped (t : Option String) : (fieldMember.typed r d n symbol t).value.name = d.name := by cases t <;> rfl
  rw [fieldMember]
  split
  · rfl
  · split
    · rfl
    · exact htyped _
  · exact htyped none

theorem member?_eq_some {p : Placed} {name : Node} (hname : p.node.child? .name = some name)
    (hguard : ¬ (!isClassMember p.node.kind || name.kind == .privateName ||
      (r.docBefore? p.before).any (·.hidden)) = true) (herror : ¬ p.node.hasError = true) :
    r.member? p = some ⟨name.text, isSetter p.node⟩ := by
  have hshown : ¬ r.Hides p.before := not_hides_of_guard hguard
  simp only [Bool.or_eq_true, Bool.not_eq_true', beq_iff_eq, not_or] at hguard
  simp [member?, memberName?, hname, hguard, hshown, herror]

theorem member?_eq_none {p : Placed} {name : Node} (hname : p.node.child? .name = some name)
    (hguard : (!isClassMember p.node.kind || name.kind == .privateName ||
      (r.docBefore? p.before).any (·.hidden)) = true) : r.member? p = none := by
  simp only [Bool.or_eq_true, Bool.not_eq_true', beq_iff_eq] at hguard
  rcases hguard with (hkind | hprivate) | hhides
  · simp [member?, memberName?, hkind]
  · simp [member?, memberName?, hname, hprivate]
  · have hhides : r.Hides p.before := hhides
    simp [member?, hhides]

theorem names_classMember (owner : String) (ms : List Declaration) (p : Placed) :
    (r.classMember owner ms p).value.map Declaration.name =
      (r.member? p).elim (ms.map Declaration.name) (Member.addTo (ms.map Declaration.name)) := by
  simp only [classMember]
  cases hname : p.node.child? .name with
  | none => simp [member?, memberName?, hname]
  | some name =>
    have hadded {e : Declaration} (he : e.name = name.text) :
        (ms ++ [e]).map Declaration.name = ms.map Declaration.name ++ [name.text] := by
      rw [List.map_append, List.map_singleton, he]
    have hlisted : Member.addTo (ms.map Declaration.name) ⟨name.text, false⟩ = ms.map Declaration.name ++ [name.text] :=
      rfl
    dsimp only
    split
    · case isTrue hguard =>
      rw [r.member?_eq_none hname hguard]
      rfl
    case isFalse hguard =>
    split
    · case isTrue herror =>
      rw [member?, if_pos (.inr herror)]
      rfl
    case isFalse herror =>
    rw [r.member?_eq_some hname hguard herror, Option.elim_some, isSetter]
    -- A field, a getter, a setter, or else a method; only a setter looks at the members before it.
    split
    · case isTrue hfield =>
      rw [eq_of_beq hfield]
      exact hadded ((r.fieldMember_name _).trans (documented_name _ _))
    case isFalse hfield =>
    split
    · case isTrue hget =>
      rw [hget, Bool.not_true, Bool.and_false, Bool.false_and, hlisted]
      exact hadded (documented_name _ _)
    case isFalse hget =>
    have hkind : (p.node.kind != .fieldDefinition) = true := by simpa using hfield
    rw [hkind, eq_false_of_ne_true hget, Bool.not_false, Bool.and_self, Bool.true_and]
    split
    · case isTrue hset =>
      have hany : (ms.map Declaration.name).contains name.text = ms.any (·.name == name.text) := by
        rw [List.contains_eq_any_beq, List.any_map]
        congr 1
        funext m
        exact BEq.comm
      rw [hset, Member.addTo, Bool.true_and, hany]
      split
      · rfl
      · exact hadded (documented_name _ _)
    case isFalse hset =>
    rw [eq_false_of_ne_true hset, hlisted]
    exact hadded (documented_name _ _)

theorem member?_of_unnamed {p : Placed} (h : p.node.isNamed = false) : r.member? p = none := by
  have hkind : isClassMember p.node.kind = false := by
    rw [Node.isNamed] at h
    split at h
    · case h_1 t ht =>
      rw [ht]
      simp [isClassMember]
    · cases h
  simp [member?, memberName?, hkind]

theorem names_foldlM (owner : String) (body : List Placed) (ms : List Declaration) :
    (body.foldlM (fun ms (p : Placed) => if p.node.isNamed then r.classMember owner ms p else pure ms)
      ms).value.map Declaration.name = (body.filterMap r.member?).foldl Member.addTo (ms.map Declaration.name) := by
  induction body generalizing ms with
  | nil => rfl
  | cons p body ih =>
    rw [List.foldlM_cons, Noted.value_bind, ih, List.filterMap_cons]
    cases hnamed : p.node.isNamed with
    | true =>
      rw [if_pos rfl, names_classMember]
      cases r.member? p <;> rfl
    | false =>
      rw [r.member?_of_unnamed hnamed]
      rfl

def memberNames (d : Declaration) (n : Node) : List String :=
  (r.asClass d n).value.members.map Declaration.name

/-! The members of a body in source order -/

def outline (before : Option Node) (cs : List Node) : List Member :=
  (Placed.siblingsAfter before cs).filterMap r.member?

variable {r} {x : String} {c : Node} {cs xs : List Node}

theorem memberNames_of_body (h : HasBody n cs) (d : Declaration) :
    r.memberNames d n = Member.listed (r.outline none cs) := by
  obtain ⟨b, hb, rfl⟩ := Option.map_eq_some_iff.mp h
  have hbody : bodyOf n = Placed.siblingsAfter none b.children := by
    rw [bodyOf, hb]
    rfl
  rw [outline, ← hbody]
  exact r.names_foldlM d.name (bodyOf n) []

theorem not_hides_member (h : memberName? c = some x) : ¬ r.Hides (some c) := by
  have hdoc : isDocNode c = false := by
    rw [isDocNode, Bool.and_eq_false_imp]
    intro hcomment
    have hkind := kind_of_memberName? h
    rw [eq_of_beq hcomment] at hkind
    cases hkind
  simp [Hides, docBefore?, hdoc]

theorem outline_after_member (h : memberName? c = some x) : r.outline (some c) cs = r.outline none cs := by
  cases cs with
  | nil => rfl
  | cons n cs =>
    have hnone : ¬ r.Hides none := by simp [Hides, docBefore?]
    have hmember : r.member? ⟨some c, n⟩ = r.member? ⟨none, n⟩ := by
      simp only [member?, not_hides_member h, hnone]
    rw [outline, outline, Placed.siblingsAfter, Placed.siblingsAfter, List.filterMap_cons, List.filterMap_cons, hmember]

structure Shows (r : Reader) (before : List Node) (x : String) (c : Node) : Prop where
  name : memberName? c = some x
  readable : c.hasError = false
  unmarked : ¬ r.Hides before.getLast?

theorem Shows.outline (h : r.Shows xs x c) (cs : List Node) :
    r.outline none (xs ++ c :: cs) = r.outline none xs ++ ⟨x, isSetter c⟩ :: r.outline none cs := by
  have hmember : r.member? ⟨xs.getLast?, c⟩ = some ⟨x, isSetter c⟩ := by
    simp [member?, h.name, h.readable, h.unmarked]
  rw [Reader.outline, siblingsAfter_append, Option.or_none, Placed.siblingsAfter, List.filterMap_append,
    List.filterMap_cons_some hmember]
  change r.outline none xs ++ _ :: r.outline (some c) cs = _
  rw [outline_after_member h.name]

theorem named_outline (h : ∀ c ∈ cs, memberName? c ≠ some x) (before : Option Node) :
    Member.named x (r.outline before cs) = [] := by
  induction cs generalizing before with
  | nil => rfl
  | cons c cs ih =>
    obtain ⟨hc, hcs⟩ := List.forall_mem_cons.mp h
    rw [outline, Placed.siblingsAfter, List.filterMap_cons]
    have hrest : Member.named x ((Placed.siblingsAfter (some c) cs).filterMap r.member?) = [] := ih hcs _
    split
    · exact hrest
    · case h_2 m hm =>
      have hne : m.name ≠ x := by
        rintro rfl
        rw [member?] at hm
        split at hm
        · cases hm
        · obtain ⟨y, hy, rfl⟩ := Option.map_eq_some_iff.mp hm
          exact hc hy
      rw [Member.named_cons, if_neg hne, hrest]

end Reader

/-! Accessor pairs -/

namespace Member

variable {x : String} {xs ys zs : List Member}

def pairIn (xs ys zs : List Member) (first second : Member) : List Member :=
  xs ++ first :: (ys ++ second :: zs)

theorem count_listed_pairIn (hxs : named x xs = []) (hys : named x ys = []) (hzs : named x zs = []) (a b : Bool) :
    (listed (pairIn xs ys zs ⟨x, a⟩ ⟨x, b⟩)).count x = if b then 1 else 2 := by
  rw [count_listed]
  simp only [pairIn, named_append, named_cons, hxs, hys, hzs, if_true, List.nil_append]
  cases b <;> rfl

theorem listed_pairIn_perm (hxs : named x xs = []) (hys : named x ys = []) (hzs : named x zs = []) :
    (listed (pairIn xs ys zs ⟨x, true⟩ ⟨x, false⟩)).Perm (x :: listed (pairIn xs ys zs ⟨x, false⟩ ⟨x, true⟩)) := by
  rw [List.perm_iff_count]
  intro y
  by_cases hy : x = y
  · subst hy
    rw [List.count_cons_self, count_listed_pairIn hxs hys hzs, count_listed_pairIn hxs hys hzs]
    rfl
  · -- The members of any other name stand in the same order in both lists.
    rw [List.count_cons_of_ne hy, count_listed, count_listed]
    simp only [pairIn, named_append, named_cons, if_neg hy]

end Member

/-- A getter and a setter of one name that are read, whichever of the two places each of them has in a class body, and no
other member of the name around them. -/
structure AccessorPair (r : Reader) (xs ys zs : List Node) (x : String) (g s : Node) : Prop where
  getter : r.Shows xs x g
  setter : r.Shows ys x s
  gets : isGetter g
  sets : isSetter s
  only : ∀ c ∈ xs ++ ys ++ zs, memberName? c ≠ some x

namespace AccessorPair

variable {r : Reader} {xs ys zs : List Node} {x : String} {g s : Node}

theorem outline_getter_first (h : AccessorPair r xs ys zs x g s) :
    r.outline none (xs ++ g :: (ys ++ s :: zs)) =
      Member.pairIn (r.outline none xs) (r.outline none ys) (r.outline none zs) ⟨x, false⟩ ⟨x, true⟩ := by
  rw [h.getter.outline, h.setter.outline, isSetter_of_isGetter h.gets, h.sets]
  rfl

theorem outline_setter_first (h : AccessorPair r xs ys zs x g s) :
    r.outline none (xs ++ s :: (ys ++ g :: zs)) =
      Member.pairIn (r.outline none xs) (r.outline none ys) (r.outline none zs) ⟨x, true⟩ ⟨x, false⟩ := by
  have hsetter : r.Shows xs x s := ⟨h.setter.name, h.setter.readable, h.getter.unmarked⟩
  have hgetter : r.Shows ys x g := ⟨h.getter.name, h.getter.readable, h.setter.unmarked⟩
  rw [hsetter.outline, hgetter.outline, isSetter_of_isGetter h.gets, h.sets]
  rfl

theorem others (h : AccessorPair r xs ys zs x g s) : Member.named x (r.outline none xs) = [] ∧
    Member.named x (r.outline none ys) = [] ∧ Member.named x (r.outline none zs) = [] := by
  have hnone {cs : List Node} (hcs : ∀ c ∈ cs, c ∈ xs ++ ys ++ zs) : Member.named x (r.outline none cs) = [] := by
    apply Reader.named_outline
    intro c hc
    exact h.only c (hcs c hc)
  exact ⟨hnone fun c hc => by simp [hc], hnone fun c hc => by simp [hc], hnone fun c hc => by simp [hc]⟩

end AccessorPair

theorem accessor_pair_entries {r : Reader} {xs ys zs : List Node} {x : String} {g s : Node}
    (h : AccessorPair r xs ys zs x g s) :
    (∀ d n, HasBody n (xs ++ g :: (ys ++ s :: zs)) → (r.memberNames d n).count x = 1) ∧
    (∀ d n, HasBody n (xs ++ s :: (ys ++ g :: zs)) → (r.memberNames d n).count x = 2) ∧
    ∀ r' xs' ys' zs' g' s', AccessorPair r' xs' ys' zs' x g' s' → r'.outline none xs' = r.outline none xs →
      r'.outline none ys' = r.outline none ys → r'.outline none zs' = r.outline none zs →
      ∀ d n d' n', HasBody n (xs ++ g :: (ys ++ s :: zs)) → HasBody n' (xs' ++ s' :: (ys' ++ g' :: zs')) →
        (r'.memberNames d' n').Perm (x :: r.memberNames d n) := by
  obtain ⟨hxs, hys, hzs⟩ := h.others
  refine ⟨?_, ?_, ?_⟩
  · intro d n hn
    rw [Reader.memberNames_of_body hn, h.outline_getter_first]
    exact Member.count_listed_pairIn hxs hys hzs false true
  · intro d n hn
    rw [Reader.memberNames_of_body hn, h.outline_setter_first]
    exact Member.count_listed_pairIn hxs hys hzs true false
  · intro r' xs' ys' zs' g' s' h' hxs' hys' hzs' d n d' n' hn hn'
    rw [Reader.memberNames_of_body hn, Reader.memberNames_of_body hn', h.outline_getter_first, h'.outline_setter_first,
      hxs', hys', hzs']
    exact Member.listed_pairIn_perm hxs hys hzs

def memberNode (source : String) : Node :=
  let root := parseScript ("class A \x7b" ++ source ++ "\x7d")
  (((bodyOf (root.namedChildren.headD root)).map Placed.node).find? Node.isNamed).getD root

def classWith (body : List Node) : Node :=
  .mk none .classDeclaration "" ⟨1, 1⟩ 1 [.mk (some .body) .classBody "" ⟨1, 1⟩ 1 body]

theorem accessor_pair_entries_apart :
    let r : Reader := ⟨"m.ts", ⟨1, 1⟩, none⟩
    let d : Declaration := { name := "A", kind := .value }
    let g := memberNode "get x(): number \x7b return 1; \x7d"
    let s := memberNode "set x(v: number) \x7b\x7d"
    let m := memberNode "set y(v: string) \x7b\x7d"
    let c := memberNode "/** The x. */"
    AccessorPair r [m, c] [m, c] [] "x" g s ∧
      (r.memberNames d (classWith [m, c, g, m, c, s])).count "x" = 1 ∧
      (r.memberNames d (classWith [m, c, s, m, c, g])).count "x" = 2 ∧
      (r.memberNames d (classWith [m, c, s, m, c, g])).Perm ("x" :: r.memberNames d (classWith [m, c, g, m, c, s])) := by
  intro r d g s m c
  have hfacts : (memberName? g = some "x" ∧ g.hasError = false ∧ isGetter g) ∧
      (memberName? s = some "x" ∧ s.hasError = false ∧ isSetter s) ∧ ¬ r.Hides (some c) ∧
      ∀ n ∈ [m, c] ++ [m, c] ++ [], memberName? n ≠ some "x" := by
    decide +kernel
  obtain ⟨⟨hgname, hgerror, hget⟩, ⟨hsname, hserror, hset⟩, hcomment, honly⟩ := hfacts
  have hpair : AccessorPair r [m, c] [m, c] [] "x" g s :=
    ⟨⟨hgname, hgerror, hcomment⟩, ⟨hsname, hserror, hcomment⟩, hget, hset, honly⟩
  obtain ⟨hfirst, hsecond, hexchange⟩ := accessor_pair_entries hpair
  refine ⟨hpair, hfirst d _ rfl, hsecond d _ rfl, ?_⟩
  exact hexchange r _ _ _ g s hpair rfl rfl rfl d _ d _ rfl rfl

def setterFirst : Node :=
  parseScript "export class A \x7b set x(v: number) \x7b\x7d get x(): number \x7b return 1; \x7d \x7d"

theorem setter_first_listed_twice :
    let body := ((statements setterFirst).filterMap fun st => st.node.child? .declaration).flatMap bodyOf
    setterFirst.hasError = false ∧
    (body.filter fun p => p.node.isNamed).map (fun p => (memberName? p.node, isGetter p.node, isSetter p.node)) =
      [(some "x", false, true), (some "x", true, false)] ∧
    (analyzeCode "m.ts" "m.ts" (fun _ => none) setterFirst).value.declarations.map
      (fun d => (d.name, d.members.map Declaration.name)) = [("A", ["x", "x"])] := by
  decide +kernel

end ApiCatalog.Code
