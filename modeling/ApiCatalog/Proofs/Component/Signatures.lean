import Mathlib.Data.Finset.Card
import Mathlib.Data.Finset.SDiff
import Mathlib.Data.List.Induction
import ApiCatalog.Component.Props
import ApiCatalog.Proofs.Code.Hidden

namespace ApiCatalog.Component

open Syntax Code

/-! Forms of types -/

inductive TypeForm where
  | body
  | wrapper
  | intersection
  | name
  | other
  deriving DecidableEq

def typeForm : Kind → TypeForm
  | .objectType | .interfaceBody => .body
  | .typeClause | .typeArguments | .parenthesizedType => .wrapper
  | .intersectionType => .intersection
  | .typeName | .genericType => .name
  | _ => .other

def typeName (n : Node) : String :=
  if n.kind = .genericType then ((n.child? .name).getD n).text else n.text

def extended (d : Node) : List Node :=
  ((d.childOfKind? .extendsTypes).map Node.namedChildren).getD []

/-- A member belongs to a type by way of the named types in between. Its position tells the branches that lead to it, of an
interface first what it extends. -/
inductive Occurs (types : List (String × Node)) : Node → List String → List Nat → Placed → Prop
  | member {n : Node} {i : Nat} {p : Placed} (hn : typeForm n.kind = .body) (hp : n.placedChildren[i]? = some p) :
      Occurs types n [] [i] p
  | inside {n m : Node} {via : List String} {pos : List Nat} {p : Placed} (hn : typeForm n.kind = .wrapper)
      (hm : n.namedChildren.head? = some m) (h : Occurs types m via pos p) : Occurs types n via pos p
  | operand {n m : Node} {i : Nat} {via : List String} {pos : List Nat} {p : Placed}
      (hn : typeForm n.kind = .intersection) (hm : n.namedChildren[i]? = some m) (h : Occurs types m via pos p) :
      Occurs types n via (i :: pos) p
  | aliased {n m d : Node} {via : List String} {pos : List Nat} {p : Placed} (hn : typeForm n.kind = .name)
      (hd : types.lookup (typeName n) = some d) (hkind : d.kind = .typeAlias) (hm : d.child? .value = some m)
      (h : Occurs types m via pos p) : Occurs types n (typeName n :: via) pos p
  | base {n m d : Node} {i : Nat} {via : List String} {pos : List Nat} {p : Placed} (hn : typeForm n.kind = .name)
      (hd : types.lookup (typeName n) = some d) (hkind : d.kind ≠ .typeAlias) (hm : (extended d)[i]? = some m)
      (h : Occurs types m via pos p) : Occurs types n (typeName n :: via) (0 :: i :: pos) p
  | own {n m d : Node} {via : List String} {pos : List Nat} {p : Placed} (hn : typeForm n.kind = .name)
      (hd : types.lookup (typeName n) = some d) (hkind : d.kind ≠ .typeAlias) (hm : d.child? .body = some m)
      (h : Occurs types m via pos p) : Occurs types n (typeName n :: via) (1 :: pos) p

variable {types : List (String × Node)} {n m d : Node} {seen via : List String} {pos : List Nat} {p : Placed}

/-! The parts of a type -/

theorem firstTypeParts_eq (cs : List Node) :
    firstTypeParts cs = ((cs.filter Node.isNamed).head?.map typeParts).getD [] := by
  induction cs with
  | nil => rfl
  | cons c cs ih =>
    rw [firstTypeParts]
    by_cases hnamed : c.isNamed
    · rw [if_pos hnamed, List.filter_cons_of_pos hnamed]
      rfl
    · rw [if_neg hnamed, List.filter_cons_of_neg hnamed, ih]

theorem allTypeParts_eq (cs : List Node) : allTypeParts cs = (cs.filter Node.isNamed).flatMap typeParts := by
  induction cs with
  | nil => rfl
  | cons c cs ih =>
    rw [allTypeParts, ih]
    by_cases hnamed : c.isNamed
    · rw [if_pos hnamed, List.filter_cons_of_pos hnamed, List.flatMap_cons]
    · rw [if_neg hnamed, List.filter_cons_of_neg hnamed, List.nil_append]

theorem typeParts_eq (n : Node) :
    typeParts n =
      match typeForm n.kind with
      | .wrapper => (n.namedChildren.head?.map typeParts).getD []
      | .intersection => n.namedChildren.flatMap typeParts
      | .body => [.members n]
      | .name => [.reference n (typeName n)]
      | .other => [.unsupported n] := by
  rw [typeParts.eq_def]
  split
  · exact firstTypeParts_eq _
  · exact firstTypeParts_eq _
  · exact firstTypeParts_eq _
  · exact allTypeParts_eq _
  · case h_5 hclause harguments hparentheses hinter =>
    split
    · case h_1 h => rw [h]; rfl
    · case h_2 h => rw [h]; rfl
    · case h_3 h => simp [h, typeForm, typeName]
    · case h_4 h => simp [h, typeForm, typeName]
    · case h_5 hobject hinterface hname hgeneric =>
      have hother : typeForm n.kind = .other := by
        obtain ⟨role, kind, text, start, last, cs⟩ := n
        simp only [Node.kind] at hobject hinterface hname hgeneric ⊢
        unfold typeForm
        split
        · exact absurd rfl hobject
        · exact absurd rfl hinterface
        · exact (hclause _ _ _ _ _ rfl).elim
        · exact (harguments _ _ _ _ _ rfl).elim
        · exact (hparentheses _ _ _ _ _ rfl).elim
        · exact (hinter _ _ _ _ _ rfl).elim
        · exact absurd rfl hname
        · exact absurd rfl hgeneric
        · rfl
      rw [hother]

/-! Members by the form of a type -/

def OccursIn (types : List (String × Node)) (d : Node) (via : List String) (pos : List Nat) (p : Placed) : Prop :=
  (d.kind = .typeAlias ∧ ∃ m, d.child? .value = some m ∧ Occurs types m via pos p) ∨
    (d.kind ≠ .typeAlias ∧
      ((∃ i m pos', (extended d)[i]? = some m ∧ pos = 0 :: i :: pos' ∧ Occurs types m via pos' p) ∨
        ∃ m pos', d.child? .body = some m ∧ pos = 1 :: pos' ∧ Occurs types m via pos' p))

theorem occurs_body (hform : typeForm n.kind = .body) :
    Occurs types n via pos p ↔ via = [] ∧ ∃ i, pos = [i] ∧ n.placedChildren[i]? = some p := by
  constructor
  · intro h
    cases h with
    | member _ hp => exact ⟨rfl, _, rfl, hp⟩
    | inside hn | operand hn | aliased hn | base hn | own hn => cases hform.symm.trans hn
  · rintro ⟨rfl, i, rfl, hp⟩
    exact .member hform hp

theorem occurs_wrapper (hform : typeForm n.kind = .wrapper) :
    Occurs types n via pos p ↔ ∃ m, n.namedChildren.head? = some m ∧ Occurs types m via pos p := by
  constructor
  · intro h
    cases h with
    | inside _ hm h => exact ⟨_, hm, h⟩
    | member hn | operand hn | aliased hn | base hn | own hn => cases hform.symm.trans hn
  · rintro ⟨m, hm, h⟩
    exact .inside hform hm h

theorem occurs_intersection (hform : typeForm n.kind = .intersection) :
    Occurs types n via pos p ↔ ∃ i m pos', n.namedChildren[i]? = some m ∧ pos = i :: pos' ∧ Occurs types m via pos' p := by
  constructor
  · intro h
    cases h with
    | operand _ hm h => exact ⟨_, _, _, hm, rfl, h⟩
    | member hn | inside hn | aliased hn | base hn | own hn => cases hform.symm.trans hn
  · rintro ⟨i, m, pos', hm, rfl, h⟩
    exact .operand hform hm h

theorem occurs_name (hform : typeForm n.kind = .name) :
    Occurs types n via pos p ↔
      ∃ d via', types.lookup (typeName n) = some d ∧ via = typeName n :: via' ∧ OccursIn types d via' pos p := by
  constructor
  · intro h
    cases h with
    | aliased _ hd hkind hm h => exact ⟨_, _, hd, rfl, .inl ⟨hkind, _, hm, h⟩⟩
    | base _ hd hkind hm h => exact ⟨_, _, hd, rfl, .inr ⟨hkind, .inl ⟨_, _, _, hm, rfl, h⟩⟩⟩
    | own _ hd hkind hm h => exact ⟨_, _, hd, rfl, .inr ⟨hkind, .inr ⟨_, _, hm, rfl, h⟩⟩⟩
    | member hn | inside hn | operand hn => cases hform.symm.trans hn
  · rintro ⟨d, via', hd, rfl, ⟨hkind, m, hm, h⟩ | ⟨hkind, ⟨i, m, pos', hm, rfl, h⟩ | ⟨m, pos', hm, rfl, h⟩⟩⟩
    · exact .aliased hform hd hkind hm h
    · exact .base hform hd hkind hm h
    · exact .own hform hd hkind hm h

theorem not_occurs_other (hform : typeForm n.kind = .other) : ¬ Occurs types n via pos p := by
  intro h
  cases h with
  | member hn | inside hn | operand hn | aliased hn | base hn | own hn => cases hform.symm.trans hn

/-! Listings -/

abbrev Before (x y : List Nat) : Prop :=
  List.Lex (· < ·) x y

def Simple (seen via : List String) : Prop :=
  via.Nodup ∧ ∀ x ∈ via, x ∉ seen

theorem simple_nil : Simple seen [] :=
  ⟨.nil, by simp⟩

theorem simple_cons {x : String} : Simple seen (x :: via) ↔ x ∉ seen ∧ Simple (x :: seen) via := by
  rw [Simple, Simple, List.nodup_cons, List.forall_mem_cons]
  constructor
  · rintro ⟨⟨hfresh, hnodup⟩, hx, hvia⟩
    refine ⟨hx, hnodup, fun y hy hmem => ?_⟩
    rcases List.mem_cons.mp hmem with rfl | hmem
    · exact hfresh hy
    · exact hvia y hy hmem
  · rintro ⟨hx, hnodup, hvia⟩
    exact ⟨⟨fun hmem => hvia x hmem List.mem_cons_self, hnodup⟩, hx,
      fun y hy hmem => hvia y hy (List.mem_cons_of_mem _ hmem)⟩

theorem Simple.of_cons {x : String} (h : Simple (x :: seen) via) : Simple seen via :=
  ⟨h.1, fun y hy hmem => h.2 y hy (List.mem_cons_of_mem _ hmem)⟩

/-- The members with a given property in the order of their positions, as far as they are reached without entering a type
twice, or one of those seen. -/
structure Lists (seen : List String) (belongs : List String → List Nat → Placed → Prop) (ps : List (List Nat × Placed)) :
    Prop where
  sorted : ps.Pairwise fun x y => Before x.1 y.1
  mem_iff : ∀ pos p, (pos, p) ∈ ps ↔ ∃ via, belongs via pos p ∧ Simple seen via

namespace Lists

variable {belongs belongs' : List String → List Nat → Placed → Prop} {ps qs : List (List Nat × Placed)}

theorem congr (h : Lists seen belongs ps) (hiff : ∀ via pos p, belongs via pos p ↔ belongs' via pos p) :
    Lists seen belongs' ps where
  sorted := h.sorted
  mem_iff := fun pos p => by simp only [h.mem_iff, hiff]

theorem nil (h : ∀ via pos p, ¬ belongs via pos p) : Lists seen belongs [] where
  sorted := .nil
  mem_iff := fun pos p => by simp [h]

theorem cons (k : Nat) (h : Lists seen belongs ps) :
    Lists seen (fun via pos p => ∃ pos', pos = k :: pos' ∧ belongs via pos' p) (ps.map fun x => (k :: x.1, x.2)) where
  sorted := List.pairwise_map.mpr (h.sorted.imp fun hlt => .cons hlt)
  mem_iff := fun pos p => by
    rw [List.mem_map]
    constructor
    · rintro ⟨⟨pos', q⟩, hq, heq⟩
      obtain ⟨rfl, rfl⟩ := Prod.mk.inj heq
      obtain ⟨via, hbelongs, hsimple⟩ := (h.mem_iff _ _).mp hq
      exact ⟨via, ⟨pos', rfl, hbelongs⟩, hsimple⟩
    · rintro ⟨via, ⟨pos', rfl, hbelongs⟩, hsimple⟩
      exact ⟨(pos', p), (h.mem_iff _ _).mpr ⟨via, hbelongs, hsimple⟩, rfl⟩

theorem append (h : Lists seen belongs ps) (h' : Lists seen belongs' qs) (hlt : ∀ x ∈ ps, ∀ y ∈ qs, Before x.1 y.1) :
    Lists seen (fun via pos p => belongs via pos p ∨ belongs' via pos p) (ps ++ qs) where
  sorted := List.pairwise_append.mpr ⟨h.sorted, h'.sorted, hlt⟩
  mem_iff := fun pos p => by
    rw [List.mem_append, h.mem_iff, h'.mem_iff, ← exists_or]
    simp only [or_and_right]

end Lists

/-! Cycles -/

def SeenIn (types : List (String × Node)) (seen : List String) (p : Placed) : Prop :=
  ∃ x ∈ seen, ∃ d, types.lookup x = some d ∧ ∃ via pos, OccursIn types d via pos p ∧ Simple seen via

theorem exists_simple_name (hform : typeForm n.kind = .name) (hd : types.lookup (typeName n) = some d)
    (hin : ∀ seen, (∃ via pos, OccursIn types d via pos p ∧ Simple seen via) ∨ SeenIn types seen p) (seen : List String) :
    (∃ via pos, Occurs types n via pos p ∧ Simple seen via) ∨ SeenIn types seen p := by
  by_cases hseen : typeName n ∈ seen
  · -- The type is not entered, but it was before, and has the member from there.
    rcases hin seen with hnew | hagain
    · exact .inr ⟨_, hseen, d, hd, hnew⟩
    · exact .inr hagain
  · have henter {via : List String} {pos : List Nat} (h : OccursIn types d via pos p) (hsimple : Simple (typeName n :: seen) via) :
        ∃ via pos, Occurs types n via pos p ∧ Simple seen via :=
      ⟨_, pos, (occurs_name hform).mpr ⟨d, via, hd, rfl, h⟩, simple_cons.mpr ⟨hseen, hsimple⟩⟩
    rcases hin (typeName n :: seen) with ⟨via, pos, hnew, hsimple⟩ | ⟨x, hx, d', hd', via, pos, hagain, hsimple⟩
    · exact .inl (henter hnew hsimple)
    · rcases List.mem_cons.mp hx with rfl | hx
      · cases hd.symm.trans hd'
        exact .inl (henter hagain hsimple)
      · exact .inr ⟨x, hx, d', hd', via, pos, hagain, hsimple.of_cons⟩

theorem Occurs.exists_simple (h : Occurs types n via pos p) (seen : List String) :
    (∃ via pos, Occurs types n via pos p ∧ Simple seen via) ∨ SeenIn types seen p := by
  induction h generalizing seen with
  | member hn hp => exact .inl ⟨[], _, .member hn hp, simple_nil⟩
  | inside hn hm _ ih =>
    refine (ih seen).imp_left ?_
    rintro ⟨via, pos, h, hsimple⟩
    exact ⟨via, pos, .inside hn hm h, hsimple⟩
  | operand hn hm _ ih =>
    refine (ih seen).imp_left ?_
    rintro ⟨via, pos, h, hsimple⟩
    exact ⟨via, _, .operand hn hm h, hsimple⟩
  | aliased hn hd hkind hm _ ih =>
    refine exists_simple_name hn hd (fun seen => (ih seen).imp_left ?_) seen
    rintro ⟨via, pos, h, hsimple⟩
    exact ⟨via, pos, .inl ⟨hkind, _, hm, h⟩, hsimple⟩
  | base hn hd hkind hm _ ih =>
    refine exists_simple_name hn hd (fun seen => (ih seen).imp_left ?_) seen
    rintro ⟨via, pos, h, hsimple⟩
    exact ⟨via, _, .inr ⟨hkind, .inl ⟨_, _, _, hm, rfl, h⟩⟩, hsimple⟩
  | own hn hd hkind hm _ ih =>
    refine exists_simple_name hn hd (fun seen => (ih seen).imp_left ?_) seen
    rintro ⟨via, pos, h, hsimple⟩
    exact ⟨via, _, .inr ⟨hkind, .inr ⟨_, _, hm, rfl, h⟩⟩, hsimple⟩

theorem Occurs.without_cycles (h : Occurs types n via pos p) :
    ∃ via pos, Occurs types n via pos p ∧ Simple [] via := by
  rcases h.exists_simple [] with hsimple | ⟨x, hx, -⟩
  · exact hsimple
  · cases hx

/-! Rounds -/

def unseen (types : List (String × Node)) (seen : List String) : Nat :=
  ((types.map Prod.fst).toFinset \ seen.toFinset).card

theorem unseen_nil : unseen types [] ≤ types.length := by
  rw [unseen, List.toFinset_nil, Finset.sdiff_empty]
  exact (List.toFinset_card_le _).trans_eq (List.length_map _)

theorem unseen_cons_lt {name : String} {d : Node} (hd : types.lookup name = some d) (hnew : name ∉ seen) :
    unseen types (name :: seen) < unseen types seen := by
  have hmem : name ∈ types.map Prod.fst := by
    obtain ⟨_, _, rfl, _⟩ := List.lookup_eq_some_iff.mp hd
    simp
  rw [unseen, unseen, List.toFinset_cons, Finset.sdiff_insert]
  apply Finset.card_erase_lt_of_mem
  rw [Finset.mem_sdiff, List.mem_toFinset, List.mem_toFinset]
  exact ⟨hmem, hnew⟩

/-! Reading -/

def ReadInOrder {α : Type} (read : Placed → Option α) (seen : List String)
    (belongs : List String → List Nat → Placed → Prop) (vs : List α) : Prop :=
  ∃ ps, Lists seen belongs ps ∧ vs = ps.filterMap fun x => read x.2

section Reading

variable {α : Type} {read : Placed → Option α} {value : Node → List α}
variable {belongs belongs' : List String → List Nat → Placed → Prop} {vs : List α}

theorem ReadInOrder.congr (h : ReadInOrder read seen belongs vs)
    (hiff : ∀ via pos p, belongs via pos p ↔ belongs' via pos p) : ReadInOrder read seen belongs' vs := by
  obtain ⟨ps, hps, rfl⟩ := h
  exact ⟨ps, hps.congr hiff, rfl⟩

theorem readInOrder_nil (h : ∀ via pos p, ¬ belongs via pos p) : ReadInOrder read seen belongs [] :=
  ⟨[], .nil h, rfl⟩

theorem readInOrder_body (hform : typeForm n.kind = .body) :
    ReadInOrder read seen (Occurs types n) (n.placedChildren.filterMap read) := by
  refine ⟨n.placedChildren.mapIdx fun i p => ([i], p), ⟨?_, fun pos p => ?_⟩, ?_⟩
  · refine List.pairwise_iff_getElem.mpr fun i j hi hj hij => ?_
    rw [List.getElem_mapIdx, List.getElem_mapIdx]
    exact .rel hij
  · rw [List.mem_mapIdx]
    simp only [occurs_body hform, List.getElem?_eq_some_iff]
    constructor
    · rintro ⟨i, hi, heq⟩
      obtain ⟨rfl, rfl⟩ := Prod.mk.inj heq
      exact ⟨[], ⟨rfl, i, rfl, hi, rfl⟩, simple_nil⟩
    · rintro ⟨via, ⟨-, i, rfl, hi, rfl⟩, -⟩
      exact ⟨i, hi, rfl⟩
  · have hsnd : (n.placedChildren.mapIdx fun i p => ([i], p)).map Prod.snd = n.placedChildren :=
      List.ext_getElem (by simp) (by simp)
    nth_rewrite 1 [← hsnd]
    rw [List.filterMap_map]
    rfl

theorem readInOrder_option (o : Option Node) (h : ∀ m, o = some m → ReadInOrder read seen (Occurs types m) (value m)) :
    ReadInOrder read seen (fun via pos p => ∃ m, o = some m ∧ Occurs types m via pos p) ((o.map value).getD []) := by
  cases o with
  | none => exact readInOrder_nil (by simp)
  | some m => exact (h m rfl).congr (by simp)

theorem readInOrder_all (ns : List Node) (h : ∀ n ∈ ns, ReadInOrder read seen (Occurs types n) (value n)) :
    ReadInOrder read seen
      (fun via pos p => ∃ i m pos', ns[i]? = some m ∧ pos = i :: pos' ∧ Occurs types m via pos' p)
      (ns.flatMap value) := by
  induction ns using List.reverseRecOn with
  | nil => exact readInOrder_nil (by simp)
  | append_singleton ns n ih =>
    obtain ⟨ps, hps, hvalue⟩ := ih fun m hm => h m (List.mem_append_left _ hm)
    obtain ⟨qs, hqs, hvalue'⟩ := h n (by simp)
    -- The last type has the index of the length before it, so its members come after all others.
    refine ⟨ps ++ qs.map fun x => (ns.length :: x.1, x.2), (hps.append (hqs.cons ns.length) ?_).congr ?_, ?_⟩
    · intro x hx y hy
      obtain ⟨z, -, rfl⟩ := List.mem_map.mp hy
      obtain ⟨via, ⟨i, m, pos', hi, hpos, -⟩, -⟩ := (hps.mem_iff x.1 x.2).mp hx
      rw [hpos]
      exact .rel (List.getElem?_eq_some_iff.mp hi).1
    · intro via pos p
      constructor
      · rintro (⟨i, m, pos', hi, rfl, hoccurs⟩ | ⟨pos', rfl, hoccurs⟩)
        · refine ⟨i, m, pos', ?_, rfl, hoccurs⟩
          rw [List.getElem?_append_left (List.getElem?_eq_some_iff.mp hi).1, hi]
        · exact ⟨ns.length, n, pos', by simp, rfl, hoccurs⟩
      · rintro ⟨i, m, pos', hi, rfl, hoccurs⟩
        rcases Nat.lt_or_ge i ns.length with hlt | hge
        · rw [List.getElem?_append_left hlt] at hi
          exact .inl ⟨i, m, pos', hi, rfl, hoccurs⟩
        · obtain ⟨rfl, rfl⟩ : i = ns.length ∧ n = m := by
            rw [List.getElem?_append_right hge, List.getElem?_singleton] at hi
            split at hi
            · case isTrue hzero => exact ⟨by omega, Option.some.inj hi⟩
            · cases hi
          exact .inr ⟨pos', rfl, hoccurs⟩
    · rw [List.flatMap_append, hvalue, List.filterMap_append, List.filterMap_map, List.flatMap_singleton, hvalue']
      rfl

theorem readInOrder_declaration (h : ∀ m, ReadInOrder read seen (Occurs types m) (value m)) (d : Node) :
    ReadInOrder read seen (OccursIn types d)
      (if d.kind = .typeAlias then ((d.child? .value).map value).getD []
        else (extended d).flatMap value ++ ((d.child? .body).map value).getD []) := by
  split
  · case isTrue hkind =>
    refine (readInOrder_option (d.child? .value) fun m _ => h m).congr fun via pos p => ?_
    simp [OccursIn, hkind]
  · case isFalse hkind =>
    obtain ⟨ps, hps, hbases⟩ := readInOrder_all (extended d) fun m _ => h m
    obtain ⟨qs, hqs, hbody⟩ := readInOrder_option (d.child? .body) fun m _ => h m
    refine ⟨_, ((hps.cons 0).append (hqs.cons 1) ?_).congr ?_, ?_⟩
    · intro x hx y hy
      obtain ⟨_, -, rfl⟩ := List.mem_map.mp hx
      obtain ⟨_, -, rfl⟩ := List.mem_map.mp hy
      exact .rel Nat.zero_lt_one
    · intro via pos p
      have hinterface : OccursIn types d via pos p ↔
          (∃ i m pos', (extended d)[i]? = some m ∧ pos = 0 :: i :: pos' ∧ Occurs types m via pos' p) ∨
            ∃ m pos', d.child? .body = some m ∧ pos = 1 :: pos' ∧ Occurs types m via pos' p := by
        simp [OccursIn, hkind]
      rw [hinterface]
      constructor
      · rintro (⟨_, rfl, i, m, pos', hm, rfl, h⟩ | ⟨pos', rfl, m, hm, h⟩)
        · exact .inl ⟨i, m, pos', hm, rfl, h⟩
        · exact .inr ⟨m, pos', hm, rfl, h⟩
      · rintro (⟨i, m, pos', hm, rfl, h⟩ | ⟨m, pos', hm, rfl, h⟩)
        · exact .inl ⟨_, rfl, i, m, pos', hm, rfl, h⟩
        · exact .inr ⟨pos', rfl, m, hm, h⟩
    · rw [List.filterMap_append, List.filterMap_map, List.filterMap_map, hbases, hbody]
      rfl

end Reading

namespace PropReader

variable {r : PropReader} {fuel : Nat}

theorem typedProps_value (fuel : Nat) (seen : List String) (parts : List TypePart) :
    (r.typedProps fuel seen parts).value = parts.flatMap fun part => (r.typedProps fuel seen [part]).value := by
  cases fuel with
  | zero => simp [typedProps]
  | succ fuel =>
    simp only [typedProps, Noted.value_bind, Noted.value_pure, Noted.value_mapM, List.map_cons, List.map_nil,
      List.flatten_cons, List.flatten_nil, List.append_nil]
    rw [List.flatMap_def]

def expand (r : PropReader) (fuel : Nat) (seen : List String) (n : Node) : List TypedProp :=
  (r.typedProps fuel seen (typeParts n)).value

theorem typedProps_append (fuel : Nat) (seen : List String) (parts parts' : List TypePart) :
    (r.typedProps fuel seen (parts ++ parts')).value =
      (r.typedProps fuel seen parts).value ++ (r.typedProps fuel seen parts').value := by
  rw [typedProps_value, List.flatMap_append, ← typedProps_value, ← typedProps_value]

theorem typedProps_option (fuel : Nat) (seen : List String) (o : Option Node) :
    (r.typedProps fuel seen ((o.map typeParts).getD [])).value = (o.map (r.expand fuel seen)).getD [] := by
  cases o with
  | none => rw [typedProps_value]; rfl
  | some m => rfl

theorem typedProps_all (fuel : Nat) (seen : List String) (ns : List Node) :
    (r.typedProps fuel seen (ns.flatMap typeParts)).value = ns.flatMap (r.expand fuel seen) := by
  induction ns with
  | nil => rw [typedProps_value]; rfl
  | cons n ns ih => rw [List.flatMap_cons, typedProps_append, ih, List.flatMap_cons, expand]

theorem typedProps_declaration (fuel : Nat) (seen : List String) (d : Node) :
    (r.typedProps fuel seen (declarationParts d)).value =
      if d.kind = .typeAlias then ((d.child? .value).map (r.expand fuel seen)).getD []
      else (extended d).flatMap (r.expand fuel seen) ++ ((d.child? .body).map (r.expand fuel seen)).getD [] := by
  rw [declarationParts]
  by_cases hkind : d.kind = .typeAlias
  · rw [if_pos (by simpa using hkind), if_pos hkind, typedProps_option]
  · rw [if_neg (by simpa using hkind), if_neg hkind, typedProps_append, typedProps_option, ← typedProps_all]
    rfl

theorem typedProps_members (fuel : Nat) (seen : List String) (body : Node) :
    (r.typedProps (fuel + 1) seen [.members body]).value = body.placedChildren.filterMap fun p => (r.member p).value := by
  simp only [typedProps, Noted.value_bind, Noted.value_pure, Noted.value_mapM, List.map_cons, List.map_nil,
    List.flatten_cons, List.flatten_nil, List.append_nil, List.filterMap_map]
  rfl

theorem typedProps_unsupported (fuel : Nat) (seen : List String) (n : Node) :
    (r.typedProps (fuel + 1) seen [.unsupported n]).value = [] := by
  simp only [typedProps, Noted.value_bind, Noted.value_pure, Noted.value_mapM, List.map_cons, List.map_nil,
    List.flatten_cons, List.flatten_nil, List.append_nil]

theorem typedProps_reference (fuel : Nat) (seen : List String) (n : Node) (name : String) :
    (r.typedProps (fuel + 1) seen [.reference n name]).value =
      if name ∈ seen then []
      else ((r.types.lookup name).map fun d =>
        (r.typedProps fuel (name :: seen) (declarationParts d)).value).getD [] := by
  simp only [typedProps, Noted.value_bind, Noted.value_pure, Noted.value_mapM, List.map_cons, List.map_nil,
    List.flatten_cons, List.flatten_nil, List.append_nil]
  cases r.types.lookup name with
  | none =>
    rw [Option.map_none, Option.getD_none, ite_self]
    rfl
  | some d =>
    by_cases hseen : name ∈ seen
    · simp [hseen]
    · simp [hseen]

theorem readInOrder_expand (hfuel : unseen r.types seen < fuel) (n : Node) :
    ReadInOrder (fun p => (r.member p).value) seen (Occurs r.types n) (r.expand fuel seen n) := by
  -- The outer induction is on the rounds and enters a named type; the inner one follows the type itself.
  induction fuel generalizing seen n with
  | zero => exact absurd hfuel (Nat.not_lt_zero _)
  | succ fuel ih =>
    induction n using Node.children_induction with
    | step n ihn =>
      have hchild : ∀ m ∈ n.namedChildren,
          ReadInOrder (fun p => (r.member p).value) seen (Occurs r.types m) (r.expand (fuel + 1) seen m) :=
        fun m hm => ihn m (List.mem_of_mem_filter hm)
      rw [expand, typeParts_eq]
      cases hform : typeForm n.kind with
      | body =>
        dsimp only
        rw [typedProps_members]
        exact readInOrder_body hform
      | wrapper =>
        dsimp only
        rw [typedProps_option]
        refine (readInOrder_option n.namedChildren.head? fun m hm => hchild m (List.mem_of_mem_head? hm)).congr ?_
        exact fun via pos p => (occurs_wrapper hform).symm
      | intersection =>
        dsimp only
        rw [typedProps_all]
        exact (readInOrder_all n.namedChildren hchild).congr fun via pos p => (occurs_intersection hform).symm
      | name =>
        dsimp only
        rw [typedProps_reference]
        split
        · case isTrue hseen =>
          refine ⟨[], ⟨.nil, fun pos p => ?_⟩, rfl⟩
          refine iff_of_false List.not_mem_nil ?_
          rintro ⟨via, hoccurs, hsimple⟩
          obtain ⟨d, via', -, rfl, -⟩ := (occurs_name hform).mp hoccurs
          exact (simple_cons.mp hsimple).1 hseen
        · case isFalse hnew =>
          cases hd : r.types.lookup (typeName n) with
          | none => exact readInOrder_nil (by simp [occurs_name hform, hd])
          | some d =>
            have hless := unseen_cons_lt hd hnew
            have hnext (m : Node) : ReadInOrder (fun p => (r.member p).value) (typeName n :: seen) (Occurs r.types m)
                (r.expand fuel (typeName n :: seen) m) := ih (by omega) m
            obtain ⟨ps, hps, hvalue⟩ := readInOrder_declaration hnext d
            rw [← typedProps_declaration] at hvalue
            refine ⟨ps, ⟨hps.sorted, fun pos p => ?_⟩, hvalue⟩
            rw [hps.mem_iff]
            constructor
            · rintro ⟨via, hoccurs, hsimple⟩
              exact ⟨typeName n :: via, (occurs_name hform).mpr ⟨d, via, hd, rfl, hoccurs⟩, simple_cons.mpr ⟨hnew, hsimple⟩⟩
            · rintro ⟨via, hoccurs, hsimple⟩
              obtain ⟨d', via', hd', rfl, hoccurs⟩ := (occurs_name hform).mp hoccurs
              cases hd.symm.trans hd'
              exact ⟨via', hoccurs, (simple_cons.mp hsimple).2⟩
      | other =>
        dsimp only
        rw [typedProps_unsupported]
        exact readInOrder_nil fun via pos p => not_occurs_other hform

end PropReader

end ApiCatalog.Component
