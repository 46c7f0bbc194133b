import Mathlib.Logic.Relation
import ApiCatalog.Proofs.Component.CalledProps

namespace ApiCatalog.Component

open Syntax Code PropReader Relation

/-! Interfaces -/

def interface? (types : List (String × Node)) (x : String) : Option Node :=
  (types.lookup x).filter fun d => d.kind ≠ .typeAlias

def bases (types : List (String × Node)) (x : String) : List String :=
  (((interface? types x).map extended).getD []).filterMap fun m => if typeForm m.kind = .name then some (typeName m) else none

def members (types : List (String × Node)) (x : String) : List Placed :=
  ((((interface? types x).bind (·.child? .body)).filter fun m => typeForm m.kind = .body).map Node.placedChildren).getD []

def Extends (types : List (String × Node)) (x y : String) : Prop :=
  y ∈ bases types x

def IsInterface (d : Node) : Prop :=
  d.kind = .interfaceDeclaration ∧ (∀ m ∈ d.child? .body, typeForm m.kind = .body) ∧
    ∀ m ∈ extended d, typeForm m.kind = .name ∨ typeForm m.kind = .other

instance : DecidablePred IsInterface := fun d =>
  inferInstanceAs (Decidable (d.kind = .interfaceDeclaration ∧ (∀ m ∈ d.child? .body, typeForm m.kind = .body) ∧
    ∀ m ∈ extended d, typeForm m.kind = .name ∨ typeForm m.kind = .other))

/-- All that a type extends, directly or indirectly, are interfaces, and none extends itself. -/
structure Hierarchy (types : List (String × Node)) (x : String) : Prop where
  interfaces : ∀ y, ReflTransGen (Extends types) x y → ∀ d, types.lookup y = some d → IsInterface d
  acyclic : ∀ y, ReflTransGen (Extends types) x y → ¬ TransGen (Extends types) y y

variable {types : List (String × Node)} {n d m : Node} {x y z : String} {via via' : List String} {pos pos' : List Nat}
  {i : Nat} {p : Placed}

theorem interface?_eq_some : interface? types x = some d ↔ types.lookup x = some d ∧ d.kind ≠ .typeAlias := by
  simp [interface?, Option.filter_eq_some_iff]

theorem extends_iff : Extends types x y ↔
    ∃ d m, types.lookup x = some d ∧ d.kind ≠ .typeAlias ∧ m ∈ extended d ∧ typeForm m.kind = .name ∧ typeName m = y := by
  rw [Extends, bases]
  constructor
  · intro h
    obtain ⟨m, hm, hname⟩ := List.mem_filterMap.mp h
    cases hd : interface? types x with
    | none => rw [hd] at hm; cases hm
    | some d =>
      rw [hd] at hm
      obtain ⟨hlookup, hkind⟩ := interface?_eq_some.mp hd
      split at hname
      · case isTrue hform => exact ⟨d, m, hlookup, hkind, hm, hform, Option.some.inj hname⟩
      · cases hname
  · rintro ⟨d, m, hlookup, hkind, hm, hform, rfl⟩
    rw [interface?_eq_some.mpr ⟨hlookup, hkind⟩]
    exact List.mem_filterMap.mpr ⟨m, hm, if_pos hform⟩

theorem extends_of_base (hd : types.lookup x = some d) (hkind : d.kind ≠ .typeAlias) (hm : (extended d)[i]? = some m)
    (hform : typeForm m.kind = .name) : Extends types x (typeName m) :=
  extends_iff.mpr ⟨d, m, hd, hkind, List.mem_of_getElem? hm, hform, rfl⟩

theorem mem_members : p ∈ members types x ↔
    ∃ d body, types.lookup x = some d ∧ d.kind ≠ .typeAlias ∧ d.child? .body = some body ∧ typeForm body.kind = .body ∧
      p ∈ body.placedChildren := by
  rw [members]
  constructor
  · intro h
    cases hbody : ((interface? types x).bind (·.child? .body)).filter fun m => typeForm m.kind = .body with
    | none => rw [hbody] at h; cases h
    | some body =>
      rw [hbody] at h
      obtain ⟨hbody, hform⟩ := Option.filter_eq_some_iff.mp hbody
      obtain ⟨d, hd, hbody⟩ := Option.bind_eq_some_iff.mp hbody
      obtain ⟨hlookup, hkind⟩ := interface?_eq_some.mp hd
      exact ⟨d, body, hlookup, hkind, hbody, of_decide_eq_true hform, h⟩
  · rintro ⟨d, body, hlookup, hkind, hbody, hform, hp⟩
    rw [interface?_eq_some.mpr ⟨hlookup, hkind⟩, Option.bind_some, hbody, Option.filter_some, if_pos (decide_eq_true hform)]
    exact hp

namespace Hierarchy

theorem of_extends (h : Hierarchy types x) (hxy : Extends types x y) : Hierarchy types y where
  interfaces z hz := h.interfaces z (.head hxy hz)
  acyclic z hz := h.acyclic z (.head hxy hz)

theorem of_rank (rank : String → Nat) (htypes : ∀ e ∈ types, IsInterface e.2)
    (hrank : ∀ e ∈ types, ∀ y ∈ bases types e.1, rank y < rank e.1) (x : String) : Hierarchy types x where
  interfaces y _ d hd := by
    obtain ⟨before, after, heq, -⟩ := List.lookup_eq_some_iff.mp hd
    exact htypes (y, d) (heq ▸ by simp)
  acyclic y _ hcycle := by
    have hstep : ∀ a b, Extends types a b → rank b < rank a := by
      intro a b hab
      obtain ⟨d, -, hd, -⟩ := extends_iff.mp hab
      obtain ⟨before, after, heq, -⟩ := List.lookup_eq_some_iff.mp hd
      exact hrank (a, d) (heq ▸ by simp) b hab
    have hless : ∀ a b, TransGen (Extends types) a b → rank b < rank a := by
      intro a b hab
      induction hab with
      | single h => exact hstep _ _ h
      | tail _ h ih => exact (hstep _ _ h).trans ih
    exact absurd (hless y y hcycle) (Nat.lt_irrefl _)

end Hierarchy

/-! Ways up -/

inductive Path (types : List (String × Node)) : String → List String → List Nat → String → Prop
  | here (x : String) : Path types x [x] [] x
  | up {x y : String} {d m : Node} {i : Nat} {via : List String} {pos : List Nat} (hd : types.lookup x = some d)
      (hkind : d.kind ≠ .typeAlias) (hm : (extended d)[i]? = some m) (hform : typeForm m.kind = .name)
      (h : Path types (typeName m) via pos y) : Path types x (x :: via) (0 :: i :: pos) y

theorem exists_path (h : ReflTransGen (Extends types) x y) : ∃ via pos, Path types x via pos y := by
  induction h using ReflTransGen.head_induction_on with
  | refl => exact ⟨_, _, .here y⟩
  | head hstep _ ih =>
    obtain ⟨d, m, hd, hkind, hm, hform, rfl⟩ := extends_iff.mp hstep
    obtain ⟨via, pos, hpath⟩ := ih
    obtain ⟨i, hi⟩ := List.mem_iff_getElem?.mp hm
    exact ⟨_, _, .up hd hkind hi hform hpath⟩

theorem exists_path_up (h : TransGen (Extends types) x y) : ∃ via pos, Path types x via (0 :: pos) y := by
  obtain ⟨z, hstep, hrest⟩ := TransGen.head'_iff.mp h
  obtain ⟨d, m, hd, hkind, hm, hform, rfl⟩ := extends_iff.mp hstep
  obtain ⟨via, pos, hpath⟩ := exists_path hrest
  obtain ⟨i, hi⟩ := List.mem_iff_getElem?.mp hm
  exact ⟨_, _, .up hd hkind hi hform hpath⟩

namespace Path

theorem reaches (h : Path types x via pos y) : ReflTransGen (Extends types) x y := by
  induction h with
  | here x => exact .refl
  | up hd hkind hm hform _ ih => exact .head (extends_of_base hd hkind hm hform) ih

theorem append (h : Path types x via pos y) (h' : Path types y via' pos' z) :
    ∃ via'', Path types x via'' (pos ++ pos') z := by
  induction h with
  | here x => exact ⟨_, h'⟩
  | up hd hkind hm hform _ ih =>
    obtain ⟨via'', h''⟩ := ih h'
    exact ⟨_, .up hd hkind hm hform h''⟩

theorem reaches_of_mem (h : Path types x via pos y) : ∀ z ∈ via, ReflTransGen (Extends types) x z := by
  induction h with
  | here x => exact List.forall_mem_singleton.mpr .refl
  | up hd hkind hm hform _ ih =>
    rw [List.forall_mem_cons]
    exact ⟨.refl, fun z hz => .head (extends_of_base hd hkind hm hform) (ih z hz)⟩

theorem nodup (h : Path types x via pos y) (hx : Hierarchy types x) : via.Nodup := by
  induction h with
  | here x => exact List.nodup_singleton x
  | @up x y d m i via pos hd hkind hm hform hpath ih =>
    have hstep : Extends types x (typeName m) := extends_of_base hd hkind hm hform
    -- An interface that is on the way again would extend itself.
    refine List.nodup_cons.mpr ⟨fun hmem => ?_, ih (hx.of_extends hstep)⟩
    exact hx.acyclic x .refl (TransGen.head' hstep (hpath.reaches_of_mem x hmem))

theorem exists_occurs (h : Path types x via pos y) (hp : p ∈ members types y) :
    ∃ i, ∀ n, typeForm n.kind = .name → typeName n = x → Occurs types n via (pos ++ [1, i]) p := by
  induction h with
  | here x =>
    obtain ⟨d, body, hd, hkind, hbody, hbodyForm, hp⟩ := mem_members.mp hp
    obtain ⟨i, hi⟩ := List.mem_iff_getElem?.mp hp
    refine ⟨i, ?_⟩
    rintro n hform rfl
    exact .own hform hd hkind hbody (.member hbodyForm hi)
  | up hd hkind hm hformBase _ ih =>
    obtain ⟨i, hoccurs⟩ := ih hp
    refine ⟨i, ?_⟩
    rintro n hform rfl
    exact .base hform hd hkind hm (hoccurs _ hformBase rfl)

end Path

theorem Occurs.path (h : Occurs types n via pos p) (hform : typeForm n.kind = .name) (htypes : Hierarchy types (typeName n)) :
    ∃ y pos' i, Path types (typeName n) via pos' y ∧ pos = pos' ++ [1, i] ∧ p ∈ members types y := by
  induction h with
  | member hn | inside hn | operand hn => cases hform.symm.trans hn
  | aliased _ hd hkind =>
    rw [(htypes.interfaces _ .refl _ hd).1] at hkind
    cases hkind
  | base _ hd hkind hm h ih =>
    obtain ⟨-, -, hextended⟩ := htypes.interfaces _ .refl _ hd
    rcases hextended _ (List.mem_of_getElem? hm) with hname | hother
    · obtain ⟨y, pos', i, hpath, rfl, hp⟩ := ih hname (htypes.of_extends (extends_of_base hd hkind hm hname))
      exact ⟨y, _, i, .up hd hkind hm hname hpath, rfl, hp⟩
    · exact absurd h (not_occurs_other hother)
  | own _ hd hkind hm h _ =>
    obtain ⟨-, hbody, -⟩ := htypes.interfaces _ .refl _ hd
    obtain ⟨rfl, i, rfl, hp⟩ := (occurs_body (hbody _ hm)).mp h
    exact ⟨_, [], i, .here _, rfl, mem_members.mpr ⟨_, _, hd, hkind, hm, hbody _ hm, List.mem_of_getElem? hp⟩⟩

theorem before_append (pos : List Nat) {pos' pos'' : List Nat} (h : Before pos' pos'') : Before (pos ++ pos') (pos ++ pos'') := by
  induction pos with
  | nil => exact h
  | cons k pos ih => exact .cons ih

/-! Properties -/

def IsDeclaredWith (c : PropsCall) (x : String) : Prop :=
  ∃ t ∈ c.declarator.child? .type, typeForm t.kind = .wrapper ∧
    ∃ m ∈ t.namedChildren.head?, typeForm m.kind = .name ∧ typeName m = x

def DeclaresName (r : PropReader) (x name : String) : Prop :=
  ∃ p ∈ members r.types x, r.IsSignature p ∧ signatureName p = name

instance (c : PropsCall) (x : String) : Decidable (IsDeclaredWith c x) :=
  inferInstanceAs (Decidable (∃ t ∈ c.declarator.child? .type, typeForm t.kind = .wrapper ∧
    ∃ m ∈ t.namedChildren.head?, typeForm m.kind = .name ∧ typeName m = x))

instance (r : PropReader) (x name : String) : Decidable (DeclaresName r x name) :=
  inferInstanceAs (Decidable (∃ p ∈ members r.types x, r.IsSignature p ∧ signatureName p = name))

section

variable {r : PropReader} {c : PropsCall} {name : String}

theorem typeOf_eq_some {t : Node} (ht : t ∈ c.declarator.child? .type) : typeOf c = some t := by
  rw [typeOf, Option.mem_def.mp ht, Option.some_or]

theorem exists_occurs_of_declared (hc : IsDeclaredWith c x) (h : Path r.types x via pos y) (hp : p ∈ members r.types y) :
    ∃ i n, typeOf c = some n ∧ Occurs r.types n via (pos ++ [1, i]) p := by
  obtain ⟨t, ht, htform, m, hm, hmform, hmname⟩ := hc
  obtain ⟨i, hoccurs⟩ := h.exists_occurs hp
  exact ⟨i, t, typeOf_eq_some ht, .inside htform hm (hoccurs m hmform hmname)⟩

theorem first_owner (hc : IsDeclaredWith c x) (hx : Hierarchy r.types x) (hfirst : r.FirstIn c (pos, p))
    (hname : signatureName p = name) :
    ∃ y, ReflTransGen (Extends r.types) x y ∧ p ∈ members r.types y ∧
      ∀ z, TransGen (Extends r.types) y z → ¬ DeclaresName r z name := by
  obtain ⟨⟨hsignature, n, via, hn, hoccurs, hnodup⟩, hleast⟩ := hfirst
  obtain ⟨y, pos', i, hpath, hpos, hp⟩ :
      ∃ y pos' i, Path r.types x via pos' y ∧ pos = pos' ++ [1, i] ∧ p ∈ members r.types y := by
    obtain ⟨t, ht, htform, m, hm, hmform, rfl⟩ := hc
    cases (typeOf_eq_some ht).symm.trans hn
    obtain ⟨m', hm', hoccurs⟩ := (occurs_wrapper htform).mp hoccurs
    cases (Option.mem_def.mp hm).symm.trans hm'
    exact hoccurs.path hmform hx
  refine ⟨y, hpath.reaches, hp, ?_⟩
  rintro z hyz ⟨q, hq, hqsignature, hqname⟩
  -- The way on to the interface further up takes an earlier branch where the signature takes that of the body.
  obtain ⟨via', pos'', hup⟩ := exists_path_up hyz
  obtain ⟨via'', hlong⟩ := hpath.append hup
  obtain ⟨j, n, hn, hlater⟩ := exists_occurs_of_declared hc hlong hq
  refine hleast (_, q) ⟨hqsignature, n, via'', hn, hlater, hlong.nodup hx⟩ (hqname.trans hname.symm) ?_
  dsimp only
  rw [hpos, List.append_assoc]
  exact before_append pos' (.rel Nat.zero_lt_one)

end

theorem redeclared_prop_of_base {d : Declaration} {file : String} {b : Bool} {root : Node} {c : PropsCall}
    {props base name : String} (hcall : (PropReader.ofRoot file d.name b root).propsCall? = some c)
    (hc : IsDeclaredWith c props) (htypes : Hierarchy (PropReader.ofRoot file d.name b root).types props)
    (hbase : ReflTransGen (Extends (PropReader.ofRoot file d.name b root).types) props base)
    (hname : DeclaresName (PropReader.ofRoot file d.name b root) base name) :
    let r := PropReader.ofRoot file d.name b root
    let result := (describe d file b root).value.props
    ∃ owner p, ReflTransGen (Extends r.types) props owner ∧ p ∈ members r.types owner ∧ (∃ pos, r.FirstIn c (pos, p)) ∧
      (∀ further, TransGen (Extends r.types) owner further → ¬ DeclaresName r further name) ∧
      (∀ derived, TransGen (Extends r.types) derived base → derived ≠ owner) ∧
      r.declaredProp c p ∈ result ∧ ∀ prop ∈ result, prop.name = name ↔ prop = r.declaredProp c p := by
  intro r result
  obtain ⟨first, hsorted, hmem, hfirst⟩ := r.exists_first c
  have hdeclared : name ∈ first.map fun x => signatureName x.2 := by
    obtain ⟨p, hp, hsignature, rfl⟩ := hname
    obtain ⟨via, pos, hpath⟩ := exists_path hbase
    obtain ⟨i, n, hn, hoccurs⟩ := exists_occurs_of_declared hc hpath hp
    exact name_mem_first hfirst hn hoccurs hsignature
  obtain ⟨⟨pos, p⟩, hp, hpname⟩ := List.mem_map.mp hdeclared
  obtain ⟨owner, howner, hown, hleast⟩ := first_owner hc htypes ((hmem _).mp hp) hpname
  have hprops : result = _ := (describe_of_call hcall).1
  have hin : r.declaredProp c p ∈ result := by
    rw [hprops, (calledProps_eq hfirst).1]
    exact List.mem_append_left _ (List.mem_map.mpr ⟨_, hp, rfl⟩)
  have hnodup : (result.map ComponentProp.name).Nodup := hprops ▸ nodup_calledProps hsorted hmem hfirst
  refine ⟨owner, p, howner, hown, ⟨pos, (hmem _).mp hp⟩, hleast, ?_, hin, fun prop hprop => ⟨fun h => ?_, ?_⟩⟩
  · rintro derived hderived rfl
    exact hleast base hderived hname
  · exact List.inj_on_of_nodup_map hnodup hprop hin (h.trans hpname.symm)
  · rintro rfl
    exact hpname

def redeclaringScript : Node :=
  parseScript ("interface B \x7b /** As it was. */ a?: string | number \x7d\n" ++
    "interface M extends B \x7b a: number \x7d\n" ++
    "interface P extends M \x7b /** As it is. */ a: 1; b: string \x7d\nlet \x7b a, b \x7d: P = $props();")

def redeclaringReader : PropReader :=
  .ofRoot "C.svelte" "C" true redeclaringScript

theorem redeclaringReader_types :
    redeclaringReader.propsCall?.isSome ∧ (∀ c ∈ redeclaringReader.propsCall?, IsDeclaredWith c "P") ∧
      (∀ e ∈ redeclaringReader.types, IsInterface e.2 ∧
        ∀ y ∈ bases redeclaringReader.types e.1, ["B", "M", "P"].idxOf y < ["B", "M", "P"].idxOf e.1) ∧
      "M" ∈ bases redeclaringReader.types "P" ∧ "B" ∈ bases redeclaringReader.types "M" ∧
      (∀ x ∈ ["B", "M", "P"], DeclaresName redeclaringReader x "a") ∧
      (describe { name := "C", kind := .component } "C.svelte" true redeclaringScript).value.props =
        [⟨"a", "string | number", true, none, some "As it was.", false⟩, ⟨"b", "string", false, none, none, false⟩] := by
  decide +kernel

theorem redeclared_prop_of_base_redeclaringScript :
    DeclaresName redeclaringReader "M" "a" ∧ DeclaresName redeclaringReader "P" "a" ∧
      ∃ c owner p, redeclaringReader.propsCall? = some c ∧ owner ≠ "M" ∧ owner ≠ "P" ∧
        p ∈ members redeclaringReader.types owner ∧
        redeclaringReader.declaredProp c p = ⟨"a", "string | number", true, none, some "As it was.", false⟩ := by
  obtain ⟨hsome, hc, htypes, hPM, hMB, hnames, hprops⟩ := redeclaringReader_types
  have hcall : redeclaringReader.propsCall? = some (redeclaringReader.propsCall?.get hsome) := (Option.some_get hsome).symm
  have hhierarchy : Hierarchy redeclaringReader.types "P" :=
    .of_rank (["B", "M", "P"].idxOf ·) (fun e he => (htypes e he).1) (fun e he => (htypes e he).2) "P"
  have hPB : TransGen (Extends redeclaringReader.types) "P" "B" := .head hPM (.single hMB)
  obtain ⟨owner, p, -, hp, -, -, hderived, hin, hiff⟩ :=
    redeclared_prop_of_base (d := { name := "C", kind := .component }) hcall (hc _ hcall) hhierarchy hPB.to_reflTransGen
      (hnames "B" (by simp))
  refine ⟨hnames "M" (by simp), hnames "P" (by simp), _, owner, p, hcall, (hderived "M" (.single hMB)).symm,
    (hderived "P" hPB).symm, hp, ?_⟩
  rw [hprops] at hiff
  exact ((hiff _ List.mem_cons_self).mp rfl).symm

theorem redeclared_still_optional :
    let root := parseScript
      "interface B \x7b a?: string \x7d\ninterface P extends B \x7b a: string \x7d\nlet \x7b a \x7d: P = $props();"
    (describe { name := "C", kind := .component } "C.svelte" true root).value.props =
      [⟨"a", "string", true, none, none, false⟩] := by
  decide +kernel

end ApiCatalog.Component
