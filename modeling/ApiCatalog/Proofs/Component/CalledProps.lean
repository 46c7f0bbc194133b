import Mathlib.Data.List.Basic
import Mathlib.Data.List.Induction
import Mathlib.Data.List.Lex
import ApiCatalog.Proofs.Code.Notes
import ApiCatalog.Proofs.Component.Signatures
import ApiCatalog.Proofs.Component.TakenApart

namespace ApiCatalog

/-! Diagnostics -/

theorem Noted.diagnostics_mapM {α β : Type} (f : α → Noted β) (as : List α) :
    (as.mapM f).diagnostics = as.flatMap fun a => (f a).diagnostics := by
  induction as with
  | nil => rfl
  | cons a as ih =>
    rw [List.mapM_cons, diagnostics_bind, diagnostics_bind, ih, diagnostics_pure, List.append_nil, List.flatMap_cons]

theorem Code.Reader.kind_asFunction (r : Reader) (d : Declaration) (n : Syntax.Node) (doc : Option DocComment) :
    (r.asFunction d n doc).Each fun d => d.kind ≠ .componentProp := by
  refine (r.each_asFunction d n doc).imp ?_
  rintro d ⟨hkind | hkind | hkind, -⟩ <;> simp [hkind]

namespace Component

open Syntax Code

/-! The first of each name -/

section First

variable {α : Type} {lt : α → α → Prop} {name : α → String} {read : α → TypedProp} {as : List α}

def IsFirst (lt : α → α → Prop) (name : α → String) (among : α → Prop) (a : α) : Prop :=
  among a ∧ ∀ b, among b → name b = name a → ¬ lt b a

theorem isFirst_concat {a x : α} (hasymm : ∀ a b, lt a b → ¬ lt b a) (hlast : ∀ b ∈ as, lt b a) :
    IsFirst lt name (· ∈ as ++ [a]) x ↔ IsFirst lt name (· ∈ as) x ∨ (∀ b ∈ as, name b ≠ name a) ∧ x = a := by
  constructor
  · rintro ⟨hx, hfirst⟩
    rcases List.mem_append.mp hx with hx | hx
    · exact .inl ⟨hx, fun b hb => hfirst b (List.mem_append_left _ hb)⟩
    · cases List.mem_singleton.mp hx
      exact .inr ⟨fun b hb hsame => hfirst b (List.mem_append_left _ hb) hsame (hlast b hb), rfl⟩
  · rintro (⟨hx, hfirst⟩ | ⟨hnone, rfl⟩)
    · refine ⟨List.mem_append_left _ hx, fun b hb hsame => ?_⟩
      rcases List.mem_append.mp hb with hb | hb
      · exact hfirst b hb hsame
      · cases List.mem_singleton.mp hb
        exact hasymm _ _ (hlast x hx)
    · refine ⟨by simp, fun b hb hsame => ?_⟩
      rcases List.mem_append.mp hb with hb | hb
      · exact absurd hsame (hnone b hb)
      · cases List.mem_singleton.mp hb
        exact fun h => hasymm _ _ h h

theorem exists_firsts (hasymm : ∀ a b, lt a b → ¬ lt b a) (hname : ∀ a, (read a).name = name a) (hsorted : as.Pairwise lt) :
    ∃ first : List α, first.Pairwise lt ∧ (∀ a, a ∈ first ↔ IsFirst lt name (· ∈ as) a) ∧
      PropReader.firstOfEachName (as.map read) = first.map read := by
  induction as using List.reverseRecOn with
  | nil => exact ⟨[], .nil, by simp [IsFirst], rfl⟩
  | append_singleton as a ih =>
    obtain ⟨hsorted, -, hpairs⟩ := List.pairwise_append.mp hsorted
    obtain ⟨first, hfirst, hmem, heq⟩ := ih hsorted
    -- The last element comes after all others, so it is first only if its name is new.
    have hlast : ∀ b ∈ as, lt b a := fun b hb => hpairs b hb a List.mem_cons_self
    have hany : (as.map read).any (·.name == (read a).name) = true ↔ ∃ b ∈ as, name b = name a := by
      simp only [List.any_map, List.any_eq_true, Function.comp_apply, hname, beq_iff_eq]
    rw [List.map_append, List.map_cons, List.map_nil, PropReader.firstOfEachName_concat, PropReader.any_firstOfEachName,
      heq]
    by_cases hmet : ∃ b ∈ as, name b = name a
    · obtain ⟨b, hb, hsame⟩ := hmet
      rw [if_pos (hany.mpr ⟨b, hb, hsame⟩)]
      refine ⟨first, hfirst, fun x => ?_, rfl⟩
      rw [hmem, isFirst_concat hasymm hlast, or_iff_left fun h => h.1 b hb hsame]
    · rw [if_neg fun h => hmet (hany.mp h)]
      refine ⟨first ++ [a], List.pairwise_append.mpr ⟨hfirst, List.pairwise_singleton _ _, ?_⟩, fun x => ?_, by simp⟩
      · intro b hb x hx
        rw [List.mem_singleton.mp hx]
        exact hlast b ((hmem b).mp hb).1
      · have hnone : ∀ b ∈ as, name b ≠ name a := fun b hb hsame => hmet ⟨b, hb, hsame⟩
        rw [List.mem_append, hmem, List.mem_singleton, isFirst_concat hasymm hlast, and_iff_right hnone]

end First

/-! Signatures -/

namespace PropReader

variable {r : PropReader} {c : PropsCall} {p : Placed}

def IsSignature (r : PropReader) (p : Placed) : Prop :=
  (p.node.kind = .propertySignature ∨ p.node.kind = .methodSignature) ∧ (p.node.child? .name).isSome ∧
    ¬ r.reader.Hides p.before

instance : DecidablePred r.IsSignature := fun p =>
  inferInstanceAs (Decidable ((p.node.kind = .propertySignature ∨ p.node.kind = .methodSignature) ∧
    (p.node.child? .name).isSome ∧ ¬ r.reader.Hides p.before))

def signatureName (p : Placed) : String :=
  Code.unquote (p.node.textOf .name)

def signatureType (r : PropReader) (p : Placed) : String :=
  if p.node.kind = .methodSignature then
    (r.reader.asFunction { name := signatureName p, kind := .function } p.node
      (r.reader.docBefore? p.before)).value.typeSignature.getD "any"
  else (Code.clauseType? (p.node.child? .type)).getD "any"

def signature (r : PropReader) (p : Placed) : TypedProp where
  name := signatureName p
  type := r.signatureType p
  optional := p.node.hasToken "?"
  description := (r.reader.docBefore? p.before).bind (·.text)
  defaultValue := (r.reader.docBefore? p.before).bind (·.defaultValue)

theorem member_value (p : Placed) : (r.member p).value = if r.IsSignature p then some (r.signature p) else none := by
  simp only [member]
  cases hname : p.node.child? .name with
  | none => rw [if_neg (by simp [IsSignature, hname])]; rfl
  | some nameNode =>
    have hunquoted : unquote nameNode.text = signatureName p := by rw [signatureName, Node.textOf, hname]; rfl
    have hguard : (!(p.node.kind == .propertySignature || p.node.kind == .methodSignature) ||
        (r.reader.docBefore? p.before).any (·.hidden)) = true ↔ ¬ r.IsSignature p := by
      rw [IsSignature, Reader.Hides, hname, Bool.or_eq_true, Bool.not_eq_true', ← Bool.not_eq_true, Bool.or_eq_true,
        beq_iff_eq, beq_iff_eq, not_and_or, not_and_or]
      simp
    dsimp only
    rw [hunquoted]
    by_cases hsignature : r.IsSignature p
    · rw [if_neg fun h => hguard.mp h hsignature, if_pos hsignature, signature, signatureType]
      by_cases hmethod : p.node.kind = .methodSignature
      · rw [if_pos (by simpa using hmethod), if_pos hmethod]
        rfl
      · rw [if_neg (by simpa using hmethod), if_neg hmethod]
        cases Code.clauseType? (p.node.child? .type) <;> rfl
    · rw [if_pos (hguard.mpr hsignature), if_neg hsignature]
      rfl

/-! The type of the call -/

/-- A signature is in the type of a call, at a position that is reached without entering a type twice. -/
def SignatureIn (r : PropReader) (c : PropsCall) (x : List Nat × Placed) : Prop :=
  r.IsSignature x.2 ∧ ∃ n via, typeOf c = some n ∧ Occurs r.types n via x.1 x.2 ∧ via.Nodup

def FirstIn (r : PropReader) (c : PropsCall) (x : List Nat × Placed) : Prop :=
  IsFirst (fun x y => Before x.1 y.1) (fun x => signatureName x.2) (r.SignatureIn c) x

def typed (r : PropReader) (c : PropsCall) : Noted (List TypedProp) :=
  r.typedProps (r.types.length + 1) [] (partsOf c)

theorem filterMap_member (ps : List (List Nat × Placed)) :
    (ps.filterMap fun x => (r.member x.2).value) =
      (ps.filter fun x => decide (r.IsSignature x.2)).map fun x => r.signature x.2 := by
  induction ps with
  | nil => rfl
  | cons x ps ih =>
    by_cases hx : r.IsSignature x.2
    · rw [List.filterMap_cons_some (by rw [member_value, if_pos hx]), List.filter_cons_of_pos (by simpa using hx),
        List.map_cons, ih]
    · rw [List.filterMap_cons_none (by rw [member_value, if_neg hx]), List.filter_cons_of_neg (by simpa using hx), ih]

theorem exists_signatures (r : PropReader) (c : PropsCall) :
    ∃ ss : List (List Nat × Placed), (ss.Pairwise fun x y => Before x.1 y.1) ∧ (∀ x, x ∈ ss ↔ r.SignatureIn c x) ∧
      (r.typed c).value = ss.map fun x => r.signature x.2 := by
  obtain ⟨ps, hps, hvalue⟩ := r.readInOrder_partsOf c
  refine ⟨ps.filter fun x => decide (r.IsSignature x.2), hps.sorted.filter _, fun x => ?_, ?_⟩
  · have hsimple (via : List String) : Simple [] via ↔ via.Nodup := by simp [Simple]
    simp only [List.mem_filter, hps.mem_iff, decide_eq_true_eq, SignatureIn, hsimple]
    constructor
    · rintro ⟨⟨via, ⟨n, hn, hoccurs⟩, hnodup⟩, hsignature⟩
      exact ⟨hsignature, n, via, hn, hoccurs, hnodup⟩
    · rintro ⟨hsignature, n, via, hn, hoccurs, hnodup⟩
      exact ⟨⟨via, ⟨n, hn, hoccurs⟩, hnodup⟩, hsignature⟩
  · rw [typed, hvalue, filterMap_member]

theorem before_asymm {x y : List Nat} (h : Before x y) : ¬ Before y x :=
  asymm h

theorem exists_first (r : PropReader) (c : PropsCall) :
    ∃ first : List (List Nat × Placed), (first.Pairwise fun x y => Before x.1 y.1) ∧ (∀ x, x ∈ first ↔ r.FirstIn c x) ∧
      firstOfEachName (r.typed c).value = first.map fun x => r.signature x.2 := by
  obtain ⟨ss, hsorted, hmem, hvalue⟩ := r.exists_signatures c
  have hname : ∀ x : List Nat × Placed, (r.signature x.2).name = signatureName x.2 := fun _ => rfl
  obtain ⟨first, hfirst, hmemFirst, heq⟩ := exists_firsts (fun _ _ => before_asymm) hname hsorted
  refine ⟨first, hfirst, fun x => ?_, by rw [hvalue, heq]⟩
  simp only [hmemFirst, FirstIn, IsFirst, hmem]

/-! Names without a signature -/

def undeclaredMessage (r : PropReader) (name : String) : String :=
  "Prop \"" ++ name ++ "\" of " ++ r.component ++ " has no declared type; using \"any\""

def undeclaredNote (r : PropReader) (c : PropsCall) (name : String) : Diagnostic where
  kind := .componentProp
  file := r.reader.file
  line := some c.declarator.start.line
  column := some c.declarator.start.column
  message := r.undeclaredMessage name
  symbol := some (if name = "" then r.component else name)

def notesUndeclared (r : PropReader) (name : String) (d : Diagnostic) : Bool :=
  d.kind == .componentProp && d.message == r.undeclaredMessage name

theorem undeclaredMessage_inj {x y : String} : r.undeclaredMessage x = r.undeclaredMessage y ↔ x = y := by
  simp [undeclaredMessage]

theorem notesUndeclared_undeclaredNote {x y : String} : r.notesUndeclared x (r.undeclaredNote c y) = (y == x) := by
  rw [Bool.eq_iff_iff]
  simp [notesUndeclared, undeclaredNote, undeclaredMessage_inj]

theorem filter_undeclaredNotes {names : List String} (hnodup : names.Nodup) (x : String) :
    (names.map (r.undeclaredNote c)).filter (r.notesUndeclared x) =
      if x ∈ names then [r.undeclaredNote c x] else [] := by
  have hcomp : r.notesUndeclared x ∘ r.undeclaredNote c = (· == x) := funext fun y => notesUndeclared_undeclaredNote
  rw [List.filter_map, hcomp, List.filter_beq]
  split
  · case isTrue hmem =>
    rw [List.count_eq_one_of_mem hnodup hmem]
    rfl
  · case isFalse hnot =>
    rw [List.count_eq_zero.mpr hnot]
    rfl

/-! Other diagnostics -/

theorem each_warn {x message symbol : String} {n : Node} (hne : message ≠ r.undeclaredMessage x) :
    (r.warn n message symbol).Each fun d => r.notesUndeclared x d = false := by
  rw [warn, Reader.warn, Noted.each_note]
  simpa [notesUndeclared] using hne

theorem each_member (p : Placed) (x : String) : (r.member p).Each fun d => r.notesUndeclared x d = false := by
  have huntyped (name : String) :
      "Prop \"" ++ name ++ "\" of " ++ r.component ++ " has no type; using \"any\"" ≠ r.undeclaredMessage x := by
    -- The two messages differ in what stands before the word "type".
    intro h
    have h := congrArg (fun s => s.toList.reverse) h
    simp [undeclaredMessage] at h
  have hmethod (d : Declaration) (doc : Option DocComment) :
      (r.reader.asFunction d p.node doc).Each fun d => r.notesUndeclared x d = false := by
    intro d hd
    simp [notesUndeclared, r.reader.kind_asFunction _ _ _ d hd]
  simp only [member]
  split
  · exact Noted.each_pure _
  · split
    · exact Noted.each_pure _
    · split
      · simp [hmethod]
      · split
        · simp
        · simp [each_warn (huntyped _)]

theorem each_typedProps (fuel : Nat) (seen : List String) (parts : List TypePart) (x : String) :
    (r.typedProps fuel seen parts).Each fun d => r.notesUndeclared x d = false := by
  have hunsupported (text : String) :
      "Unsupported props type \"" ++ text ++ "\" in " ++ r.component ≠ r.undeclaredMessage x := by
    intro h
    have h := congrArg (fun s => s.toList.head?) h
    simp [undeclaredMessage] at h
  have hunresolved (text : String) :
      "Cannot resolve props type \"" ++ text ++ "\" in " ++ r.component ≠ r.undeclaredMessage x := by
    intro h
    have h := congrArg (fun s => s.toList.head?) h
    simp [undeclaredMessage] at h
  induction fuel generalizing seen parts with
  | zero => exact Noted.each_pure _
  | succ fuel ih =>
    rw [typedProps, Noted.each_bind]
    refine ⟨Noted.each_mapM _ fun part _ => ?_, Noted.each_pure _⟩
    cases part with
    | members body => simp [Noted.each_mapM _ fun p _ => each_member p x]
    | unsupported n => simp [each_warn (hunsupported _)]
    | reference n name =>
      dsimp only
      split
      · simp [each_warn (hunresolved _)]
      · split
        · exact Noted.each_pure _
        · exact ih _ _

theorem calledProps_diagnostics (r : PropReader) (c : PropsCall) :
    (r.calledProps c).diagnostics = (r.typed c).diagnostics ++
      ((takenNames c).filter fun x => !(r.typed c).value.any (·.name == x)).map (r.undeclaredNote c) := by
  have hentries : takenApart c = (takenNames c).map fun x => (x, takenDefault c x) := takenApart_eq c
  simp only [calledProps, Noted.diagnostics_bind, Noted.diagnostics_pure, Noted.diagnostics_mapM, any_firstOfEachName,
    List.append_nil]
  rw [takenApart] at hentries
  rw [hentries, List.filter_map, List.flatMap_map, List.map_eq_flatMap]
  rfl

theorem typedProps_enough {fuel fuel' : Nat} {seen : List String} (hfuel : unseen r.types seen < fuel)
    (hfuel' : unseen r.types seen < fuel') (parts : List TypePart) :
    r.typedProps fuel seen parts = r.typedProps fuel' seen parts := by
  induction fuel generalizing fuel' seen parts with
  | zero => exact absurd hfuel (Nat.not_lt_zero _)
  | succ fuel ih =>
    obtain ⟨fuel', rfl⟩ := Nat.exists_eq_add_one_of_ne_zero (Nat.ne_zero_of_lt hfuel')
    -- The two differ only in the rounds that are left for the types that are entered.
    rw [typedProps, typedProps]
    congr 2
    funext part
    cases part with
    | members body => rfl
    | unsupported n => rfl
    | reference n name =>
      dsimp only
      cases hd : r.types.lookup name with
      | none => rfl
      | some d =>
        dsimp only
        split
        · rfl
        · case isFalse hnew =>
          rw [List.contains_iff_mem] at hnew
          have hless := unseen_cons_lt hd hnew
          exact ih (by omega) (by omega) _

/-! The properties of the call -/

/-- The property that a signature declares. The mark for values that can be bound comes from where the name is taken apart,
and the default too if there is one. -/
def declaredProp (r : PropReader) (c : PropsCall) (p : Placed) : ComponentProp :=
  let name := signatureName p
  let doc := r.reader.docBefore? p.before
  let defaultValue := (takenDefault c name).value.or (doc.bind (·.defaultValue))
  { name
    type := r.signatureType p
    optional := p.node.hasToken "?" || includesUndefined (r.signatureType p)
      || (defaultValue.isSome && r.defaultImpliesOptional)
    defaultValue
    description := doc.bind (·.text)
    bindable := (takenDefault c name).bindable }

def undeclaredProp (r : PropReader) (c : PropsCall) (name : String) : ComponentProp where
  name
  type := "any"
  optional := (takenDefault c name).value.isSome && r.defaultImpliesOptional
  defaultValue := (takenDefault c name).value
  bindable := (takenDefault c name).bindable

def undeclared (c : PropsCall) (declared : List String) : List String :=
  (takenNames c).filter fun name => name ∉ declared

theorem prop_any (c : PropsCall) (name : String) :
    r.prop ⟨name, "any", false, none, none⟩ (takenDefault c name) = r.undeclaredProp c name := by
  have hany : includesUndefined "any" = false := by decide +kernel
  simp [prop, undeclaredProp, hany]

theorem calledProps_eq {first : List (List Nat × Placed)}
    (hfirst : firstOfEachName (r.typed c).value = first.map fun x => r.signature x.2) :
    let others := undeclared c (first.map fun x => signatureName x.2)
    (r.calledProps c).value = (first.map fun x => r.declaredProp c x.2) ++ others.map (r.undeclaredProp c) ∧
      (r.calledProps c).diagnostics = (r.typed c).diagnostics ++ others.map (r.undeclaredNote c) := by
  have hany (name : String) :
      (!(r.typed c).value.any (·.name == name)) = decide (name ∉ first.map fun x => signatureName x.2) := by
    rw [← any_firstOfEachName, hfirst, Bool.eq_iff_iff]
    simp [signature]
  have hdeclared (p : Placed) :
      r.prop (r.signature p) (((takenApart c).lookup (signatureName p)).getD {}) = r.declaredProp c p := by
    rw [lookup_takenApart]
    rfl
  refine ⟨?_, ?_⟩
  · have hvalue := calledProps_value (r := r) c
    rw [← typed, hfirst, List.map_map] at hvalue
    rw [hvalue]
    congr 1
    · exact List.map_congr_left fun x _ => hdeclared x.2
    · simp only [hany]
      rw [takenApart_eq, List.filter_map, List.map_map]
      exact List.map_congr_left fun name _ => prop_any c name
  · rw [calledProps_diagnostics]
    simp only [hany]
    rfl

theorem nodup_undeclared (c : PropsCall) (declared : List String) : (undeclared c declared).Nodup :=
  (nodup_eraseDups _).filter _

theorem nodup_append_undeclared (c : PropsCall) {declared : List String} (h : declared.Nodup) :
    (declared ++ undeclared c declared).Nodup := by
  refine List.nodup_append.mpr ⟨h, nodup_undeclared c declared, fun x hx y hy heq => ?_⟩
  have hnot : y ∉ declared := of_decide_eq_true (List.mem_filter.mp hy).2
  exact hnot (heq ▸ hx)

theorem nodup_first {first : List (List Nat × Placed)} (hsorted : first.Pairwise fun x y => Before x.1 y.1)
    (hmem : ∀ x, x ∈ first ↔ r.FirstIn c x) : (first.map fun x => signatureName x.2).Nodup := by
  rw [List.Nodup, List.pairwise_map]
  refine hsorted.imp_of_mem fun {x y} hx hy hbefore hsame => ?_
  exact ((hmem y).mp hy).2 x ((hmem x).mp hx).1 hsame hbefore

theorem name_mem_first {first : List (List Nat × Placed)} {n : Node} {via : List String} {pos : List Nat}
    (hfirst : firstOfEachName (r.typed c).value = first.map fun x => r.signature x.2) (hn : typeOf c = some n)
    (hoccurs : Occurs r.types n via pos p) (hsignature : r.IsSignature p) :
    signatureName p ∈ first.map fun x => signatureName x.2 := by
  obtain ⟨via', pos', hoccurs', hsimple⟩ := hoccurs.without_cycles
  obtain ⟨ss, -, hmem, hvalue⟩ := r.exists_signatures c
  have hin : (pos', p) ∈ ss := (hmem _).mpr ⟨hsignature, n, via', hn, hoccurs', hsimple.1⟩
  have hany : (r.typed c).value.any (·.name == signatureName p) = true := by
    rw [hvalue, List.any_map, List.any_eq_true]
    exact ⟨_, hin, by simp [signature]⟩
  rw [← any_firstOfEachName, hfirst, List.any_map, List.any_eq_true] at hany
  obtain ⟨x, hx, hname⟩ := hany
  exact List.mem_map.mpr ⟨x, hx, by simpa [signature] using hname⟩

theorem nodup_calledProps {first : List (List Nat × Placed)} (hsorted : first.Pairwise fun x y => Before x.1 y.1)
    (hmem : ∀ x, x ∈ first ↔ r.FirstIn c x)
    (hfirst : firstOfEachName (r.typed c).value = first.map fun x => r.signature x.2) :
    ((r.calledProps c).value.map ComponentProp.name).Nodup := by
  have hnames (names : List String) : names.map (ComponentProp.name ∘ r.undeclaredProp c) = names := List.map_id names
  rw [(calledProps_eq hfirst).1, List.map_append, List.map_map, List.map_map, hnames]
  exact nodup_append_undeclared c (nodup_first hsorted hmem)

/-! The types of the script -/

def declares? (name : String) (p : Placed) : Option Node :=
  (declaredType? p.node).bind fun e => if e.1 = name then some e.2 else none

theorem lookup_types (file component : String) (b : Bool) (root : Node) (name : String) :
    (PropReader.ofRoot file component b root).types.lookup name =
      (Code.statements root).reverse.findSome? (declares? name) := by
  have hlookup (ps : List Placed) :
      (ps.filterMap fun p => declaredType? p.node).lookup name = ps.findSome? (declares? name) := by
    induction ps with
    | nil => rfl
    | cons p ps ih =>
      rw [List.findSome?_cons, declares?]
      cases hp : declaredType? p.node with
      | none =>
        rw [List.filterMap_cons, hp]
        exact ih
      | some e =>
        obtain ⟨x, d⟩ := e
        rw [List.filterMap_cons, hp]
        dsimp only
        rw [List.lookup_cons, ih]
        by_cases heq : x = name
        · simp [heq]
        · simp [heq, beq_false_of_ne (Ne.symm heq)]
  rw [← hlookup, List.filterMap_reverse]
  rfl

end PropReader

open PropReader

theorem describe_of_call {d : Declaration} {file : String} {b : Bool} {root : Node} {c : PropsCall}
    (hcall : (PropReader.ofRoot file d.name b root).propsCall? = some c) :
    (describe d file b root).value.props = ((PropReader.ofRoot file d.name b root).calledProps c).value ∧
      (describe d file b root).diagnostics = ((PropReader.ofRoot file d.name b root).calledProps c).diagnostics := by
  simp only [describe]
  rw [hcall]
  refine ⟨rfl, ?_⟩
  simp only [Noted.diagnostics_bind, Noted.diagnostics_pure, List.append_nil]

/-- The properties of a component with a call. First come the properties and methods in its type, by way of parentheses,
intersections, aliases and interfaces, the first of each name; a cycle of types loses none of them. Then come the names that
are taken apart and are not among these, each without a type and with one note about it. The types of a script are those that
its own statements declare, of one name the last. -/
theorem describe_calledProps {d : Declaration} {file : String} {b : Bool} {root : Node} {c : PropsCall}
    (hcall : (PropReader.ofRoot file d.name b root).propsCall? = some c) :
    let r := PropReader.ofRoot file d.name b root
    let result := describe d file b root
    (∀ name, r.types.lookup name = (Code.statements root).reverse.findSome? (declares? name)) ∧
    (∀ rounds, r.types.length < rounds → r.typedProps rounds [] (partsOf c) = r.typed c) ∧
    ∃ first : List (List Nat × Placed),
      (first.Pairwise fun x y => Before x.1 y.1) ∧ (∀ x, x ∈ first ↔ r.FirstIn c x) ∧
      (∀ n via pos p, typeOf c = some n → Occurs r.types n via pos p → r.IsSignature p →
        signatureName p ∈ first.map fun x => signatureName x.2) ∧
      let others := undeclared c (first.map fun x => signatureName x.2)
      result.value.props = (first.map fun x => r.declaredProp c x.2) ++ others.map (r.undeclaredProp c) ∧
        (result.value.props.map ComponentProp.name).Nodup ∧
        ∀ name, result.diagnostics.filter (r.notesUndeclared name) =
          if name ∈ others then [r.undeclaredNote c name] else [] := by
  intro r result
  obtain ⟨first, hsorted, hmem, hfirst⟩ := r.exists_first c
  obtain ⟨hvalue, hdiagnostics⟩ := calledProps_eq hfirst
  obtain ⟨hprops, hnotes⟩ := describe_of_call hcall
  refine ⟨lookup_types file d.name b root, fun rounds hrounds => ?_, first, hsorted, hmem, ?_, ?_, ?_, fun name => ?_⟩
  · exact typedProps_enough (unseen_nil.trans_lt hrounds) (Nat.lt_succ_of_le unseen_nil) _
  · exact fun n via pos p hn hoccurs hsignature => name_mem_first hfirst hn hoccurs hsignature
  · exact hprops.trans hvalue
  · exact hprops ▸ nodup_calledProps hsorted hmem hfirst
  · have hother : (r.typed c).diagnostics.filter (r.notesUndeclared name) = [] :=
      List.filter_eq_nil_iff.mpr fun note hnote => by simp [each_typedProps _ _ _ name note hnote]
    rw [hnotes, hdiagnostics, List.filter_append, hother, List.nil_append, filter_undeclaredNotes (nodup_undeclared c _)]

def cyclicScript : Node :=
  parseScript ("interface A extends B \x7b x: number \x7d\n" ++
    "interface B extends A \x7b /** @default 2 */ y?: number; x: string \x7d\n" ++
    "let \x7b x, z = $bindable(1), y = 3 \x7d: A & (B) = $props();")

def cyclicReader : PropReader :=
  .ofRoot "C.svelte" "C" true cyclicScript

theorem describe_calledProps_cyclicScript :
    ∃ c, cyclicReader.propsCall? = some c ∧ ∃ first : List (List Nat × Placed),
      (∀ x, x ∈ first ↔ cyclicReader.FirstIn c x) ∧
      let others := undeclared c (first.map fun x => signatureName x.2)
      (first.map fun x => cyclicReader.declaredProp c x.2) ++ others.map (cyclicReader.undeclaredProp c) =
        [⟨"y", "number", true, some "3", none, false⟩, ⟨"x", "string", false, none, none, false⟩,
          ⟨"z", "any", true, some "1", none, true⟩] := by
  obtain ⟨hsome, hprops⟩ : cyclicReader.propsCall?.isSome ∧
      (describe { name := "C", kind := .component } "C.svelte" true cyclicScript).value.props =
        [⟨"y", "number", true, some "3", none, false⟩, ⟨"x", "string", false, none, none, false⟩,
          ⟨"z", "any", true, some "1", none, true⟩] := by decide +kernel
  have hcall : cyclicReader.propsCall? = some (cyclicReader.propsCall?.get hsome) := (Option.some_get hsome).symm
  obtain ⟨-, -, first, -, hmem, -, hvalue, -, -⟩ :=
    describe_calledProps (d := { name := "C", kind := .component }) hcall
  exact ⟨_, hcall, first, hmem, hvalue.symm.trans hprops⟩

theorem declared_types_missed :
    let ambient := parseScript "declare interface P \x7b a: string \x7d\nlet \x7b a \x7d: P = $props();"
    let merged := parseScript
      "interface P \x7b a: string \x7d\ninterface P \x7b b: number \x7d\nlet \x7b a, b \x7d: P = $props();"
    let props (root : Node) :=
      (describe { name := "C", kind := .component } "C.svelte" true root).value.props.map fun p => (p.name, p.type)
    props ambient = [("a", "any")] ∧ props merged = [("b", "number"), ("a", "any")] := by
  decide +kernel

end Component

end ApiCatalog
