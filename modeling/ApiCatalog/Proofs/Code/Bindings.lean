import ApiCatalog.Proofs.Code.Hidden

namespace ApiCatalog.Code

open Syntax

def declares (n : Node) : List (String × Node) :=
  match declared? n with
  | none => []
  | some d =>
    if isVariableStatement d.kind then
      (declarators d).filterMap fun v =>
        (v.child? .name).bind fun name => if name.kind = .identifier then some (name.text, v) else none
    else if isNamedDeclaration d.kind then (d.child? .name).toList.map fun name => (name.text, d)
    else []

def bindingsOf (x : String) (st : Placed) : List Binding :=
  (((declarationIn? st).map declares).getD []).filterMap fun e => if e.1 = x then some ⟨e.2, st.before⟩ else none

def Binding.isSignature (b : Binding) : Bool :=
  b.node.kind == .functionSignature

def settle (earlier : Option Binding) (b : Binding) : Option Binding :=
  if b.node.kind = .variableDeclarator || earlier.all Binding.isSignature then some b else earlier

section Names

variable {ns : Names} {x : String} {before : Option Node}

theorem local?_bind (y : String) (b : Binding) : (ns.bind y b).local? x = if y = x then some b else ns.local? x := by
  rw [Names.local?, Names.bind, List.lookup_cons]
  by_cases h : y = x
  · simp [h]
  · have hne : (x == y) = false := beq_false_of_ne (Ne.symm h)
    simp [h, hne, Names.local?]

theorem local?_declarators (vs : List Node) (hvs : ∀ v ∈ vs, v.kind = .variableDeclarator) :
    (vs.foldl (fun ns v =>
      match v.child? .name with
      | some name => if name.kind == .identifier then ns.bind name.text ⟨v, before⟩ else ns
      | none => ns) ns).local? x =
      ((vs.filterMap fun v => (v.child? .name).bind fun name =>
        if name.kind = .identifier then some (name.text, v) else none).filterMap fun e =>
          if e.1 = x then some (Binding.mk e.2 before) else none).foldl settle (ns.local? x) := by
  induction vs generalizing ns with
  | nil => rfl
  | cons v vs ih =>
    obtain ⟨hv, hvs⟩ := List.forall_mem_cons.mp hvs
    rw [List.foldl_cons, ih hvs]
    cases hname : v.child? .name with
    | none => simp [hname]
    | some name =>
      by_cases hk : name.kind = .identifier
      · by_cases hx : name.text = x
        · simp [hname, hk, hx, local?_bind, settle, hv]
        · simp [hname, hk, hx, local?_bind]
      · simp [hname, hk]

theorem local?_indexDeclaration (n : Node) : (indexDeclaration ns n before).local? x =
    ((declares n).filterMap fun e => if e.1 = x then some (Binding.mk e.2 before) else none).foldl settle
      (ns.local? x) := by
  unfold indexDeclaration declares
  cases declared? n with
  | none => rfl
  | some d =>
    simp only
    split
    · apply local?_declarators
      intro v hv
      simpa using (List.mem_filter.mp hv).2
    · split
      · case isTrue hnamed =>
        cases d.child? .name with
        | none => rfl
        | some name =>
          have hkind : d.kind ≠ .variableDeclarator := by
            intro hk
            rw [hk] at hnamed
            exact absurd hnamed (by decide)
          have htest : (fun b : Binding => b.node.kind == .functionSignature) = Binding.isSignature := rfl
          simp only [htest]
          by_cases hx : name.text = x
          · by_cases hall : (ns.local? x).all Binding.isSignature
            · simp [hx, hall, local?_bind, settle]
            · simp [hx, hall, hkind, settle]
          · by_cases hall : (ns.local? name.text).all Binding.isSignature
            · simp [hx, hall, local?_bind]
            · simp [hx, hall]
      · rfl

theorem declarationIn?_plain {st : Placed} (himport : st.node.kind ≠ .importStatement)
    (hexport : st.node.kind ≠ .exportStatement) : declarationIn? st = some st.node := by
  unfold declarationIn?
  split
  · contradiction
  · contradiction
  · rfl

theorem local?_indexStatement (st : Placed) :
    (indexStatement ns st).local? x = (bindingsOf x st).foldl settle (ns.local? x) := by
  unfold indexStatement bindingsOf
  split
  · case h_1 hk =>
    have hnone : declarationIn? st = none := by rw [declarationIn?, hk]
    rw [hnone]
    unfold indexImport
    split <;> rfl
  · case h_2 hk =>
    have hchild : declarationIn? st = st.node.child? .declaration := by rw [declarationIn?, hk]
    rw [hchild]
    cases st.node.child? .declaration with
    | none => rfl
    | some d => exact local?_indexDeclaration d
  · case h_3 himport hexport =>
    rw [declarationIn?_plain himport hexport]
    exact local?_indexDeclaration st.node

theorem local?_foldl (sts : List Placed) :
    (sts.foldl indexStatement ns).local? x = (sts.flatMap (bindingsOf x)).foldl settle (ns.local? x) := by
  induction sts generalizing ns with
  | nil => rfl
  | cons st sts ih => rw [List.foldl_cons, ih, local?_indexStatement, List.flatMap_cons, List.foldl_append]

theorem local?_namesAt (root : Node) :
    (namesAt root).local? x = ((statements root).flatMap (bindingsOf x)).foldl settle none :=
  local?_foldl (statements root)

end Names

theorem foldl_settle_of_signatures {earlier : List Binding} {o : Option Binding} (ho : o.all Binding.isSignature)
    (h : ∀ b ∈ earlier, b.isSignature) (last : Binding) : (earlier ++ [last]).foldl settle o = some last := by
  induction earlier generalizing o with
  | nil => simp [settle, ho]
  | cons b earlier ih =>
    obtain ⟨hb, hrest⟩ := List.forall_mem_cons.mp h
    have hsettle : settle o b = some b := by simp [settle, ho]
    rw [List.cons_append, List.foldl_cons, hsettle]
    exact ih (by simpa using hb) hrest

end ApiCatalog.Code
