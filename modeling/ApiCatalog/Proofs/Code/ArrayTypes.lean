import Mathlib.Data.List.Basic
import ApiCatalog.Code.Exports
import ApiCatalog.Syntax.Program

namespace ApiCatalog.Code

open Syntax

variable {n c l : Node} {d : Nat} {s t e : List Char}

/-! Operators outside brackets -/

structure Nesting where
  depth : Nat := 0
  quote : Option Char := none
  escaped : Bool := false
  afterEquals : Bool := false

namespace Nesting

def step (s : Nesting) (c : Char) : Nesting :=
  match s.quote with
  | some q =>
    if s.escaped then { s with escaped := false }
    else if c = '\\' then { s with escaped := true }
    else if c = q then { s with quote := none }
    else s
  | none =>
    if c = '"' || c = '\'' || c = '`' then { s with quote := some c, afterEquals := false }
    else if c = '(' || c = '[' || c = '{' || c = '<' then { s with depth := s.depth + 1, afterEquals := false }
    else if c = ')' || c = ']' || c = '}' || (c = '>' && !s.afterEquals) then
      { s with depth := s.depth - 1, afterEquals := false }
    else { s with afterEquals := c = '=' }

def isOperator (s : Nesting) (c : Char) : Bool :=
  s.quote.isNone && s.depth = 0 && (c = '|' || c = '&' || (c = '>' && s.afterEquals))

def operators (s : Nesting) (k : Nat) : List Char → List Nat
  | [] => []
  | c :: cs => if s.isOperator c then k :: operators (s.step c) (k + 1) cs else operators (s.step c) (k + 1) cs

theorem operators_append (s : Nesting) (k : Nat) (a b : List Char) :
    s.operators k (a ++ b) = s.operators k a ++ (a.foldl step s).operators (k + a.length) b := by
  induction a generalizing s k with
  | nil => rfl
  | cons c cs ih =>
    rw [List.cons_append, operators, operators, ih, List.length_cons, List.foldl_cons, Nat.add_assoc, Nat.add_comm 1]
    split <;> rfl

theorem operators_of_mem {s : Nesting} {k i : Nat} (h : i ∈ s.operators k t) : i < k + t.length := by
  induction t generalizing s k with
  | nil => cases h
  | cons c cs ih =>
    have hrest (h : i ∈ (s.step c).operators (k + 1) cs) : i < k + (c :: cs).length := by
      have := ih h
      rw [List.length_cons]
      omega
    rw [operators] at h
    split at h
    · rcases List.mem_cons.mp h with rfl | h
      · simp
      · exact hrest h
    · exact hrest h

theorem operators_eq_nil {s : Nesting} {k : Nat} (h : ∀ c ∈ t, c ≠ '|' ∧ c ≠ '&' ∧ c ≠ '>') : s.operators k t = [] := by
  induction t generalizing s k with
  | nil => rfl
  | cons c cs ih =>
    obtain ⟨⟨hbar, hand, hend⟩, hcs⟩ := List.forall_mem_cons.mp h
    rw [operators, if_neg (by simp [isOperator, hbar, hand, hend]), ih hcs]

end Nesting

def outerOperators (t : List Char) : List Nat :=
  Nesting.operators {} 0 t

def lastOperand (t : List Char) : List Char :=
  t.drop ((outerOperators t).getLast?.elim 0 (· + 1))

def emptyBrackets : Nat → List Char
  | 0 => []
  | d + 1 => emptyBrackets d ++ "[]".toList

theorem outerOperators_append (e : List Char) (d : Nat) : outerOperators (e ++ emptyBrackets d) = outerOperators e := by
  have hmem : ∀ c ∈ emptyBrackets d, c ≠ '|' ∧ c ≠ '&' ∧ c ≠ '>' := by
    induction d with
    | zero => simp [emptyBrackets]
    | succ d ih =>
      rw [emptyBrackets, List.forall_mem_append]
      exact ⟨ih, by simp⟩
  rw [outerOperators, Nesting.operators_append, Nesting.operators_eq_nil hmem, List.append_nil]
  rfl

theorem lastOperand_append (e : List Char) (d : Nat) :
    lastOperand (e ++ emptyBrackets d) = lastOperand e ++ emptyBrackets d := by
  rw [lastOperand, outerOperators_append, lastOperand, List.drop_append_of_le_length]
  cases hlast : (outerOperators e).getLast? with
  | none => exact Nat.zero_le _
  | some i =>
    have := Nesting.operators_of_mem (List.mem_of_getLast? hlast)
    rwa [Nat.zero_add] at this

/-! Inside arrays -/

def contents (n : Node) : List Node :=
  match n.kind with
  | .array => n.namedChildren
  | .parenthesized => n.namedChildren.head?.toList
  | _ => []

theorem mem_children_of_mem_contents (h : c ∈ contents n) : c ∈ n.children := by
  have hnamed (h : c ∈ n.namedChildren) : c ∈ n.children := (List.mem_filter.mp h).1
  rw [contents] at h
  split at h
  · exact hnamed h
  · exact hnamed (List.mem_of_mem_head? (Option.mem_toList.mp h))
  · cases h

/-- An expression inside so many arrays, with nothing inside it that makes up its own type. -/
inductive Leaf : Nat → Node → Node → Prop
  | here {n : Node} (h : contents n = []) : Leaf 0 n n
  | element {d : Nat} {n c l : Node} (hkind : n.kind = .array) (hc : c ∈ contents n) (h : Leaf d c l) : Leaf (d + 1) n l
  | wrapped {d : Nat} {n c l : Node} (hkind : n.kind ≠ .array) (hc : c ∈ contents n) (h : Leaf d c l) : Leaf d n l

theorem exists_leaf (n : Node) : ∃ d l, Leaf d n l := by
  induction n using Node.children_induction with | step n ih
  cases hcontents : contents n with
  | nil => exact ⟨0, n, .here hcontents⟩
  | cons c cs =>
    have hc : c ∈ contents n := hcontents ▸ List.mem_cons_self
    obtain ⟨d, l, hleaf⟩ := ih c (mem_children_of_mem_contents hc)
    by_cases hkind : n.kind = .array
    · exact ⟨d + 1, l, .element hkind hc hleaf⟩
    · exact ⟨d, l, .wrapped hkind hc hleaf⟩

theorem elementTypes_eq (cs : List Node) : elementTypes cs = (cs.filter Node.isNamed).map expressionType? := by
  induction cs with
  | nil => rfl
  | cons c cs ih =>
    rw [elementTypes, ih, List.filter_cons]
    split <;> rfl

theorem firstType?_eq (cs : List Node) : firstType? cs = (cs.filter Node.isNamed).head?.bind expressionType? := by
  induction cs with
  | nil => rfl
  | cons c cs ih =>
    rw [firstType?, ih, List.filter_cons]
    split <;> rfl

theorem arrayType?_eq_some_iff {ts : List (Option String)} {t : String} :
    arrayType? ts = some t ↔ ts ≠ [] ∧ ∃ e, (∀ x ∈ ts, x = some e) ∧ t = e ++ "[]" := by
  constructor
  · intro h
    unfold arrayType? at h
    split at h
    next e ts =>
      split at h
      next hall =>
        cases h
        exact ⟨List.cons_ne_nil _ _, e, List.forall_mem_cons.mpr ⟨rfl, by simpa using hall⟩, rfl⟩
      next => cases h
    next => cases h
  · rintro ⟨hne, e, hall, rfl⟩
    obtain ⟨x, ts, rfl⟩ := List.exists_cons_of_ne_nil hne
    obtain ⟨rfl, hrest⟩ := List.forall_mem_cons.mp hall
    rw [arrayType?, if_pos (by simpa using hrest)]

theorem expressionType?_of_array (h : n.kind = .array) {t : String} :
    expressionType? n = some t ↔
      n.namedChildren ≠ [] ∧ ∃ e, (∀ c ∈ n.namedChildren, expressionType? c = some e) ∧ t = e ++ "[]" := by
  obtain ⟨role, kind, text, start, lastLine, children⟩ := n
  obtain rfl : kind = .array := h
  rw [expressionType?, elementTypes_eq, arrayType?_eq_some_iff, Node.namedChildren]
  simp only [List.forall_mem_map, ne_eq, List.map_eq_nil_iff]
  rfl

theorem expressionType?_of_wrapped (h : n.kind ≠ .array) (hc : c ∈ contents n) : expressionType? n = expressionType? c := by
  obtain ⟨role, kind, text, start, lastLine, children⟩ := n
  rw [contents] at hc
  split at hc
  next hkind => exact absurd hkind h
  next hkind =>
    obtain rfl : kind = .parenthesized := hkind
    obtain hhead := Option.mem_toList.mp hc
    rw [expressionType?, firstType?_eq]
    exact congrArg (·.bind expressionType?) hhead
  next => cases hc

theorem expressionType?_of_leaf (h : contents n = []) : expressionType? n = plainType? n := by
  obtain ⟨role, kind, text, start, lastLine, children⟩ := n
  rw [contents] at h
  split at h
  next hkind =>
    obtain rfl : kind = .array := hkind
    replace h : children.filter Node.isNamed = [] := h
    rw [expressionType?, elementTypes_eq, h]
    rfl
  next hkind =>
    obtain rfl : kind = .parenthesized := hkind
    replace h : children.filter Node.isNamed = [] := List.head?_eq_none_iff.mp (Option.toList_eq_nil_iff.mp h)
    rw [expressionType?, firstType?_eq, h]
    rfl
  next harray hparens =>
    rw [expressionType?]
    · intro _ _ _ _ _ h
      exact hparens (congrArg Node.kind h)
    · intro _ _ _ _ _ h
      exact harray (congrArg Node.kind h)

def ShownByLeaves (n : Node) (t : String) : Prop :=
  ∀ d l, Leaf d n l → ∃ e, plainType? l = some e ∧ t.toList = e.toList ++ emptyBrackets d

theorem shownByLeaves_of_expressionType? {t : String} (h : expressionType? n = some t) : ShownByLeaves n t := by
  intro d l hleaf
  induction hleaf generalizing t with
  | here hcontents => exact ⟨t, expressionType?_of_leaf hcontents ▸ h, (List.append_nil _).symm⟩
  | element hkind hc _ ih =>
    obtain ⟨-, u, hall, rfl⟩ := (expressionType?_of_array hkind).mp h
    rw [contents, hkind] at hc
    obtain ⟨e, he, htext⟩ := ih (hall _ hc)
    exact ⟨e, he, by rw [String.toList_append, htext, emptyBrackets, List.append_assoc]⟩
  | wrapped hkind hc _ ih => exact ih (expressionType?_of_wrapped hkind hc ▸ h)

theorem ShownByLeaves.elements {t : String} (h : ShownByLeaves n t) (hkind : n.kind = .array) (hc : c ∈ contents n) :
    ∃ u, t = u ++ "[]" ∧ ∀ c ∈ contents n, ShownByLeaves c u := by
  obtain ⟨d, l, hleaf⟩ := exists_leaf c
  obtain ⟨e, -, ht⟩ := h _ l (.element hkind hc hleaf)
  rw [emptyBrackets, ← List.append_assoc] at ht
  refine ⟨String.ofList (e.toList ++ emptyBrackets d), String.toList_inj.mp (by simpa using ht), ?_⟩
  intro c' hc' d' l' hleaf'
  obtain ⟨e', he', ht'⟩ := h _ l' (.element hkind hc' hleaf')
  rw [emptyBrackets, ← List.append_assoc, ht] at ht'
  exact ⟨e', he', by simpa using List.append_cancel_right ht'⟩

theorem expressionType?_of_shownByLeaves {t : String} (h : ShownByLeaves n t) : expressionType? n = some t := by
  induction n using Node.children_induction generalizing t with | step n ih
  cases hcontents : contents n with
  | nil =>
    obtain ⟨e, he, ht⟩ := h 0 n (.here hcontents)
    rw [emptyBrackets, List.append_nil] at ht
    rw [expressionType?_of_leaf hcontents, he, String.toList_inj.mp ht]
  | cons c cs =>
    have hc : c ∈ contents n := hcontents ▸ List.mem_cons_self
    by_cases hkind : n.kind = .array
    · obtain ⟨u, rfl, hall⟩ := h.elements hkind hc
      have helements : contents n = n.namedChildren := by rw [contents, hkind]
      refine (expressionType?_of_array hkind).mpr ⟨by simp [← helements, hcontents], u, fun c hc => ?_, rfl⟩
      rw [← helements] at hc
      exact ih c (mem_children_of_mem_contents hc) (hall c hc)
    · rw [expressionType?_of_wrapped hkind hc]
      exact ih c (mem_children_of_mem_contents hc) fun d l hleaf => h d l (.wrapped hkind hc hleaf)

/-! Types with operators -/

def showsWrittenType (n : Node) : Bool :=
  n.kind == .asExpression || n.kind == .satisfiesExpression || n.kind == .newExpression

def plainWords : List String :=
  ["number", "string", "boolean", "null", "undefined", "RegExp"]

theorem operatorType?_mem {t : String} (h : operatorType? n = some t) : t ∈ plainWords := by
  rw [operatorType?] at h
  split at h
  case h_1 | h_2 | h_3 => exact Option.some.inj h ▸ by decide
  case h_7 => cases h
  all_goals
    split at h
    · exact Option.some.inj h ▸ by decide
    · cases h

theorem plainType?_mem {t : String} (hwritten : showsWrittenType n = false) (h : plainType? n = some t) :
    t ∈ plainWords := by
  rw [plainType?] at h
  split at h
  case h_11 => exact operatorType?_mem h
  all_goals simp_all [showsWrittenType, plainWords]

theorem showsWrittenType_of_operators {t : String} (h : plainType? n = some t) (hops : outerOperators t.toList ≠ []) :
    showsWrittenType n = true := by
  by_contra hwritten
  have hnone : ∀ w ∈ plainWords, outerOperators w.toList = [] := by decide
  exact hops (hnone t (plainType?_mem (eq_false_of_ne_true hwritten) h))

theorem array_type_of_elements (hkind : n.kind = .array) (t : String) :
    (expressionType? n = some t ↔
      n.namedChildren ≠ [] ∧ ∃ e, (∀ c ∈ n.namedChildren, expressionType? c = some e) ∧ t = e ++ "[]") ∧
    (expressionType? n = some t ↔ ShownByLeaves n t) ∧
    (expressionType? n = some t → ∀ d l, Leaf d n l → ∃ e, plainType? l = some e ∧
      outerOperators t.toList = outerOperators e.toList ∧
      lastOperand t.toList = lastOperand e.toList ++ emptyBrackets d ∧
      (outerOperators t.toList ≠ [] → showsWrittenType l = true)) := by
  refine ⟨expressionType?_of_array hkind, ⟨shownByLeaves_of_expressionType?, expressionType?_of_shownByLeaves⟩, ?_⟩
  intro h d l hleaf
  obtain ⟨e, he, ht⟩ := shownByLeaves_of_expressionType? h d l hleaf
  have hops : outerOperators t.toList = outerOperators e.toList := by rw [ht, outerOperators_append]
  exact ⟨e, he, hops, by rw [ht, lastOperand_append], fun hne => showsWrittenType_of_operators he (hops ▸ hne)⟩

def initializers (root : Node) : List Node :=
  (root.namedChildren.filterMap (·.child? .declaration)).flatMap fun n => (declarators n).filterMap (·.child? .value)

def nestedCasts : Node :=
  parseScript "export const xs = [[a as Set<1 | 2>], (b as Set<1 | 2>[])];"

theorem array_type_of_elements_nestedCasts :
    ∃ n, initializers nestedCasts = [n] ∧ n.kind = .array ∧ expressionType? n = some "Set<1 | 2>[][]" ∧
      ShownByLeaves n "Set<1 | 2>[][]" ∧ outerOperators "Set<1 | 2>[][]".toList = [] := by
  have hread : (initializers nestedCasts).map (fun n => (n.kind, expressionType? n)) =
      [(.array, some "Set<1 | 2>[][]")] := by
    decide +kernel
  obtain ⟨n, rest, hvalues, hn, hrest⟩ := List.map_eq_cons_iff.mp hread
  obtain rfl := List.map_eq_nil_iff.mp hrest
  obtain ⟨hkind, htype⟩ := Prod.mk.inj hn
  obtain ⟨-, hshown, -⟩ := array_type_of_elements hkind "Set<1 | 2>[][]"
  exact ⟨n, hvalues, hkind, htype, hshown.mp htype, by decide⟩

def castToUnion : Node :=
  parseScript "export const xs = [a as string | number];"

/-- What the grammar of types reads in the text of a type: its form, and the form of its last part. -/
def formOfType (text : String) : List (Kind × Option Kind) :=
  (parseScript ("type T = " ++ text ++ ";")).namedChildren.filterMap fun s =>
    (s.child? .value).map fun n => (n.kind, n.namedChildren.getLast?.map Node.kind)

theorem array_of_union_read_as_union :
    (analyzeCode "m.ts" "m.ts" (fun _ => none) castToUnion).value.declarations.map (·.typeSignature) =
      [some "string | number[]"] ∧
    outerOperators "string | number[]".toList = [7] ∧ lastOperand "string | number[]".toList = " number[]".toList ∧
    formOfType "string | number[]" = [(.unionType, some .arrayType)] := by
  decide +kernel

end ApiCatalog.Code
