import Mathlib.Data.List.Basic
import Mathlib.Data.List.Induction
import ApiCatalog.Proofs.Catalog.Order
import ApiCatalog.Proofs.Component.Hidden

namespace ApiCatalog.Component

open Syntax Code

def takes? (n : Node) : Option (String × Default) :=
  match n.kind with
  | .shorthandPattern => some (n.text, {})
  | .objectAssignmentPattern => (n.child? .left).map fun left => (left.text, PropReader.default (n.child? .right))
  | .pairPattern =>
    (n.child? .key).map fun key =>
      (Code.unquote key.text, PropReader.default ((n.child? .value).bind fun v =>
        if v.kind == .assignmentPattern then v.child? .right else none))
  | _ => none

def taken (c : PropReader.PropsCall) : List (String × Default) :=
  match c.declarator.child? .name with
  | some p => if p.kind == .objectPattern then p.namedChildren.filterMap takes? else []
  | none => []

def takenNames (c : PropReader.PropsCall) : List String :=
  ((taken c).map Prod.fst).eraseDups

/-- The default of a name, from the last place at which it is taken apart. -/
def takenDefault (c : PropReader.PropsCall) (name : String) : Default :=
  ((taken c).reverse.lookup name).getD {}

theorem addDefault_eq (entries : List (String × Default)) (n : Node) :
    PropReader.addDefault entries n = (takes? n).elim entries fun e => Text.setValue e.1 e.2 entries := by
  rw [PropReader.addDefault.eq_def, takes?.eq_def]
  cases n.kind with
  | objectAssignmentPattern => cases n.child? .left <;> rfl
  | pairPattern => cases n.child? .key <;> rfl
  | _ => rfl

theorem foldl_addDefault (entries : List (String × Default)) (ns : List Node) :
    ns.foldl PropReader.addDefault entries =
      (ns.filterMap takes?).foldl (fun es e => Text.setValue e.1 e.2 es) entries := by
  induction ns generalizing entries with
  | nil => rfl
  | cons n ns ih =>
    rw [List.foldl_cons, ih, addDefault_eq]
    cases htakes : takes? n with
    | none => rw [List.filterMap_cons_none htakes]; rfl
    | some e => rw [List.filterMap_cons_some htakes]; rfl

section Dictionary

variable {α : Type} {name : String} {value : α} {f : String → α} {names : List String}

theorem setValue_map (hnodup : names.Nodup) :
    Text.setValue name value (names.map fun x => (x, f x)) =
      (if name ∈ names then names else names ++ [name]).map fun x => (x, if x = name then value else f x) := by
  induction names with
  | nil => simp [Text.setValue]
  | cons x names ih =>
    obtain ⟨hx, hnodup⟩ := List.nodup_cons.mp hnodup
    by_cases heq : x = name
    · subst heq
      have hrest : names.map (fun y => (y, f y)) = names.map fun y => (y, if y = x then value else f y) :=
        List.map_congr_left fun y hy => by rw [if_neg fun h : y = x => hx (h ▸ hy)]
      rw [if_pos List.mem_cons_self, List.map_cons, List.map_cons, Text.setValue, if_pos (by simp), if_pos rfl, hrest]
    · have hmem : name ∈ x :: names ↔ name ∈ names := by simp [Ne.symm heq]
      rw [List.map_cons, Text.setValue, if_neg (by simpa using heq), ih hnodup]
      simp only [hmem]
      split <;> simp [heq]

theorem foldl_setValue (default : α) (entries : List (String × α)) :
    entries.foldl (fun es e => Text.setValue e.1 e.2 es) [] =
      (entries.map Prod.fst).eraseDups.map fun x => (x, (entries.reverse.lookup x).getD default) := by
  induction entries using List.reverseRecOn with
  | nil => rfl
  | append_singleton entries e ih =>
    obtain ⟨name, value⟩ := e
    rw [List.foldl_append, ih, List.foldl_cons, List.foldl_nil, setValue_map (nodup_eraseDups _), List.map_append,
      List.map_cons, List.map_nil, eraseDups_concat, List.reverse_append]
    simp only [List.mem_eraseDups, List.reverse_singleton, List.singleton_append, List.lookup_cons]
    -- The names agree; for the values, the last entry is the first in reverse.
    refine List.map_congr_left fun x hx => ?_
    by_cases heq : x = name
    · simp [heq]
    · simp [heq, beq_false_of_ne heq]

theorem lookup_map (names : List String) (name : String) :
    (names.map fun x => (x, f x)).lookup name = if name ∈ names then some (f name) else none := by
  induction names with
  | nil => rfl
  | cons x names ih =>
    rw [List.map_cons, List.lookup_cons, ih]
    by_cases heq : name = x
    · simp [heq]
    · simp [heq, beq_false_of_ne heq]

end Dictionary

theorem takenApart_eq (c : PropReader.PropsCall) :
    PropReader.takenApart c = (takenNames c).map fun name => (name, takenDefault c name) := by
  have hfold : PropReader.takenApart c = (taken c).foldl (fun es e => Text.setValue e.1 e.2 es) [] := by
    rw [PropReader.takenApart, PropReader.defaults.eq_def, taken]
    cases c.declarator.child? .name with
    | none => rfl
    | some p =>
      dsimp only
      split
      · exact foldl_addDefault [] _
      · rfl
  rw [hfold, foldl_setValue {}]
  rfl

theorem lookup_takenApart (c : PropReader.PropsCall) (name : String) :
    ((PropReader.takenApart c).lookup name).getD {} = takenDefault c name := by
  rw [takenApart_eq, lookup_map]
  split
  · rfl
  · case isFalse hnot =>
    have hnone : (taken c).reverse.lookup name = none := by
      rw [takenNames, List.mem_eraseDups] at hnot
      refine List.lookup_eq_none_iff.mpr fun e he => bne_iff_ne.mpr fun h => hnot ?_
      exact List.mem_map.mpr ⟨e, List.mem_reverse.mp he, h.symm⟩
    rw [takenDefault, hnone]

end ApiCatalog.Component
