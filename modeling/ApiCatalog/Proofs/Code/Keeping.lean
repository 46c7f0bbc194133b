import Mathlib.Data.List.Basic
import ApiCatalog.Code.Exports

namespace ApiCatalog.Code

def Entry.name? : Entry → Option String
  | .declaration d => some d.name
  | .reExport e => some e.exportedName
  | .star _ => none

namespace Kept

def take (k : Kept) (o : Offer) : Kept :=
  match o.entry with
  | .star t => k.addStar t
  | .declaration d => if (k.taken.lookup d.name).isSome then k else k.addDeclaration d
  | .reExport e => if (k.taken.lookup e.exportedName).isSome then k else k.addReExport e

theorem value_claim (k : Kept) (file name : String) (kind : Option DeclarationKind) (place : Syntax.Position)
    (accepted : Kept) :
    (k.claim file name kind place accepted).value =
      if (k.taken.lookup name).isSome then k else accepted := by
  rw [claim]
  cases k.taken.lookup name with
  | none => rfl
  | some earlier =>
    simp only [Option.isSome_some, if_true]
    split <;> rfl

theorem value_add (k : Kept) (file : String) (o : Offer) : (k.add file o).value = k.take o := by
  rw [add, take]
  cases o.entry with
  | star t => rfl
  | declaration d => exact value_claim ..
  | reExport e => exact value_claim ..

theorem value_foldlM (file : String) (xs : List (Noted (Option Offer))) (k : Kept) :
    (xs.foldlM (keepOffer file) k).value = (xs.filterMap Noted.value).foldl take k := by
  induction xs generalizing k with
  | nil => rfl
  | cons x xs ih =>
    have hx : (keepOffer file k x).value = x.value.elim k k.take := by
      rw [keepOffer, Noted.value_bind]
      cases x.value with
      | none => rfl
      | some o => exact value_add k file o
    rw [List.foldlM_cons, Noted.value_bind, ih, hx]
    cases hv : x.value <;> simp [hv]

def Holds (k : Kept) : Entry → Prop
  | .declaration d => d ∈ k.extracted.declarations
  | .reExport e => e ∈ k.extracted.reExports
  | .star t => t ∈ k.extracted.starExports

def Taken (k : Kept) (n : String) : Prop :=
  (k.taken.lookup n).isSome

theorem holds_addStar {k : Kept} {t : String} {x : Entry} :
    (k.addStar t).Holds x ↔ k.Holds x ∨ x = .star t := by
  rw [addStar]
  split
  · case isTrue h =>
    refine ⟨.inl, fun hx => hx.elim id ?_⟩
    rintro rfl
    exact List.contains_iff_mem.mp h
  · cases x <;> simp [Holds]

theorem holds_addDeclaration {k : Kept} {d : Declaration} {x : Entry} :
    (k.addDeclaration d).Holds x ↔ k.Holds x ∨ x = .declaration d := by
  cases x <;> simp [Holds, addDeclaration]

theorem holds_addReExport {k : Kept} {e : ReExport} {x : Entry} :
    (k.addReExport e).Holds x ↔ k.Holds x ∨ x = .reExport e := by
  cases x <;> simp [Holds, addReExport]

theorem taken_addDeclaration {k : Kept} {d : Declaration} {n : String} :
    (k.addDeclaration d).Taken n ↔ k.Taken n ∨ d.name = n := by
  by_cases h : n = d.name
  · simp [Taken, addDeclaration, h]
  · simp [Taken, addDeclaration, List.lookup_cons, beq_false_of_ne h, Ne.symm h]

theorem taken_addReExport {k : Kept} {e : ReExport} {n : String} :
    (k.addReExport e).Taken n ↔ k.Taken n ∨ e.exportedName = n := by
  by_cases h : n = e.exportedName
  · simp [Taken, addReExport, h]
  · simp [Taken, addReExport, List.lookup_cons, beq_false_of_ne h, Ne.symm h]

theorem take_cases (k : Kept) (o : Offer) :
    (k.take o = k ∧ ∃ n, o.entry.name? = some n ∧ k.Taken n) ∨
      ((∀ x, (k.take o).Holds x ↔ k.Holds x ∨ x = o.entry) ∧
        ∀ n, (k.take o).Taken n ↔ k.Taken n ∨ o.entry.name? = some n) := by
  cases he : o.entry with
  | star t =>
    have ht : k.take o = k.addStar t := by rw [take, he]
    have hs : (k.addStar t).taken = k.taken := by rw [addStar]; split <;> rfl
    rw [ht]
    exact .inr ⟨fun x => holds_addStar, fun n => by simp [Taken, hs, Entry.name?]⟩
  | declaration d =>
    by_cases h : k.Taken d.name
    · exact .inl ⟨by rw [take, he]; exact if_pos h, d.name, rfl, h⟩
    · have ht : k.take o = k.addDeclaration d := by rw [take, he]; exact if_neg h
      rw [ht]
      exact .inr ⟨fun x => holds_addDeclaration, fun n => by simp [taken_addDeclaration, Entry.name?]⟩
  | reExport e =>
    by_cases h : k.Taken e.exportedName
    · exact .inl ⟨by rw [take, he]; exact if_pos h, e.exportedName, rfl, h⟩
    · have ht : k.take o = k.addReExport e := by rw [take, he]; exact if_neg h
      rw [ht]
      exact .inr ⟨fun x => holds_addReExport, fun n => by simp [taken_addReExport, Entry.name?]⟩

theorem holds_take {k : Kept} {x : Entry} (h : k.Holds x) (o : Offer) : (k.take o).Holds x := by
  rcases take_cases k o with ⟨he, _⟩ | ⟨hholds, _⟩
  · rw [he]
    exact h
  · exact (hholds x).mpr (.inl h)

theorem holds_of_holds_take {k : Kept} {o : Offer} {x : Entry} (h : (k.take o).Holds x) :
    k.Holds x ∨ x = o.entry := by
  rcases take_cases k o with ⟨he, _⟩ | ⟨hholds, _⟩
  · exact .inl (he ▸ h)
  · exact (hholds x).mp h

/-! Runs of offers -/

theorem holds_foldl {k : Kept} {x : Entry} (h : k.Holds x) (os : List Offer) : (os.foldl take k).Holds x := by
  induction os generalizing k with
  | nil => exact h
  | cons o os ih => exact ih (holds_take h o)

theorem holds_foldl_of_first {k : Kept} {os : List Offer} {n : String} {o : Offer} (hk : ¬ k.Taken n)
    (h : os.find? (fun o => o.entry.name? == some n) = some o) : (os.foldl take k).Holds o.entry := by
  induction os generalizing k with
  | nil => cases h
  | cons o' os ih =>
    by_cases hn : o'.entry.name? = some n
    · rw [List.find?_cons_of_pos (by simpa using hn)] at h
      cases h
      rcases take_cases k o with ⟨_, n', hn', htaken⟩ | ⟨hholds, _⟩
      · cases hn.symm.trans hn'
        exact absurd htaken hk
      · exact holds_foldl ((hholds _).mpr (.inr rfl)) os
    · rw [List.find?_cons_of_neg (by simpa using hn)] at h
      refine ih ?_ h
      rcases take_cases k o' with ⟨he, _⟩ | ⟨_, htaken⟩
      · rw [he]
        exact hk
      · rw [htaken]
        exact fun hor => hor.elim hk hn

theorem holds_of_holds_foldl {k : Kept} {os : List Offer} {x : Entry} (h : (os.foldl take k).Holds x) :
    k.Holds x ∨ ∃ o ∈ os, o.entry = x := by
  induction os generalizing k with
  | nil => exact .inl h
  | cons o os ih =>
    rcases ih h with h | ⟨o', ho', he⟩
    · rcases holds_of_holds_take h with h | rfl
      · exact .inl h
      · exact .inr ⟨o, List.mem_cons_self, rfl⟩
    · exact .inr ⟨o', List.mem_cons_of_mem _ ho', he⟩

end Kept

/-! The exports of a module -/

def surroundingsOf (file modulePath : String) (resolve : String → Option String) (root : Syntax.Node) :
    Surroundings where
  reader := .ofRoot file root
  modulePath := modulePath
  resolve := resolve
  names := (statements root).foldl indexStatement {}

def offers (s : Surroundings) (root : Syntax.Node) : List Offer :=
  ((statements root).flatMap s.offersOfStatement).filterMap Noted.value

section Extracted

variable {file modulePath : String} {resolve : String → Option String} {root : Syntax.Node}

def Extracted.Holds (x : Extracted) (e : Entry) : Prop :=
  Kept.Holds ⟨x, []⟩ e

theorem extractExports_value (file modulePath : String) (resolve : String → Option String)
    (root : Syntax.Node) :
    (extractExports file modulePath resolve root).value =
      ((offers (surroundingsOf file modulePath resolve root) root).foldl Kept.take
        { extracted := { moduleComment := moduleCommentText? root } }).extracted := by
  rw [extractExports, Noted.value_bind, Noted.value_pure, Kept.value_foldlM]
  rfl

theorem analyzeCode_value : (analyzeCode file modulePath resolve root).value =
    (extractExports file modulePath resolve root).value := by
  rw [analyzeCode]
  cases root.firstError? <;> rfl

theorem extracted_of_first {o : Offer} {n : String}
    (h : (offers (surroundingsOf file modulePath resolve root) root).find?
      (fun o => o.entry.name? == some n) = some o) :
    (analyzeCode file modulePath resolve root).value.Holds o.entry := by
  rw [analyzeCode_value, extractExports_value]
  refine Kept.holds_foldl_of_first ?_ h
  nofun

theorem exists_offer {e : Entry} (he : (analyzeCode file modulePath resolve root).value.Holds e) :
    ∃ o ∈ offers (surroundingsOf file modulePath resolve root) root, o.entry = e := by
  rw [analyzeCode_value, extractExports_value] at he
  rcases Kept.holds_of_holds_foldl he with h | h
  · cases e <;> cases h
  · exact h

end Extracted

end ApiCatalog.Code
