import Mathlib.Data.List.Nodup
import ApiCatalog.Link.Basic

namespace ApiCatalog

theorem find?_key_eq_some_iff {α : Type} {key : α → String} {as : List α} (hn : (as.map key).Nodup)
    {k : String} {a : α} : as.find? (fun b => key b == k) = some a ↔ a ∈ as ∧ key a = k := by
  constructor
  · intro h
    exact ⟨List.mem_of_find?_eq_some h, by simpa using List.find?_some h⟩
  · rintro ⟨ha, rfl⟩
    cases h : as.find? fun b => key b == key a with
    | none => simpa using List.find?_eq_none.mp h a ha
    | some b =>
      have hk : key b = key a := by simpa using List.find?_some h
      rw [List.inj_on_of_nodup_map hn (List.mem_of_find?_eq_some h) ha hk]

theorem find?_key_perm {α : Type} {key : α → String} {as bs : List α} (h : as.Perm bs)
    (hn : (as.map key).Nodup) (k : String) :
    as.find? (fun b => key b == k) = bs.find? fun b => key b == k := by
  apply Option.ext
  intro a
  rw [find?_key_eq_some_iff hn, find?_key_eq_some_iff ((h.map key).nodup_iff.mp hn), h.mem_iff]

theorem lookup_of_unique {κ α : Type} [BEq κ] [LawfulBEq κ] {x : κ} {a : α} {l : List (κ × α)}
    (h : (x, a) ∈ l) (hu : ∀ b, (x, b) ∈ l → b = a) : l.lookup x = some a := by
  induction l with
  | nil => cases h
  | cons p l ih =>
    obtain ⟨y, b⟩ := p
    by_cases hxy : x = y
    · subst hxy
      rw [List.lookup_cons_self, hu b List.mem_cons_self]
    · have hmem : (x, a) ∈ l := by
        rcases List.mem_cons.mp h with he | hmem
        · exact absurd (congrArg Prod.fst he) hxy
        · exact hmem
      rw [List.lookup_cons, beq_false_of_ne hxy]
      exact ih hmem fun b hb => hu b (List.mem_cons_of_mem _ hb)

theorem mergeSort_eq_of_perm {α : Type} {le : α → α → Bool} {as bs : List α}
    (htrans : ∀ a b c, le a b → le b c → le a c) (htotal : ∀ a b, le a b || le b a) (h : as.Perm bs)
    (hanti : ∀ a ∈ as, ∀ b ∈ as, le a b → le b a → a = b) : as.mergeSort le = bs.mergeSort le := by
  have hp : (as.mergeSort le).Perm (bs.mergeSort le) :=
    (List.mergeSort_perm as le).trans (h.trans (List.mergeSort_perm bs le).symm)
  refine hp.eq_of_pairwise ?_ (List.pairwise_mergeSort htrans htotal as)
    (List.pairwise_mergeSort htrans htotal bs)
  intro a b ha hb
  have ha := (List.mergeSort_perm as le).mem_iff.mp ha
  have hb := h.mem_iff.mpr ((List.mergeSort_perm bs le).mem_iff.mp hb)
  exact hanti a ha b hb

/-! The order of texts -/

theorem textLE_trans (a b c : String) (hab : textLE a b) (hbc : textLE b c) : textLE a c := by
  simp only [textLE, decide_eq_true_eq] at *
  exact String.le_trans hab hbc

theorem textLE_total (a b : String) : textLE a b || textLE b a := by
  simpa [textLE] using String.le_total a b

theorem textLE_antisymm {a b : String} (hab : textLE a b) (hba : textLE b a) : a = b := by
  simp only [textLE, decide_eq_true_eq] at *
  exact String.le_antisymm hab hba

theorem sortTexts_perm (ts : List String) : (sortTexts ts).Perm ts :=
  List.mergeSort_perm ts textLE

@[simp] theorem mem_sortTexts {t : String} {ts : List String} : t ∈ sortTexts ts ↔ t ∈ ts :=
  (sortTexts_perm ts).mem_iff

theorem sortTexts_eq_of_perm {as bs : List String} (h : as.Perm bs) : sortTexts as = sortTexts bs :=
  mergeSort_eq_of_perm textLE_trans textLE_total h fun _ _ _ _ => textLE_antisymm

@[simp] theorem mem_sortedDistinct {t : String} {ts : List String} : t ∈ sortedDistinct ts ↔ t ∈ ts := by
  simp [sortedDistinct]

theorem nodup_eraseDups (ts : List String) : ts.eraseDups.Nodup := by
  induction h : ts.length using Nat.strongRecOn generalizing ts with
  | ind n ih =>
    cases ts with
    | nil => simp
    | cons t ts =>
      rw [List.eraseDups_cons, List.nodup_cons]
      have hlen := List.length_filter_le (fun b => !b == t) ts
      refine ⟨by simp, ih _ ?_ _ rfl⟩
      simp only [List.length_cons] at h
      omega

theorem eraseDups_concat (names : List String) (name : String) :
    (names ++ [name]).eraseDups = if name ∈ names then names.eraseDups else names.eraseDups ++ [name] := by
  rw [List.eraseDups_append]
  by_cases hmem : name ∈ names
  · rw [if_pos hmem]
    simp [List.removeAll, hmem]
  · rw [if_neg hmem]
    simp [List.removeAll, hmem, List.eraseDups_cons]

theorem sortedDistinct_congr {as bs : List String} (h : ∀ t, t ∈ as ↔ t ∈ bs) :
    sortedDistinct as = sortedDistinct bs := by
  apply sortTexts_eq_of_perm
  rw [List.perm_ext_iff_of_nodup (nodup_eraseDups as) (nodup_eraseDups bs)]
  simpa using h

theorem sortedDistinct_lt (ts : List String) : (sortedDistinct ts).Pairwise (· < ·) := by
  have hle : (sortedDistinct ts).Pairwise fun a b => textLE a b :=
    List.pairwise_mergeSort textLE_trans textLE_total _
  have hne : (sortedDistinct ts).Pairwise (· ≠ ·) := (sortTexts_perm _).nodup_iff.mpr (nodup_eraseDups ts)
  refine hle.imp₂ ?_ hne
  intro a b hab hne
  rw [textLE, decide_eq_true_eq] at hab
  by_contra hlt
  exact hne (String.le_antisymm hab (String.not_lt.mp hlt))

theorem sortModules_eq_of_perm {ms ms' : List Module} (h : ms.Perm ms')
    (hd : (ms.map Module.path).Nodup) : sortModules ms = sortModules ms' := by
  rw [sortModules, sortModules]
  refine mergeSort_eq_of_perm (fun a b c => textLE_trans a.path b.path c.path)
    (fun a b => textLE_total a.path b.path) h ?_
  intro a ha b hb hab hba
  exact List.inj_on_of_nodup_map hd ha hb (textLE_antisymm hab hba)

theorem sortModules_of_lt {ms : List Module} (h : (ms.map Module.path).Pairwise (· < ·)) : sortModules ms = ms := by
  refine List.mergeSort_of_pairwise ((List.pairwise_map.mp h).imp ?_)
  intro a b hlt
  simpa [textLE] using String.not_lt.mp (String.lt_asymm hlt)

end ApiCatalog
