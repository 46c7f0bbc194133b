import Mathlib.Data.List.Basic
import ApiCatalog.Source.Path

namespace ApiCatalog

theorem Text.not_mem_of_mem_splitOn {sep : Char} {s l : List Char} (h : l ∈ splitOn sep s) : sep ∉ l := by
  induction s generalizing l with
  | nil =>
    rw [List.mem_singleton.mp h]
    exact List.not_mem_nil
  | cons c cs ih =>
    rw [splitOn] at h
    split at h
    · rcases List.mem_cons.mp h with rfl | h
      · exact List.not_mem_nil
      · exact ih h
    · case isFalse hc =>
      split at h
      · rw [List.mem_singleton.mp h, List.mem_singleton]
        exact Ne.symm hc
      · case h_2 first rest hsplit =>
        rcases List.mem_cons.mp h with rfl | h
        · have hfirst := ih (hsplit ▸ List.mem_cons_self)
          simp [Ne.symm hc, hfirst]
        · exact ih (hsplit ▸ List.mem_cons_of_mem _ h)

theorem Text.intercalate_append {sep : Char} {ls ls' : List (List Char)} (hls : ls ≠ []) (hls' : ls' ≠ []) :
    [sep].intercalate (ls ++ ls') = [sep].intercalate ls ++ sep :: [sep].intercalate ls' := by
  induction ls with
  | nil => exact absurd rfl hls
  | cons l rest ih =>
    by_cases hrest : rest = []
    · simp [hrest, List.intercalate_cons_of_ne_nil hls']
    · rw [List.cons_append, List.intercalate_cons_of_ne_nil (by simp [hrest]), ih hrest,
        List.intercalate_cons_of_ne_nil hrest]
      simp

namespace Path

variable {p q : Path} {s : String}

structure Proper (p : Path) : Prop where
  parts_ne : p.parts ≠ []
  part_ne : ∀ part ∈ p.parts, part ≠ ""
  noSlash : ∀ part ∈ p.parts, '/' ∉ part.toList

theorem proper_ofString (h : (ofString s).parts ≠ []) : (ofString s).Proper where
  parts_ne := h
  part_ne part hpart := by
    obtain ⟨_, hkept⟩ := List.mem_filter.mp hpart
    rintro rfl
    cases hkept
  noSlash part hpart := by
    obtain ⟨hmem, _⟩ := List.mem_filter.mp hpart
    obtain ⟨l, hl, rfl⟩ := List.mem_map.mp hmem
    rw [String.toList_ofList]
    exact Text.not_mem_of_mem_splitOn hl

theorem Proper.join (hp : p.Proper) (hq : q.Proper) (hrelative : q.slashes = 0) : (p.join q).Proper := by
  have hjoin : p.join q = { p with parts := p.parts ++ q.parts } := by simp [Path.join, isAbsolute, hrelative]
  rw [hjoin]
  refine ⟨by simp [hp.parts_ne], fun part hpart => ?_, fun part hpart => ?_⟩
  · rcases List.mem_append.mp hpart with h | h
    · exact hp.part_ne part h
    · exact hq.part_ne part h
  · rcases List.mem_append.mp hpart with h | h
    · exact hp.noSlash part h
    · exact hq.noSlash part h

theorem Proper.toList_toString (hp : p.Proper) :
    p.toString.toList = List.replicate p.slashes '/' ++ ['/'].intercalate (p.parts.map String.toList) := by
  obtain ⟨part, rest, hparts⟩ := List.exists_cons_of_ne_nil hp.parts_ne
  have hpart : part.toList ≠ [] := by
    rw [Ne, String.toList_eq_nil_iff]
    exact hp.part_ne part (hparts ▸ List.mem_cons_self)
  have hne : "/".intercalate p.parts ≠ "" := by
    rw [Ne, ← String.toList_eq_nil_iff, String.toList_intercalate, hparts, List.map_cons]
    cases rest with
    | nil => simpa using hpart
    | cons next rest => simp [List.intercalate_cons_cons]
  have hfull : (String.ofList (List.replicate p.slashes '/') ++ "/".intercalate p.parts).isEmpty = false := by
    simp [hne]
  rw [toString]
  simp [hfull, String.toList_intercalate]

theorem Proper.toString_relative (hp : p.Proper) (hrelative : p.slashes = 0) : p.toString = "/".intercalate p.parts := by
  rw [← String.toList_inj, hp.toList_toString, hrelative, String.toList_intercalate]
  rfl

theorem toString_join (hp : p.Proper) (hq : q.Proper) (hrelative : q.slashes = 0) :
    (p.join q).toString = p.toString ++ "/" ++ q.toString := by
  have hjoin : p.join q = { p with parts := p.parts ++ q.parts } := by simp [Path.join, isAbsolute, hrelative]
  rw [← String.toList_inj, String.toList_append, String.toList_append, hp.toList_toString, hq.toList_toString,
    (hp.join hq hrelative).toList_toString, hjoin, hrelative, List.map_append,
    Text.intercalate_append (by simpa using hp.parts_ne) (by simpa using hq.parts_ne)]
  simp

theorem eq_of_toString_eq (hp : p.Proper) (hq : q.Proper) (hslashes : p.slashes = q.slashes)
    (h : p.toString = q.toString) : p = q := by
  -- The parts are read back from what follows the slashes at the start.
  have hsplit {r : Path} (hr : r.Proper) :
      (['/'].intercalate (r.parts.map String.toList)).splitOn '/' = r.parts.map String.toList := by
    refine List.splitOn_intercalate '/' ?_ (by simpa using hr.parts_ne)
    intro l hl
    obtain ⟨part, hpart, rfl⟩ := List.mem_map.mp hl
    exact hr.noSlash part hpart
  rw [← String.toList_inj, hp.toList_toString, hq.toList_toString, hslashes, List.append_cancel_left_eq] at h
  have hinj : Function.Injective String.toList := fun _ _ => String.toList_inj.mp
  have hparts : p.parts = q.parts := by
    apply List.map_injective_iff.mpr hinj
    rw [← hsplit hp, h, hsplit hq]
  change (⟨p.slashes, p.parts⟩ : Path) = ⟨q.slashes, q.parts⟩
  rw [hslashes, hparts]

/-- A text that spells a path the way paths are written: with parts, none of them empty or a single dot, and no
slash at its end. -/
def IsPlain (s : String) : Prop :=
  (ofString s).toString = s ∧ (ofString s).parts ≠ []

end Path

end ApiCatalog
