import Mathlib.Data.Nat.Find
import Mathlib.Order.Bounds.Basic
import ApiCatalog.Proofs.Source.Reading

/-!
The scope in terms of segments. Source roots and source paths are looked for in the text of a path. What is looked for
ends with a slash, and it starts the path or follows a slash, so whole segments are compared.
-/

namespace ApiCatalog

variable {root s t w : List Char} {segs : List (List Char)} {i : Nat}

/-! Segments -/

def segments (path : String) : List (List Char) :=
  path.toList.splitOn '/'

def Continues (start segs : List (List Char)) : Prop :=
  start <+: segs ∧ start.length < segs.length

instance (start segs : List (List Char)) : Decidable (Continues start segs) :=
  inferInstanceAs (Decidable (start <+: segs ∧ start.length < segs.length))

def segmentOffset (segs : List (List Char)) (i : Nat) : Nat :=
  ((segs.take i).flatMap fun s => s ++ ['/']).length

theorem segmentOffset_succ (s : List Char) (segs : List (List Char)) (i : Nat) :
    segmentOffset (s :: segs) (i + 1) = (s ++ ['/']).length + segmentOffset segs i := by
  simp only [segmentOffset, List.take_succ_cons, List.flatMap_cons, List.length_append]

theorem Text.splitOn_eq (sep : Char) (s : List Char) : Text.splitOn sep s = s.splitOn sep := by
  induction s with
  | nil => rfl
  | cons c cs ih =>
    rw [splitOn, List.splitOn_cons_eq_if_modifyHead, ih]
    by_cases hc : c = sep
    · simp [hc]
    · obtain ⟨first, rest, hsplit⟩ := List.exists_cons_of_ne_nil (List.splitOn_ne_nil sep cs)
      simp [hc, hsplit]

theorem slash_not_mem_segments (path : String) : ∀ s ∈ segments path, '/' ∉ s := by
  intro s hs
  rw [segments, ← Text.splitOn_eq] at hs
  exact Text.not_mem_of_mem_splitOn hs

theorem intercalate_segments (path : String) : ['/'].intercalate (segments path) = path.toList :=
  List.intercalate_splitOn '/'

theorem slash_prefix_iff : s ++ ['/'] <+: t ↔ Continues (s.splitOn '/') (t.splitOn '/') := by
  constructor
  · rintro ⟨rest, rfl⟩
    rw [List.append_assoc, List.singleton_append, List.splitOn_append_cons_self]
    refine ⟨List.prefix_append _ _, ?_⟩
    have hpos : 0 < (rest.splitOn '/').length := List.length_pos_iff.mpr (List.splitOn_ne_nil _ _)
    rw [List.length_append]
    omega
  · rintro ⟨⟨rest, hrest⟩, hlength⟩
    have hne : rest ≠ [] := by
      rintro rfl
      simp [← hrest] at hlength
    have htext : t = s ++ '/' :: ['/'].intercalate rest := by
      calc t = ['/'].intercalate (t.splitOn '/') := (List.intercalate_splitOn '/').symm
        _ = ['/'].intercalate (s.splitOn '/' ++ rest) := by rw [hrest]
        _ = s ++ '/' :: ['/'].intercalate rest := by
          rw [Text.intercalate_append (List.splitOn_ne_nil _ _) hne, List.intercalate_splitOn]
    exact ⟨['/'].intercalate rest, by simp [htext]⟩

theorem drop_segmentOffset (h : i < segs.length) :
    (['/'].intercalate segs).drop (segmentOffset segs i) = ['/'].intercalate (segs.drop i) := by
  induction i generalizing segs with
  | zero => rfl
  | succ i ih =>
    cases segs with
    | nil => simp at h
    | cons s rest =>
      have hrest : i < rest.length := by simpa using h
      have hne : rest ≠ [] := List.ne_nil_of_length_pos (by omega)
      rw [List.drop_succ_cons, ← ih hrest, List.intercalate_cons_of_ne_nil hne, segmentOffset_succ, List.drop_append]
      simp

/-! The first occurrence of a root -/

theorem Text.dropPrefix?_isSome_iff : (Text.dropPrefix? s t).isSome ↔ s <+: t := by
  induction s generalizing t with
  | nil => simp [dropPrefix?]
  | cons c cs ih =>
    cases t with
    | nil => simp [dropPrefix?]
    | cons d ds =>
      rw [dropPrefix?, List.cons_prefix_cons]
      split
      · case isTrue h => simp [h, ih]
      · case isFalse h => simp [h]

def lengthBefore? (w s : List Char) : Option Nat :=
  (Text.cutAtText? w s).map fun cut => cut.1.length

theorem lengthBefore?_cons (w : List Char) (c : Char) (s : List Char) :
    lengthBefore? w (c :: s) = if w <+: c :: s then some 0 else (lengthBefore? w s).map (· + 1) := by
  rw [lengthBefore?, Text.cutAtText?]
  split
  · case h_1 rest hrest =>
    rw [if_pos (Text.dropPrefix?_isSome_iff.mp (by simp [hrest]))]
    rfl
  · case h_2 hnone =>
    have hnot : ¬ w <+: c :: s := fun h => by simpa [hnone] using Text.dropPrefix?_isSome_iff.mpr h
    rw [if_neg hnot, lengthBefore?]
    simp [Function.comp_def]

@[simp] theorem lengthBefore?_nil (c : Char) (w : List Char) : lengthBefore? (c :: w) [] = none := rfl

theorem lengthBefore?_of_noSlash (h : '/' ∉ s) : lengthBefore? ('/' :: w) s = none := by
  induction s with
  | nil => rfl
  | cons c cs ih =>
    obtain ⟨hc, hcs⟩ : '/' ≠ c ∧ '/' ∉ cs := by simpa using h
    simp [lengthBefore?_cons, List.cons_prefix_cons, hc, ih hcs]

theorem lengthBefore?_append (h : '/' ∉ s) : lengthBefore? ('/' :: w) (s ++ '/' :: t) =
    if w <+: t then some s.length else (lengthBefore? ('/' :: w) t).map (· + (s.length + 1)) := by
  -- No character before the slash can start the occurrence.
  induction s with
  | nil => simp [lengthBefore?_cons, List.cons_prefix_cons]
  | cons c cs ih =>
    obtain ⟨hc, hcs⟩ : '/' ≠ c ∧ '/' ∉ cs := by simpa using h
    rw [List.cons_append, lengthBefore?_cons, ih hcs]
    by_cases hw : w <+: t
    · simp [List.cons_prefix_cons, hc, hw]
    · simp [List.cons_prefix_cons, hc, hw, Function.comp_def, Nat.add_assoc]

def rootStart? (root s : List Char) : Option Nat :=
  if root ++ ['/'] <+: s then some 0 else (lengthBefore? ('/' :: (root ++ ['/'])) s).map (· + 1)

theorem rootStart?_cons (h : '/' ∉ s) : rootStart? root (['/'].intercalate (s :: segs)) =
    if root ++ ['/'] <+: ['/'].intercalate (s :: segs) then some 0
    else (rootStart? root (['/'].intercalate segs)).map (· + (s.length + 1)) := by
  rw [rootStart?]
  split
  · rfl
  · cases segs with
    | nil => simp [rootStart?, lengthBefore?_of_noSlash h]
    | cons next rest =>
      rw [List.intercalate_cons_of_ne_nil (List.cons_ne_nil next rest), List.append_assoc, List.singleton_append,
        lengthBefore?_append h, rootStart?]
      split
      · simp
      · rw [Option.map_map, Option.map_map]
        congr 1
        funext k
        exact Nat.add_right_comm k (s.length + 1) 1

section Occurrence

variable (h : ∀ s ∈ segs, '/' ∉ s)
include h

theorem slash_prefix_intercalate_iff : root ++ ['/'] <+: ['/'].intercalate segs ↔ Continues (root.splitOn '/') segs := by
  by_cases hne : segs = []
  · simp [hne, Continues]
  · rw [slash_prefix_iff, List.splitOn_intercalate '/' h hne]

theorem rootStart?_of_isLeast (hi : IsLeast {i | Continues (root.splitOn '/') (segs.drop i)} i) :
    rootStart? root (['/'].intercalate segs) = some (segmentOffset segs i) := by
  induction segs generalizing i with
  | nil => exact absurd hi.1.2 (by simp)
  | cons s rest ih =>
    obtain ⟨hs, hrest⟩ := List.forall_mem_cons.mp h
    rw [rootStart?_cons hs]
    split
    · case isTrue hstart =>
      have hzero : i ≤ 0 := hi.2 ((slash_prefix_intercalate_iff h).mp hstart)
      rw [Nat.le_zero.mp hzero]
      rfl
    · case isFalse hstart =>
      cases i with
      | zero => exact absurd ((slash_prefix_intercalate_iff h).mpr hi.1) hstart
      | succ j =>
        have hj : IsLeast {i | Continues (root.splitOn '/') (rest.drop i)} j := by
          refine ⟨hi.1, fun k hk => ?_⟩
          have hle : j + 1 ≤ k + 1 := hi.2 hk
          omega
        rw [ih hrest hj, segmentOffset_succ]
        simp [Nat.add_comm]

theorem rootStart?_eq_none (hi : ∀ i, ¬ Continues (root.splitOn '/') (segs.drop i)) :
    rootStart? root (['/'].intercalate segs) = none := by
  induction segs with
  | nil => simp [rootStart?]
  | cons s rest ih =>
    obtain ⟨hs, hrest⟩ := List.forall_mem_cons.mp h
    rw [rootStart?_cons hs, if_neg ((slash_prefix_intercalate_iff h).not.mpr (hi 0)), ih hrest fun i => hi (i + 1)]
    rfl

end Occurrence

def occurrences (root path : String) : Set Nat :=
  {i | Continues (segments root) ((segments path).drop i)}

theorem lt_of_mem_occurrences {root path : String} (h : i ∈ occurrences root path) : i < (segments path).length := by
  have hlength : (segments root).length < (segments path).length - i := by simpa using h.2
  omega

theorem isLeast_occurrences_iff {root path : String} : IsLeast (occurrences root path) i ↔
    Continues (segments root) ((segments path).drop i) ∧
      ∀ j < i, ¬ Continues (segments root) ((segments path).drop j) := by
  apply and_congr_right
  intro _
  constructor
  · intro hleast j hj hmem
    exact absurd (hleast hmem) (Nat.not_le_of_lt hj)
  · intro hleast j hmem
    by_contra hlt
    exact hleast j (Nat.lt_of_not_le hlt) hmem

theorem exists_isLeast_occurrences {root path : String} (h : (occurrences root path).Nonempty) :
    ∃ i, IsLeast (occurrences root path) i := by
  classical
  exact ⟨Nat.find h, Nat.find_spec h, fun j hj => Nat.find_min' h hj⟩

theorem startsWith_at_segment {p path : String} (h : i < (segments path).length) :
    Text.startsWith (p ++ "/") (String.ofList (path.toList.drop (segmentOffset (segments path) i))) ↔
      Continues (segments p) ((segments path).drop i) := by
  have hslash : ∀ s ∈ (segments path).drop i, '/' ∉ s := fun s hs =>
    slash_not_mem_segments path s (List.mem_of_mem_drop hs)
  rw [Text.startsWith, List.isPrefixOf_iff_prefix, String.toList_ofList, String.toList_append,
    ← intercalate_segments path, drop_segmentOffset h]
  exact slash_prefix_intercalate_iff hslash

/-! Scope -/

namespace SourceOptions

variable {o : SourceOptions} {project root path : String}

def Admits (o : SourceOptions) (path : String) : Prop :=
  (∀ text ∈ o.excludePatterns, ∃ q, o.search text = some q ∧ ¬ q path) ∧
    (fileKind? o.extensions path).isSome

theorem isExcluded_eq_false_iff : o.isExcluded path = .ok false ↔
    ∀ text ∈ o.excludePatterns, ∃ q, o.search text = some q ∧ ¬ q path := by
  rw [isExcluded]
  induction o.excludePatterns with
  | nil => simp [excludedBy]
  | cons text rest ih =>
    rw [excludedBy, List.forall_mem_cons, ← ih]
    cases o.search text with
    | none => simp
    | some q => by_cases hq : q path <;> simp [hq]

theorem contains_iff_admits : o.contains path = .ok true ↔
    o.Admits path ∧ ∃ offset, o.rootOffset? path = .ok (some offset) ∧
      ∃ p ∈ o.sourcePaths, Text.startsWith (p ++ "/") (String.ofList (path.toList.drop offset)) := by
  rw [contains_eq_true_iff, isExcluded_eq_false_iff, Admits]
  constructor
  · rintro ⟨hpatterns, offset, hoffset, hpath, hkind⟩
    exact ⟨⟨hpatterns, hkind⟩, offset, hoffset, hpath⟩
  · rintro ⟨⟨hpatterns, hkind⟩, offset, hoffset, hpath⟩
    exact ⟨hpatterns, offset, hoffset, hpath, hkind⟩

theorem contains_project_iff (hproject : o.projectRoot = some project) (hroot : o.effectiveRoot = .ok root)
    (hwithin : ∀ p ∈ o.sourcePaths, isWithin root p) :
    o.contains path = .ok true ↔
      o.Admits path ∧ ∃ p ∈ o.sourcePaths, Text.startsWith (project ++ "/" ++ p ++ "/") path := by
  constructor
  · intro h
    obtain ⟨hadmits, offset, hoffset, p, hp, hstart⟩ := contains_iff_admits.mp h
    refine ⟨hadmits, p, hp, ?_⟩
    rw [rootOffset?_project hproject hroot] at hoffset
    split at hoffset
    · case isTrue hpath =>
      obtain rfl : project.length + 1 = offset := by simpa using hoffset
      obtain ⟨rest, rfl⟩ := Text.startsWith_iff.mp hpath
      rw [String.append_assoc, String.append_assoc, drop_project] at hstart
      obtain ⟨rest', hrest⟩ := Text.startsWith_iff.mp hstart
      exact Text.startsWith_iff.mpr ⟨rest', by simp only [String.append_assoc, hrest]⟩
    · cases hoffset
  · rintro ⟨hadmits, p, hp, hstart⟩
    obtain ⟨rest, rfl⟩ := Text.startsWith_iff.mp hstart
    have hshape : project ++ "/" ++ p ++ "/" ++ String.ofList rest = project ++ "/" ++ (p ++ "/" ++ String.ofList rest) := by
      simp only [String.append_assoc]
    rw [hshape] at hadmits ⊢
    exact (contains_below hproject hroot hp (hwithin p hp)).mpr ⟨isExcluded_eq_false_iff.mpr hadmits.1, hadmits.2⟩

theorem rootOffset?_eq_rootStart? (hproject : o.projectRoot = none) (hroot : o.effectiveRoot = .ok root) :
    o.rootOffset? path = .ok (rootStart? root.toList (['/'].intercalate (segments path))) := by
  rw [rootOffset?, hroot, hproject, intercalate_segments]
  simp [bind, Except.bind, pure, Except.pure, rootStart?, Text.startsWith, offsetOf?, lengthBefore?]

theorem rootOffset?_of_isLeast (hproject : o.projectRoot = none) (hroot : o.effectiveRoot = .ok root)
    (hi : IsLeast (occurrences root path) i) : o.rootOffset? path = .ok (some (segmentOffset (segments path) i)) := by
  rw [rootOffset?_eq_rootStart? hproject hroot, rootStart?_of_isLeast (slash_not_mem_segments path) hi]

theorem rootOffset?_of_not_mem (hproject : o.projectRoot = none) (hroot : o.effectiveRoot = .ok root)
    (hi : ∀ i, i ∉ occurrences root path) : o.rootOffset? path = .ok none := by
  rw [rootOffset?_eq_rootStart? hproject hroot, rootStart?_eq_none (slash_not_mem_segments path) hi]

theorem contains_segments_iff (hproject : o.projectRoot = none) (hroot : o.effectiveRoot = .ok root) :
    o.contains path = .ok true ↔ o.Admits path ∧ ∃ i, IsLeast (occurrences root path) i ∧
      ∃ p ∈ o.sourcePaths, Continues (segments p) ((segments path).drop i) := by
  rw [contains_iff_admits]
  apply and_congr_right
  intro _
  constructor
  · rintro ⟨offset, hoffset, p, hp, hstart⟩
    have hne : (occurrences root path).Nonempty := by
      by_contra hempty
      rw [rootOffset?_of_not_mem hproject hroot fun i hi => hempty ⟨i, hi⟩] at hoffset
      cases hoffset
    obtain ⟨i, hi⟩ := exists_isLeast_occurrences hne
    rw [rootOffset?_of_isLeast hproject hroot hi] at hoffset
    cases hoffset
    exact ⟨i, hi, p, hp, (startsWith_at_segment (lt_of_mem_occurrences hi.1)).mp hstart⟩
  · rintro ⟨i, hi, p, hp, hstart⟩
    exact ⟨_, rootOffset?_of_isLeast hproject hroot hi, p, hp,
      (startsWith_at_segment (lt_of_mem_occurrences hi.1)).mpr hstart⟩

theorem scope_by_segments (h : o.validate = .ok ()) (path : String) :
    (∃ p, o.modulePath path = .ok p) ∧ (∀ e, o.contains path = .error e → o.Malformed e) ∧
    (∀ project, o.projectRoot = some project →
      (o.contains path = .ok true ↔
        o.Admits path ∧ ∃ p ∈ o.sourcePaths, Text.startsWith (project ++ "/" ++ p ++ "/") path)) ∧
    (o.projectRoot = none → ∃ root, o.effectiveRoot = .ok root ∧
      (∀ i, IsLeast (occurrences root path) i →
        o.rootOffset? path = .ok (some (segmentOffset (segments path) i))) ∧
      ((∀ i, i ∉ occurrences root path) → o.rootOffset? path = .ok none) ∧
      (o.contains path = .ok true ↔
        o.Admits path ∧ ∃ i, IsLeast (occurrences root path) i ∧
          ∃ p ∈ o.sourcePaths, Continues (segments p) ((segments path).drop i))) := by
  obtain ⟨root, hroot, hwithin⟩ := isWithin_of_validate h
  refine ⟨?_, ?_, ?_, ?_⟩
  · cases hpath : o.modulePath path with
    | ok p => exact ⟨p, rfl⟩
    | error e =>
      have herror := effectiveRoot_of_modulePath_error hpath
      rw [hroot] at herror
      cases herror
  · intro e he
    refine (fault_of_contains he).resolve_right ?_
    rw [hroot]
    exact fun herror => by cases herror
  · intro project hproject
    exact contains_project_iff hproject hroot hwithin
  · intro hproject
    exact ⟨root, hroot, fun i => rootOffset?_of_isLeast hproject hroot, rootOffset?_of_not_mem hproject hroot,
      contains_segments_iff hproject hroot⟩

def uiOptions : SourceOptions :=
  { sourcePaths := ["src/lib/ui"], sourceRoot := some "src/lib" }

theorem scope_by_segments_uiOptions :
    uiOptions.validate = .ok () ∧
      uiOptions.rootOffset? "/p/mysrc/lib/src/lib/ui/a.ts" = .ok (some 13) ∧
      uiOptions.contains "/p/mysrc/lib/src/lib/ui/a.ts" = .ok true ∧
      uiOptions.contains "/p/src/lib/copies/src/lib/ui/a.ts" ≠ .ok true := by
  -- The end of `mysrc` is no segment, and of two copies of the root the first decides.
  have hvalid : uiOptions.validate = .ok () := by decide
  have hfirst : IsLeast (occurrences "src/lib" "/p/mysrc/lib/src/lib/ui/a.ts") 4 :=
    isLeast_occurrences_iff.mpr (by decide)
  have hcopied : IsLeast (occurrences "src/lib" "/p/src/lib/copies/src/lib/ui/a.ts") 2 :=
    isLeast_occurrences_iff.mpr (by decide)
  have hadmits : uiOptions.Admits "/p/mysrc/lib/src/lib/ui/a.ts" :=
    ⟨isExcluded_eq_false_iff.mp (by decide), by decide⟩
  obtain ⟨_, _, _, hscope⟩ := scope_by_segments hvalid "/p/mysrc/lib/src/lib/ui/a.ts"
  obtain ⟨_, _, _, hscope'⟩ := scope_by_segments hvalid "/p/src/lib/copies/src/lib/ui/a.ts"
  obtain ⟨root, hroot, hoffset, _, hcontains⟩ := hscope rfl
  obtain ⟨root', hroot', _, _, hcontains'⟩ := hscope' rfl
  cases hroot
  cases hroot'
  refine ⟨hvalid, hoffset 4 hfirst, hcontains.mpr ⟨hadmits, 4, hfirst, _, .head _, by decide⟩, ?_⟩
  intro hin
  obtain ⟨_, i, hi, p, hp, hstart⟩ := hcontains'.mp hin
  obtain rfl : i = 2 := hi.unique hcopied
  rw [List.mem_singleton.mp hp] at hstart
  exact absurd hstart (by decide)

end SourceOptions

end ApiCatalog
