import ApiCatalog.Proofs.Source.Segments

namespace ApiCatalog

variable {root path before rest : String} {extensions : List String} {i : Nat}

theorem FileKind.not_suffix_slash {e : String} {kind : FileKind} (h : ofExtension? e = some kind) (s : List Char) :
    ¬ e.toList <:+ s ++ ['/'] := by
  intro hsuffix
  have hlast := List.reverse_prefix.mpr hsuffix
  unfold ofExtension? at h
  split at h <;> simp at h hlast

theorem fileKind?_slash (text : String) : fileKind? extensions (text ++ "/") = none := by
  rw [fileKind?]
  split
  · rfl
  · apply Option.eq_none_iff_forall_ne_some.mpr
    intro kind hkind
    obtain ⟨e, hfound, hofExtension⟩ := Option.bind_eq_some_iff.mp hkind
    apply FileKind.not_suffix_slash hofExtension text.toList
    simpa [Text.endsWith] using List.find?_some hfound

/-! Before the root -/

def textBefore (path : String) (i : Nat) : String :=
  String.ofList (((segments path).take i).flatMap fun s => s ++ ['/'])

def standsAt (root path : String) : Set Nat :=
  {i | segments root <+: (segments path).drop i}

theorem isLeast_standsAt (h : IsLeast (occurrences root path) i) : IsLeast (standsAt root path) i := by
  refine ⟨h.1.1, ?_⟩
  intro j hj
  by_cases hmore : (segments root).length < ((segments path).drop j).length
  · exact h.2 ⟨hj, hmore⟩
  · -- Only the last place has nothing after it.
    have hlength := h.1.2
    rw [List.length_drop] at hmore hlength
    omega

theorem length_textBefore : (textBefore path i).length = segmentOffset (segments path) i := by
  simp [textBefore, segmentOffset, ← String.length_toList]

theorem intercalate_take_drop {segs : List (List Char)} (h : i < segs.length) :
    ['/'].intercalate segs =
      ((segs.take i).flatMap fun s => s ++ ['/']) ++ ['/'].intercalate (segs.drop i) := by
  induction i generalizing segs with
  | zero => simp
  | succ i ih =>
    cases segs with
    | nil => simp at h
    | cons s rest =>
      have hrest : i < rest.length := by simpa using h
      have hne : rest ≠ [] := List.ne_nil_of_length_pos (by omega)
      rw [List.intercalate_cons_of_ne_nil hne, ih hrest]
      simp

theorem path_at_occurrence (h : i ∈ occurrences root path) :
    ∃ p, path = textBefore path i ++ root ++ "/" ++ p := by
  have hi := lt_of_mem_occurrences h
  have hslash : ∀ s ∈ (segments path).drop i, '/' ∉ s := by
    intro s hs
    exact slash_not_mem_segments path s (List.mem_of_mem_drop hs)
  obtain ⟨p, hp⟩ := (slash_prefix_intercalate_iff hslash).mpr h
  refine ⟨String.ofList p, ?_⟩
  rw [← String.toList_inj]
  calc path.toList = ['/'].intercalate (segments path) := (intercalate_segments path).symm
    _ = (textBefore path i).toList ++ ['/'].intercalate ((segments path).drop i) := by
      rw [intercalate_take_drop hi, textBefore, String.toList_ofList]
    _ = (textBefore path i ++ root ++ "/" ++ String.ofList p).toList := by
      rw [← hp]
      simp

namespace SourceOptions

variable {o : SourceOptions}

theorem modulePath_of_rootOffset? (hroot : o.effectiveRoot = .ok root)
    (h : o.rootOffset? (before ++ root ++ "/" ++ rest) = .ok (some before.length)) :
    o.modulePath (before ++ root ++ "/" ++ rest) = .ok rest := by
  have hlength : before.length + root.length + 1 = (before.toList ++ root.toList ++ "/".toList).length := by
    simp only [List.length_append, String.length_toList]
    rfl
  rw [modulePath, h]
  simp only [hroot, bind, Except.bind, pure, Except.pure, Except.ok.injEq]
  rw [← String.toList_inj]
  simp only [String.toList_append, String.toList_ofList, hlength, List.drop_left]

theorem modulePath_of_isLeast (hproject : o.projectRoot = none) (hroot : o.effectiveRoot = .ok root)
    (hi : IsLeast (occurrences root path) i) :
    ∃ p, o.modulePath path = .ok p ∧ path = textBefore path i ++ root ++ "/" ++ p := by
  obtain ⟨p, hp⟩ := path_at_occurrence hi.1
  refine ⟨p, ?_, hp⟩
  have hoffset := rootOffset?_of_isLeast hproject hroot hi
  rw [← length_textBefore] at hoffset
  generalize textBefore path i = before at hp hoffset
  subst hp
  exact modulePath_of_rootOffset? hroot hoffset

theorem ne_empty_of_contains (h : o.contains (before ++ "/" ++ rest) = .ok true) : rest ≠ "" := by
  rintro rfl
  obtain ⟨_, _, _, _, hkind⟩ := contains_eq_true_iff.mp h
  rw [String.append_empty, fileKind?_slash] at hkind
  cases hkind

theorem modulePath_identifies (h : o.validate = .ok ()) :
    (∀ path, o.contains path = .ok true → ∃ root before p, o.effectiveRoot = .ok root ∧ o.modulePath path = .ok p ∧
      p ≠ "" ∧ path = before ++ root ++ "/" ++ p ∧
      (∀ project, o.projectRoot = some project → before = project ++ "/") ∧
      (o.projectRoot = none → ∃ i, IsLeast (standsAt root path) i ∧ before = textBefore path i)) ∧
    (o.projectRoot.isSome → ∀ path path', o.contains path = .ok true → o.contains path' = .ok true → path ≠ path' →
      o.modulePath path ≠ o.modulePath path') := by
  obtain ⟨root, hroot, _⟩ := isWithin_of_validate h
  constructor
  · intro path hpath
    cases hproject : o.projectRoot with
    | some project =>
      obtain ⟨root, p, hroot, hp, rfl⟩ := path_of_contains hproject hpath
      refine ⟨root, project ++ "/", p, hroot, hp, ne_empty_of_contains hpath, rfl, ?_, ?_⟩
      · intro project' hproject'
        rw [Option.some.inj hproject']
      · intro hnone
        cases hnone
    | none =>
      obtain ⟨_, i, hi, _⟩ := (contains_segments_iff hproject hroot).mp hpath
      obtain ⟨p, hp, heq⟩ := modulePath_of_isLeast hproject hroot hi
      rw [heq] at hpath
      refine ⟨root, textBefore path i, p, hroot, hp, ne_empty_of_contains hpath, heq, ?_, ?_⟩
      · intro project hsome
        cases hsome
      · intro _
        exact ⟨i, isLeast_standsAt hi, rfl⟩
  · intro hsome path path' hpath hpath' hne heq
    obtain ⟨project, hproject⟩ := Option.isSome_iff_exists.mp hsome
    exact hne (modulePath_injOn hproject hpath hpath' heq)

theorem modulePath_identifies_uiOptions :
    (∃ p, uiOptions.modulePath "/p/mysrc/lib/src/lib/ui/a.ts" = .ok p ∧ p ≠ "" ∧
      "/p/mysrc/lib/src/lib/ui/a.ts" = "/p/mysrc/lib/" ++ "src/lib" ++ "/" ++ p) ∧
    { uiOptions with projectRoot := some "/p" }.modulePath "/p/src/lib/ui/a.ts" ≠
      { uiOptions with projectRoot := some "/p" }.modulePath "/p/src/lib/ui/ui/a.ts" := by
  have hfirst : IsLeast (standsAt "src/lib" "/p/mysrc/lib/src/lib/ui/a.ts") 4 :=
    isLeast_standsAt (isLeast_occurrences_iff.mpr (by decide))
  have hvalid : uiOptions.validate = .ok () := by decide
  have hvalid' : { uiOptions with projectRoot := some "/p" }.validate = .ok () := by decide
  constructor
  · obtain ⟨root, before, p, hroot, hp, hne, heq, _, hbefore⟩ :=
      (modulePath_identifies hvalid).1 "/p/mysrc/lib/src/lib/ui/a.ts" (by decide)
    cases hroot
    obtain ⟨i, hi, rfl⟩ := hbefore rfl
    obtain rfl : i = 4 := hi.unique hfirst
    exact ⟨p, hp, hne, heq⟩
  · exact (modulePath_identifies hvalid').2 rfl _ _ (by decide) (by decide) (by decide)

end SourceOptions

end ApiCatalog
