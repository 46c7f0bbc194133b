import Mathlib.Data.List.Basic
import ApiCatalog.Source.Scope

namespace ApiCatalog

theorem Text.startsWith_iff {start text : String} :
    Text.startsWith start text ↔ ∃ rest, text = start ++ String.ofList rest := by
  rw [startsWith, List.isPrefixOf_iff_prefix, List.prefix_iff_eq_append]
  constructor
  · intro h
    exact ⟨text.toList.drop start.toList.length, by rw [← String.toList_inj]; simpa using h.symm⟩
  · rintro ⟨rest, rfl⟩
    simp

namespace SourceOptions

variable {o : SourceOptions} {project root path p rest : String}

theorem contains_eq_true_iff : o.contains path = .ok true ↔
    o.isExcluded path = .ok false ∧ ∃ offset, o.rootOffset? path = .ok (some offset) ∧
      (∃ p ∈ o.sourcePaths, Text.startsWith (p ++ "/") (String.ofList (path.toList.drop offset))) ∧
      (fileKind? o.extensions path).isSome := by
  rw [contains]
  cases o.isExcluded path with
  | error e => exact ⟨nofun, fun h => nomatch h.1⟩
  | ok excluded =>
    cases excluded with
    | true => exact ⟨nofun, fun h => nomatch h.1⟩
    | false =>
      cases o.rootOffset? path with
      | error e => exact ⟨nofun, fun ⟨_, _, h, _⟩ => nomatch h⟩
      | ok offset =>
        cases offset with
        | none => exact ⟨nofun, fun ⟨_, _, h, _⟩ => nomatch h⟩
        | some offset =>
          simp [bind, Except.bind, pure, Except.pure]

theorem rootOffset?_project (hproject : o.projectRoot = some project) (hroot : o.effectiveRoot = .ok root) :
    o.rootOffset? path = .ok
      (if Text.startsWith (project ++ "/" ++ root ++ "/") path then some (project.length + 1) else none) := by
  rw [rootOffset?, hroot, hproject]
  rfl

theorem effectiveRoot_of_rootOffset? {offset : Option Nat} (h : o.rootOffset? path = .ok offset) :
    ∃ root, o.effectiveRoot = .ok root := by
  cases hroot : o.effectiveRoot with
  | ok root => exact ⟨root, rfl⟩
  | error e => rw [rootOffset?, hroot] at h; cases h

theorem modulePath_project (hproject : o.projectRoot = some project) (hroot : o.effectiveRoot = .ok root)
    (p : String) : o.modulePath (project ++ "/" ++ root ++ "/" ++ p) = .ok p := by
  have hoffset : o.rootOffset? (project ++ "/" ++ root ++ "/" ++ p) = .ok (some (project.length + 1)) := by
    rw [rootOffset?_project hproject hroot, if_pos]
    exact Text.startsWith_iff.mpr ⟨p.toList, by simp⟩
  rw [modulePath, hoffset]
  simp only [hroot, bind, Except.bind, pure, Except.pure, Except.ok.injEq]
  rw [← String.toList_inj]
  have hlength : project.length + 1 + root.length + 1 =
      (project.toList ++ "/".toList ++ root.toList ++ "/".toList).length := by
    simp only [List.length_append, String.length_toList]
    rfl
  simp only [String.toList_append, String.toList_ofList, hlength, List.drop_left]

theorem path_of_contains (hproject : o.projectRoot = some project) (h : o.contains path = .ok true) :
    ∃ root p, o.effectiveRoot = .ok root ∧ o.modulePath path = .ok p ∧
      path = project ++ "/" ++ root ++ "/" ++ p := by
  obtain ⟨_, offset, hoffset, _⟩ := contains_eq_true_iff.mp h
  obtain ⟨root, hroot⟩ := effectiveRoot_of_rootOffset? hoffset
  rw [rootOffset?_project hproject hroot] at hoffset
  split at hoffset
  · case isTrue hstart =>
    obtain ⟨rest, rfl⟩ := Text.startsWith_iff.mp hstart
    exact ⟨root, String.ofList rest, hroot, modulePath_project hproject hroot _, rfl⟩
  · cases hoffset

theorem modulePath_injOn (hproject : o.projectRoot = some project) {path' : String}
    (h : o.contains path = .ok true) (h' : o.contains path' = .ok true)
    (heq : o.modulePath path = o.modulePath path') : path = path' := by
  obtain ⟨root, p, hroot, hp, rfl⟩ := path_of_contains hproject h
  obtain ⟨root', p', hroot', hp', rfl⟩ := path_of_contains hproject h'
  cases hroot.symm.trans hroot'
  cases hp.symm.trans (heq.trans hp')
  rfl

/-! Paths below a source path -/

def Excludes (o : SourceOptions) (path : String) : Prop :=
  ∃ text ∈ o.excludePatterns, ∃ q, o.search text = some q ∧ q path

theorem isExcluded_of_patterns (h : ∀ text ∈ o.excludePatterns, (o.search text).isSome) (path : String) :
    ∃ b, o.isExcluded path = .ok b ∧ (b = true ↔ o.Excludes path) := by
  rw [isExcluded, Excludes]
  generalize o.excludePatterns = texts at h ⊢
  induction texts with
  | nil => exact ⟨false, rfl, nofun, fun ⟨_, hmem, _⟩ => nomatch hmem⟩
  | cons text rest ih =>
    obtain ⟨htext, hrest⟩ := List.forall_mem_cons.mp h
    obtain ⟨q, hq⟩ := Option.isSome_iff_exists.mp htext
    obtain ⟨b, hb, hiff⟩ := ih hrest
    rw [excludedBy, hq]
    by_cases hoccurs : q path
    · exact ⟨true, if_pos hoccurs, fun _ => ⟨text, List.mem_cons_self, q, hq, hoccurs⟩, fun _ => rfl⟩
    · refine ⟨b, (if_neg hoccurs).trans hb, hiff.trans ?_⟩
      simp [hq, hoccurs]

theorem startsWith_of_isWithin (h : isWithin root p) (rest : String) :
    Text.startsWith (root ++ "/") (p ++ "/" ++ rest) := by
  rw [Text.startsWith_iff]
  rw [isWithin, Bool.or_eq_true, beq_iff_eq] at h
  rcases h with rfl | h
  · exact ⟨rest.toList, by simp⟩
  · obtain ⟨x, rfl⟩ := Text.startsWith_iff.mp h
    exact ⟨x ++ "/".toList ++ rest.toList, by simp [String.ofList_append, String.append_assoc]⟩

theorem drop_project (project rest : String) :
    String.ofList ((project ++ "/" ++ rest).toList.drop (project.length + 1)) = rest := by
  have hlength : project.length + 1 = (project.toList ++ "/".toList).length := by
    simp only [List.length_append, String.length_toList]
    rfl
  rw [← String.toList_inj, String.toList_append, String.toList_append, hlength, List.drop_left,
    String.toList_ofList]

theorem contains_below (hproject : o.projectRoot = some project) (hroot : o.effectiveRoot = .ok root)
    (hp : p ∈ o.sourcePaths) (hwithin : isWithin root p) :
    o.contains (project ++ "/" ++ (p ++ "/" ++ rest)) = .ok true ↔
      o.isExcluded (project ++ "/" ++ (p ++ "/" ++ rest)) = .ok false ∧
        (fileKind? o.extensions (project ++ "/" ++ (p ++ "/" ++ rest))).isSome := by
  obtain ⟨x, hx⟩ := Text.startsWith_iff.mp (startsWith_of_isWithin hwithin rest)
  have hoffset : o.rootOffset? (project ++ "/" ++ (p ++ "/" ++ rest)) = .ok (some (project.length + 1)) := by
    rw [rootOffset?_project hproject hroot, if_pos]
    exact Text.startsWith_iff.mpr ⟨x, by simp only [hx, String.append_assoc]⟩
  rw [contains_eq_true_iff]
  constructor
  · rintro ⟨hexcluded, _, _, _, hkind⟩
    exact ⟨hexcluded, hkind⟩
  · rintro ⟨hexcluded, hkind⟩
    refine ⟨hexcluded, _, hoffset, ⟨p, hp, ?_⟩, hkind⟩
    rw [drop_project]
    exact Text.startsWith_iff.mpr ⟨rest.toList, by simp⟩

theorem exists_contains (hroot : o.effectiveRoot = .ok root)
    (h : ∀ text ∈ o.excludePatterns, (o.search text).isSome) (path : String) :
    ∃ b, o.contains path = .ok b := by
  obtain ⟨b, hb, _⟩ := isExcluded_of_patterns h path
  have hoffset : ∃ offset, o.rootOffset? path = .ok offset := by
    rw [rootOffset?, hroot]
    cases o.projectRoot <;> exact ⟨_, rfl⟩
  obtain ⟨offset, hoffset⟩ := hoffset
  rw [contains, hb, hoffset]
  cases b with
  | true => exact ⟨_, rfl⟩
  | false => cases offset <;> exact ⟨_, rfl⟩

theorem isWithin_of_append_eq {q x y : String} (h : p ++ "/" ++ x = q ++ "/" ++ y) : isWithin p q ∨ isWithin q p := by
  have hp : (p ++ "/").toList <+: (p ++ "/" ++ x).toList := ⟨x.toList, by simp⟩
  have hq : (q ++ "/").toList <+: (p ++ "/" ++ x).toList := ⟨y.toList, by rw [h]; simp⟩
  have hcase {a b : String} (hpre : (a ++ "/").toList <+: (b ++ "/").toList) : isWithin a b := by
    rw [isWithin, Bool.or_eq_true, beq_iff_eq, Text.startsWith, List.isPrefixOf_iff_prefix]
    have hslash : "/".toList = ['/'] := rfl
    rw [String.toList_append, String.toList_append, hslash, List.prefix_concat_iff] at hpre
    rcases hpre with heq | hpre
    · rw [List.append_cancel_right_eq, String.toList_inj] at heq
      exact .inl heq.symm
    · rw [String.toList_append]
      exact .inr hpre
  exact (List.prefix_or_prefix_of_prefix hp hq).imp hcase hcase

end SourceOptions

end ApiCatalog
