import Mathlib.Data.List.Induction
import Mathlib.Data.List.TakeWhile
import ApiCatalog.Program.Index
import ApiCatalog.Proofs.Source.Segments
import ApiCatalog.Proofs.Source.Writing

namespace ApiCatalog

variable {parts dir before common away : List String} {s file name x : String}

structure IsSegment (s : String) : Prop where
  ne_empty : s ≠ ""
  noSlash : '/' ∉ s.toList
  ne_dot : s ≠ "."
  ne_dots : s ≠ ".."

instance (s : String) : Decidable (IsSegment s) :=
  decidable_of_iff (s ≠ "" ∧ '/' ∉ s.toList ∧ s ≠ "." ∧ s ≠ "..")
    ⟨fun h => ⟨h.1, h.2.1, h.2.2.1, h.2.2.2⟩, fun h => ⟨h.1, h.2, h.3, h.4⟩⟩

theorem isSegment_of_char (h : ∃ c ∈ s.toList, c ≠ '.') (hslash : '/' ∉ s.toList) : IsSegment s := by
  obtain ⟨c, hc, hdot⟩ := h
  refine ⟨?_, hslash, ?_, ?_⟩
  all_goals
    rintro rfl
    simp_all

def absolutePath (parts : List String) : String :=
  "/" ++ "/".intercalate parts

def specifierTo (ups : Nat) (parts : List String) : String :=
  "./" ++ String.join (List.replicate ups "../") ++ "/".intercalate parts

/-! Texts of absolute paths -/

def rooted (parts : List String) : List Char :=
  parts.flatMap fun s => '/' :: s.toList

@[simp] theorem rooted_nil : rooted [] = [] := rfl

@[simp] theorem rooted_append (parts parts' : List String) : rooted (parts ++ parts') = rooted parts ++ rooted parts' :=
  List.flatMap_append

@[simp] theorem rooted_cons (s : String) (parts : List String) : rooted (s :: parts) = '/' :: (s.toList ++ rooted parts) :=
  rfl

theorem rooted_eq (h : parts ≠ []) : rooted parts = '/' :: ['/'].intercalate (parts.map String.toList) := by
  induction parts with
  | nil => exact absurd rfl h
  | cons s rest ih =>
    by_cases hrest : rest = []
    · simp [hrest]
    · rw [rooted_cons, ih hrest, List.map_cons, List.intercalate_cons_of_ne_nil (by simpa using hrest)]
      simp

theorem toList_absolutePath (h : parts ≠ []) : (absolutePath parts).toList = rooted parts := by
  rw [rooted_eq h, absolutePath, String.toList_append, String.toList_intercalate]
  rfl

theorem Path.toString_rooted (parts : List String) : Path.toString ⟨1, parts⟩ = absolutePath parts := by
  have hslash : String.ofList (List.replicate 1 '/') = "/" := rfl
  rw [Path.toString, hslash]
  simp [absolutePath]

theorem splitOn_rooted (h : parts ≠ []) (hslash : ∀ s ∈ parts, '/' ∉ s.toList) :
    Text.splitOn '/' (rooted parts) = [] :: parts.map String.toList := by
  have hparts : ∀ l ∈ parts.map String.toList, '/' ∉ l := by
    intro l hl
    obtain ⟨s, hs, rfl⟩ := List.mem_map.mp hl
    exact hslash s hs
  rw [rooted_eq h, Text.splitOn, if_pos rfl, Text.splitOn_eq, List.splitOn_intercalate '/' hparts (by simpa using h)]

theorem Path.leadingSlashes_rooted (h : s ≠ "") (hslash : '/' ∉ s.toList) (parts : List String) :
    leadingSlashes (rooted (s :: parts)) = 1 := by
  obtain ⟨c, cs, hs⟩ := List.exists_cons_of_ne_nil (String.toList_eq_nil_iff.not.mpr h)
  have hc : c ≠ '/' := by
    rintro rfl
    simp [hs] at hslash
  rw [rooted_cons, hs, List.cons_append]
  unfold leadingSlashes
  split <;> simp_all

theorem Path.ofString_rooted (h : parts ≠ []) (hne : ∀ s ∈ parts, s ≠ "") (hslash : ∀ s ∈ parts, '/' ∉ s.toList) :
    Path.ofString (String.ofList (rooted parts)) = ⟨1, parts.filter fun p => !meansNothing p⟩ := by
  obtain ⟨first, rest, rfl⟩ := List.exists_cons_of_ne_nil h
  have hempty : (!meansNothing "") = false := rfl
  rw [Path.ofString, String.toList_ofList, splitOn_rooted h hslash, List.map_cons, List.map_map,
    Path.leadingSlashes_rooted (hne first List.mem_cons_self) (hslash first List.mem_cons_self)]
  simp [Function.comp_def, hempty]

/-! The directory of a file and the way from there -/

theorem dropWhile_noSlash {u v : List Char} (h : '/' ∉ u) : (u ++ '/' :: v).dropWhile (· != '/') = '/' :: v := by
  rw [List.dropWhile_append_of_pos]
  · simp
  · intro c hc
    simpa using ne_of_mem_of_not_mem hc h

theorem rooted_concat (parts : List String) (h : IsSegment s) : ∃ u c, rooted (parts ++ [s]) = u ++ [c] ∧ c ≠ '/' := by
  rcases List.eq_nil_or_concat' s.toList with hs | ⟨cs, c, hs⟩
  · exact absurd (String.toList_eq_nil_iff.mp hs) h.ne_empty
  · refine ⟨rooted parts ++ '/' :: cs, c, by simp [hs], ?_⟩
    rintro rfl
    apply h.noSlash
    simp [hs]

theorem directoryOf_absolutePath (h : ∀ s ∈ dir, IsSegment s) (hfile : '/' ∉ file.toList) :
    directoryOf (absolutePath (dir ++ [file])) = absolutePath dir := by
  have hhead : ((absolutePath (dir ++ [file])).toList.reverse.dropWhile (· != '/')).reverse = rooted dir ++ ['/'] := by
    rw [toList_absolutePath (by simp)]
    simp only [rooted_append, rooted_cons, rooted_nil, List.append_nil, List.reverse_append, List.reverse_cons,
      List.append_assoc, List.singleton_append]
    rw [dropWhile_noSlash (by simpa using hfile)]
    simp
  rw [directoryOf, hhead]
  rcases List.eq_nil_or_concat' dir with rfl | ⟨before, last, rfl⟩
  · rfl
  · obtain ⟨u, c, hlast, hc⟩ := rooted_concat before (h last (by simp))
    rw [hlast, if_neg (by simp [hc]), ← String.toList_inj, toList_absolutePath (by simp), hlast]
    simp [hc]

theorem joinTexts_absolutePath (h : ∀ s ∈ dir, IsSegment s) (hs : ¬ Text.startsWith "/" s) :
    (joinTexts (absolutePath dir) s).toList = rooted (dir ++ [s]) := by
  have hfull : (absolutePath dir).isEmpty = false := by simp [absolutePath]
  rw [joinTexts, if_neg hs, hfull, Bool.false_or]
  rcases List.eq_nil_or_concat' dir with rfl | ⟨before, last, rfl⟩
  · have hroot : absolutePath [] = "/" := rfl
    rw [hroot, if_pos (by decide)]
    simp
  · obtain ⟨u, c, hlast, hc⟩ := rooted_concat before (h last (by simp))
    have htext : (absolutePath (before ++ [last])).toList = u ++ [c] := by
      rw [toList_absolutePath (by simp), hlast]
    have hopen : ¬ Text.endsWith "/" (absolutePath (before ++ [last])) := by
      rw [Text.endsWith, htext, List.isSuffixOf_iff_suffix, ← List.reverse_prefix]
      simpa using hc.symm
    rw [if_neg hopen, rooted_append, hlast]
    simp [htext]

theorem rooted_replicate_dots (n : Nat) (t : List Char) :
    rooted (List.replicate n "..") ++ '/' :: t = '/' :: ((List.replicate n "../").flatMap String.toList ++ t) := by
  induction n with
  | zero => rfl
  | succ n ih => simp [List.replicate_succ, ih]

theorem rooted_specifierTo (n : Nat) (h : parts ≠ []) :
    rooted [specifierTo n parts] = rooted ("." :: (List.replicate n ".." ++ parts)) := by
  have hshift := rooted_replicate_dots n (['/'].intercalate (parts.map String.toList))
  rw [← rooted_eq h, ← rooted_append] at hshift
  rw [rooted_cons ".", hshift]
  simp [specifierTo, String.toList_intercalate]

namespace Path

theorem foldl_onward_names (h : ∀ s ∈ parts, s ≠ "..") (done : Place) : parts.foldl onward done = done ++ parts := by
  induction parts generalizing done with
  | nil => simp
  | cons s rest ih =>
    obtain ⟨hs, hrest⟩ := List.forall_mem_cons.mp h
    rw [List.foldl_cons, ih hrest, onward, if_neg hs, List.append_assoc, List.singleton_append]

theorem foldl_onward_dots (common away : Place) :
    (List.replicate away.length "..").foldl onward (common ++ away) = common := by
  induction away using List.reverseRecOn with
  | nil => simp
  | append_singleton before last ih =>
    rw [List.length_append, List.length_singleton, List.replicate_succ, List.foldl_cons, onward, if_pos rfl,
      ← List.append_assoc, List.dropLast_concat, ih]

theorem meansNothing_of_isSegment (h : IsSegment s) : (!meansNothing s) = true := by
  simp [meansNothing, h.ne_empty, h.ne_dot]

theorem ofString_specifierTo (n : Nat) (hdir : ∀ s ∈ dir, IsSegment s) (hparts : ∀ s ∈ parts, IsSegment s)
    (hne : parts ≠ []) :
    Path.ofString (String.ofList (rooted (dir ++ [specifierTo n parts]))) = ⟨1, dir ++ (List.replicate n ".." ++ parts)⟩ := by
  have hafter : ∀ s ∈ List.replicate n ".." ++ parts, IsSegment s ∨ s = ".." := by
    intro s hs
    rcases List.mem_append.mp hs with hs | hs
    · exact .inr (List.eq_of_mem_replicate hs)
    · exact .inl (hparts s hs)
  have hall : ∀ s ∈ dir ++ "." :: (List.replicate n ".." ++ parts), s ≠ "" ∧ '/' ∉ s.toList := by
    intro s hs
    rcases List.mem_append.mp hs with hs | hs
    · exact ⟨(hdir s hs).ne_empty, (hdir s hs).noSlash⟩
    · rcases List.mem_cons.mp hs with rfl | hs
      · decide
      · rcases hafter s hs with h | rfl
        · exact ⟨h.ne_empty, h.noSlash⟩
        · decide
  rw [rooted_append, rooted_specifierTo n hne, ← rooted_append,
    ofString_rooted (by simp) (fun s hs => (hall s hs).1) fun s hs => (hall s hs).2, List.filter_append,
    List.filter_cons_of_neg (by decide), List.filter_eq_self.mpr fun s hs => meansNothing_of_isSegment (hdir s hs),
    List.filter_eq_self.mpr]
  intro s hs
  rcases hafter s hs with h | rfl
  · exact meansNothing_of_isSegment h
  · rfl

theorem normalize_specifierTo (hdir : ∀ s ∈ common ++ away, IsSegment s) (hparts : ∀ s ∈ parts, IsSegment s)
    (hne : parts ≠ []) :
    (Path.ofString (String.ofList (rooted (common ++ away ++ [specifierTo away.length parts])))).normalize =
      ⟨1, common ++ parts⟩ := by
  have hnormal : (⟨1, common ++ away ++ (List.replicate away.length ".." ++ parts)⟩ : Path).normalize.parts =
      common ++ parts := by
    rw [normalize_parts rfl, List.foldl_append, List.foldl_append, foldl_onward_names fun s hs => (hdir s hs).ne_dots,
      List.nil_append, foldl_onward_dots, foldl_onward_names fun s hs => (hparts s hs).ne_dots]
  rw [ofString_specifierTo _ hdir hparts hne, ← hnormal]
  rfl

end Path

/-! Suffixes -/

theorem baseName_absolutePath (dir : List String) (h : '/' ∉ name.toList) :
    baseName (absolutePath (dir ++ [name])) = name := by
  have htake : (name.toList.reverse ++ '/' :: (rooted dir).reverse).takeWhile (· != '/') = name.toList.reverse := by
    rw [List.takeWhile_append_of_pos]
    · simp
    · intro c hc
      simpa using ne_of_mem_of_not_mem (List.mem_reverse.mp hc) h
  rw [baseName, toList_absolutePath (by simp), ← String.toList_inj]
  simp [htake]

theorem takeWhile_lastDot {v : List Char} (u : List Char) (h : '.' ∉ v) :
    ((u ++ '.' :: v).reverse.takeWhile (· != '.')).reverse = v := by
  rw [List.reverse_append, List.reverse_cons, List.append_assoc, List.singleton_append, List.takeWhile_append_of_pos]
  · simp
  · intro c hc
    simpa using ne_of_mem_of_not_mem (List.mem_reverse.mp hc) h

theorem splitSuffix_absolutePath {ext : String} (dir : List String) (hx : ∃ c ∈ x.toList, c ≠ '.')
    (hslash : '/' ∉ (x ++ "." ++ ext).toList) (hext : '.' ∉ ext.toList) :
    splitSuffix (absolutePath (dir ++ [x ++ "." ++ ext])) = (absolutePath (dir ++ [x]), "." ++ ext) := by
  have hshown : (x ++ "." ++ ext).toList.dropWhile (· == '.') = x.toList.dropWhile (· == '.') ++ '.' :: ext.toList := by
    have hne : (x.toList.dropWhile (· == '.')).isEmpty = false := by
      simpa [List.isEmpty_eq_false_iff, List.dropWhile_eq_nil_iff] using hx
    rw [String.toList_append, String.toList_append, List.append_assoc, List.dropWhile_append, hne]
    rfl
  have htext : (absolutePath (dir ++ [x ++ "." ++ ext])).toList = rooted (dir ++ [x]) ++ '.' :: ext.toList := by
    rw [toList_absolutePath (by simp)]
    simp
  have hlength : (absolutePath (dir ++ [x ++ "." ++ ext])).length - ('.' :: ext.toList).length =
      (rooted (dir ++ [x])).length := by
    rw [← String.length_toList, htext, List.length_append, Nat.add_sub_cancel]
  rw [splitSuffix, baseName_absolutePath dir hslash]
  simp only [hshown, takeWhile_lastDot _ hext]
  rw [if_pos (by simp), hlength, htext, List.take_left, ← toList_absolutePath (by simp), String.ofList_toList]
  simp

theorem splitSuffix_suffix (path : String) : (splitSuffix path).2.toList <:+ (baseName path).toList := by
  rw [splitSuffix]
  split
  · case isTrue hdot =>
    refine List.IsSuffix.trans ?_ (List.dropWhile_suffix (· == '.'))
    generalize (baseName path).toList.dropWhile (· == '.') = shown at hdot ⊢
    have hmem : '.' ∈ shown.reverse := by simpa using hdot
    obtain ⟨v, u, hshown, hv⟩ := List.eq_append_cons_of_mem hmem
    obtain rfl : shown = u.reverse ++ '.' :: v.reverse := by
      rw [← List.reverse_inj, hshown]
      simp
    rw [takeWhile_lastDot _ (by simpa using hv), String.toList_ofList]
    exact List.suffix_append _ _
  · exact List.nil_suffix

/-! Candidates -/

namespace Program

variable {p : Program}

theorem sourceSuffixes_eq_nil (h : ¬ Text.endsWith ".js" name) (h' : ¬ Text.endsWith ".mjs" name)
    (hsuffix : s.toList <:+ name.toList) : sourceSuffixes s = [] := by
  unfold sourceSuffixes
  split
  · exact absurd (List.isSuffixOf_iff_suffix.mpr hsuffix) h
  · exact absurd (List.isSuffixOf_iff_suffix.mpr hsuffix) h'
  · rfl

theorem candidates_eq (target : String) : ∃ others, candidates target =
    target :: ((sourceSuffixes (splitSuffix target).2).map ((splitSuffix target).1 ++ ·) ++ (target ++ ".ts") :: others) := by
  refine ⟨[".mts", ".js", ".mjs", ".svelte"].map (target ++ ·) ++ ["index.ts", "index.js"].map (joinTexts target), ?_⟩
  simp [candidates]

theorem find?_candidates_self {target : String} (h : p.contains target) :
    (candidates target).find? p.contains = some target := by
  obtain ⟨others, hcandidates⟩ := candidates_eq target
  rw [hcandidates, List.find?_cons_of_pos h]

theorem absolutePath_append (dir : List String) (name suffix : String) :
    absolutePath (dir ++ [name]) ++ suffix = absolutePath (dir ++ [name ++ suffix]) := by
  rw [← String.toList_inj, String.toList_append, toList_absolutePath (by simp), toList_absolutePath (by simp)]
  simp

theorem find?_candidates_compiled (dir : List String) (hx : ∃ c ∈ x.toList, c ≠ '.') (hslash : '/' ∉ x.toList)
    (h : p.contains (absolutePath (dir ++ [x ++ ".ts"])))
    (hcompiled : ¬ p.contains (absolutePath (dir ++ [x ++ ".js"]))) :
    (candidates (absolutePath (dir ++ [x ++ ".js"]))).find? p.contains = some (absolutePath (dir ++ [x ++ ".ts"])) := by
  have hjs : x ++ "." ++ "js" = x ++ ".js" := by rw [String.append_assoc]; rfl
  have hsplit : splitSuffix (absolutePath (dir ++ [x ++ ".js"])) = (absolutePath (dir ++ [x]), ".js") := by
    rw [← hjs, splitSuffix_absolutePath dir hx (by simpa using hslash) (by decide)]
    rfl
  obtain ⟨others, hcandidates⟩ := candidates_eq (absolutePath (dir ++ [x ++ ".js"]))
  rw [hcandidates, hsplit, List.find?_cons_of_neg hcompiled, sourceSuffixes, List.map_cons, List.cons_append,
    absolutePath_append, List.find?_cons_of_pos h]

theorem find?_candidates_bare (dir : List String) (hslash : '/' ∉ x.toList)
    (h : p.contains (absolutePath (dir ++ [x ++ ".ts"]))) (hbare : ¬ p.contains (absolutePath (dir ++ [x])))
    (hjs : ¬ Text.endsWith ".js" x) (hmjs : ¬ Text.endsWith ".mjs" x) :
    (candidates (absolutePath (dir ++ [x]))).find? p.contains = some (absolutePath (dir ++ [x ++ ".ts"])) := by
  have hsuffix := splitSuffix_suffix (absolutePath (dir ++ [x]))
  rw [baseName_absolutePath dir hslash] at hsuffix
  obtain ⟨others, hcandidates⟩ := candidates_eq (absolutePath (dir ++ [x]))
  rw [hcandidates, sourceSuffixes_eq_nil hjs hmjs hsuffix, List.find?_cons_of_neg hbare, List.map_nil, List.nil_append,
    absolutePath_append, List.find?_cons_of_pos h]

theorem resolve?_specifierTo (p : Program) (hdir : ∀ s ∈ dir, IsSegment s) (hfile : '/' ∉ file.toList)
    (hbefore : ∀ s ∈ before, IsSegment s) (hname : IsSegment name) (hcommon : common <+: dir)
    (hcommon' : common <+: before) :
    p.resolve? (specifierTo (dir.length - common.length) ((before ++ [name]).drop common.length))
      (absolutePath (dir ++ [file])) = (candidates (absolutePath (before ++ [name]))).find? p.contains := by
  obtain ⟨away, rfl⟩ := hcommon
  obtain ⟨toward, rfl⟩ := hcommon'
  have hparts : ∀ s ∈ toward ++ [name], IsSegment s := by
    intro s hs
    rcases List.mem_append.mp hs with hs | hs
    · exact hbefore s (List.mem_append_right _ hs)
    · rw [List.mem_singleton.mp hs]
      exact hname
  rw [List.length_append, Nat.add_sub_cancel_left, List.append_assoc, List.drop_left]
  have hdot : (specifierTo away.length (toward ++ [name])).toList =
      '.' :: '/' :: ((List.replicate away.length "../").flatMap String.toList ++
        ("/".intercalate (toward ++ [name])).toList) := by
    simp [specifierTo]
  have hjoin : joinTexts (absolutePath (common ++ away)) (specifierTo away.length (toward ++ [name])) =
      String.ofList (rooted (common ++ away ++ [specifierTo away.length (toward ++ [name])])) := by
    rw [← joinTexts_absolutePath hdir (by simp [Text.startsWith, hdot]), String.ofList_toList]
  rw [resolve?, if_pos (by simp [Text.startsWith, hdot]), directoryOf_absolutePath hdir hfile, hjoin,
    Path.normalize_specifierTo hdir hparts (by simp), Path.toString_rooted]

theorem contains_of_resolve? {p : Program} {specifier fromId id : String} (h : p.resolve? specifier fromId = some id) :
    p.contains id := by
  rw [resolve?] at h
  split at h
  · exact List.find?_some h
  · cases h

theorem resolve?_relative (p : Program) :
    (∀ (dir target common : List String) (file : String), (∀ s ∈ dir, IsSegment s) → '/' ∉ file.toList →
      (∀ s ∈ target, IsSegment s) → common <+: dir → common <+: target → common.length < target.length →
      p.contains (absolutePath target) →
      p.resolve? (specifierTo (dir.length - common.length) (target.drop common.length)) (absolutePath (dir ++ [file])) =
        some (absolutePath target) ∧
      ∀ x, target.getLast? = some (x ++ ".ts") → (∃ c ∈ x.toList, c ≠ '.') →
        (¬ p.contains (absolutePath (target.dropLast ++ [x ++ ".js"])) →
          p.resolve? (specifierTo (dir.length - common.length) ((target.dropLast ++ [x ++ ".js"]).drop common.length))
            (absolutePath (dir ++ [file])) = some (absolutePath target)) ∧
        (¬ p.contains (absolutePath (target.dropLast ++ [x])) → ¬ Text.endsWith ".js" x → ¬ Text.endsWith ".mjs" x →
          p.resolve? (specifierTo (dir.length - common.length) ((target.dropLast ++ [x]).drop common.length))
            (absolutePath (dir ++ [file])) = some (absolutePath target))) ∧
    (∀ specifier fromId id, p.resolve? specifier fromId = some id → p.contains id) ∧
    (∀ specifier fromId, ¬ Text.startsWith "." specifier → p.resolve? specifier fromId = none) := by
  refine ⟨?_, ?_, ?_⟩
  · intro dir target common file hdir hfile htarget hcommon hcommon' hlength hcontains
    have hne : target ≠ [] := List.ne_nil_of_length_pos (by omega)
    obtain ⟨before, last, rfl⟩ := (List.eq_nil_or_concat' target).resolve_left hne
    rw [List.dropLast_concat, List.getLast?_concat]
    have hbefore : ∀ s ∈ before, IsSegment s := fun s hs => htarget s (List.mem_append_left _ hs)
    have hprefix : common <+: before := by
      apply List.prefix_of_prefix_length_le hcommon' (List.prefix_append before _)
      rw [List.length_append, List.length_singleton] at hlength
      omega
    have hlast := htarget last (by simp)
    constructor
    · rw [resolve?_specifierTo p hdir hfile hbefore hlast hcommon hprefix, find?_candidates_self hcontains]
    · intro x heq hx
      cases heq
      have hslash : '/' ∉ x.toList := by
        have hnoSlash := hlast.noSlash
        rw [String.toList_append, List.mem_append, not_or] at hnoSlash
        exact hnoSlash.1
      constructor
      · intro hcompiled
        have hname : IsSegment (x ++ ".js") := by
          apply isSegment_of_char
          · obtain ⟨c, hc, hdot⟩ := hx
            exact ⟨c, by simp [hc], hdot⟩
          · simp [hslash]
        rw [resolve?_specifierTo p hdir hfile hbefore hname hcommon hprefix,
          find?_candidates_compiled before hx hslash hcontains hcompiled]
      · intro hbare hjs hmjs
        rw [resolve?_specifierTo p hdir hfile hbefore (isSegment_of_char hx hslash) hcommon hprefix,
          find?_candidates_bare before hslash hcontains hbare hjs hmjs]
  · intro specifier fromId id h
    exact contains_of_resolve? h
  · intro specifier fromId h
    rw [resolve?, if_neg h]

def libraryProgram : Program where
  files := [{ id := "/p/lib/math.ts", kind := .code, content := "", script := none },
    { id := "/p/lib/ui/index.ts", kind := .code, content := "", script := none }]

theorem resolve?_relative_libraryProgram :
    libraryProgram.resolve? "./../math.ts" "/p/lib/ui/index.ts" = some "/p/lib/math.ts" ∧
      libraryProgram.resolve? "./../math.js" "/p/lib/ui/index.ts" = some "/p/lib/math.ts" ∧
      libraryProgram.resolve? "./../math" "/p/lib/ui/index.ts" = some "/p/lib/math.ts" ∧
      libraryProgram.resolve? "./p/lib/math.ts" "/main.ts" = some "/p/lib/math.ts" ∧
      libraryProgram.resolve? "lib/math" "/p/lib/ui/index.ts" = none := by
  obtain ⟨hrelative, _, hbare⟩ := resolve?_relative libraryProgram
  obtain ⟨hfull, hother⟩ := hrelative ["p", "lib", "ui"] ["p", "lib", "math.ts"] ["p", "lib"] "index.ts" (by decide)
    (by decide) (by decide) (by decide) (by decide) (by decide) (by decide)
  obtain ⟨hcompiled, hshort⟩ := hother "math" rfl ⟨'m', by decide, by decide⟩
  obtain ⟨hdown, _⟩ := hrelative [] ["p", "lib", "math.ts"] [] "main.ts" (by decide) (by decide) (by decide) (by decide)
    (by decide) (by decide) (by decide)
  exact ⟨hfull, hcompiled (by decide), hshort (by decide) (by decide) (by decide), hdown, hbare _ _ (by decide)⟩

end Program

end ApiCatalog
