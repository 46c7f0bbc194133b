import ApiCatalog.Proofs.Source.Reading

namespace ApiCatalog

namespace Path

def onward (done : Place) (part : String) : Place :=
  if part = ".." then done.dropLast else done ++ [part]

theorem not_mem_onward {done : Place} (h : ".." ∉ done) (part : String) : ".." ∉ onward done part := by
  unfold onward
  split
  · intro hm
    exact h (List.dropLast_subset _ hm)
  · case isFalse hp =>
    simp only [List.mem_append, List.mem_singleton]
    rintro (hm | hm)
    · exact h hm
    · exact hp hm.symm

theorem not_mem_foldl_onward {done : Place} (h : ".." ∉ done) (parts : List String) :
    ".." ∉ parts.foldl onward done := by
  induction parts generalizing done with
  | nil => exact h
  | cons part parts ih => exact ih (not_mem_onward h part)

theorem enter_reverse {done : Place} (h : ".." ∉ done) (part : String) :
    enter true done.reverse part = (onward done part).reverse := by
  by_cases hp : part = ".."
  · subst hp
    rcases List.eq_nil_or_concat done with rfl | ⟨before, last, rfl⟩
    · rfl
    · have hl : last ≠ ".." := fun heq => h (by simp [heq])
      simp [enter, onward, hl]
  · simp [enter, onward, hp]

theorem normalize_parts {p : Path} (hp : p.isAbsolute) : p.normalize.parts = p.parts.foldl onward [] := by
  have hfold (done : Place) (h : ".." ∉ done) (parts : List String) :
      parts.foldl (enter true) done.reverse = (parts.foldl onward done).reverse := by
    induction parts generalizing done with
    | nil => rfl
    | cons part parts ih =>
      rw [List.foldl_cons, List.foldl_cons, enter_reverse h, ih _ (not_mem_onward h part)]
  have hnil := hfold [] List.not_mem_nil p.parts
  simp only [normalize, hp]
  rw [List.reverse_nil] at hnil
  rw [hnil, List.reverse_reverse]

theorem not_mem_normalize {p : Path} (hp : p.isAbsolute) : ".." ∉ p.normalize.parts := by
  rw [normalize_parts hp]
  exact not_mem_foldl_onward List.not_mem_nil p.parts

end Path

namespace FileTree

variable {t t' t'' : FileTree} {changed : List Place} {place q : Place} {p : Path} {text : String}

/-! Trees in which some files were written -/

/-- Nothing changed but the files at some places, and directories were added. -/
structure ChangedAt (changed : List Place) (t t' : FileTree) : Prop where
  files : (t'.files.filter fun f => f.1 ∉ changed) = t.files.filter fun f => f.1 ∉ changed
  directories : ∀ q, t.isDirectoryAt q → t'.isDirectoryAt q

theorem ChangedAt.refl : ChangedAt changed t t :=
  ⟨rfl, fun _ h => h⟩

theorem ChangedAt.trans (h : ChangedAt changed t t') (h' : ChangedAt changed t' t'') : ChangedAt changed t t'' :=
  ⟨h'.files.trans h.files, fun q hq => h'.directories q (h.directories q hq)⟩

theorem ChangedAt.mono {more : List Place} (h : ChangedAt changed t t') (hsub : changed ⊆ more) :
    ChangedAt more t t' := by
  refine ⟨?_, h.directories⟩
  have hsplit (fs : List (Place × String)) :
      (fs.filter fun f => f.1 ∉ more) = (fs.filter fun f => f.1 ∉ changed).filter fun f => f.1 ∉ more := by
    rw [List.filter_filter]
    apply List.filter_congr
    intro f _
    by_cases hf : f.1 ∈ more
    · simp [hf]
    · have hc : f.1 ∉ changed := fun hc => hf (hsub hc)
      simp [hf, hc]
  rw [hsplit, hsplit t.files, h.files]

theorem lookup_filter {fs : List (Place × String)} (hq : q ∉ changed) :
    (fs.filter fun f => f.1 ∉ changed).lookup q = fs.lookup q := by
  induction fs with
  | nil => rfl
  | cons f fs ih =>
    obtain ⟨key, text⟩ := f
    by_cases hf : key ∈ changed
    · have hne : (q == key) = false := beq_false_of_ne fun heq => hq (heq ▸ hf)
      rw [List.filter_cons_of_neg (by simpa using hf), List.lookup_cons, hne, ih]
    · rw [List.filter_cons_of_pos (by simpa using hf), List.lookup_cons, List.lookup_cons, ih]

theorem ChangedAt.fileAt? (h : ChangedAt changed t t') (hq : q ∉ changed) : t'.fileAt? q = t.fileAt? q := by
  rw [FileTree.fileAt?, ← lookup_filter hq, h.files, lookup_filter hq]
  rfl

theorem ChangedAt.mem_files (h : ChangedAt changed t t') (hq : q ∉ changed) :
    (q, text) ∈ t'.files ↔ (q, text) ∈ t.files := by
  have hmem := congrArg ((q, text) ∈ ·) h.files
  simpa [List.mem_filter, hq] using hmem

theorem ChangedAt.follow (h : ChangedAt changed t t') {done : Place} {parts : List String}
    (hf : t.follow done parts = .ok place) : t'.follow done parts = .ok place := by
  induction parts generalizing done with
  | nil => exact hf
  | cons part parts ih =>
    simp only [FileTree.follow] at hf ⊢
    by_cases hp : part = ".."
    · by_cases hd : t.isDirectoryAt done
      · simp only [hp, bne_self_eq_false, Bool.false_eq_true, if_false, hd, if_true] at hf
        simp only [hp, bne_self_eq_false, Bool.false_eq_true, if_false, h.directories done hd, if_true]
        exact ih hf
      · simp [hp, hd] at hf
    · have hne : (part != "..") = true := by simpa using hp
      rw [if_pos hne] at hf ⊢
      exact ih hf

theorem ChangedAt.locate (h : ChangedAt changed t t') (hl : t.locate p = .ok place) : t'.locate p = .ok place :=
  h.follow hl

theorem ChangedAt.isDirectory (h : t.ChangedAt changed t') (hd : t.isDirectory p) : t'.isDirectory p := by
  unfold FileTree.isDirectory at hd ⊢
  cases hlocate : t.locate p with
  | error e => simp [hlocate] at hd
  | ok place =>
    rw [hlocate] at hd
    rw [h.locate hlocate]
    exact h.directories place hd

theorem read_eq_ok (h : t.read p = .ok text) :
    ∃ place content, t.locate p = .ok place ∧ t.fileAt? place = some content ∧
      text = String.ofList (Text.readLineEnds content.toList) := by
  obtain ⟨place, hplace, hread⟩ := bind_eq_ok.mp h
  cases hfile : t.fileAt? place with
  | none => simp only [hfile] at hread; cases hread
  | some content =>
    simp only [hfile] at hread
    exact ⟨place, content, hplace, hfile, (Except.ok.inj hread).symm⟩

theorem ChangedAt.read (h : ChangedAt changed t t') (hr : t.read p = .ok text)
    (hp : ∀ place, t.locate p = .ok place → place ∉ changed) : t'.read p = .ok text := by
  obtain ⟨place, content, hl, hf, rfl⟩ := read_eq_ok hr
  apply read_of_fileAt? (h.locate hl)
  rw [h.fileAt? (hp place hl), hf]

theorem read_of_fileAt?_eq_none (hl : t.locate p = .ok place) (hf : t.fileAt? place = none) :
    t.read p = .error (if t.isDirectoryAt place then .isDirectory else t.obstacle place) := by
  simp only [read, hl, hf, bind, Except.bind]

theorem holds_eq (hl : t.locate p = .ok place) : t.holds p = ((t.fileAt? place).isSome || t.isDirectoryAt place) := by
  cases hf : t.fileAt? place with
  | some content => simp [holds, read_of_fileAt? hl hf]
  | none =>
    rw [holds, read_of_fileAt?_eq_none hl hf]
    by_cases hd : t.isDirectoryAt place
    · simp [hd]
    · by_cases ho : t.files.any fun f => f.1.isPrefixOf place
      · simp [hd, obstacle, ho]
      · simp [hd, obstacle, ho]

/-! Writing a file -/

theorem filter_write (h : place ∈ changed) :
    ((t.write place text).files.filter fun f => f.1 ∉ changed) = t.files.filter fun f => f.1 ∉ changed := by
  unfold write
  split
  · induction t.files with
    | nil => rfl
    | cons f fs ih =>
      by_cases hf : f.1 = place
      · have hc : f.1 ∈ changed := hf ▸ h
        simpa [hf, hc, h] using ih
      · by_cases hc : f.1 ∈ changed
        · simpa [hf, hc] using ih
        · simpa [hf, hc] using ih
  · simp [List.filter_append, h]

theorem lookup_replace (fs : List (Place × String)) :
    (fs.map fun f => if f.1 == place then (place, text) else f).lookup q =
      if q = place then (fs.lookup place).map fun _ => text else fs.lookup q := by
  induction fs with
  | nil => simp
  | cons f fs ih =>
    obtain ⟨key, old⟩ := f
    by_cases hf : key = place
    · subst hf
      by_cases hq : q = key
      · simp [hq]
      · have hne : (q == key) = false := beq_false_of_ne hq
        simpa [List.lookup_cons, hne, hq] using ih
    · have hne : (place == key) = false := beq_false_of_ne (Ne.symm hf)
      by_cases hq : q = key
      · subst hq
        simp [hf]
      · have hne' : (q == key) = false := beq_false_of_ne hq
        simpa [List.lookup_cons, hf, hne, hne'] using ih

theorem fileAt?_write (t : FileTree) (place : Place) (text : String) (q : Place) :
    (t.write place text).fileAt? q = if q = place then some text else t.fileAt? q := by
  unfold write
  split
  · case isTrue hsome =>
    obtain ⟨old, hold⟩ := Option.isSome_iff_exists.mp hsome
    rw [fileAt?] at hold
    rw [fileAt?, lookup_replace, hold]
    rfl
  · case isFalse hnone =>
    have hn : t.files.lookup place = none := Option.not_isSome_iff_eq_none.mp hnone
    rw [fileAt?, List.lookup_append]
    by_cases hq : q = place
    · simp [hq, hn]
    · have hne : (q == place) = false := beq_false_of_ne hq
      simp [hq, hne, List.lookup_cons, fileAt?]

theorem isDirectoryAt_write (h : t.isDirectoryAt q) : (t.write place text).isDirectoryAt q := by
  simp only [isDirectoryAt, Bool.or_eq_true, List.any_eq_true] at h ⊢
  rcases h with (h | h) | ⟨f, hf, hq⟩
  · exact .inl (.inl h)
  · refine .inl (.inr ?_)
    unfold write
    split <;> exact h
  · refine .inr ?_
    unfold write
    split
    · refine ⟨_, List.mem_map_of_mem hf, ?_⟩
      by_cases hp : f.1 = place
      · simpa [hp] using hq
      · simpa [hp] using hq
    · exact ⟨f, List.mem_append_left _ hf, hq⟩

theorem isDirectoryAt_create (h : t.isDirectoryAt q) : (t.create p text).isDirectoryAt q := by
  have hw : (t.write p.normalize.parts text).isDirectoryAt q := isDirectoryAt_write h
  simp only [create, isDirectoryAt, Bool.or_eq_true, List.any_append] at hw ⊢
  rcases hw with (hw | hw) | hw
  · exact .inl (.inl hw)
  · exact .inl (.inr (.inr hw))
  · exact .inr hw

theorem changedAt_create (h : p.normalize.parts ∈ changed) : ChangedAt changed t (t.create p text) where
  files := filter_write h
  directories _ hq := isDirectoryAt_create hq

theorem fileAt?_create (t : FileTree) (p : Path) (text : String) (q : Place) :
    (t.create p text).fileAt? q = if q = p.normalize.parts then some text else t.fileAt? q :=
  fileAt?_write t p.normalize.parts text q

theorem isDirectoryAt_passed (hq : q ∈ passed [] p.parts) : (t.create p text).isDirectoryAt q := by
  simp only [create, isDirectoryAt, Bool.or_eq_true, List.any_append, List.any_eq_true]
  exact .inl (.inr (.inl ⟨q, hq, by simp⟩))

theorem follow_of_passed {done : Place} {parts : List String} (h : ∀ q ∈ passed done parts, t.isDirectoryAt q) :
    t.follow done parts = .ok (parts.foldl Path.onward done) := by
  induction parts generalizing done with
  | nil => rfl
  | cons part parts ih =>
    obtain ⟨hdone, hrest⟩ := List.forall_mem_cons.mp h
    by_cases hp : part = ".."
    · simp only [hp, beq_self_eq_true, if_true] at hrest
      simpa [follow, hp, hdone, Path.onward] using ih hrest
    · have hbeq : (part == "..") = false := beq_false_of_ne hp
      simp only [hbeq] at hrest
      simpa [follow, hp, Path.onward] using ih hrest

theorem locate_of_passed (hp : p.isAbsolute) (h : ∀ q ∈ passed [] p.parts, t.isDirectoryAt q) :
    t.locate p = .ok p.normalize.parts := by
  rw [Path.normalize_parts hp]
  exact follow_of_passed h

theorem locate_normalize (hp : p.isAbsolute) : t.locate p.normalize = .ok p.normalize.parts :=
  follow_of_names [] fun _ hpart heq => Path.not_mem_normalize hp (heq ▸ hpart)

end FileTree

/-! Sources of a tree in which files were written -/

namespace SourceFile

variable {o : SourceOptions} {t t' : FileTree} {changed : List Place} {channel : Channel} {project p : String}

def OutOfScope (o : SourceOptions) (t : FileTree) (project : String) (place : Place) : Prop :=
  ∀ p ∈ o.sourcePaths, ∀ path ∈ pathsBelow t project p, t.locate path = .ok place → o.contains path.toString = .ok false

instance : DecidablePred (OutOfScope o t project) := fun place =>
  inferInstanceAs (Decidable (∀ p ∈ o.sourcePaths, ∀ path ∈ pathsBelow t project p,
    t.locate path = .ok place → o.contains path.toString = .ok false))

def foundAt? (o : SourceOptions) (t : FileTree) (directory : Path) (place file : Place) : Option SourceFile :=
  (FileTree.below? entersDirectory place file).bind fun relative => ofPath? o t (directory.join ⟨0, relative⟩)

theorem found_eq {place : Place} (h : t.locate ((Path.ofString project).join (Path.ofString p)) = .ok place) :
    found o t project p =
      t.files.filterMap fun f => foundAt? o t ((Path.ofString project).join (Path.ofString p)) place f.1 := by
  rw [found, pathsBelow, FileTree.filesBelow_eq h, List.filterMap_map, List.filterMap_filterMap, List.filterMap_map]
  rfl

theorem found_eq_nil {e : ReadError} (h : t.locate ((Path.ofString project).join (Path.ofString p)) = .error e) :
    found o t project p = [] := by
  rw [found, pathsBelow, FileTree.filesBelow_eq_nil h]
  rfl

theorem filterMap_filter_changed {g : Place → Option SourceFile} {fs : List (Place × String)}
    (h : ∀ f ∈ fs, f.1 ∈ changed → g f.1 = none) :
    (fs.filterMap fun f => g f.1) = (fs.filter fun f => f.1 ∉ changed).filterMap fun f => g f.1 := by
  rw [List.filterMap_filter]
  apply List.filterMap_congr
  intro f hf
  by_cases hc : f.1 ∈ changed
  · simp [hc, h f hf hc]
  · simp [hc]

theorem foundAt?_out_of_scope {place q : Place} (ht' : ∀ f ∈ t'.files, ".." ∉ f.1)
    (hlocate : t'.locate ((Path.ofString project).join (Path.ofString p)) = .ok place) (hp : p ∈ o.sourcePaths)
    (hq : (t'.fileAt? q).isSome) (hout : OutOfScope o t' project q) :
    foundAt? o t ((Path.ofString project).join (Path.ofString p)) place q = none := by
  rw [foundAt?, Option.bind_eq_none_iff]
  intro relative hbelow
  obtain ⟨rfl, hne, hentered⟩ := FileTree.below?_eq_some_iff.mp hbelow
  obtain ⟨text, htext⟩ := Option.isSome_iff_exists.mp hq
  have hmem := FileTree.mem_files_of_fileAt? htext
  have hnames : ∀ part ∈ relative, part ≠ ".." := by
    rintro part hpart rfl
    exact ht' _ hmem (List.mem_append_right _ hpart)
  have hpath : ((Path.ofString project).join (Path.ofString p)).join ⟨0, relative⟩ ∈ pathsBelow t' project p :=
    List.mem_map_of_mem (FileTree.mem_filesBelow.mpr ⟨place, text, hlocate, hmem, hne, hentered⟩)
  have hcontains := hout p hp _ hpath (FileTree.locate_join hlocate hnames)
  rw [ofPath?, holds, hcontains]
  rfl

theorem foundAt?_congr {place q : Place} (h : t.ChangedAt changed t') (ht : ∀ f ∈ t.files, ".." ∉ f.1)
    {directory : Path} (hlocate : t.locate directory = .ok place) {text : String} (hmem : (q, text) ∈ t.files)
    (hq : q ∉ changed) : foundAt? o t' directory place q = foundAt? o t directory place q := by
  rw [foundAt?, foundAt?]
  apply Option.bind_congr
  intro relative hbelow
  obtain ⟨rfl, _, _⟩ := FileTree.below?_eq_some_iff.mp hbelow
  have hnames : ∀ part ∈ relative, part ≠ ".." := by
    rintro part hpart rfl
    exact ht _ hmem (List.mem_append_right _ hpart)
  have hlocate' := FileTree.locate_join hlocate hnames
  obtain ⟨content, hfile⟩ := FileTree.exists_fileAt? hmem
  have hread := FileTree.read_of_fileAt? hlocate' hfile
  have hread' := h.read hread fun found hfound => by
    cases hlocate'.symm.trans hfound
    exact hq
  rw [ofPath?, ofPath?, hread, hread']

theorem found_of_changedAt (h : t.ChangedAt changed t') (ht : ∀ f ∈ t.files, ".." ∉ f.1)
    (ht' : ∀ f ∈ t'.files, ".." ∉ f.1) (hp : p ∈ o.sourcePaths)
    (hleads : ∀ place, t'.locate ((Path.ofString project).join (Path.ofString p)) = .ok place →
      t.locate ((Path.ofString project).join (Path.ofString p)) = .ok place)
    (hchanged : ∀ q ∈ changed, (t'.fileAt? q).isSome ∧ OutOfScope o t' project q) :
    found o t' project p = found o t project p := by
  cases hlocate : t'.locate ((Path.ofString project).join (Path.ofString p)) with
  | error e' =>
    cases hbefore : t.locate ((Path.ofString project).join (Path.ofString p)) with
    | error e => rw [found_eq_nil hlocate, found_eq_nil hbefore]
    | ok place => cases (h.locate hbefore).symm.trans hlocate
  | ok place =>
    have hbefore := hleads place hlocate
    have hnone (s : FileTree) (q : Place) (hq : q ∈ changed) :
        foundAt? o s ((Path.ofString project).join (Path.ofString p)) place q = none :=
      foundAt?_out_of_scope ht' hlocate hp (hchanged q hq).1 (hchanged q hq).2
    rw [found_eq hlocate, found_eq hbefore, filterMap_filter_changed fun f _ hf => hnone t' f.1 hf,
      filterMap_filter_changed fun f _ hf => hnone t f.1 hf, h.files]
    apply List.filterMap_congr
    intro f hf
    obtain ⟨hmem, hkept⟩ := List.mem_filter.mp hf
    exact foundAt?_congr h ht hbefore hmem (by simpa using hkept)

theorem mem_pathsBelow_of_changedAt (h : t.ChangedAt changed t') (ht' : ∀ f ∈ t'.files, ".." ∉ f.1)
    (hleads : ∀ place, t'.locate ((Path.ofString project).join (Path.ofString p)) = .ok place →
      t.locate ((Path.ofString project).join (Path.ofString p)) = .ok place)
    {path : Path} (hpath : path ∈ pathsBelow t' project p) :
    path ∈ pathsBelow t project p ∨ ∃ q ∈ changed, t'.locate path = .ok q := by
  obtain ⟨relative, hrelative, rfl⟩ := List.mem_map.mp hpath
  obtain ⟨place, text, hlocate, hmem, hne, hentered⟩ := FileTree.mem_filesBelow.mp hrelative
  by_cases hq : place ++ relative ∈ changed
  · refine .inr ⟨_, hq, FileTree.locate_join hlocate ?_⟩
    rintro part hpart rfl
    exact ht' _ hmem (List.mem_append_right _ hpart)
  · refine .inl (List.mem_map_of_mem (FileTree.mem_filesBelow.mpr ?_))
    exact ⟨place, text, hleads place hlocate, (h.mem_files hq).mp hmem, hne, hentered⟩

theorem readAll_of_changedAt (h : t.ChangedAt changed t') (ht : ∀ f ∈ t.files, ".." ∉ f.1)
    (ht' : ∀ f ∈ t'.files, ".." ∉ f.1) (hproject : o.projectRoot = some project)
    (hleads : ∀ p ∈ o.sourcePaths, ∀ place, t'.locate ((Path.ofString project).join (Path.ofString p)) = .ok place →
      t.locate ((Path.ofString project).join (Path.ofString p)) = .ok place)
    (hchanged : ∀ q ∈ changed, (t'.fileAt? q).isSome ∧ OutOfScope o t' project q) {fs : List SourceFile}
    (hread : (readAll o t channel).outcome = .ok fs) : (readAll o t' channel).outcome = .ok fs := by
  have htested (p : String) (hp : p ∈ o.sourcePaths) (path : Path) (hpath : path ∈ pathsBelow t project p) :
      ∃ b, o.contains path.toString = .ok b :=
    contains_of_readAll hproject hread hp hpath
  have htested' (p : String) (hp : p ∈ o.sourcePaths) (path : Path) (hpath : path ∈ pathsBelow t' project p) :
      ∃ b, o.contains path.toString = .ok b := by
    rcases mem_pathsBelow_of_changedAt h ht' (hleads p hp) hpath with hpath | ⟨q, hq, hlocate⟩
    · exact htested p hp path hpath
    · exact ⟨false, (hchanged q hq).2 p hp path hpath hlocate⟩
  have hfound : o.sourcePaths.flatMap (found o t' project) = o.sourcePaths.flatMap (found o t project) :=
    List.flatMap_congr fun p hp => found_of_changedAt h ht ht' hp (hleads p hp) hchanged
  rw [readAll_outcome_of_mem ht' hproject htested', hfound, ← readAll_outcome_of_mem ht hproject htested, hread]

end SourceFile

end ApiCatalog
