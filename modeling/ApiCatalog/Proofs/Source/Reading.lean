import ApiCatalog.Proofs.Source.Collect
import ApiCatalog.Proofs.Source.PathText
import ApiCatalog.Source.Read

namespace ApiCatalog

/-! Options that are accepted -/

namespace SourceOptions

variable {o : SourceOptions} {project path p : String}

theorem validate_eq_ok (h : o.validate = .ok ()) :
    (∀ p ∈ o.sourcePaths, checkRelative "source_paths entry" p = .ok ()) ∧ o.sourcePaths ≠ [] ∧
      checkRoot o.sourcePaths o.sourceRoot = .ok () := by
  obtain ⟨_, _, h⟩ := bind_eq_ok.mp h
  by_cases hempty : o.sourcePaths.isEmpty
  · simp only [hempty, if_true] at h
    cases h
  · simp only [hempty] at h
    obtain ⟨_, hpaths, hroot⟩ := bind_eq_ok.mp h
    exact ⟨forM_eq_ok hpaths, by simpa using hempty, hroot⟩

theorem isWithin_of_validate (h : o.validate = .ok ()) :
    ∃ root, o.effectiveRoot = .ok root ∧ ∀ p ∈ o.sourcePaths, isWithin root p := by
  obtain ⟨_, hne, hroot⟩ := validate_eq_ok h
  cases hsource : o.sourceRoot with
  | none =>
    rw [hsource, checkRoot] at hroot
    split at hroot
    · cases hroot
    · case isFalse hlength =>
      obtain ⟨path, rest, hpaths⟩ := List.exists_cons_of_ne_nil hne
      have hrest : rest = [] := by simpa [hpaths] using hlength
      refine ⟨path, by rw [effectiveRoot, hsource, hpaths, hrest], fun p hp => ?_⟩
      rw [hpaths, hrest, List.mem_singleton] at hp
      simp [isWithin, hp]
  | some root =>
    rw [hsource] at hroot
    obtain ⟨_, _, hroot⟩ := bind_eq_ok.mp hroot
    refine ⟨root, by rw [effectiveRoot, hsource], fun p hp => ?_⟩
    cases hfind : o.sourcePaths.find? fun p => !isWithin root p with
    | some q => simp only [hfind] at hroot; cases hroot
    | none => simpa using List.find?_eq_none.mp hfind p hp

theorem slashes_of_checkRelative {label : String} (h : checkRelative label path = .ok ()) :
    (Path.ofString path).slashes = 0 := by
  have hstart : Text.startsWith "/" path = false := by
    rw [checkRelative] at h
    split at h
    · cases h
    · split at h
      · cases h
      · case isFalse hstart => simpa using hstart
  change Path.leadingSlashes path.toList = 0
  rw [Text.startsWith] at hstart
  cases hpath : path.toList with
  | nil => rfl
  | cons c cs =>
    have hc : c ≠ '/' := by
      rintro rfl
      rw [hpath] at hstart
      simp at hstart
    rw [Path.leadingSlashes]
    all_goals
      intro _ he
      exact hc (List.cons.inj he).1

structure Readable (o : SourceOptions) (project : String) : Prop where
  accepted : o.validate = .ok ()
  project_eq : o.projectRoot = some project
  project_plain : Path.IsPlain project
  paths_plain : ∀ p ∈ o.sourcePaths, Path.IsPlain p
  patterns : ∀ text ∈ o.excludePatterns, (o.search text).isSome

theorem Readable.slashes (h : o.Readable project) (hp : p ∈ o.sourcePaths) : (Path.ofString p).slashes = 0 :=
  slashes_of_checkRelative ((validate_eq_ok h.accepted).1 p hp)

end SourceOptions

/-! File trees -/

namespace FileTree

variable {t : FileTree} {directory : Path} {place relative : Place} {text : String} {enters : String → Bool}

structure WellFormed (t : FileTree) : Prop where
  nodup : (t.files.map Prod.fst).Nodup
  part_ne : ∀ f ∈ t.files, ∀ part ∈ f.1, part ≠ "" ∧ part ≠ ".."
  noSlash : ∀ f ∈ t.files, ∀ part ∈ f.1, '/' ∉ part.toList

theorem follow_append (done : Place) (a b : List String) :
    t.follow done (a ++ b) = t.follow done a >>= fun place => t.follow place b := by
  induction a generalizing done with
  | nil => rfl
  | cons part a ih =>
    simp only [List.cons_append, follow]
    split
    · exact ih _
    · split
      · exact ih _
      · rfl

theorem follow_of_names (done : Place) {names : List String} (h : ∀ part ∈ names, part ≠ "..") :
    t.follow done names = .ok (done ++ names) := by
  induction names generalizing done with
  | nil => rw [List.append_nil]; rfl
  | cons part names ih =>
    obtain ⟨hpart, hnames⟩ := List.forall_mem_cons.mp h
    rw [follow, if_pos (by simpa using hpart), ih _ hnames, List.append_assoc]
    rfl

theorem locate_join (hlocate : t.locate directory = .ok place) (h : ∀ part ∈ relative, part ≠ "..") :
    t.locate (directory.join ⟨0, relative⟩) = .ok (place ++ relative) := by
  change t.follow [] (directory.parts ++ relative) = _
  rw [follow_append, show t.follow [] directory.parts = .ok place from hlocate]
  exact follow_of_names place h

theorem exists_fileAt? (h : (place, text) ∈ t.files) : ∃ content, t.fileAt? place = some content := by
  cases hfile : t.fileAt? place with
  | none =>
    have hbeq := List.lookup_eq_none_iff.mp hfile _ h
    simp at hbeq
  | some content => exact ⟨content, rfl⟩

theorem mem_files_of_fileAt? (h : t.fileAt? place = some text) : (place, text) ∈ t.files := by
  obtain ⟨before, after, hfiles, _⟩ := List.lookup_eq_some_iff.mp h
  rw [hfiles]
  exact List.mem_append_right _ List.mem_cons_self

theorem read_of_fileAt? {p : Path} (hlocate : t.locate p = .ok place) (hfile : t.fileAt? place = some text) :
    t.read p = .ok (String.ofList (Text.readLineEnds text.toList)) := by
  simp only [read, hlocate, hfile, bind, Except.bind]
  rfl

theorem read_join (ht : t.WellFormed) (hlocate : t.locate directory = .ok place)
    (hmem : (place ++ relative, text) ∈ t.files) :
    t.read (directory.join ⟨0, relative⟩) = .ok (String.ofList (Text.readLineEnds text.toList)) := by
  have hnames : ∀ part ∈ relative, part ≠ ".." :=
    fun part hpart => (ht.part_ne _ hmem part (List.mem_append_right _ hpart)).2
  have hfile : t.fileAt? (place ++ relative) = some text :=
    lookup_of_unique hmem fun text' hmem' =>
      congrArg Prod.snd (List.inj_on_of_nodup_map ht.nodup hmem' hmem rfl)
  exact read_of_fileAt? (locate_join hlocate hnames) hfile

def below? (enters : String → Bool) (place file : Place) : Option Place :=
  let relative := file.drop place.length
  if place.isPrefixOf file && !relative.isEmpty && relative.dropLast.all enters then some relative else none

theorem below?_eq_some_iff {file : Place} : below? enters place file = some relative ↔
    file = place ++ relative ∧ relative ≠ [] ∧ relative.dropLast.all enters := by
  simp only [below?, Option.ite_none_right_eq_some, Bool.and_eq_true, List.isPrefixOf_iff_prefix, Option.some.injEq]
  constructor
  · rintro ⟨⟨⟨⟨rest, rfl⟩, hne⟩, hall⟩, rfl⟩
    rw [List.drop_left] at hne hall ⊢
    exact ⟨rfl, by simpa using hne, hall⟩
  · rintro ⟨rfl, hne, hall⟩
    simp [hne, hall]

theorem filesBelow_eq (hlocate : t.locate directory = .ok place) :
    t.filesBelow enters directory = (t.files.map Prod.fst).filterMap (below? enters place) := by
  rw [filesBelow, hlocate, List.filterMap_map]
  rfl

theorem filesBelow_eq_nil {e : ReadError} (hlocate : t.locate directory = .error e) :
    t.filesBelow enters directory = [] := by
  rw [filesBelow, hlocate]

theorem mem_filesBelow : relative ∈ t.filesBelow enters directory ↔
    ∃ place text, t.locate directory = .ok place ∧ (place ++ relative, text) ∈ t.files ∧ relative ≠ [] ∧
      relative.dropLast.all enters := by
  cases hlocate : t.locate directory with
  | error e =>
    rw [filesBelow_eq_nil hlocate]
    exact ⟨nofun, fun ⟨_, _, h, _⟩ => nomatch h⟩
  | ok place =>
    rw [filesBelow_eq hlocate, List.mem_filterMap]
    constructor
    · rintro ⟨file, hfile, hbelow⟩
      obtain ⟨rfl, hne, hall⟩ := below?_eq_some_iff.mp hbelow
      obtain ⟨⟨_, text⟩, hmem, rfl⟩ := List.mem_map.mp hfile
      exact ⟨place, text, rfl, hmem, hne, hall⟩
    · rintro ⟨_, text, hplace, hmem, hne, hall⟩
      cases hplace
      exact ⟨_, List.mem_map_of_mem hmem, below?_eq_some_iff.mpr ⟨rfl, hne, hall⟩⟩

theorem filesBelow_nodup (ht : t.WellFormed) : (t.filesBelow enters directory).Nodup := by
  cases hlocate : t.locate directory with
  | error e =>
    rw [filesBelow_eq_nil hlocate]
    exact List.nodup_nil
  | ok place =>
    rw [filesBelow_eq hlocate]
    refine ht.nodup.filterMap fun file file' relative h h' => ?_
    rw [(below?_eq_some_iff.mp h).1, (below?_eq_some_iff.mp h').1]

theorem isDirectory_of_mem (h : relative ∈ t.filesBelow enters directory) : t.isDirectory directory := by
  obtain ⟨place, text, hlocate, hmem, hne, _⟩ := mem_filesBelow.mp h
  rw [isDirectory, hlocate]
  simp only [isDirectoryAt, Bool.or_eq_true, List.any_eq_true]
  refine .inr ⟨_, hmem, ?_⟩
  simp [hne]

def Beneath (t : FileTree) (project sourcePath : String) (f : SourceFile) : Prop :=
  ∃ place relative text, t.locate ((Path.ofString project).join (Path.ofString sourcePath)) = .ok place ∧
    (place ++ relative, text) ∈ t.files ∧ relative ≠ [] ∧ (∀ d ∈ relative.dropLast, d ∉ skippedDirectories) ∧
    f = {
      id := project ++ "/" ++ (sourcePath ++ "/" ++ "/".intercalate relative)
      content := some (String.ofList (Text.readLineEnds text.toList)) }

end FileTree

/-! Reading -/

namespace SourceFile

variable {o : SourceOptions} {t : FileTree} {channel : Channel} {project p : String} {f : SourceFile}

def pathsBelow (t : FileTree) (project sourcePath : String) : List Path :=
  let directory := (Path.ofString project).join (Path.ofString sourcePath)
  (t.filesBelow entersDirectory directory).map fun r => directory.join ⟨0, r⟩

def ofPath? (o : SourceOptions) (t : FileTree) (path : Path) : Option SourceFile :=
  if holds o.contains path.toString then some { id := path.toString, content := (t.read path).toOption } else none

def found (o : SourceOptions) (t : FileTree) (project sourcePath : String) : List SourceFile :=
  (pathsBelow t project sourcePath).filterMap (ofPath? o t)

theorem readOne?_eq_ok {path : Path} {content : String} (hread : t.read path = .ok content)
    (hcontains : ∃ b, o.contains path.toString = .ok b) : readOne? o t path = .ok (ofPath? o t path) := by
  obtain ⟨b, hb⟩ := hcontains
  rw [readOne?, ofPath?, holds, hb, hread]
  cases b <;> rfl

theorem exists_read_of_mem {path : Path} (ht : ∀ f ∈ t.files, ".." ∉ f.1) (hpath : path ∈ pathsBelow t project p) :
    ∃ content, t.read path = .ok content := by
  obtain ⟨relative, hrelative, rfl⟩ := List.mem_map.mp hpath
  obtain ⟨place, text, hlocate, hmem, _⟩ := FileTree.mem_filesBelow.mp hrelative
  have hnames : ∀ part ∈ relative, part ≠ ".." := by
    rintro part hpart rfl
    exact ht _ hmem (List.mem_append_right _ hpart)
  obtain ⟨content, hfile⟩ := FileTree.exists_fileAt? hmem
  exact ⟨_, FileTree.read_of_fileAt? (FileTree.locate_join hlocate hnames) hfile⟩

theorem readPath_outcome (ht : ∀ f ∈ t.files, ".." ∉ f.1)
    (hcontains : ∀ path ∈ pathsBelow t project p, ∃ b, o.contains path.toString = .ok b) :
    (readPath o t channel (Path.ofString project) p).outcome = .ok (found o t project p) := by
  simp only [readPath]
  split
  · have hpaths : (pathsBelow t project p).mapM (readOne? o t) = .ok ((pathsBelow t project p).map (ofPath? o t)) := by
      refine mapM_eq_ok fun path hpath => ?_
      obtain ⟨content, hread⟩ := exists_read_of_mem ht hpath
      exact readOne?_eq_ok hread (hcontains path hpath)
    change (Run.ofOptions ((pathsBelow t project p).mapM (readOne? o t)) >>= _).outcome = _
    rw [Run.outcome_bind, hpaths]
    change Except.ok (((pathsBelow t project p).map (ofPath? o t)).filterMap fun f => f) = _
    rw [List.filterMap_map]
    rfl
  · case isFalse hdirectory =>
    -- Where there is a file below, there is a directory.
    have hnone : t.filesBelow entersDirectory ((Path.ofString project).join (Path.ofString p)) = [] :=
      List.eq_nil_iff_forall_not_mem.mpr fun relative h => hdirectory (FileTree.isDirectory_of_mem h)
    rw [found, pathsBelow, hnone]
    rfl

theorem contains_of_readPath {path : Path} {fs : List SourceFile}
    (h : (readPath o t channel (Path.ofString project) p).outcome = .ok fs) (hpath : path ∈ pathsBelow t project p) :
    ∃ b, o.contains path.toString = .ok b := by
  obtain ⟨relative, hrelative, hjoin⟩ := List.mem_map.mp hpath
  rw [readPath, if_pos (FileTree.isDirectory_of_mem hrelative)] at h
  obtain ⟨read, hread, _⟩ := Run.outcome_bind_eq_ok.mp h
  rw [Run.outcome_ofOptions] at hread
  cases hmapM : (pathsBelow t project p).mapM (readOne? o t) with
  | error e =>
    rw [pathsBelow] at hmapM
    rw [hmapM] at hread
    cases hread
  | ok read =>
    obtain ⟨_, hone⟩ := ok_of_mapM hmapM hpath
    obtain ⟨b, hb, _⟩ := bind_eq_ok.mp hone
    exact ⟨b, hb⟩

theorem contains_of_readAll {path : Path} {fs : List SourceFile} (hproject : o.projectRoot = some project)
    (h : (readAll o t channel).outcome = .ok fs) (hp : p ∈ o.sourcePaths) (hpath : path ∈ pathsBelow t project p) :
    ∃ b, o.contains path.toString = .ok b := by
  rw [readAll, hproject] at h
  obtain ⟨_, hfound, _⟩ := Run.outcome_bind_eq_ok.mp h
  obtain ⟨_, _, hread⟩ := Run.outcome_of_mapM hfound hp
  exact contains_of_readPath hread hpath

theorem contains_of_found (hf : f ∈ found o t project p) : o.contains f.id = .ok true := by
  obtain ⟨path, _, hpath⟩ := List.mem_filterMap.mp hf
  obtain ⟨hholds, hf⟩ := Option.ite_none_right_eq_some.mp hpath
  cases hf
  exact holds_iff.mp hholds

theorem readAll_outcome_of_mem (ht : ∀ f ∈ t.files, ".." ∉ f.1) (hproject : o.projectRoot = some project)
    (hcontains : ∀ p ∈ o.sourcePaths, ∀ path ∈ pathsBelow t project p, ∃ b, o.contains path.toString = .ok b) :
    (readAll o t channel).outcome = (collect o channel (o.sourcePaths.flatMap (found o t project))).outcome := by
  have hread : (o.sourcePaths.mapM (readPath o t channel (Path.ofString project))).outcome =
      .ok (o.sourcePaths.map (found o t project)) :=
    Run.mapM_outcome fun p hp => readPath_outcome ht (hcontains p hp)
  rw [readAll, hproject]
  change (o.sourcePaths.mapM (readPath o t channel (Path.ofString project)) >>= _).outcome = _
  rw [Run.outcome_bind, hread]
  rfl

theorem readAll_outcome (ht : t.WellFormed) (hproject : o.projectRoot = some project)
    (hcontains : ∀ path, ∃ b, o.contains path = .ok b) :
    (readAll o t channel).outcome = (collect o channel (o.sourcePaths.flatMap (found o t project))).outcome :=
  readAll_outcome_of_mem (fun f hf hdots => (ht.part_ne f hf _ hdots).2 rfl) hproject
    fun _ _ path _ => hcontains path.toString

theorem exists_readAll (ht : t.WellFormed) (hproject : o.projectRoot = some project) {root : String}
    (hroot : o.effectiveRoot = .ok root) (hcontains : ∀ path, ∃ b, o.contains path = .ok b) :
    ∃ fs, (readAll o t channel).outcome = .ok fs ∧ fs.Perm (o.sourcePaths.flatMap (found o t project)) ∧
      fs.Pairwise fun f g => (keyOf o f).le (keyOf o g) := by
  have hok : ∃ fs, (collect o channel (o.sourcePaths.flatMap (found o t project))).outcome = .ok fs := by
    rw [collect_outcome fun f _ => hcontains f.id, hroot]
    split <;> exact ⟨_, rfl⟩
  obtain ⟨fs, hfs⟩ := hok
  have hall : ∀ f ∈ o.sourcePaths.flatMap (found o t project), o.contains f.id = .ok true := by
    intro f hf
    obtain ⟨p, _, hf⟩ := List.mem_flatMap.mp hf
    exact contains_of_found hf
  refine ⟨fs, (readAll_outcome ht hproject hcontains).trans hfs, ?_, collect_sorted hfs⟩
  have hperm := collect_perm_chosen hfs
  rwa [chosen_eq_self hall] at hperm

/-! Ids -/

section Ids

variable {place relative : Place} {text : String} {path : Path} {g : SourceFile} {q : String}

theorem proper_relative (ht : t.WellFormed) (hmem : (place ++ relative, text) ∈ t.files) (hne : relative ≠ []) :
    (Path.mk 0 relative).Proper where
  parts_ne := hne
  part_ne part hpart := (ht.part_ne _ hmem part (List.mem_append_right _ hpart)).1
  noSlash part hpart := ht.noSlash _ hmem part (List.mem_append_right _ hpart)

theorem proper_directory (h : o.Readable project) (hp : p ∈ o.sourcePaths) :
    ((Path.ofString project).join (Path.ofString p)).Proper :=
  (Path.proper_ofString h.project_plain.2).join (Path.proper_ofString (h.paths_plain p hp).2) (h.slashes hp)

theorem toString_below (h : o.Readable project) (hp : p ∈ o.sourcePaths) (hrelative : (Path.mk 0 relative).Proper) :
    (((Path.ofString project).join (Path.ofString p)).join ⟨0, relative⟩).toString =
      project ++ "/" ++ (p ++ "/" ++ "/".intercalate relative) := by
  obtain ⟨hproject, hne⟩ := h.project_plain
  obtain ⟨hpath, hne'⟩ := h.paths_plain p hp
  rw [Path.toString_join (proper_directory h hp) hrelative rfl,
    Path.toString_join (Path.proper_ofString hne) (Path.proper_ofString hne') (h.slashes hp), hproject, hpath,
    hrelative.toString_relative rfl]
  simp only [String.append_assoc]

theorem proper_of_mem_pathsBelow (ht : t.WellFormed) (h : o.Readable project) (hp : p ∈ o.sourcePaths)
    (hpath : path ∈ pathsBelow t project p) : path.Proper ∧ path.slashes = (Path.ofString project).slashes := by
  obtain ⟨relative, hrelative, rfl⟩ := List.mem_map.mp hpath
  obtain ⟨place, text, _, hmem, hne, _⟩ := FileTree.mem_filesBelow.mp hrelative
  refine ⟨(proper_directory h hp).join (proper_relative ht hmem hne) rfl, ?_⟩
  simp [Path.join, Path.isAbsolute, h.slashes hp]

theorem beneath_iff (ht : t.WellFormed) (h : o.Readable project) (hp : p ∈ o.sourcePaths) :
    t.Beneath project p f ↔ ∃ path ∈ pathsBelow t project p,
      f = { id := path.toString, content := (t.read path).toOption } := by
  constructor
  · rintro ⟨place, relative, text, hlocate, hmem, hne, hentered, rfl⟩
    refine ⟨_, List.mem_map_of_mem (FileTree.mem_filesBelow.mpr ⟨place, text, hlocate, hmem, hne, ?_⟩), ?_⟩
    · simpa [entersDirectory] using hentered
    · rw [toString_below h hp (proper_relative ht hmem hne), FileTree.read_join ht hlocate hmem]
      rfl
  · rintro ⟨path, hpath, rfl⟩
    obtain ⟨relative, hrelative, rfl⟩ := List.mem_map.mp hpath
    obtain ⟨place, text, hlocate, hmem, hne, hentered⟩ := FileTree.mem_filesBelow.mp hrelative
    refine ⟨place, relative, text, hlocate, hmem, hne, by simpa [entersDirectory] using hentered, ?_⟩
    rw [toString_below h hp (proper_relative ht hmem hne), FileTree.read_join ht hlocate hmem]
    rfl

theorem mem_found (ht : t.WellFormed) (h : o.Readable project) (hp : p ∈ o.sourcePaths) :
    f ∈ found o t project p ↔ t.Beneath project p f ∧ o.contains f.id = .ok true := by
  rw [beneath_iff ht h hp, found, List.mem_filterMap]
  constructor
  · rintro ⟨path, hpath, hf⟩
    obtain ⟨hholds, hf⟩ := Option.ite_none_right_eq_some.mp hf
    cases hf
    exact ⟨⟨path, hpath, rfl⟩, holds_iff.mp hholds⟩
  · rintro ⟨⟨path, hpath, rfl⟩, hcontains⟩
    exact ⟨path, hpath, if_pos (holds_iff.mpr hcontains)⟩

theorem found_ids_nodup (ht : t.WellFormed) (h : o.Readable project) (hp : p ∈ o.sourcePaths) :
    ((found o t project p).map id).Nodup := by
  have hpaths : (pathsBelow t project p).Nodup := by
    refine (FileTree.filesBelow_nodup ht).map fun r r' heq => ?_
    simpa [Path.join, Path.isAbsolute] using heq
  rw [List.Nodup, List.pairwise_map, found, List.pairwise_filterMap]
  refine hpaths.imp_of_mem fun {path path'} hpath hpath' hne f hf g hg hid => hne ?_
  obtain ⟨_, hf⟩ := Option.ite_none_right_eq_some.mp hf
  obtain ⟨_, hg⟩ := Option.ite_none_right_eq_some.mp hg
  cases hf
  cases hg
  obtain ⟨hproper, hslashes⟩ := proper_of_mem_pathsBelow ht h hp hpath
  obtain ⟨hproper', hslashes'⟩ := proper_of_mem_pathsBelow ht h hp hpath'
  exact Path.eq_of_toString_eq hproper hproper' (hslashes.trans hslashes'.symm) hid

theorem eq_of_id_eq (ht : t.WellFormed) (h : o.Readable project) (hp : p ∈ o.sourcePaths) (hq : q ∈ o.sourcePaths)
    (hf : t.Beneath project p f) (hg : t.Beneath project q g) (hid : f.id = g.id) : f = g := by
  obtain ⟨path, hpath, rfl⟩ := (beneath_iff ht h hp).mp hf
  obtain ⟨path', hpath', rfl⟩ := (beneath_iff ht h hq).mp hg
  obtain ⟨hproper, hslashes⟩ := proper_of_mem_pathsBelow ht h hp hpath
  obtain ⟨hproper', hslashes'⟩ := proper_of_mem_pathsBelow ht h hq hpath'
  rw [Path.eq_of_toString_eq hproper hproper' (hslashes.trans hslashes'.symm) hid]

theorem isWithin_of_beneath (hf : t.Beneath project p f) (hg : t.Beneath project q f) :
    SourceOptions.isWithin p q ∨ SourceOptions.isWithin q p := by
  obtain ⟨_, relative, _, _, _, _, _, rfl⟩ := hf
  obtain ⟨_, relative', _, _, _, _, _, heq⟩ := hg
  have hid := congrArg (String.toList ∘ id) heq
  simp only [Function.comp_apply, String.toList_append, List.append_assoc, List.append_cancel_left_eq] at hid
  refine SourceOptions.isWithin_of_append_eq (x := "/".intercalate relative) (y := "/".intercalate relative') ?_
  rw [← String.toList_inj]
  simpa using hid

theorem contains_of_beneath (h : o.Readable project) (hp : p ∈ o.sourcePaths) (hf : t.Beneath project p f) :
    o.contains f.id = .ok true ↔ (fileKind? o.extensions f.id).isSome ∧ ¬ o.Excludes f.id := by
  obtain ⟨root, hroot, hwithin⟩ := SourceOptions.isWithin_of_validate h.accepted
  obtain ⟨b, hb, hexcludes⟩ := SourceOptions.isExcluded_of_patterns h.patterns f.id
  obtain ⟨_, relative, _, _, _, _, _, rfl⟩ := hf
  rw [SourceOptions.contains_below h.project_eq hroot hp (hwithin p hp), and_comm, hb, ← hexcludes]
  simp

end Ids

theorem sorted_paths {fs : List SourceFile} (hcontains : ∀ f ∈ fs, o.contains f.id = .ok true)
    (hsorted : fs.Pairwise fun f g => (keyOf o f).le (keyOf o g)) :
    ∃ paths : List String, (fs.map fun f => o.modulePath f.id) = paths.map .ok ∧ paths.Pairwise (· ≤ ·) := by
  refine ⟨fs.map (pathIn o), ?_, ?_⟩
  · rw [List.map_map]
    refine List.map_congr_left fun f hf => ?_
    obtain ⟨path, hpath⟩ := SourceOptions.modulePath_of_contains (hcontains f hf)
    rw [hpath, modulePath_eq_pathIn hpath]
    rfl
  · rw [List.pairwise_map]
    exact hsorted.imp fun hle => by simpa [textLE, pathIn] using Keyed.key_le hle

theorem readAll_exact (ht : t.WellFormed) (h : o.Readable project) :
    ∃ fs, (readAll o t channel).outcome = .ok fs ∧
      (∃ paths : List String, (fs.map fun f => o.modulePath f.id) = paths.map .ok ∧ paths.Pairwise (· ≤ ·)) ∧
      (∀ f, f ∈ fs ↔ (∃ p ∈ o.sourcePaths, t.Beneath project p f) ∧ (fileKind? o.extensions f.id).isSome ∧
        ¬ o.Excludes f.id) ∧
      ((fs.map id).Nodup ↔
        o.sourcePaths.Pairwise fun p q => ∀ f ∈ fs, ¬ (t.Beneath project p f ∧ t.Beneath project q f)) ∧
      ((o.sourcePaths.Pairwise fun p q => ¬ SourceOptions.isWithin p q ∧ ¬ SourceOptions.isWithin q p) →
        (fs.map id).Nodup) := by
  obtain ⟨root, hroot, _⟩ := SourceOptions.isWithin_of_validate h.accepted
  obtain ⟨fs, hfs, hperm, hsorted⟩ := @exists_readAll o t channel project ht h.project_eq root hroot
    (SourceOptions.exists_contains hroot h.patterns)
  have hmem : ∀ f, f ∈ fs ↔ ∃ p ∈ o.sourcePaths, t.Beneath project p f ∧ o.contains f.id = .ok true := by
    intro f
    rw [hperm.mem_iff, List.mem_flatMap]
    exact exists_congr fun p => and_congr_right fun hp => mem_found ht h hp
  have hcontains : ∀ f ∈ fs, o.contains f.id = .ok true := by
    intro f hf
    obtain ⟨_, _, _, hc⟩ := (hmem f).mp hf
    exact hc
  have hnodup : (fs.map id).Nodup ↔
      o.sourcePaths.Pairwise fun p q => ∀ f ∈ fs, ¬ (t.Beneath project p f ∧ t.Beneath project q f) := by
    rw [(hperm.map id).nodup_iff, List.map_flatMap, List.nodup_flatMap, and_iff_right fun p hp => found_ids_nodup ht h hp]
    refine List.Pairwise.iff_of_mem fun {p q} hp hq => ?_
    constructor
    · rintro hdisjoint f hf ⟨hbeneath, hbeneath'⟩
      have hc := hcontains f hf
      exact hdisjoint (List.mem_map_of_mem ((mem_found ht h hp).mpr ⟨hbeneath, hc⟩))
        (List.mem_map_of_mem ((mem_found ht h hq).mpr ⟨hbeneath', hc⟩))
    · -- Files of one id are one file, as the id spells the path that is read.
      intro hnone i hi hi'
      obtain ⟨f, hf, rfl⟩ := List.mem_map.mp hi
      obtain ⟨g, hg, hid⟩ := List.mem_map.mp hi'
      obtain ⟨hbeneath, hc⟩ := (mem_found ht h hp).mp hf
      obtain ⟨hbeneath', _⟩ := (mem_found ht h hq).mp hg
      rw [eq_of_id_eq ht h hq hp hbeneath' hbeneath hid] at hbeneath'
      exact hnone f ((hmem f).mpr ⟨p, hp, hbeneath, hc⟩) ⟨hbeneath, hbeneath'⟩
  refine ⟨fs, hfs, sorted_paths hcontains hsorted, fun f => ?_, hnodup, fun hapart => hnodup.mpr ?_⟩
  · rw [hmem f]
    constructor
    · rintro ⟨p, hp, hbeneath, hc⟩
      exact ⟨⟨p, hp, hbeneath⟩, (contains_of_beneath h hp hbeneath).mp hc⟩
    · rintro ⟨⟨p, hp, hbeneath⟩, hscope⟩
      exact ⟨p, hp, hbeneath, (contains_of_beneath h hp hbeneath).mpr hscope⟩
  · refine hapart.imp fun {p q} ⟨hpq, hqp⟩ f _ ⟨hbeneath, hbeneath'⟩ => ?_
    exact (isWithin_of_beneath hbeneath hbeneath').elim hpq hqp

def sourceTree : FileTree where
  files := [(["p", "src", "lib", "a.ts"], "export const a = 1;"),
    (["p", "src", "lib", "dist", "a.ts"], "export const a = 2;"),
    (["p", "src", "lib", "ui", "b.ts"], "export const b = 1;"),
    (["p", "src", "lib", "ui", "b.test.ts"], "")]

theorem wellFormed_sourceTree : sourceTree.WellFormed where
  nodup := by decide
  part_ne := by decide
  noSlash := by decide

def optionsOf (sourcePaths : List String) : SourceOptions where
  sourcePaths := sourcePaths
  sourceRoot := some "src"
  projectRoot := some "/p"

def apart : SourceOptions := optionsOf ["src/lib", "src/app"]

theorem readAll_exact_sourceTree :
    sourceTree.WellFormed ∧ apart.Readable "/p" ∧
      ∃ fs, (readAll apart sourceTree .sources).outcome = .ok fs ∧ (fs.map id).Nodup ∧
        { id := "/p/src/lib/ui/b.ts", content := some "export const b = 1;" } ∈ fs := by
  have hreadable : apart.Readable "/p" := by
    refine ⟨by decide, rfl, ⟨by decide +kernel, by decide +kernel⟩, ?_, by decide +kernel⟩
    simp only [apart, optionsOf, List.forall_mem_cons]
    exact ⟨⟨by decide +kernel, by decide +kernel⟩, ⟨by decide +kernel, by decide +kernel⟩, nofun⟩
  obtain ⟨fs, hfs, _, hmem, _, hnodup⟩ := @readAll_exact apart sourceTree .sources "/p" wellFormed_sourceTree hreadable
  refine ⟨wellFormed_sourceTree, hreadable, fs, hfs, hnodup (by decide), (hmem _).mpr ⟨?_, ?_, ?_⟩⟩
  · exact ⟨"src/lib", by decide, ["p", "src", "lib"], ["ui", "b.ts"], "export const b = 1;", by decide +kernel,
      by decide, by decide, by decide, by decide +kernel⟩
  · decide +kernel
  · rintro ⟨text, htext, q, hq, hoccurs⟩
    have hnone : (apart.search "\\.test\\.ts$").any (fun q => q "/p/src/lib/ui/b.ts") = false := by
      decide +kernel
    rw [List.mem_singleton.mp htext] at hq
    rw [hq] at hnone
    cases hnone.symm.trans hoccurs

def overlapping : SourceOptions := optionsOf ["src/lib", "src/lib/ui"]

def dotted : SourceOptions := optionsOf ["src/./lib"]

theorem readAll_overlapping_dotted :
    overlapping.validate = .ok () ∧
      ((readAll overlapping sourceTree .sources).outcome.toOption.map (List.map id)) =
        some ["/p/src/lib/a.ts", "/p/src/lib/ui/b.ts", "/p/src/lib/ui/b.ts"] ∧
      dotted.validate = .ok () ∧ (readAll dotted sourceTree .sources).outcome = .ok [] := by
  refine ⟨by decide, ?_, by decide, by decide +kernel⟩
  have hcontains := @SourceOptions.exists_contains overlapping "src" rfl (by decide +kernel)
  have hsorted := @collect_of_sorted overlapping .sources
    (overlapping.sourcePaths.flatMap (found overlapping sourceTree "/p")) (by decide +kernel) (by decide +kernel)
    (by decide +kernel)
  rw [readAll_outcome wellFormed_sourceTree rfl hcontains, hsorted]
  decide +kernel

end SourceFile

end ApiCatalog
