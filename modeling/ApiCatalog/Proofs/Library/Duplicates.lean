import Mathlib.Data.List.Nodup
import ApiCatalog.Proofs.Analysis.Batch
import ApiCatalog.Proofs.Library.Closed
import ApiCatalog.Proofs.Link.Merge

namespace ApiCatalog

/-! Names in the order in which they first occur -/

theorem idxOf_lt_of_filter {c : String → Bool} {ts : List String} {a b : String} (ha : c a) (hb : c b)
    (h : (ts.filter c).idxOf a < (ts.filter c).idxOf b) : ts.idxOf a < ts.idxOf b := by
  induction ts with
  | nil => exact h
  | cons t ts ih =>
    by_cases hat : t = a
    · subst hat
      have hne : t ≠ b := by
        rintro rfl
        exact absurd h (Nat.lt_irrefl _)
      rw [List.idxOf_cons_self, List.idxOf_cons_ne _ hne]
      exact Nat.succ_pos _
    · have hbt : t ≠ b := by
        rintro rfl
        rw [List.filter_cons_of_pos hb, List.idxOf_cons_self] at h
        exact absurd h (Nat.not_lt_zero _)
      rw [List.idxOf_cons_ne _ hat, List.idxOf_cons_ne _ hbt]
      refine Nat.succ_lt_succ (ih ?_)
      by_cases hct : c t
      · rw [List.filter_cons_of_pos hct, List.idxOf_cons_ne _ hat, List.idxOf_cons_ne _ hbt] at h
        exact Nat.lt_of_succ_lt_succ h
      · rw [List.filter_cons_of_neg hct] at h
        exact h

theorem eraseDups_pairwise (ts : List String) : ts.eraseDups.Pairwise fun a b => ts.idxOf a < ts.idxOf b := by
  induction h : ts.length using Nat.strongRecOn generalizing ts with
  | ind n ih =>
    cases ts with
    | nil => exact .nil
    | cons t ts =>
      have hlen := List.length_filter_le (fun b => !b == t) ts
      have hother {b : String} (hb : b ∈ (ts.filter fun b => !b == t).eraseDups) : t ≠ b := by
        rintro rfl
        simp at hb
      rw [List.eraseDups_cons, List.pairwise_cons]
      constructor
      · intro b hb
        rw [List.idxOf_cons_self, List.idxOf_cons_ne _ (hother hb)]
        exact Nat.succ_pos _
      · refine (ih _ (by simp only [List.length_cons] at h; omega) _ rfl).imp_of_mem ?_
        intro a b ha hb hlt
        rw [List.idxOf_cons_ne _ (hother ha), List.idxOf_cons_ne _ (hother hb)]
        refine Nat.succ_lt_succ (idxOf_lt_of_filter ?_ ?_ hlt)
        · simpa using (hother ha).symm
        · simpa using (hother hb).symm

namespace Library

variable {l : Library} {name : String} {os : List Occurrence}

def names (l : Library) : List String :=
  l.modules.flatMap fun m => m.declarations.map Declaration.name

def occurrencesOf (l : Library) (name : String) : List Occurrence :=
  l.modules.flatMap fun m => (m.declarations.filter fun d => d.name == name).map fun d => ⟨d, m.path⟩

theorem map_name_occurrences (l : Library) : (l.occurrences.map fun o => o.declaration.name) = l.names := by
  rw [occurrences, names, List.map_flatMap]
  simp only [List.map_map]
  rfl

theorem filter_occurrences (l : Library) (name : String) :
    (l.occurrences.filter fun o => o.declaration.name == name) = l.occurrencesOf name := by
  rw [occurrences, occurrencesOf, List.filter_flatMap]
  simp only [List.filter_map]
  rfl

theorem duplicates_eq (l : Library) : l.duplicates =
    (l.names.eraseDups.filter fun name => 1 < (l.occurrencesOf name).length).map fun name =>
      (name, l.occurrencesOf name) := by
  simp only [duplicates, map_name_occurrences, filter_occurrences]
  induction l.names.eraseDups with
  | nil => rfl
  | cons name rest ih =>
    by_cases h : 1 < (l.occurrencesOf name).length <;> simp [h, ih]

theorem mem_occurrencesOf {x : Occurrence} :
    x ∈ l.occurrencesOf name ↔ ∃ m ∈ l.modules, x.declaration ∈ m.declarations ∧ x.declaration.name = name ∧
      x.module = m.path := by
  rw [occurrencesOf, List.mem_flatMap]
  refine exists_congr fun m => and_congr_right fun _ => ?_
  rw [List.mem_map]
  constructor
  · rintro ⟨d, hd, rfl⟩
    obtain ⟨hd, hname⟩ := List.mem_filter.mp hd
    exact ⟨hd, by simpa using hname, rfl⟩
  · rintro ⟨hd, hname, hmodule⟩
    exact ⟨x.declaration, List.mem_filter.mpr ⟨hd, by simpa using hname⟩, by rw [← hmodule]⟩

theorem mem_duplicates : (name, os) ∈ l.duplicates ↔ os = l.occurrencesOf name ∧ 2 ≤ os.length := by
  rw [duplicates_eq, List.mem_map]
  constructor
  · rintro ⟨name', hname, heq⟩
    cases heq
    exact ⟨rfl, of_decide_eq_true (List.mem_filter.mp hname).2⟩
  · rintro ⟨rfl, hlen⟩
    obtain ⟨x, hx⟩ := List.exists_mem_of_length_pos (Nat.lt_of_lt_of_le Nat.two_pos hlen)
    obtain ⟨m, hm, hd, hname, _⟩ := mem_occurrencesOf.mp hx
    refine ⟨name, List.mem_filter.mpr ⟨List.mem_eraseDups.mpr ?_, decide_eq_true hlen⟩, rfl⟩
    exact List.mem_flatMap.mpr ⟨m, hm, hname ▸ List.mem_map_of_mem hd⟩

theorem duplicates_pairwise (l : Library) :
    (l.duplicates.map Prod.fst).Pairwise fun a b => l.names.idxOf a < l.names.idxOf b := by
  rw [duplicates_eq, List.map_map]
  change (List.map id _).Pairwise _
  rw [List.map_id]
  exact (eraseDups_pairwise l.names).filter _

end Library

/-! Modules of a run -/

section Modules

variable {p : Program} {o : SourceOptions} {channel : Channel} {package : Package} {fs : List SourceFile}
  {ms : List Module} {m : Module} {name : String}

def DistinctNames (m : Module) : Prop :=
  (m.declarations.map Declaration.name).Nodup

theorem names_nodup_of_extract {g : IndexedFile} {path : String} {x : Code.Extracted}
    (h : (extract p o g path).outcome = .ok x) : (x.declarations.map Declaration.name).Nodup := by
  rw [extract] at h
  split at h
  · rw [Run.outcome_ofNoted, Except.ok.injEq] at h
    rw [← h]
    exact (List.nodup_append.mp Code.analyzeCode_distinct.1).1
  · obtain ⟨d, comment, rfl, _⟩ := analyze_eq_ok h
    exact List.nodup_singleton _

theorem distinctNames_of_mem (hms : (analyzeFiles p o channel fs).outcome = .ok ms) (hm : m ∈ ms) :
    DistinctNames m := by
  obtain ⟨rs, hrs, hpure⟩ := Run.outcome_bind_eq_ok.mp hms
  cases hpure
  obtain ⟨r, hr, hrm⟩ := List.mem_filterMap.mp hm
  obtain rfl : r = some m := hrm
  rw [Run.results_of_mapM hrs] at hr
  obtain ⟨f, _, hf⟩ := List.mem_filterMap.mp hr
  obtain ⟨_, hnone⟩ | ⟨g, m', _, hm', _, hextract⟩ := analyzeFile_eq_ok (Run.outcome_of_toOption hf)
  · cases hnone
  · cases hm'
    exact names_nodup_of_extract hextract

theorem distinctPaths_of_collected {project : String} {files : List SourceFile} {channel' : Channel}
    (hproject : o.projectRoot = some project) (hcollect : (SourceFile.collect o channel' files).outcome = .ok fs)
    (hids : (fs.map SourceFile.id).Nodup) (hms : (analyzeFiles p o channel fs).outcome = .ok ms) :
    Link.DistinctPaths ms := by
  refine distinctPaths_of_analyzeFiles ?_ hms
  rw [List.Nodup, List.pairwise_map]
  refine (List.pairwise_map.mp hids).imp_of_mem ?_
  intro f g hf hg hne heq
  obtain ⟨_, hcf⟩ := SourceFile.mem_of_mem_collect hcollect hf
  obtain ⟨_, hcg⟩ := SourceFile.mem_of_mem_collect hcollect hg
  exact hne (SourceOptions.modulePath_injOn hproject hcf hcg heq)

theorem libraryOf_perm_merged (package : Package) (ms : List Module) :
    (libraryOf package ms).modules.Perm (mergeLinks (Links.ofModules ms) ms) :=
  List.mergeSort_perm _ _

/-- A module with this path has a declaration of the name. Members of a declaration and names that are passed on do
not count. -/
def Declares (ms : List Module) (path name : String) : Prop :=
  ∃ m ∈ ms, m.path = path ∧ ∃ d ∈ m.declarations, d.name = name

instance {path : String} : Decidable (Declares ms path name) :=
  inferInstanceAs (Decidable (∃ m ∈ ms, m.path = path ∧ ∃ d ∈ m.declarations, d.name = name))

def Clash (ms : List Module) : Prop :=
  ∃ name path path', path ≠ path' ∧ Declares ms path name ∧ Declares ms path' name

theorem declares_libraryOf {path : String} :
    Declares (libraryOf package ms).modules path name ↔ Declares ms path name := by
  constructor
  · rintro ⟨m, hm, hpath, d, hd, hname⟩
    obtain ⟨m', hm', rfl⟩ := List.mem_map.mp ((libraryOf_perm_merged package ms).mem_iff.mp hm)
    obtain ⟨d', hd', rfl⟩ := List.mem_map.mp hd
    exact ⟨m', hm', hpath, d', hd', (withExporters_name _ _ _).symm.trans hname⟩
  · rintro ⟨m, hm, hpath, d, hd, hname⟩
    refine ⟨_, (libraryOf_perm_merged package ms).mem_iff.mpr (List.mem_map_of_mem hm), hpath, _,
      List.mem_map_of_mem hd, ?_⟩
    rw [withExporters_name, hname]

theorem clash_libraryOf : Clash (libraryOf package ms).modules ↔ Clash ms := by
  simp only [Clash, declares_libraryOf]

theorem distinct_libraryOf (hnames : ∀ m ∈ ms, DistinctNames m) (hpaths : Link.DistinctPaths ms) :
    (∀ m ∈ (libraryOf package ms).modules, DistinctNames m) ∧
      Link.DistinctPaths (libraryOf package ms).modules := by
  have hperm := libraryOf_perm_merged package ms
  constructor
  · intro m hm
    obtain ⟨m', hm', rfl⟩ := List.mem_map.mp (hperm.mem_iff.mp hm)
    have hsame : (m'.declarations.map (Declaration.withExporters (Links.ofModules ms) m'.path)).map
        Declaration.name = m'.declarations.map Declaration.name := by
      rw [List.map_map]
      exact List.map_congr_left fun d _ => withExporters_name _ _ d
    rw [DistinctNames, hsame]
    exact hnames m' hm'
  · rw [Link.DistinctPaths, (hperm.map Module.path).nodup_iff, mergeLinks_paths]
    exact hpaths

theorem modules_nodup_of_distinct {l : Library} (hnames : ∀ m ∈ l.modules, DistinctNames m)
    (hpaths : Link.DistinctPaths l.modules) : ((l.occurrencesOf name).map Occurrence.module).Nodup := by
  have hmap : (l.occurrencesOf name).map Occurrence.module =
      l.modules.flatMap fun m => (m.declarations.filter fun d => d.name == name).map fun _ => m.path := by
    rw [Library.occurrencesOf, List.map_flatMap]
    simp only [List.map_map]
    rfl
  rw [hmap, List.nodup_flatMap]
  constructor
  · intro m hm
    -- At most one declaration of the module has the name.
    rw [List.Nodup, List.pairwise_map]
    refine ((List.pairwise_map.mp (hnames m hm)).filter _).imp_of_mem ?_
    intro d d' hd hd' hne _
    have hd : d.name = name := by simpa using (List.mem_filter.mp hd).2
    have hd' : d'.name = name := by simpa using (List.mem_filter.mp hd').2
    exact hne (hd.trans hd'.symm)
  · refine (List.pairwise_map.mp hpaths).imp ?_
    intro m m' hne x hx hx'
    obtain ⟨_, _, rfl⟩ := List.mem_map.mp hx
    obtain ⟨_, _, hpath⟩ := List.mem_map.mp hx'
    exact hne hpath.symm

theorem duplicates_ne_nil_iff {l : Library} (hnames : ∀ m ∈ l.modules, DistinctNames m)
    (hpaths : Link.DistinctPaths l.modules) :
    l.duplicates ≠ [] ↔ Clash l.modules := by
  constructor
  · intro hne
    obtain ⟨⟨name, os⟩, hmem⟩ := List.exists_mem_of_ne_nil _ hne
    obtain ⟨rfl, hlen⟩ := Library.mem_duplicates.mp hmem
    have hnodup := @modules_nodup_of_distinct name l hnames hpaths
    have hdeclares (x : Occurrence) (hx : x ∈ l.occurrencesOf name) : Declares l.modules x.module name := by
      obtain ⟨m, hm, hd, hname, hmodule⟩ := Library.mem_occurrencesOf.mp hx
      exact ⟨m, hm, hmodule.symm, _, hd, hname⟩
    match hos : l.occurrencesOf name with
    | [] => rw [hos] at hlen; cases hlen
    | [_] => rw [hos] at hlen; simp at hlen
    | x :: y :: rest =>
      rw [hos] at hnodup hdeclares
      refine ⟨name, x.module, y.module, ?_, hdeclares x (by simp), hdeclares y (by simp)⟩
      intro heq
      simp [heq] at hnodup
  · rintro ⟨name, path, path', hne, ⟨m, hm, rfl, d, hd, hname⟩, ⟨m', hm', rfl, d', hd', hname'⟩⟩ hnil
    have hx : (⟨d, m.path⟩ : Occurrence) ∈ l.occurrencesOf name :=
      Library.mem_occurrencesOf.mpr ⟨m, hm, hd, hname, rfl⟩
    have hy : (⟨d', m'.path⟩ : Occurrence) ∈ l.occurrencesOf name :=
      Library.mem_occurrencesOf.mpr ⟨m', hm', hd', hname', rfl⟩
    have hlen : 2 ≤ (l.occurrencesOf name).length := by
      match hos : l.occurrencesOf name with
      | [] => rw [hos] at hx; cases hx
      | [z] =>
        rw [hos] at hx hy
        have heq := (List.mem_singleton.mp hx).trans (List.mem_singleton.mp hy).symm
        exact absurd (congrArg Occurrence.module heq) hne
      | _ :: _ :: _ => simp
    have hmem := Library.mem_duplicates.mpr ⟨rfl, hlen⟩
    rw [hnil] at hmem
    cases hmem

end Modules

/-! The check in a run -/

section Strict

variable {program : Program} {o : SourceOptions} {package : Package} {s : GenerateSettings} {fs : List SourceFile}
  {ms : List Module}

theorem checkDuplicates_eq_error {l : Library} {e : Failure} (hstrict : s.duplicates = some .fail) :
    (checkDuplicates s l).outcome = .error e ↔ l.duplicates ≠ [] ∧ e = .duplicates l.duplicates.length := by
  simp only [checkDuplicates, hstrict, DuplicatePolicy.apply]
  cases hd : l.duplicates with
  | nil => exact ⟨fun h => (by cases h), fun h => absurd rfl h.1⟩
  | cons d ds =>
    have hthrow : (DuplicatePolicy.fail.apply s.channel (d :: ds)).outcome =
        .error (.duplicates (d :: ds).length) := rfl
    change (DuplicatePolicy.fail.apply s.channel (d :: ds)).outcome = _ ↔ _
    rw [hthrow, Except.error.injEq]
    exact ⟨fun h => ⟨List.cons_ne_nil d ds, h.symm⟩, fun h => h.2.symm⟩

theorem finish_eq_error {noted : List Diagnostic} {e : Failure} :
    (finish package o s noted ms).outcome = .error e ↔
      (checkDuplicates s (libraryOf package ms)).outcome = .error e := by
  cases hc : (checkDuplicates s (libraryOf package ms)).outcome with
  | ok u =>
    rw [(finish_of_ok hc).1]
    exact ⟨nofun, nofun⟩
  | error e' =>
    have hfinish : (finish package o s noted ms).outcome = .error e' := by
      rw [finish]
      refine Run.outcome_bind_eq_error.mpr (.inr ⟨Links.ofModules ms, rfl, ?_⟩)
      exact Run.outcome_bind_eq_error.mpr (.inl hc)
    rw [hfinish, Except.error.injEq, Except.error.injEq]

theorem library_of_finish {noted : List Diagnostic} {r : GenerateResult}
    (h : (finish package o s noted ms).outcome = .ok r) : r.library = libraryOf package ms := by
  obtain ⟨_, hlinks, h⟩ := Run.outcome_bind_eq_ok.mp h
  cases hlinks
  obtain ⟨_, _, h⟩ := Run.outcome_bind_eq_ok.mp h
  cases h
  rfl

theorem analyzeFiles_ne_duplicates {n : Nat} :
    (analyzeFiles program o s.channel fs).outcome ≠ .error (.duplicates n) := by
  intro h
  rcases Run.outcome_bind_eq_error.mp h with h | ⟨_, _, hpure⟩
  · obtain ⟨_, f, _, _, _, hf, _⟩ := Run.mapM_of_error h
    obtain ⟨_, _, ⟨_, hoptions, _⟩ | ⟨⟨_, hfile, _⟩, _⟩⟩ := analyzeFile_eq_error hf
    · cases hoptions
    · cases hfile
  · cases hpure

theorem generateFrom_eq_duplicates {n : Nat} (hstrict : s.duplicates = some .fail) :
    (generateFrom program fs package o s).outcome = .error (.duplicates n) ↔
      ∃ ms, (analyzeFiles program o s.channel fs).outcome = .ok ms ∧
        (libraryOf package ms).duplicates ≠ [] ∧ n = (libraryOf package ms).duplicates.length := by
  rw [generateFrom_eq, Run.outcome_bind_eq_error, or_iff_right analyzeFiles_ne_duplicates]
  simp only [finish_eq_error, checkDuplicates_eq_error hstrict, Failure.duplicates.injEq]

theorem duplicates_exact :
    (∀ l : Library,
      (∀ name os, (name, os) ∈ l.duplicates ↔ os = l.occurrencesOf name ∧ 2 ≤ os.length) ∧
      (l.duplicates.map Prod.fst).Pairwise fun a b => l.names.idxOf a < l.names.idxOf b) ∧
    ∀ (project : String) (o : SourceOptions) (channel : Channel) (files fs : List SourceFile),
      o.projectRoot = some project → (SourceFile.collect o channel files).outcome = .ok fs →
      (fs.map SourceFile.id).Nodup → ∀ (package : Package) (s : GenerateSettings),
        (generateLibrary fs package o s).outcome = (generateFrom (programOf o s fs) fs package o s).outcome ∧
        ∀ program : Program,
          (∀ ms, (analyzeFiles program o s.channel fs).outcome = .ok ms →
            (∀ r, (generateFrom program fs package o s).outcome = .ok r → r.library = libraryOf package ms) ∧
            ∀ name os, (name, os) ∈ (libraryOf package ms).duplicates → (os.map Occurrence.module).Nodup) ∧
          (s.duplicates = some .fail →
            ((∃ n, (generateFrom program fs package o s).outcome = .error (.duplicates n)) ↔
              ∃ ms, (analyzeFiles program o s.channel fs).outcome = .ok ms ∧ Clash ms)) := by
  refine ⟨fun l => ⟨fun _ _ => Library.mem_duplicates, l.duplicates_pairwise⟩, ?_⟩
  intro project o channel files fs hproject hcollect hids package s
  refine ⟨rfl, fun program => ?_⟩
  have hdistinct {ms : List Module} (hms : (analyzeFiles program o s.channel fs).outcome = .ok ms) :=
    @distinct_libraryOf package ms (fun m hm => distinctNames_of_mem hms hm)
      (distinctPaths_of_collected hproject hcollect hids hms)
  constructor
  · intro ms hms
    obtain ⟨hnames, hpaths⟩ := hdistinct hms
    constructor
    · intro r hr
      rw [generateFrom_eq] at hr
      obtain ⟨ms', hms', hfinish⟩ := Run.outcome_bind_eq_ok.mp hr
      cases hms.symm.trans hms'
      exact library_of_finish hfinish
    · intro name os hos
      rw [(Library.mem_duplicates.mp hos).1]
      exact modules_nodup_of_distinct hnames hpaths
  · intro hstrict
    simp only [generateFrom_eq_duplicates hstrict]
    constructor
    · rintro ⟨_, ms, hms, hne, _⟩
      obtain ⟨hnames, hpaths⟩ := hdistinct hms
      exact ⟨ms, hms, clash_libraryOf.mp ((duplicates_ne_nil_iff hnames hpaths).mp hne)⟩
    · rintro ⟨ms, hms, hclash⟩
      obtain ⟨hnames, hpaths⟩ := hdistinct hms
      exact ⟨_, ms, hms, (duplicates_ne_nil_iff hnames hpaths).mpr (clash_libraryOf.mpr hclash), rfl⟩

def clashingFiles : List SourceFile :=
  reExportingFiles "export const one = 2;"

theorem duplicates_exact_clashingFiles :
    (SourceFile.collect anchored .sources clashingFiles).outcome = .ok clashingFiles ∧
      (clashingFiles.map SourceFile.id).Nodup ∧
      ∃ n, (generateLibrary clashingFiles { name := "lib", version := "1" } anchored
        { duplicates := some .fail }).outcome = .error (.duplicates n) := by
  have hcollect : (SourceFile.collect anchored .sources clashingFiles).outcome = .ok clashingFiles :=
    collect_reExportingFiles _
  have hids : (clashingFiles.map SourceFile.id).Nodup := by decide
  have hboth : (analyzeFiles (programOf anchored {} clashingFiles) anchored .library clashingFiles).outcome.toOption.any
      (fun ms => Declares ms "index.ts" "one" ∧ Declares ms "math.ts" "one") := by decide +kernel
  obtain ⟨ms, hms, hdeclares⟩ := Option.any_eq_true _ _ |>.mp hboth
  obtain ⟨hindex, hmath⟩ := of_decide_eq_true hdeclares
  obtain ⟨heq, hrun⟩ := duplicates_exact.2 "/p" anchored .sources _ _ rfl hcollect hids
    { name := "lib", version := "1" } { duplicates := some .fail }
  refine ⟨hcollect, hids, ?_⟩
  rw [heq]
  exact ((hrun _).2 rfl).mpr
    ⟨ms, Run.outcome_of_toOption hms, "one", "index.ts", "math.ts", by decide, hindex, hmath⟩

end Strict

end ApiCatalog
