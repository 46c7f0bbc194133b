import ApiCatalog.Proofs.Catalog.Order
import ApiCatalog.Proofs.Report.Run
import ApiCatalog.Proofs.Source.ModulePath
import ApiCatalog.Source.File

namespace ApiCatalog

/-! Computations that may fail -/

section Except

variable {α β ε : Type}

theorem bind_eq_ok {x : Except ε α} {f : α → Except ε β} {b : β} :
    x >>= f = .ok b ↔ ∃ a, x = .ok a ∧ f a = .ok b := by
  cases x with
  | error e => exact ⟨nofun, fun ⟨_, h, _⟩ => nomatch h⟩
  | ok a => exact ⟨fun h => ⟨a, rfl, h⟩, fun ⟨_, h, hf⟩ => by cases h; exact hf⟩

theorem bind_eq_error {x : Except ε α} {f : α → Except ε β} {e : ε} :
    x >>= f = .error e ↔ x = .error e ∨ ∃ a, x = .ok a ∧ f a = .error e := by
  cases x with
  | error e' =>
    constructor
    · intro h
      cases h
      exact .inl rfl
    · rintro (h | ⟨_, h, _⟩) <;> cases h
      rfl
  | ok a =>
    constructor
    · exact fun h => .inr ⟨a, rfl, h⟩
    · rintro (h | ⟨_, h, he⟩) <;> cases h
      exact he

theorem forM_eq_ok {f : α → Except ε Unit} {as : List α} (h : as.forM f = .ok ()) : ∀ a ∈ as, f a = .ok () := by
  induction as with
  | nil => nofun
  | cons a as ih =>
    obtain ⟨_, ha, has⟩ := bind_eq_ok.mp h
    exact List.forall_mem_cons.mpr ⟨ha, ih has⟩

theorem mapM_eq_ok {f : α → Except ε β} {g : α → β} {as : List α} (h : ∀ a ∈ as, f a = .ok (g a)) :
    as.mapM f = .ok (as.map g) := by
  induction as with
  | nil => rfl
  | cons a as ih =>
    obtain ⟨ha, has⟩ := List.forall_mem_cons.mp h
    rw [List.mapM_cons, ha, ih has]
    rfl

theorem ok_of_mapM {f : α → Except ε β} {as : List α} {bs : List β} (h : as.mapM f = .ok bs) {a : α} (ha : a ∈ as) :
    ∃ b, f a = .ok b := by
  induction as generalizing bs with
  | nil => cases ha
  | cons a' as ih =>
    rw [List.mapM_cons] at h
    obtain ⟨b, hb, h⟩ := bind_eq_ok.mp h
    obtain ⟨bs', hbs, _⟩ := bind_eq_ok.mp h
    rcases List.mem_cons.mp ha with rfl | ha
    · exact ⟨b, hb⟩
    · exact ih hbs ha

theorem exists_of_mapM_error {f : α → Except ε β} {as : List α} {e : ε} (h : as.mapM f = .error e) :
    ∃ a ∈ as, f a = .error e := by
  induction as with
  | nil => cases h
  | cons a as ih =>
    rw [List.mapM_cons] at h
    rcases bind_eq_error.mp h with ha | ⟨_, _, h⟩
    · exact ⟨a, List.mem_cons_self, ha⟩
    · rcases bind_eq_error.mp h with has | ⟨_, _, hpure⟩
      · obtain ⟨b, hb, hf⟩ := ih has
        exact ⟨b, List.mem_cons_of_mem _ hb, hf⟩
      · cases hpure

end Except

section FilterM

variable {α ε : Type} {c : α → Except ε Bool} {as : List α}

def holds (c : α → Except ε Bool) (a : α) : Bool :=
  (c a).toOption.getD false

theorem holds_iff {a : α} : holds c a ↔ c a = .ok true := by
  rw [holds]
  cases c a with
  | error e => exact ⟨nofun, nofun⟩
  | ok b => exact ⟨fun h => congrArg _ h, fun h => Except.ok.inj h⟩

theorem filterAuxM_of_ok (h : ∀ a ∈ as, ∃ b, c a = .ok b) (acc : List α) :
    as.filterAuxM c acc = .ok ((as.filter (holds c)).reverse ++ acc) := by
  induction as generalizing acc with
  | nil => rfl
  | cons a as ih =>
    obtain ⟨⟨b, hb⟩, has⟩ := List.forall_mem_cons.mp h
    have hx : holds c a = b := by rw [holds, hb]; rfl
    rw [List.filterAuxM, hb]
    change as.filterAuxM c (cond b (a :: acc) acc) = _
    rw [ih has, List.filter_cons, hx]
    cases b <;> simp

theorem filterM_of_ok (h : ∀ a ∈ as, ∃ b, c a = .ok b) : as.filterM c = .ok (as.filter (holds c)) := by
  rw [List.filterM, filterAuxM_of_ok h]
  simp [bind, Except.bind, pure, Except.pure]

theorem filterAuxM_error {a : α} {e : ε} (ha : a ∈ as) (h : c a = .error e) (acc : List α) :
    ∃ e', as.filterAuxM c acc = .error e' := by
  induction as generalizing acc with
  | nil => cases ha
  | cons b as ih =>
    rw [List.filterAuxM]
    cases hb : c b with
    | error e' => exact ⟨e', rfl⟩
    | ok x =>
      have hmem : a ∈ as := by
        rcases List.mem_cons.mp ha with rfl | hmem
        · rw [h] at hb; cases hb
        · exact hmem
      exact ih hmem _

theorem filterM_error {a : α} {e : ε} (ha : a ∈ as) (h : c a = .error e) :
    ∃ e', as.filterM c = .error e' := by
  obtain ⟨e', he⟩ := filterAuxM_error ha h []
  exact ⟨e', by rw [List.filterM, he]; rfl⟩

theorem exists_of_filterM_error {e : ε} (h : as.filterM c = .error e) : ∃ a ∈ as, c a = .error e := by
  have haux (acc : List α) (h : as.filterAuxM c acc = .error e) : ∃ a ∈ as, c a = .error e := by
    clear * - h
    induction as generalizing acc with
    | nil => cases h
    | cons a as ih =>
      rw [List.filterAuxM] at h
      rcases bind_eq_error.mp h with ha | ⟨_, _, h⟩
      · exact ⟨a, List.mem_cons_self, ha⟩
      · obtain ⟨b, hb, hf⟩ := ih _ h
        exact ⟨b, List.mem_cons_of_mem _ hb, hf⟩
  rw [List.filterM] at h
  rcases bind_eq_error.mp h with h | ⟨_, _, hpure⟩
  · exact haux _ h
  · cases hpure

end FilterM

/-! Faults of options -/

namespace SourceOptions

variable {o : SourceOptions} {path : String} {e : OptionsError}

def Malformed (o : SourceOptions) (e : OptionsError) : Prop :=
  ∃ text ∈ o.excludePatterns, o.search text = none ∧ e = .malformedPattern text

theorem malformed_of_isExcluded (h : o.isExcluded path = .error e) : o.Malformed e := by
  rw [isExcluded] at h
  rw [Malformed]
  generalize o.excludePatterns = texts at h ⊢
  induction texts with
  | nil => cases h
  | cons text rest ih =>
    rw [excludedBy] at h
    split at h
    · case h_1 hnone =>
      cases h
      exact ⟨text, List.mem_cons_self, hnone, rfl⟩
    · split at h
      · cases h
      · obtain ⟨text', hmem, hbad⟩ := ih h
        exact ⟨text', List.mem_cons_of_mem _ hmem, hbad⟩

theorem effectiveRoot_of_rootOffset?_error (h : o.rootOffset? path = .error e) : o.effectiveRoot = .error e := by
  rw [rootOffset?] at h
  rcases bind_eq_error.mp h with h | ⟨root, _, h⟩
  · exact h
  · split at h <;> cases h

theorem effectiveRoot_of_modulePath_error (h : o.modulePath path = .error e) : o.effectiveRoot = .error e := by
  rw [modulePath] at h
  rcases bind_eq_error.mp h with h | ⟨offset, _, h⟩
  · exact effectiveRoot_of_rootOffset?_error h
  · split at h
    · cases h
    · rcases bind_eq_error.mp h with h | ⟨_, _, h⟩
      · exact h
      · cases h

theorem fault_of_contains (h : o.contains path = .error e) : o.Malformed e ∨ o.effectiveRoot = .error e := by
  rw [contains] at h
  rcases bind_eq_error.mp h with h | ⟨excluded, _, h⟩
  · exact .inl (malformed_of_isExcluded h)
  · split at h
    · cases h
    · rcases bind_eq_error.mp h with h | ⟨offset, _, h⟩
      · exact .inr (effectiveRoot_of_rootOffset?_error h)
      · split at h <;> cases h

end SourceOptions

theorem SourceOptions.modulePath_of_contains {o : SourceOptions} {path : String}
    (h : o.contains path = .ok true) : ∃ p, o.modulePath path = .ok p := by
  have hroot : ∃ n, o.rootOffset? path = .ok n := by
    cases hr : o.rootOffset? path with
    | ok n => exact ⟨n, rfl⟩
    | error e =>
      rw [contains, hr] at h
      cases hx : o.isExcluded path with
      | error e => rw [hx] at h; cases h
      | ok b => rw [hx] at h; cases b <;> cases h
  obtain ⟨n, hn⟩ := hroot
  cases he : o.effectiveRoot with
  | error e => rw [rootOffset?, he] at hn; cases hn
  | ok root =>
    cases n with
    | none => exact ⟨path, by rw [modulePath, hn]; rfl⟩
    | some k => exact ⟨_, by rw [modulePath, hn, he]; rfl⟩

namespace SourceFile

variable {o : SourceOptions} {channel : Channel} {files files' extra : List SourceFile}

/-! The order of files -/

theorem Keyed.le_of_ne {a b : Keyed} (h : a.key ≠ b.key) : a.le b = textLE a.key b.key := by
  simp [Keyed.le, h]

theorem Keyed.le_of_eq {a b : Keyed} (h : a.key = b.key) : a.le b = textLE a.file.id b.file.id := by
  simp [Keyed.le, h]

theorem Keyed.le_total (a b : Keyed) : a.le b || b.le a := by
  by_cases h : a.key = b.key
  · rw [le_of_eq h, le_of_eq h.symm]
    exact textLE_total _ _
  · rw [le_of_ne h, le_of_ne (Ne.symm h)]
    exact textLE_total _ _

theorem Keyed.key_le {a b : Keyed} (h : a.le b) : textLE a.key b.key := by
  by_cases hk : a.key = b.key
  · rw [hk]
    simpa using textLE_total b.key b.key
  · exact le_of_ne hk ▸ h

theorem Keyed.le_trans (a b c : Keyed) (hab : a.le b) (hbc : b.le c) : a.le c := by
  have hkeys := textLE_trans _ _ _ (key_le hab) (key_le hbc)
  by_cases hac : a.key = c.key
  · have hb : a.key = b.key := textLE_antisymm (key_le hab) (hac ▸ key_le hbc)
    rw [le_of_eq hac]
    rw [le_of_eq hb] at hab
    rw [le_of_eq (hb.symm.trans hac)] at hbc
    exact textLE_trans _ _ _ hab hbc
  · exact le_of_ne hac ▸ hkeys

theorem Keyed.id_eq {a b : Keyed} (hab : a.le b) (hba : b.le a) : a.file.id = b.file.id := by
  have hk : a.key = b.key := textLE_antisymm (key_le hab) (key_le hba)
  rw [le_of_eq hk] at hab
  rw [le_of_eq hk.symm] at hba
  exact textLE_antisymm hab hba

/-! What is collected -/

def keyOf (o : SourceOptions) (f : SourceFile) : Keyed :=
  ⟨(o.modulePath f.id).toOption.getD f.id, f⟩

def chosen (o : SourceOptions) (files : List SourceFile) : List SourceFile :=
  files.filter (holds fun f => o.contains f.id)

theorem contains_of_mem_chosen {f : SourceFile} (h : f ∈ chosen o files) : o.contains f.id = .ok true :=
  holds_iff.mp (List.mem_filter.mp h).2

theorem chosen_eq_self (h : ∀ f ∈ files, o.contains f.id = .ok true) : chosen o files = files :=
  List.filter_eq_self.mpr fun f hf => holds_iff.mpr (h f hf)

theorem mapM_keyed {fs : List SourceFile} (h : ∀ f ∈ fs, o.contains f.id = .ok true) :
    fs.mapM (keyed o) = .ok (fs.map (keyOf o)) := by
  refine mapM_eq_ok fun f hf => ?_
  obtain ⟨p, hp⟩ := SourceOptions.modulePath_of_contains (h f hf)
  rw [keyed, keyOf, hp]
  rfl

theorem collect_outcome (h : ∀ f ∈ files, ∃ b, o.contains f.id = .ok b) :
    (collect o channel files).outcome =
      if (chosen o files).isEmpty then (o.effectiveRoot.mapError .options).map fun _ => []
      else .ok ((((chosen o files).map (keyOf o)).mergeSort Keyed.le).map Keyed.file) := by
  have hchosen : (Run.ofOptions (files.filterM fun f => o.contains f.id)).outcome = .ok (chosen o files) := by
    rw [Run.outcome_ofOptions, filterM_of_ok h]
    rfl
  have hkeyed : (Run.ofOptions ((chosen o files).mapM (keyed o))).outcome =
      .ok ((chosen o files).map (keyOf o)) := by
    rw [Run.outcome_ofOptions, mapM_keyed fun f hf => contains_of_mem_chosen hf]
    rfl
  rw [collect, Run.outcome_bind, Run.outcome_write]
  change (_ >>= _ : Run (List SourceFile)).outcome = _
  rw [Run.outcome_bind, hchosen]
  change (Run.write _ _ _ >>= _ : Run (List SourceFile)).outcome = _
  rw [Run.outcome_bind, Run.outcome_write]
  split
  · change (_ >>= _ : Run (List SourceFile)).outcome = _
    rw [Run.outcome_bind, Run.outcome_ofOptions]
    cases o.effectiveRoot <;> rfl
  · change (_ >>= _ : Run (List SourceFile)).outcome = _
    rw [Run.outcome_bind, hkeyed]
    rfl

theorem collect_fails {f : SourceFile} {e : OptionsError} (hf : f ∈ files) (h : o.contains f.id = .error e) :
    (collect o channel files).Fails := by
  obtain ⟨e', he⟩ := filterM_error (c := fun f => o.contains f.id) hf h
  refine Run.fails_bind_of_ok (a := ()) rfl (Run.fails_bind _ ⟨.options e', ?_⟩)
  rw [Run.outcome_ofOptions, he]
  rfl

theorem chosen_append_of_out {fs : List SourceFile} (h : ∀ f ∈ extra, o.contains f.id = .ok false) :
    chosen o (fs ++ extra) = chosen o fs := by
  have hnil : extra.filter (holds fun f => o.contains f.id) = [] := by
    refine List.filter_eq_nil_iff.mpr fun f hf => ?_
    rw [holds, h f hf]
    exact Bool.false_ne_true
  rw [chosen, List.filter_append, hnil, List.append_nil, chosen]

theorem sort_chosen_perm (hids : (files.map id).Nodup) (h : (chosen o files).Perm (chosen o files')) :
    ((chosen o files).map (keyOf o)).mergeSort Keyed.le =
      ((chosen o files').map (keyOf o)).mergeSort Keyed.le := by
  apply mergeSort_eq_of_perm Keyed.le_trans Keyed.le_total (h.map _)
  intro a ha b hb hab hba
  obtain ⟨f, hf, rfl⟩ := List.mem_map.mp ha
  obtain ⟨g, hg, rfl⟩ := List.mem_map.mp hb
  have hfg : f = g :=
    List.inj_on_of_nodup_map hids (List.mem_of_mem_filter hf) (List.mem_of_mem_filter hg)
      (Keyed.id_eq hab hba)
  rw [hfg]

theorem collect_perm (hids : (files.map id).Nodup) (hextra : ∀ f ∈ extra, o.contains f.id = .ok false)
    (h : files'.Perm (files ++ extra)) :
    ((collect o channel files).Fails ∧ (collect o channel files').Fails) ∨
      ∃ fs, (collect o channel files).outcome = .ok fs ∧ (collect o channel files').outcome = .ok fs := by
  by_cases hok : ∀ f ∈ files, ∃ b, o.contains f.id = .ok b
  · have hok' : ∀ f ∈ files', ∃ b, o.contains f.id = .ok b := by
      intro f hf
      rcases List.mem_append.mp (h.mem_iff.mp hf) with hf | hf
      · exact hok f hf
      · exact ⟨false, hextra f hf⟩
    have hchosen : (chosen o files).Perm (chosen o files') := by
      have hout : chosen o (files ++ extra) = chosen o files := chosen_append_of_out hextra
      rw [← hout]
      exact (h.filter _).symm
    have hempty : (chosen o files').isEmpty = (chosen o files).isEmpty := by
      rw [Bool.eq_iff_iff, List.isEmpty_iff, List.isEmpty_iff]
      exact ⟨fun he => (he ▸ hchosen).eq_nil, fun he => (he ▸ hchosen.symm).eq_nil⟩
    have hsame : (collect o channel files').outcome = (collect o channel files).outcome := by
      rw [collect_outcome hok, collect_outcome hok', hempty, sort_chosen_perm hids hchosen]
    cases hx : (collect o channel files).outcome with
    | error e => exact .inl ⟨⟨e, hx⟩, ⟨e, hsame.trans hx⟩⟩
    | ok fs => exact .inr ⟨fs, rfl, hsame.trans hx⟩
  · push Not at hok
    obtain ⟨f, hf, hne⟩ := hok
    cases he : o.contains f.id with
    | ok b => exact absurd he (hne b)
    | error e =>
      exact .inl ⟨collect_fails hf he, collect_fails (h.mem_iff.mpr (List.mem_append_left _ hf)) he⟩

theorem collect_of_contains (hne : files ≠ []) (h : ∀ f ∈ files, o.contains f.id = .ok true) :
    ∃ fs, (collect o channel files).outcome = .ok fs ∧ fs.Perm files := by
  have hall : chosen o files = files := chosen_eq_self h
  have hsome : (chosen o files).isEmpty = false := by
    rw [hall]
    simpa using hne
  refine ⟨_, by rw [collect_outcome fun f hf => ⟨true, h f hf⟩, hsome, if_neg Bool.false_ne_true], ?_⟩
  have hfile : ((chosen o files).map (keyOf o)).map Keyed.file = files := by
    rw [hall, List.map_map]
    exact List.map_id files
  exact ((List.mergeSort_perm _ _).map Keyed.file).trans (.of_eq hfile)

/-! Collected files are in the order of their module paths. -/

section Sorted

variable {fs : List SourceFile} {project : String}

def pathIn (o : SourceOptions) (f : SourceFile) : String :=
  (keyOf o f).key

theorem modulePath_eq_pathIn {f : SourceFile} {p : String} (h : o.modulePath f.id = .ok p) : p = pathIn o f := by
  rw [pathIn, keyOf, h]
  rfl

theorem collect_eq_ok (h : (collect o channel files).outcome = .ok fs) :
    fs = (((chosen o files).map (keyOf o)).mergeSort Keyed.le).map Keyed.file := by
  have hall : ∀ f ∈ files, ∃ b, o.contains f.id = .ok b := by
    intro f hf
    cases hc : o.contains f.id with
    | ok b => exact ⟨b, rfl⟩
    | error e =>
      obtain ⟨e', he⟩ := @collect_fails o channel files f e hf hc
      cases he.symm.trans h
  rw [collect_outcome hall] at h
  split at h
  · case isTrue hempty =>
    rw [List.isEmpty_iff.mp hempty, List.map_nil, List.mergeSort_nil, List.map_nil]
    cases hroot : o.effectiveRoot <;> rw [hroot] at h <;> cases h
    rfl
  · cases h
    rfl

theorem collect_of_sorted (hne : files ≠ []) (hc : ∀ f ∈ files, o.contains f.id = .ok true)
    (hsorted : files.Pairwise fun f g => (keyOf o f).le (keyOf o g)) :
    (collect o channel files).outcome = .ok files := by
  obtain ⟨fs, hfs, _⟩ := @collect_of_contains o channel files hne hc
  rw [hfs, collect_eq_ok hfs, chosen_eq_self hc, List.mergeSort_of_pairwise (List.pairwise_map.mpr hsorted), List.map_map]
  exact congrArg _ (List.map_id files)

theorem collect_perm_chosen (h : (collect o channel files).outcome = .ok fs) : fs.Perm (chosen o files) := by
  rw [collect_eq_ok h]
  refine ((List.mergeSort_perm _ _).map _).trans (.of_eq ?_)
  rw [List.map_map]
  exact List.map_id _

theorem mem_of_mem_collect (h : (collect o channel files).outcome = .ok fs) {f : SourceFile} (hf : f ∈ fs) :
    f ∈ files ∧ o.contains f.id = .ok true := by
  have hmem := (collect_perm_chosen h).mem_iff.mp hf
  exact ⟨List.mem_of_mem_filter hmem, contains_of_mem_chosen hmem⟩

theorem collect_sorted (h : (collect o channel files).outcome = .ok fs) :
    fs.Pairwise fun f g => (keyOf o f).le (keyOf o g) := by
  have hkeyed : ∀ k ∈ ((chosen o files).map (keyOf o)).mergeSort Keyed.le, k = keyOf o k.file := by
    intro k hk
    obtain ⟨f, _, rfl⟩ := List.mem_map.mp (List.mem_mergeSort.mp hk)
    rfl
  rw [collect_eq_ok h, List.pairwise_map]
  refine (List.pairwise_mergeSort Keyed.le_trans Keyed.le_total _).imp_of_mem ?_
  intro k k' hk hk' hle
  rw [← hkeyed k hk, ← hkeyed k' hk']
  exact hle

theorem collect_ids_nodup (h : (collect o channel files).outcome = .ok fs) (hids : (files.map id).Nodup) :
    (fs.map id).Nodup :=
  ((collect_perm_chosen h).map id).nodup_iff.mpr (hids.sublist (List.filter_sublist.map id))

theorem collect_paths_lt (h : (collect o channel files).outcome = .ok fs) (hids : (files.map id).Nodup)
    (hproject : o.projectRoot = some project) : (fs.map (pathIn o)).Pairwise (· < ·) := by
  rw [List.pairwise_map]
  have hne := List.pairwise_map.mp (collect_ids_nodup h hids)
  refine ((collect_sorted h).and hne).imp_of_mem ?_
  rintro f g hf hg ⟨hle, hid⟩
  have hkeys : (keyOf o f).key ≤ (keyOf o g).key := by simpa [textLE] using Keyed.key_le hle
  rw [← String.not_le]
  intro hge
  have hkey := String.le_antisymm hkeys hge
  obtain ⟨_, hcf⟩ := mem_of_mem_collect h hf
  obtain ⟨_, hcg⟩ := mem_of_mem_collect h hg
  obtain ⟨p, hp⟩ := SourceOptions.modulePath_of_contains hcf
  obtain ⟨q, hq⟩ := SourceOptions.modulePath_of_contains hcg
  refine hid (SourceOptions.modulePath_injOn hproject hcf hcg ?_)
  rw [hp, hq, modulePath_eq_pathIn hp, modulePath_eq_pathIn hq, pathIn, pathIn, hkey]

end Sorted

end SourceFile

end ApiCatalog
