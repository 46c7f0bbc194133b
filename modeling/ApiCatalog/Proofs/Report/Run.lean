import Mathlib.Data.List.Forall2
import ApiCatalog.Report.Failure

namespace ApiCatalog

theorem Noted.ext {α : Type} {x y : Noted α} (hv : x.value = y.value) (hd : x.diagnostics = y.diagnostics)
    (hl : x.log = y.log) : x = y := by
  cases x
  cases y
  simp_all

instance : LawfulMonad Noted :=
  LawfulMonad.mk' Noted
    (fun x => Noted.ext rfl (List.append_nil _) (List.append_nil _))
    (fun _ _ => rfl)
    (fun x f g => Noted.ext rfl (List.append_assoc ..) (List.append_assoc ..))

namespace Run

variable {α β : Type}

def outcome (x : Run α) : Except Failure α :=
  x.run.value

def diagnostics (x : Run α) : List Diagnostic :=
  x.run.diagnostics

def Fails (x : Run α) : Prop :=
  ∃ e, x.outcome = .error e

@[simp] theorem outcome_ofNoted (x : Noted α) : (ofNoted x).outcome = .ok x.value := rfl

@[simp] theorem outcome_write (l : Level) (c : Channel) (t : String) :
    (write l c t).outcome = .ok () := rfl

@[simp] theorem diagnostics_pure (a : α) : (pure a : Run α).diagnostics = [] := rfl

@[simp] theorem diagnostics_ofNoted (x : Noted α) : (ofNoted x).diagnostics = x.diagnostics := by
  simp [diagnostics, ofNoted, ExceptT.run_lift, Functor.map]

theorem run_bind (x : Run α) (f : α → Run β) : (x >>= f).run = x.run >>= ExceptT.bindCont f := rfl

@[simp] theorem outcome_bind (x : Run α) (f : α → Run β) :
    (x >>= f).outcome = x.outcome >>= fun a => (f a).outcome := by
  rw [outcome, run_bind, Noted.value_bind, ← outcome]
  cases x.outcome <;> rfl

theorem outcome_bind_eq_ok {x : Run α} {f : α → Run β} {b : β} :
    (x >>= f).outcome = .ok b ↔ ∃ a, x.outcome = .ok a ∧ (f a).outcome = .ok b := by
  rw [outcome_bind]
  cases x.outcome with
  | error e => constructor <;> [intro h; rintro ⟨a, h, _⟩] <;> cases h
  | ok a => exact ⟨fun h => ⟨a, rfl, h⟩, fun ⟨_, h, hb⟩ => by cases h; exact hb⟩

theorem diagnostics_bind_of_ok {x : Run α} {a : α} (f : α → Run β) (h : x.outcome = .ok a) :
    (x >>= f).diagnostics = x.diagnostics ++ (f a).diagnostics := by
  rw [diagnostics, run_bind, Noted.diagnostics_bind, ← outcome, h]
  rfl

theorem outcome_bind_eq_error {x : Run α} {f : α → Run β} {e : Failure} :
    (x >>= f).outcome = .error e ↔
      x.outcome = .error e ∨ ∃ a, x.outcome = .ok a ∧ (f a).outcome = .error e := by
  rw [outcome_bind]
  cases x.outcome with
  | error e' =>
    constructor
    · intro h
      cases h
      exact .inl rfl
    · rintro (h | ⟨_, h, _⟩) <;> cases h
      rfl
  | ok a =>
    constructor
    · exact fun h => .inr ⟨a, rfl, h⟩
    · rintro (h | ⟨_, h, he⟩) <;> cases h
      exact he

theorem diagnostics_bind_of_error {x : Run α} {e : Failure} (f : α → Run β) (h : x.outcome = .error e) :
    (x >>= f).diagnostics = x.diagnostics := by
  rw [diagnostics, run_bind, Noted.diagnostics_bind, ← outcome, h]
  exact List.append_nil _

theorem fails_bind {x : Run α} (f : α → Run β) (h : x.Fails) : (x >>= f).Fails := by
  obtain ⟨e, he⟩ := h
  exact ⟨e, by rw [outcome_bind, he]; rfl⟩

theorem fails_bind_of_ok {x : Run α} {a : α} {f : α → Run β} (h : x.outcome = .ok a) (hf : (f a).Fails) :
    (x >>= f).Fails := by
  obtain ⟨e, he⟩ := hf
  exact ⟨e, by rw [outcome_bind, h]; exact he⟩

@[simp] theorem outcome_ofOptions (x : Except OptionsError α) :
    (ofOptions x).outcome = x.mapError .options := by
  cases x <;> rfl

/-! Runs over lists -/

theorem not_fails_iff {x : Run α} : ¬ x.Fails ↔ ∃ a, x.outcome = .ok a := by
  cases h : x.outcome <;> simp [Fails, h]

theorem outcome_of_toOption {x : Run α} {a : α} (h : x.outcome.toOption = some a) : x.outcome = .ok a := by
  cases hx : x.outcome with
  | error e => rw [hx] at h; cases h
  | ok b => rw [hx] at h; cases h; rfl

theorem outcome_of_isSome {x : Run α} (h : x.outcome.toOption.isSome) : ∃ a, x.outcome = .ok a := by
  obtain ⟨a, ha⟩ := Option.isSome_iff_exists.mp h
  exact ⟨a, outcome_of_toOption ha⟩

def failure? (x : Run α) : Option Failure :=
  match x.outcome with
  | .ok _ => none
  | .error e => some e

theorem outcome_of_failure? {x : Run α} {e : Failure} (h : x.failure? = some e) : x.outcome = .error e := by
  rw [failure?] at h
  cases hx : x.outcome with
  | ok a => rw [hx] at h; cases h
  | error e' => rw [hx] at h; cases h; rfl

def results (f : α → Run β) (as : List α) : List β :=
  as.filterMap fun a => (f a).outcome.toOption

theorem mapM_of_ok {f : α → Run β} {as : List α} (h : ∀ a ∈ as, ¬ (f a).Fails) :
    (as.mapM f).outcome = .ok (results f as) ∧
      (as.mapM f).diagnostics = as.flatMap fun a => (f a).diagnostics := by
  induction as with
  | nil => exact ⟨rfl, rfl⟩
  | cons a as ih =>
    obtain ⟨ha, has⟩ := List.forall_mem_cons.mp h
    obtain ⟨b, hb⟩ := not_fails_iff.mp ha
    obtain ⟨hout, hdiag⟩ := ih has
    rw [List.mapM_cons]
    constructor
    · have hresults : results f (a :: as) = b :: results f as := by
        simp [results, hb, Except.toOption]
      rw [outcome_bind, hb, hresults]
      change ((as.mapM f) >>= fun bs => pure (b :: bs)).outcome = _
      rw [outcome_bind, hout]
      rfl
    · rw [diagnostics_bind_of_ok _ hb, diagnostics_bind_of_ok _ hout, hdiag]
      simp

theorem mapM_outcome {f : α → Run β} {g : α → β} {as : List α} (h : ∀ a ∈ as, (f a).outcome = .ok (g a)) :
    (as.mapM f).outcome = .ok (as.map g) := by
  rw [(mapM_of_ok fun a ha => not_fails_iff.mpr ⟨g a, h a ha⟩).1, results, ← List.filterMap_eq_map]
  refine congrArg _ (List.filterMap_congr fun a ha => ?_)
  rw [h a ha]
  rfl

theorem fails_mapM {f : α → Run β} {as : List α} {a : α} (ha : a ∈ as) (h : (f a).Fails) :
    (as.mapM f).Fails := by
  induction as with
  | nil => cases ha
  | cons b as ih =>
    rw [List.mapM_cons]
    by_cases hb : (f b).Fails
    · exact fails_bind _ hb
    · obtain ⟨c, hc⟩ := not_fails_iff.mp hb
      have hmem : a ∈ as := by
        rcases List.mem_cons.mp ha with rfl | hmem
        · exact absurd h hb
        · exact hmem
      exact fails_bind_of_ok hc (fails_bind _ (ih hmem))

theorem mapM_of_error {f : α → Run β} {as : List α} {e : Failure} (h : (as.mapM f).outcome = .error e) :
    ∃ earlier a later, as = earlier ++ a :: later ∧ (∀ b ∈ earlier, ¬ (f b).Fails) ∧ (f a).outcome = .error e ∧
      (as.mapM f).diagnostics = (earlier.flatMap fun b => (f b).diagnostics) ++ (f a).diagnostics := by
  induction as with
  | nil => cases h
  | cons a as ih =>
    rw [List.mapM_cons] at h
    rcases outcome_bind_eq_error.mp h with ha | ⟨b, hb, h⟩
    · refine ⟨[], a, as, rfl, nofun, ha, ?_⟩
      rw [List.mapM_cons, diagnostics_bind_of_error _ ha]
      rfl
    · have has : (as.mapM f).outcome = .error e := by
        rcases outcome_bind_eq_error.mp h with has | ⟨_, _, hpure⟩
        · exact has
        · cases hpure
      obtain ⟨earlier, c, later, rfl, hearlier, hc, hdiag⟩ := ih has
      refine ⟨a :: earlier, c, later, rfl, ?_, hc, ?_⟩
      · exact List.forall_mem_cons.mpr ⟨not_fails_iff.mpr ⟨b, hb⟩, hearlier⟩
      · rw [List.mapM_cons, diagnostics_bind_of_ok _ hb, diagnostics_bind_of_error _ has, hdiag,
          List.flatMap_cons, List.append_assoc]

theorem not_fails_of_mapM {f : α → Run β} {as : List α} {bs : List β} (h : (as.mapM f).outcome = .ok bs) :
    ∀ a ∈ as, ¬ (f a).Fails := by
  intro a ha hfails
  obtain ⟨e, he⟩ := fails_mapM ha hfails
  cases he.symm.trans h

theorem results_of_mapM {f : α → Run β} {as : List α} {bs : List β} (h : (as.mapM f).outcome = .ok bs) :
    bs = results f as := by
  have hok := (mapM_of_ok (not_fails_of_mapM h)).1
  cases h.symm.trans hok
  rfl

theorem outcome_of_mapM {f : α → Run β} {as : List α} {bs : List β} (h : (as.mapM f).outcome = .ok bs) {a : α}
    (ha : a ∈ as) : ∃ b ∈ bs, (f a).outcome = .ok b := by
  obtain ⟨b, hb⟩ := not_fails_iff.mp (not_fails_of_mapM h a ha)
  rw [results_of_mapM h]
  exact ⟨b, List.mem_filterMap.mpr ⟨a, ha, by rw [hb]; rfl⟩, hb⟩

theorem forall₂_of_mapM {f : α → Run β} {as : List α} {bs : List β} (h : (as.mapM f).outcome = .ok bs) :
    List.Forall₂ (fun a b => (f a).outcome = .ok b) as bs := by
  induction as generalizing bs with
  | nil =>
    cases h
    exact .nil
  | cons a as ih =>
    rw [List.mapM_cons] at h
    obtain ⟨b, hb, h⟩ := outcome_bind_eq_ok.mp h
    obtain ⟨bs', hbs, h⟩ := outcome_bind_eq_ok.mp h
    cases h
    exact .cons hb (ih hbs)

theorem mapM_perm (f : α → Run β) {as as' : List α} (h : as.Perm as') :
    ((as.mapM f).Fails ∧ (as'.mapM f).Fails) ∨
      ((as.mapM f).outcome = .ok (results f as) ∧ (as'.mapM f).outcome = .ok (results f as') ∧
        (as.mapM f).diagnostics.Perm (as'.mapM f).diagnostics) := by
  by_cases hall : ∀ a ∈ as, ¬ (f a).Fails
  · obtain ⟨hout, hdiag⟩ := mapM_of_ok hall
    obtain ⟨hout', hdiag'⟩ := mapM_of_ok fun a ha => hall a (h.mem_iff.mpr ha)
    refine .inr ⟨hout, hout', ?_⟩
    rw [hdiag, hdiag']
    exact h.flatMap_right _
  · push Not at hall
    obtain ⟨a, ha, hf⟩ := hall
    exact .inl ⟨fails_mapM ha hf, fails_mapM (h.mem_iff.mp ha) hf⟩

end Run

end ApiCatalog
