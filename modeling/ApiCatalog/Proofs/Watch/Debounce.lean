import Mathlib.Order.Monotone.Basic
import ApiCatalog.Proofs.Report.Run
import ApiCatalog.Watch.Basic

namespace ApiCatalog.Watch

/-- What can happen to a watcher. Any timer may expire at any time, however often and however late. -/
inductive Step where
  | schedule (path : String)
  | flush
  | cancel
  | prime (output : String)
  | expire (timer : Nat)

namespace Watcher

variable (w : Watcher)

def step (s : State) : Step → State
  | .schedule path => ((schedule w s path).outcome.toOption.map Prod.fst).getD s
  | .flush => (flush w s).value
  | .cancel => s.cancel
  | .prime output => s.prime output
  | .expire t => (expire w s t).value

def Accepts : Step → Prop
  | .schedule path => w.accepts path = .ok true
  | _ => False

end Watcher

def State.Clears (s : State) : Step → Prop
  | .flush | .cancel => True
  | .expire t => s.timer = some t
  | _ => False

def State.Due (s : State) : Step → Prop
  | .flush => s.pending
  | .expire t => s.timer = some t
  | _ => False

section Steps

variable {w : Watcher} {s : State} {path : String}

theorem schedule_of_refused (h : w.accepts path = .ok false) : (schedule w s path).outcome = .ok (s, false) := by
  rw [schedule, h]
  rfl

theorem step_of_accepted (h : w.accepts path = .ok true) : w.step s (.schedule path) = s.start := by
  rw [Watcher.step, schedule, h]
  rfl

theorem step_of_not_accepted (h : w.accepts path ≠ .ok true) : w.step s (.schedule path) = s := by
  rw [Watcher.step]
  cases ha : w.accepts path with
  | error e =>
    rw [schedule, ha]
    rfl
  | ok accepted =>
    cases accepted with
    | true => exact absurd ha h
    | false =>
      rw [schedule_of_refused ha]
      rfl

theorem regenerate_keeps (w : Watcher) (s : State) :
    (regenerate w s).value.timer = s.timer ∧ (regenerate w s).value.started = s.started ∧
      (regenerate w s).value.calls = s.calls + 1 := by
  rw [regenerate]
  split
  · exact ⟨rfl, rfl, rfl⟩
  · split <;> exact ⟨rfl, rfl, rfl⟩

theorem step_of_due (st : Step) (h : s.Due st) : w.step s st = (regenerate w s.cancel).value := by
  cases st with
  | flush => rw [Watcher.step, flush, if_pos (show s.pending = true from h)]
  | expire t => rw [Watcher.step, expire, if_pos (show s.timer = some t from h)]
  | schedule path => exact h.elim
  | cancel => exact h.elim
  | prime output => exact h.elim

theorem step_flush_of_not_pending (h : ¬ s.pending) : w.step s .flush = s := by
  rw [Watcher.step, flush, if_neg h]
  rfl

theorem step_expire_of_ne {t : Nat} (h : s.timer ≠ some t) : w.step s (.expire t) = s := by
  rw [Watcher.step, expire, if_neg h]
  rfl

theorem timer_step (w : Watcher) (s : State) (st : Step) :
    (w.Accepts st ∧ ¬ s.Clears st ∧ (w.step s st).timer = some s.started ∧
        (w.step s st).started = s.started + 1) ∨
      (¬ w.Accepts st ∧ s.Clears st ∧ (w.step s st).timer = none ∧ (w.step s st).started = s.started) ∨
      (¬ w.Accepts st ∧ ¬ s.Clears st ∧ (w.step s st).timer = s.timer ∧
        (w.step s st).started = s.started) := by
  obtain ⟨htimer, hstarted, _⟩ := regenerate_keeps w s.cancel
  cases st with
  | schedule path =>
    by_cases ha : w.accepts path = .ok true
    · rw [step_of_accepted ha]
      exact .inl ⟨ha, not_false, rfl, rfl⟩
    · rw [step_of_not_accepted ha]
      exact .inr (.inr ⟨ha, not_false, rfl, rfl⟩)
  | flush =>
    by_cases hp : s.pending
    · rw [step_of_due .flush hp]
      exact .inr (.inl ⟨not_false, trivial, htimer, hstarted⟩)
    · rw [step_flush_of_not_pending hp]
      exact .inr (.inl ⟨not_false, trivial, by simpa [State.pending] using hp, rfl⟩)
  | cancel => exact .inr (.inl ⟨not_false, trivial, rfl, rfl⟩)
  | prime output => exact .inr (.inr ⟨not_false, not_false, rfl, rfl⟩)
  | expire t =>
    by_cases ht : s.timer = some t
    · rw [step_of_due (.expire t) ht]
      exact .inr (.inl ⟨not_false, ht, htimer, hstarted⟩)
    · rw [step_expire_of_ne ht]
      exact .inr (.inr ⟨not_false, ht, rfl, rfl⟩)

theorem calls_step (w : Watcher) (s : State) (st : Step) :
    (s.Due st ∧ (w.step s st).calls = s.calls + 1) ∨ (¬ s.Due st ∧ (w.step s st).calls = s.calls) := by
  by_cases hd : s.Due st
  · rw [step_of_due st hd]
    exact .inl ⟨hd, (regenerate_keeps w s.cancel).2.2⟩
  · refine .inr ⟨hd, ?_⟩
    cases st with
    | schedule path =>
      by_cases ha : w.accepts path = .ok true
      · rw [step_of_accepted ha]
        rfl
      · rw [step_of_not_accepted ha]
    | flush => rw [step_flush_of_not_pending hd]
    | cancel => rfl
    | prime output => rfl
    | expire t => rw [step_expire_of_ne hd]

end Steps

/-! Histories -/

/-- A watcher and what happened to it. -/
structure History where
  watcher : Watcher
  steps : List Step

namespace History

variable (h : History)

def stateAt (n : Nat) : State :=
  (h.steps.take n).foldl h.watcher.step {}

def AcceptsAt (i : Nat) : Prop :=
  ∃ st, h.steps[i]? = some st ∧ h.watcher.Accepts st

def ClearsAt (i : Nat) : Prop :=
  ∃ st, h.steps[i]? = some st ∧ (h.stateAt i).Clears st

def DueAt (i : Nat) : Prop :=
  ∃ st, h.steps[i]? = some st ∧ (h.stateAt i).Due st

def GeneratesAt (i : Nat) : Prop :=
  (h.stateAt i).calls < (h.stateAt (i + 1)).calls

def CausesAt (t i : Nat) : Prop :=
  h.GeneratesAt i ∧ (h.stateAt i).timer = some t

variable {h} {i j m n t : Nat} {st : Step}

theorem stateAt_succ (hi : h.steps[i]? = some st) : h.stateAt (i + 1) = h.watcher.step (h.stateAt i) st := by
  rw [stateAt, stateAt, List.take_add_one, hi, Option.toList_some, List.foldl_append]
  rfl

theorem stateAt_succ_of_none (hi : h.steps[i]? = none) : h.stateAt (i + 1) = h.stateAt i := by
  rw [stateAt, stateAt, List.take_add_one, hi, Option.toList_none, List.append_nil]

theorem timer_cases (h : History) (i : Nat) :
    (h.AcceptsAt i ∧ ¬ h.ClearsAt i ∧ (h.stateAt (i + 1)).timer = some (h.stateAt i).started ∧
        (h.stateAt (i + 1)).started = (h.stateAt i).started + 1) ∨
      (¬ h.AcceptsAt i ∧ h.ClearsAt i ∧ (h.stateAt (i + 1)).timer = none ∧
        (h.stateAt (i + 1)).started = (h.stateAt i).started) ∨
      (¬ h.AcceptsAt i ∧ ¬ h.ClearsAt i ∧ (h.stateAt (i + 1)).timer = (h.stateAt i).timer ∧
        (h.stateAt (i + 1)).started = (h.stateAt i).started) := by
  cases hi : h.steps[i]? with
  | none =>
    have hnone (P : Step → Prop) : ¬ ∃ st, h.steps[i]? = some st ∧ P st := by simp [hi]
    rw [stateAt_succ_of_none hi]
    exact .inr (.inr ⟨hnone _, hnone _, rfl, rfl⟩)
  | some st =>
    have haccepts : h.AcceptsAt i ↔ h.watcher.Accepts st := by simp [AcceptsAt, hi]
    have hclears : h.ClearsAt i ↔ (h.stateAt i).Clears st := by simp [ClearsAt, hi]
    rw [stateAt_succ hi, haccepts, hclears]
    exact timer_step _ _ _

theorem calls_succ (h : History) (i : Nat) :
    (h.DueAt i ∧ (h.stateAt (i + 1)).calls = (h.stateAt i).calls + 1) ∨
      (¬ h.DueAt i ∧ (h.stateAt (i + 1)).calls = (h.stateAt i).calls) := by
  cases hi : h.steps[i]? with
  | none =>
    rw [stateAt_succ_of_none hi]
    exact .inr ⟨by simp [DueAt, hi], rfl⟩
  | some st =>
    have hdue : h.DueAt i ↔ (h.stateAt i).Due st := by simp [DueAt, hi]
    rw [stateAt_succ hi, hdue]
    exact calls_step _ _ _

theorem generatesAt_iff_due : h.GeneratesAt i ↔ h.DueAt i := by
  rw [GeneratesAt]
  rcases h.calls_succ i with ⟨hdue, heq⟩ | ⟨hdue, heq⟩
  · exact ⟨fun _ => hdue, fun _ => by omega⟩
  · exact ⟨fun hlt => by omega, fun hdue' => absurd hdue' hdue⟩

theorem generatesAt_iff : h.GeneratesAt i ↔
    h.steps[i]? = some .flush ∧ (h.stateAt i).pending ∨
      ∃ t, h.steps[i]? = some (.expire t) ∧ (h.stateAt i).timer = some t := by
  rw [generatesAt_iff_due]
  constructor
  · rintro ⟨st, hi, hdue⟩
    cases st with
    | flush => exact .inl ⟨hi, hdue⟩
    | expire t => exact .inr ⟨t, hi, hdue⟩
    | schedule path => exact hdue.elim
    | cancel => exact hdue.elim
    | prime output => exact hdue.elim
  · rintro (⟨hi, hpending⟩ | ⟨t, hi, ht⟩)
    · exact ⟨.flush, hi, hpending⟩
    · exact ⟨.expire t, hi, ht⟩

theorem GeneratesAt.clears (hg : h.GeneratesAt i) : h.ClearsAt i := by
  rcases generatesAt_iff.mp hg with ⟨hflush, _⟩ | ⟨t, hexpire, ht⟩
  · exact ⟨.flush, hflush, trivial⟩
  · exact ⟨.expire t, hexpire, ht⟩

theorem GeneratesAt.exists_timer (hg : h.GeneratesAt i) : ∃ t, h.CausesAt t i := by
  rcases generatesAt_iff.mp hg with ⟨_, hpending⟩ | ⟨t, _, ht⟩
  · obtain ⟨t, ht⟩ := Option.isSome_iff_exists.mp hpending
    exact ⟨t, hg, ht⟩
  · exact ⟨t, hg, ht⟩

theorem ClearsAt.generates (hc : h.ClearsAt i) (hcancel : h.steps[i]? ≠ some .cancel)
    (hpending : (h.stateAt i).pending) : h.GeneratesAt i := by
  obtain ⟨st, hi, hst⟩ := hc
  cases st with
  | flush => exact generatesAt_iff.mpr (.inl ⟨hi, hpending⟩)
  | cancel => exact absurd hi hcancel
  | expire t => exact generatesAt_iff.mpr (.inr ⟨t, hi, hst⟩)
  | schedule path => exact hst.elim
  | prime output => exact hst.elim

/-! Runs -/

theorem started_mono (h : History) : Monotone fun n => (h.stateAt n).started := by
  apply monotone_nat_of_le_succ
  intro n
  rcases h.timer_cases n with ⟨_, _, _, hs⟩ | ⟨_, _, _, hs⟩ | ⟨_, _, _, hs⟩ <;> omega

theorem AcceptsAt.started_lt (hi : h.AcceptsAt i) (hij : i < j) :
    (h.stateAt i).started < (h.stateAt j).started := by
  have hmono : (h.stateAt (i + 1)).started ≤ (h.stateAt j).started := h.started_mono hij
  rcases h.timer_cases i with ⟨_, _, _, hs⟩ | ⟨hnot, _⟩ | ⟨hnot, _⟩
  · omega
  · exact absurd hi hnot
  · exact absurd hi hnot

structure PendsFrom (h : History) (i n : Nat) : Prop where
  lt : i < n
  accepts : h.AcceptsAt i
  undisturbed : ∀ j, i < j → j < n → ¬ h.AcceptsAt j ∧ ¬ h.ClearsAt j

theorem timer_eq_some_iff : (h.stateAt n).timer = some t ↔ ∃ i, h.PendsFrom i n ∧ (h.stateAt i).started = t := by
  induction n with
  | zero => exact ⟨nofun, fun ⟨_, hp, _⟩ => nomatch hp.lt⟩
  | succ n ih =>
    rcases h.timer_cases n with ⟨ha, _, htimer, _⟩ | ⟨ha, hc, htimer, _⟩ | ⟨ha, hc, htimer, _⟩
    · rw [htimer, Option.some.injEq]
      constructor
      · intro ht
        exact ⟨n, ⟨Nat.lt_succ_self n, ha, fun j hj hjn => by omega⟩, ht⟩
      · rintro ⟨i, hp, rfl⟩
        have hin : i = n := by
          by_contra hne
          exact (hp.undisturbed n (by have := hp.lt; omega) (Nat.lt_succ_self n)).1 ha
        rw [hin]
    · rw [htimer]
      refine ⟨nofun, ?_⟩
      rintro ⟨i, hp, _⟩
      rcases Nat.lt_succ_iff_lt_or_eq.mp hp.lt with hin | rfl
      · exact absurd hc (hp.undisturbed n hin (Nat.lt_succ_self n)).2
      · exact absurd hp.accepts ha
    · rw [htimer, ih]
      constructor
      · rintro ⟨i, hp, ht⟩
        refine ⟨i, ⟨Nat.lt_succ_of_lt hp.lt, hp.accepts, fun j hij hjn => ?_⟩, ht⟩
        rcases Nat.lt_succ_iff_lt_or_eq.mp hjn with hjn | rfl
        · exact hp.undisturbed j hij hjn
        · exact ⟨ha, hc⟩
      · rintro ⟨i, hp, ht⟩
        rcases Nat.lt_succ_iff_lt_or_eq.mp hp.lt with hin | rfl
        · exact ⟨i, ⟨hin, hp.accepts, fun j hij hjn => hp.undisturbed j hij (Nat.lt_succ_of_lt hjn)⟩, ht⟩
        · exact absurd hp.accepts ha

theorem pending_iff_exists : (h.stateAt n).pending ↔ ∃ i, h.PendsFrom i n := by
  rw [State.pending, Option.isSome_iff_exists]
  constructor
  · rintro ⟨t, ht⟩
    obtain ⟨i, hp, _⟩ := timer_eq_some_iff.mp ht
    exact ⟨i, hp⟩
  · rintro ⟨i, hp⟩
    exact ⟨_, timer_eq_some_iff.mpr ⟨i, hp, rfl⟩⟩

theorem AcceptsAt.eq_of_started (hi : h.AcceptsAt i) (hj : h.AcceptsAt j)
    (heq : (h.stateAt i).started = (h.stateAt j).started) : i = j := by
  rcases Nat.lt_trichotomy i j with hij | hij | hij
  · have := hi.started_lt hij
    omega
  · exact hij
  · have := hj.started_lt hij
    omega

theorem undisturbed_of_timer (hi : (h.stateAt i).timer = some t) (hj : (h.stateAt j).timer = some t)
    (him : i ≤ m) (hmj : m < j) : ¬ h.AcceptsAt m ∧ ¬ h.ClearsAt m := by
  obtain ⟨k, hk, hkt⟩ := timer_eq_some_iff.mp hi
  obtain ⟨k', hk', hkt'⟩ := timer_eq_some_iff.mp hj
  obtain rfl := hk.accepts.eq_of_started hk'.accepts (hkt.trans hkt'.symm)
  exact hk'.undisturbed m (Nat.lt_of_lt_of_le hk.lt him) hmj

theorem CausesAt.unique (hi : h.CausesAt t i) (hj : h.CausesAt t j) : i = j := by
  rcases Nat.lt_trichotomy i j with hij | hij | hij
  · exact absurd hi.1.clears (undisturbed_of_timer hi.2 hj.2 (Nat.le_refl i) hij).2
  · exact hij
  · exact absurd hj.1.clears (undisturbed_of_timer hj.2 hi.2 (Nat.le_refl j) hij).2

theorem not_causesAt_of_ended (hm : (h.stateAt m).timer = some t)
    (hended : h.AcceptsAt m ∨ h.steps[m]? = some .cancel) (i : Nat) : ¬ h.CausesAt t i := by
  intro hc
  have hclears : h.AcceptsAt m ∨ h.ClearsAt m := hended.imp_right fun hcancel => ⟨.cancel, hcancel, trivial⟩
  rcases Nat.lt_trichotomy i m with him | rfl | him
  · exact (undisturbed_of_timer hc.2 hm (Nat.le_refl i) him).2 hc.1.clears
  · -- A step that supersedes or cancels generates nothing itself.
    obtain ⟨st, hst, hdue⟩ := generatesAt_iff_due.mp hc.1
    rcases hended with ⟨st', hst', haccepts⟩ | hcancel
    · cases hst.symm.trans hst'
      cases st <;> first | exact hdue | exact haccepts
    · cases hst.symm.trans hcancel
      exact hdue
  · obtain ⟨ha, hcl⟩ := undisturbed_of_timer hm hc.2 (Nat.le_refl m) him
    exact hclears.elim ha hcl

theorem GeneratesAt.exists_accepts (hi : h.GeneratesAt i) (hj : h.GeneratesAt j) (hij : i < j) :
    ∃ k, i < k ∧ k < j ∧ h.AcceptsAt k := by
  obtain ⟨t, _, ht⟩ := hj.exists_timer
  obtain ⟨k, hk, _⟩ := timer_eq_some_iff.mp ht
  refine ⟨k, ?_, hk.lt, hk.accepts⟩
  rcases Nat.lt_trichotomy i k with hik | rfl | hki
  · exact hik
  · rcases h.timer_cases i with ⟨_, hc, _⟩ | ⟨ha, _⟩ | ⟨ha, _⟩
    · exact absurd hi.clears hc
    · exact absurd hk.accepts ha
    · exact absurd hk.accepts ha
  · exact absurd hi.clears (hk.undisturbed i hki hij).2

theorem AcceptsAt.pending (hi : h.AcceptsAt i) (hin : i < n)
    (hnone : ∀ j, i < j → j < n → h.steps[j]? ≠ some .cancel ∧ ¬ h.GeneratesAt j) : (h.stateAt n).pending := by
  induction n with
  | zero => cases hin
  | succ n ih =>
    have hpending (htimer : (h.stateAt (n + 1)).timer = (h.stateAt n).timer) (hin : i < n) :
        (h.stateAt (n + 1)).pending := by
      rw [State.pending, htimer]
      exact ih hin fun j hij hjn => hnone j hij (Nat.lt_succ_of_lt hjn)
    rcases h.timer_cases n with ⟨_, _, htimer, _⟩ | ⟨ha, hc, _⟩ | ⟨ha, _, htimer, _⟩
    · rw [State.pending, htimer]
      rfl
    · rcases Nat.lt_succ_iff_lt_or_eq.mp hin with hin | rfl
      · obtain ⟨hcancel, hgen⟩ := hnone n hin (Nat.lt_succ_self n)
        have hp := ih hin fun j hij hjn => hnone j hij (Nat.lt_succ_of_lt hjn)
        exact absurd (hc.generates hcancel hp) hgen
      · exact absurd hi ha
    · rcases Nat.lt_succ_iff_lt_or_eq.mp hin with hin | rfl
      · exact hpending htimer hin
      · exact absurd hi ha

/-- In every history, whatever timers expire and whenever they do:
a generation is pending iff a change counted since the last flush, cancel or expiry of a pending timer;
the library is generated exactly when a flush finds a timer pending or the pending timer expires, each time on account
of one timer, which leads to no other generation, and never on account of a timer that was superseded or cancelled;
two generations have a change between them; when nothing is pending, each change that was not cancelled before
the next generation has been followed by one; and a change that does not count has no effect. -/
theorem debounced (h : History) :
    (∀ n, (h.stateAt n).pending ↔
      ∃ i < n, h.AcceptsAt i ∧ ∀ j, i < j → j < n → ¬ h.ClearsAt j) ∧
    (∀ i, h.GeneratesAt i ↔
      h.steps[i]? = some .flush ∧ (h.stateAt i).pending ∨
        ∃ t, h.steps[i]? = some (.expire t) ∧ (h.stateAt i).timer = some t) ∧
    (∀ i, h.GeneratesAt i → (h.stateAt (i + 1)).calls = (h.stateAt i).calls + 1 ∧ ∃ t, h.CausesAt t i) ∧
    (∀ t i j, h.CausesAt t i → h.CausesAt t j → i = j) ∧
    (∀ t m, (h.stateAt m).timer = some t → h.AcceptsAt m ∨ h.steps[m]? = some .cancel →
      ∀ i, ¬ h.CausesAt t i) ∧
    (∀ i j, i < j → h.GeneratesAt i → h.GeneratesAt j → ∃ k, i < k ∧ k < j ∧ h.AcceptsAt k) ∧
    (∀ n, ¬ (h.stateAt n).pending → ∀ i < n, h.AcceptsAt i →
      (∀ k, i < k → k < n → h.steps[k]? = some .cancel → ∃ j, i < j ∧ j < k ∧ h.GeneratesAt j) →
      ∃ j, i < j ∧ j < n ∧ h.GeneratesAt j) ∧
    (∀ s path, h.watcher.accepts path = .ok false →
      (schedule h.watcher s path).outcome = .ok (s, false) ∧ h.watcher.step s (.schedule path) = s) := by
  refine ⟨fun n => ?_, fun i => generatesAt_iff, fun i hg => ?_, fun t i j => CausesAt.unique,
    fun t m hm hended => not_causesAt_of_ended hm hended, fun i j hij hi hj => hi.exists_accepts hj hij, ?_, ?_⟩
  · rw [pending_iff_exists]
    constructor
    · rintro ⟨i, hp⟩
      exact ⟨i, hp.lt, hp.accepts, fun j hij hjn => (hp.undisturbed j hij hjn).2⟩
    · rintro ⟨i, hin, hi, hclear⟩
      rw [← pending_iff_exists]
      refine hi.pending hin fun j hij hjn => ⟨fun hcancel => ?_, fun hg => hclear j hij hjn hg.clears⟩
      exact hclear j hij hjn ⟨.cancel, hcancel, trivial⟩
  · rcases h.calls_succ i with ⟨_, hcalls⟩ | ⟨hdue, _⟩
    · exact ⟨hcalls, hg.exists_timer⟩
    · exact absurd (generatesAt_iff_due.mp hg) hdue
  · intro n hnot i hin hi hcancelled
    by_contra hnone
    push Not at hnone
    refine hnot (hi.pending hin fun j hij hjn => ⟨fun hcancel => ?_, hnone j hij hjn⟩)
    obtain ⟨k, hik, hkj, hk⟩ := hcancelled j hij hjn hcancel
    exact hnone k hik (Nat.lt_trans hkj hjn) hk
  · intro s path hrefused
    exact ⟨schedule_of_refused hrefused, step_of_not_accepted (by rw [hrefused]; nofun)⟩

def burst : History where
  watcher := { generate := fun _ => .ok "library" }
  steps := [.schedule "a.ts", .schedule "b.ts", .expire 0, .expire 1, .flush]

theorem debounced_burst :
    burst.AcceptsAt 0 ∧ ¬ (burst.stateAt 5).pending ∧ (∃ j, 0 < j ∧ j < 5 ∧ burst.GeneratesAt j) ∧
      (burst.stateAt 1).timer = some 0 ∧ burst.AcceptsAt 1 ∧ ∀ i, ¬ burst.CausesAt 0 i := by
  obtain ⟨_, _, _, _, hended, _, hfollowed, _⟩ := debounced burst
  have hfirst : burst.AcceptsAt 0 := ⟨.schedule "a.ts", rfl, rfl⟩
  have hsecond : burst.AcceptsAt 1 := ⟨.schedule "b.ts", rfl, rfl⟩
  have hpending : ¬ (burst.stateAt 5).pending := by decide
  refine ⟨hfirst, hpending, hfollowed 5 hpending 0 (by decide) hfirst ?_, rfl, hsecond,
    hended 0 1 rfl (.inl hsecond)⟩
  intro k hk hk' hcancel
  obtain rfl | rfl | rfl | rfl : k = 1 ∨ k = 2 ∨ k = 3 ∨ k = 4 := by omega
  all_goals cases hcancel

end History

end ApiCatalog.Watch
