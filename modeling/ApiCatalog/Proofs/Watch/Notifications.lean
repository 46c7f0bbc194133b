import ApiCatalog.Proofs.Watch.Debounce

namespace ApiCatalog.Watch

inductive Mark where
  | primed (output : String)
  | generated (output : String)
  deriving DecidableEq

namespace Mark

def value : Mark → String
  | primed output => output
  | generated output => output

def news (before : Option String) : Mark → Option String
  | primed _ => none
  | generated output => if before = some output then none else some output

/-- The generated values of a sequence that differ from the value just before them. -/
def changes (before : Option String) : List Mark → List String
  | [] => []
  | m :: ms => (m.news before).toList ++ changes (some m.value) ms

theorem changes_concat (before : Option String) (ms : List Mark) (m : Mark) :
    changes before (ms ++ [m]) =
      changes before ms ++ (m.news ((ms.getLast?.map value).or before)).toList := by
  induction ms generalizing before with
  | nil => simp [changes]
  | cons a ms ih =>
    have hlast : ((a :: ms).getLast?.map value).or before = (ms.getLast?.map value).or (some a.value) := by
      cases ms with
      | nil => rfl
      | cons b ms => simp [List.getLast?_cons]
    rw [List.cons_append, changes, ih, hlast, changes, List.append_assoc]

end Mark

namespace Watcher

def mark? (w : Watcher) (s : State) : Step → Option Mark
  | .prime output => some (.primed output)
  | st => if s.calls < (w.step s st).calls then (w.generate s.calls).toOption.map .generated else none

end Watcher

section Steps

variable {w : Watcher} {s : State} {st : Step}

theorem regenerate_error {reason : String} (hg : w.generate s.calls = .error reason) :
    (regenerate w s).value = { s with calls := s.calls + 1 } := by
  simp only [regenerate, hg]
  rfl

theorem regenerate_ok {output : String} (hg : w.generate s.calls = .ok output) :
    (regenerate w s).value.last = some output ∧
      (regenerate w s).value.announced = s.announced ++ ((Mark.generated output).news s.last).toList := by
  simp only [regenerate, hg, Mark.news]
  by_cases hl : s.last = some output
  · rw [if_pos hl, if_pos hl]
    exact ⟨hl, (List.append_nil _).symm⟩
  · rw [if_neg hl, if_neg hl]
    exact ⟨rfl, rfl⟩

theorem keeps_of_not_due (hd : ¬ s.Due st) (hp : ∀ output, st ≠ .prime output) :
    (w.step s st).last = s.last ∧ (w.step s st).announced = s.announced := by
  cases st with
  | schedule path =>
    by_cases ha : w.accepts path = .ok true
    · rw [step_of_accepted ha]
      exact ⟨rfl, rfl⟩
    · rw [step_of_not_accepted ha]
      exact ⟨rfl, rfl⟩
  | flush =>
    rw [step_flush_of_not_pending hd]
    exact ⟨rfl, rfl⟩
  | cancel => exact ⟨rfl, rfl⟩
  | prime output => exact absurd rfl (hp output)
  | expire t =>
    rw [step_expire_of_ne hd]
    exact ⟨rfl, rfl⟩

theorem mark?_of_due (hd : s.Due st) : w.mark? s st = (w.generate s.calls).toOption.map .generated := by
  have hlt : s.calls < (w.step s st).calls := by
    rcases calls_step w s st with ⟨_, hc⟩ | ⟨hn, _⟩
    · omega
    · exact absurd hd hn
  cases st with
  | prime output => exact hd.elim
  | schedule path | flush | cancel | expire t => simp only [Watcher.mark?, hlt, if_true]

theorem mark?_of_not_due (hd : ¬ s.Due st) (hp : ∀ output, st ≠ .prime output) : w.mark? s st = none := by
  have hlt : ¬ s.calls < (w.step s st).calls := by
    rcases calls_step w s st with ⟨h, _⟩ | ⟨_, hc⟩
    · exact absurd h hd
    · omega
  cases st with
  | prime output => exact absurd rfl (hp output)
  | schedule path | flush | cancel | expire t => simp only [Watcher.mark?, hlt, if_false]

theorem notice_step (w : Watcher) (s : State) (st : Step) :
    (w.step s st).last = ((w.mark? s st).map Mark.value).or s.last ∧
      (w.step s st).announced = s.announced ++ ((w.mark? s st).bind (Mark.news s.last)).toList := by
  by_cases hd : s.Due st
  · rw [step_of_due st hd, mark?_of_due hd]
    cases hg : w.generate s.calls with
    | error reason =>
      have hs : w.generate s.cancel.calls = .error reason := hg
      rw [regenerate_error hs]
      simp [State.cancel, Except.toOption]
    | ok output =>
      have hs : w.generate s.cancel.calls = .ok output := hg
      obtain ⟨hlast, hannounced⟩ := regenerate_ok hs
      rw [hlast, hannounced]
      exact ⟨rfl, rfl⟩
  · by_cases hp : ∃ output, st = .prime output
    · obtain ⟨output, rfl⟩ := hp
      simp [Watcher.step, State.prime, Watcher.mark?, Mark.value, Mark.news]
    · have hp : ∀ output, st ≠ .prime output := fun output h => hp ⟨output, h⟩
      rw [mark?_of_not_due hd hp]
      simpa using keeps_of_not_due hd hp

end Steps

namespace History

variable (h : History)

def markAt? (i : Nat) : Option Mark :=
  h.steps[i]?.bind (h.watcher.mark? (h.stateAt i))

def marks (n : Nat) : List Mark :=
  (List.range n).filterMap h.markAt?

variable {h} {i n : Nat}

theorem marks_succ (h : History) (n : Nat) : h.marks (n + 1) = h.marks n ++ (h.markAt? n).toList := by
  rw [marks, List.range_succ, List.filterMap_append]
  cases hm : h.markAt? n <;> simp [marks, hm]

theorem notice_succ (h : History) (i : Nat) :
    (h.stateAt (i + 1)).last = ((h.markAt? i).map Mark.value).or (h.stateAt i).last ∧
      (h.stateAt (i + 1)).announced =
        (h.stateAt i).announced ++ ((h.markAt? i).bind (Mark.news (h.stateAt i).last)).toList := by
  cases hi : h.steps[i]? with
  | none => simp [stateAt_succ_of_none hi, markAt?, hi]
  | some st =>
    rw [stateAt_succ hi, markAt?, hi, Option.bind_some]
    exact notice_step h.watcher (h.stateAt i) st

theorem last_eq (h : History) (n : Nat) : (h.stateAt n).last = (h.marks n).getLast?.map Mark.value := by
  induction n with
  | zero => rfl
  | succ n ih =>
    rw [(h.notice_succ n).1, ih, marks_succ]
    cases h.markAt? n <;> simp

theorem announced_eq (h : History) (n : Nat) : (h.stateAt n).announced = Mark.changes none (h.marks n) := by
  induction n with
  | zero => rfl
  | succ n ih =>
    rw [(h.notice_succ n).2, ih, last_eq, marks_succ]
    cases h.markAt? n with
    | none => simp
    | some m => simp [Mark.changes_concat]

theorem markAt?_of_error {reason : String} (hg : h.GeneratesAt i)
    (he : h.watcher.generate (h.stateAt i).calls = .error reason) : h.markAt? i = none := by
  obtain ⟨st, hi, hd⟩ := generatesAt_iff_due.mp hg
  simp [markAt?, hi, mark?_of_due hd, he, Except.toOption]

theorem announces_changes (h : History) :
    (∀ n, (h.stateAt n).last = (h.marks n).getLast?.map Mark.value) ∧
    (∀ n, (h.stateAt n).announced = Mark.changes none (h.marks n)) ∧
    ∀ i reason, h.GeneratesAt i → h.watcher.generate (h.stateAt i).calls = .error reason →
      (h.stateAt (i + 1)).last = (h.stateAt i).last ∧
        (h.stateAt (i + 1)).announced = (h.stateAt i).announced := by
  refine ⟨h.last_eq, h.announced_eq, ?_⟩
  intro i reason hg he
  have hn := h.notice_succ i
  rw [markAt?_of_error hg he] at hn
  simpa using hn

def rebuilds : History where
  watcher := { generate := fun n => if n = 1 then .error "stopped" else .ok (if n = 0 then "old" else "new") }
  steps := [.prime "old", .schedule "a.ts", .flush, .schedule "b.ts", .expire 1, .schedule "c.ts", .flush,
    .schedule "d.ts", .expire 3]

theorem announces_changes_rebuilds :
    rebuilds.marks 9 = [.primed "old", .generated "old", .generated "new", .generated "new"] ∧
      (rebuilds.stateAt 9).last = some "new" ∧ (rebuilds.stateAt 9).announced = ["new"] ∧
      rebuilds.GeneratesAt 4 ∧ (rebuilds.stateAt 5).last = some "old" ∧ (rebuilds.stateAt 5).announced = [] := by
  obtain ⟨hlast, hannounced, hfails⟩ := announces_changes rebuilds
  have hm : rebuilds.marks 9 = [.primed "old", .generated "old", .generated "new", .generated "new"] := by decide
  have hg : rebuilds.GeneratesAt 4 := by
    unfold GeneratesAt
    decide
  obtain ⟨hl, ha⟩ := hfails 4 "stopped" hg (by decide)
  refine ⟨hm, ?_, ?_, hg, ?_, ?_⟩
  · rw [hlast, hm]
    rfl
  · rw [hannounced, hm]
    decide
  · rw [hl]
    decide
  · rw [ha]
    decide

end History

end ApiCatalog.Watch
