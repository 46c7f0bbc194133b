import ApiCatalog.Command.Arguments

namespace ApiCatalog.Command

variable {b : Action} {known : List Flag} {before after : List String}

def Arguments.withAction (b : Action) (a : Arguments) : Arguments :=
  { a with action := b }

def Progress.withAction (b : Action) (p : Progress) : Progress :=
  { p with arguments := p.arguments.withAction b }

open Arguments

theorem setStrict_withAction (a : Arguments) (s : Bool) :
    setStrict (a.withAction b) s = (setStrict a s).map (withAction b) := by
  unfold setStrict
  by_cases h : a.strict = some !s
  · simp [withAction, h, Except.map]
  · simp [withAction, h, Except.map]

theorem apply_withAction (a : Arguments) (value : String) (f : Flag) :
    f.apply (a.withAction b) value = (f.apply a value).map (withAction b) := by
  cases f with
  | strict => exact setStrict_withAction a true
  | lenient => exact setStrict_withAction a false
  | _ => rfl

theorem applyLetters_withAction (a : Arguments) (cs : List Char) :
    applyLetters (a.withAction b) cs = (applyLetters a cs).map (withAction b) := by
  induction cs generalizing a with
  | nil => rfl
  | cons c cs ih =>
    simp only [applyLetters]
    cases Flag.ofLetter? c with
    | none => rfl
    | some f =>
      simp only [apply_withAction]
      cases f.apply a "" with
      | error e => rfl
      | ok a' => exact ih a'

theorem applyShort_withAction (a : Arguments) (f : Flag) (letters : Option String) :
    applyShort (a.withAction b) f letters = (applyShort a f letters).map (withAction b) := by
  unfold applyShort
  split
  · exact apply_withAction a "" f
  · rfl
  · split
    · rw [apply_withAction]
      cases f.apply a "" with
      | error e => rfl
      | ok a' => exact applyLetters_withAction a' _
    · rfl

theorem applyLong_withAction (a : Arguments) (f : Flag) (value : Option String) (rest : List Word) :
    applyLong (a.withAction b) f value rest = (applyLong a f value rest).map (Prod.map (withAction b) id) := by
  have happly (v : String) (n : Nat) : (do pure (← f.apply (a.withAction b) v, n) : Except Stop (Arguments × Nat)) =
      Except.map (Prod.map (withAction b) id) (do pure (← f.apply a v, n)) := by
    rw [apply_withAction]
    cases f.apply a v <;> rfl
  unfold applyLong
  split
  · exact happly _ 0
  · exact happly _ 1
  · rfl
  · exact happly "" 0
  · rfl

theorem step_withAction (p : Progress) (w : Word) (rest : List Word) :
    (p.withAction b).step w rest = (p.step w rest).map (Prod.map (Progress.withAction b) id) := by
  have hlong (f : Flag) (value : Option String) : (p.withAction b).step (.long f value) rest =
      (p.step (.long f value) rest).map (Prod.map (Progress.withAction b) id) := by
    simp only [Progress.step, Progress.withAction, applyLong_withAction]
    cases applyLong p.arguments f value rest <;> rfl
  have hshort (f : Flag) (letters : Option String) : (p.withAction b).step (.short f letters) rest =
      (p.step (.short f letters) rest).map (Prod.map (Progress.withAction b) id) := by
    simp only [Progress.step, Progress.withAction, applyShort_withAction]
    cases applyShort p.arguments f letters <;> rfl
  have hplaced : (p.withAction b).placed = p.placed := rfl
  cases w with
  | long f value => exact hlong f value
  | short f letters => exact hshort f letters
  | unknown => rfl
  | ambiguous => rfl
  | plain text =>
    simp only [Progress.step, hplaced]
    split <;> rfl
  | separator =>
    simp only [Progress.step, hplaced]
    split <;> rfl

theorem run_withAction (fuel : Nat) (p : Progress) (ws : List Word) :
    (p.withAction b).run fuel ws = (p.run fuel ws).map (Progress.withAction b) := by
  induction fuel generalizing p ws with
  | zero => rfl
  | succ fuel ih =>
    cases ws with
    | nil => rfl
    | cons w rest =>
      simp only [Progress.run, step_withAction]
      cases p.step w rest with
      | error e => rfl
      | ok r => exact ih r.1 _

theorem readCommand_withAction (verbose extra : Bool) (a : Action) (args : List String) :
    readCommand verbose extra b args = (readCommand verbose extra a args).map (withAction b) := by
  have hrun := run_withAction (b := b) (readWords Flag.ofCommand args).length
    { arguments := { action := a, verbose }, extra } (readWords Flag.ofCommand args)
  simp only [readCommand]
  change (Progress.run _ (Progress.withAction b { arguments := { action := a, verbose }, extra }) _ >>= _) = _
  rw [hrun]
  cases Progress.run _ _ _ with
  | error e => rfl
  | ok p =>
    change (if p.extra then _ else _) = Except.map _ (if p.extra then _ else _)
    split <;> rfl

theorem eq_of_readWord {w text : String} (h : readWord known w = .plain text) : text = w := by
  have hother {v : String} (h : readOther v = .plain text) : text = v := by
    unfold readOther at h
    split at h
    · exact (Word.plain.inj h).symm
    · cases h
  unfold readWord at h
  split at h
  case h_1 =>
    simp only [readLong] at h
    split at h
    · cases h
    · split at h
      · exact hother h
      · cases h
      · cases h
  case h_5 => exact (Word.plain.inj h).symm
  -- In the other cases a letter decides.
  all_goals
    split at h
    · cases h
    · exact hother h

theorem readWord_name (a : Action) : readWord known a.name = .plain a.name := by
  cases a <;> rfl

theorem ofName?_actionName (a : Action) : Action.ofName? a.name = some a := by
  cases a <;> rfl

theorem mem_readWords_iff (a : Action) :
    .ambiguous ∈ readWords known (before ++ a.name :: after) ↔ .ambiguous ∈ readWords known (before ++ b.name :: after) := by
  induction before with
  | nil =>
    have hname (a : Action) : (a.name == "--") = false := by cases a <;> rfl
    simp [readWords, hname, readWord_name]
  | cons w before ih =>
    simp only [List.cons_append, readWords]
    split
    · simp
    · simp [ih]

theorem readLine_name (verbose extra : Bool) (a : Action) (args : List String) :
    readLine verbose extra (a.name :: args) = readCommand verbose extra a args := by
  have hname : (a.name == "--") = false := by cases a <;> rfl
  simp [readLine, hname, readWord_name, ofName?_actionName]

theorem readLine_withAction (hbefore : ∀ w ∈ before, Action.ofName? w = none) (verbose extra : Bool) (a : Action) :
    readLine verbose extra (before ++ b.name :: after) =
      (readLine verbose extra (before ++ a.name :: after)).map (withAction b) := by
  induction before generalizing verbose extra with
  | nil =>
    rw [List.nil_append, List.nil_append, readLine_name, readLine_name]
    exact readCommand_withAction verbose extra a after
  | cons w before ih =>
    obtain ⟨hw, hbefore⟩ := List.forall_mem_cons.mp hbefore
    have htake (f : Flag) (letters : Option String) :
        readLine.take verbose extra f letters (before ++ b.name :: after) =
          (readLine.take verbose extra f letters (before ++ a.name :: after)).map (withAction b) := by
      simp only [readLine.take]
      cases applyShort { action := .generate, verbose } f letters with
      | error e => rfl
      | ok a' => exact ih hbefore a'.verbose extra
    simp only [List.cons_append, readLine]
    split
    · rfl
    · split
      · case h_1 name hname =>
        rw [eq_of_readWord hname, hw]
        rfl
      · exact ih hbefore verbose true
      · rfl
      · rfl
      · exact htake _ _
      · rfl
      · exact htake _ _

theorem parse_withAction (hbefore : ∀ w ∈ before, Action.ofName? w = none) (a : Action) :
    parse (before ++ b.name :: after) = (parse (before ++ a.name :: after)).map (withAction b) := by
  unfold parse
  by_cases h : .ambiguous ∈ readWords Flag.general (before ++ a.name :: after)
  · have h' : .ambiguous ∈ readWords Flag.general (before ++ b.name :: after) := (mem_readWords_iff a).mp h
    rw [if_pos (List.contains_iff_mem.mpr h'), if_pos (List.contains_iff_mem.mpr h)]
    rfl
  · have h' : .ambiguous ∉ readWords Flag.general (before ++ b.name :: after) := fun h' => h ((mem_readWords_iff a).mpr h')
    rw [if_neg (by simpa using h'), if_neg (by simpa using h)]
    exact readLine_withAction hbefore false false a

end ApiCatalog.Command
