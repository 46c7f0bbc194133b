import ApiCatalog.Analysis.Basic
import ApiCatalog.Proofs.Code.Notes

namespace ApiCatalog

namespace Noted

variable {α β : Type} {file : String}

def About (file : String) (x : Noted α) : Prop :=
  ∀ d ∈ x.diagnostics, d.file = file

@[simp] theorem about_pure (a : α) : (pure a : Noted α).About file :=
  each_pure a

@[simp] theorem about_write (l : Level) (c : Channel) (t : String) : (write l c t).About file :=
  each_write l c t

@[simp] theorem about_note {d : Diagnostic} : (note d).About file ↔ d.file = file :=
  each_note

@[simp] theorem about_bind {x : Noted α} {f : α → Noted β} :
    (x >>= f).About file ↔ x.About file ∧ (f x.value).About file :=
  each_bind

@[simp] theorem about_map {x : Noted α} {f : α → β} : (f <$> x).About file ↔ x.About file :=
  each_map

theorem about_mapM {f : α → Noted β} (as : List α) (h : ∀ a, (f a).About file) : (as.mapM f).About file :=
  each_mapM as fun a _ => h a

theorem Each.about {r : Code.Reader} {x : Noted α} (h : x.Each r.IsWarning) : x.About r.file :=
  h.imp fun _ hd => hd.2

end Noted

/-! Code -/

namespace Code

@[simp] theorem Reader.about_warn (r : Reader) (k : Finding) (place : Syntax.Position) (message : String)
    (symbol : Option String) : (r.warn k place message symbol).About r.file :=
  Noted.about_note.mpr rfl

@[simp] theorem Reader.about_asFunction (r : Reader) (d : Declaration) (n : Syntax.Node) (doc : Option DocComment) :
    (r.asFunction d n doc).About r.file :=
  (r.each_asFunction d n doc).about

theorem about_analyzeCode (file modulePath : String) (resolve : String → Option String) (root : Syntax.Node) :
    (analyzeCode file modulePath resolve root).About file := by
  have hexports : (extractExports file modulePath resolve root).About file := by
    simp only [extractExports, Noted.about_bind, Noted.about_pure, and_true]
    refine Noted.each_foldlM _ ?_ _
    intro k x hx
    obtain ⟨statement, _, hx⟩ := List.mem_flatMap.mp hx
    exact each_keepOffer (Surroundings.each_offersOfStatement _ hx).about fun _ _ => rfl
  rw [analyzeCode]
  split <;> simp [hexports]

end Code

/-! Components -/

namespace Component.PropReader

variable (r : PropReader)

@[simp] theorem about_warn (n : Syntax.Node) (message symbol : String) :
    (r.warn n message symbol).About r.reader.file :=
  r.reader.about_warn _ _ _ _

theorem about_member (p : Syntax.Placed) : (r.member p).About r.reader.file := by
  simp only [member]
  repeat' split
  all_goals simp

theorem about_typedProps (fuel : Nat) (seen : List String) (parts : List TypePart) :
    (r.typedProps fuel seen parts).About r.reader.file := by
  induction fuel generalizing seen parts with
  | zero => exact Noted.about_pure _
  | succ fuel ih =>
    simp only [typedProps, Noted.about_bind, Noted.about_pure, and_true]
    refine Noted.about_mapM _ ?_
    intro part
    cases part with
    | members body => simp [Noted.about_mapM _ r.about_member]
    | unsupported n => simp
    | reference n name =>
      dsimp only
      split
      · simp
      · split
        · simp
        · exact ih _ _

theorem about_calledProps (c : PropsCall) : (r.calledProps c).About r.reader.file := by
  simp only [calledProps, Noted.about_bind, Noted.about_pure, and_true]
  refine ⟨r.about_typedProps _ _ _, Noted.about_mapM _ ?_⟩
  intro e
  simp

theorem about_variableProps : r.variableProps.About r.reader.file := by
  have hvariable (doc : Option DocComment) (n : Syntax.Node) : (r.variableProp doc n).About r.reader.file := by
    simp only [variableProp]
    repeat' split
    all_goals simp
  have hexported (p : Syntax.Placed) : (r.exportedProps p).About r.reader.file := by
    rw [exportedProps]
    split
    · dsimp only
      split
      · simp
      · simp [Noted.about_mapM _ (hvariable _)]
    · simp
  simp [variableProps, Noted.about_mapM _ hexported]

end Component.PropReader

theorem Component.about_describe (d : Declaration) (file : String) (b : Bool) (root : Syntax.Node) :
    (describe d file b root).About file := by
  simp only [describe]
  have hfile : (PropReader.ofRoot file d.name b root).reader.file = file := rfl
  split
  · simpa [hfile] using (PropReader.ofRoot file d.name b root).about_calledProps _
  · simpa [hfile] using (PropReader.ofRoot file d.name b root).about_variableProps

/-! Files -/

namespace Run

variable {α β : Type} {file : String}

def About (file : String) (x : Run α) : Prop :=
  x.run.About file

theorem About.file_eq {x : Run α} (h : x.About file) {d : Diagnostic} (hd : d ∈ x.diagnostics) : d.file = file :=
  h d hd

theorem about_bind {x : Run α} {f : α → Run β} (hx : x.About file) (hf : ∀ a, (f a).About file) :
    (x >>= f).About file := by
  rw [About, run_bind, Noted.about_bind]
  refine ⟨hx, ?_⟩
  cases x.run.value with
  | error e => exact Noted.about_pure _
  | ok a => exact hf a

theorem about_ofNoted {x : Noted α} : (ofNoted x).About file ↔ x.About file := by
  change (∀ d ∈ (ofNoted x).diagnostics, d.file = file) ↔ _
  rw [diagnostics_ofNoted]
  rfl

theorem about_ofOptions (x : Except OptionsError α) : (ofOptions x).About file := by
  cases x <;> exact Noted.about_pure _

theorem about_write (l : Level) (c : Channel) (t : String) : (write l c t).About file :=
  about_ofNoted.mpr (Noted.about_write l c t)

end Run

theorem Component.about_analyze (parser : Syntax.ScriptParser) (file modulePath content : String) (b : Bool) :
    (analyze parser file modulePath content b).About file := by
  rw [analyze]
  refine Run.about_bind (Noted.about_pure _) fun tree => ?_
  cases tree with
  | none =>
    exact Run.about_bind (Noted.about_pure _) fun d =>
      Run.about_bind (Run.about_write _ _ _) fun _ => Noted.about_pure _
  | some root =>
    exact Run.about_bind (Run.about_ofNoted.mpr (about_describe _ file b root)) fun d =>
      Run.about_bind (Run.about_write _ _ _) fun _ => Noted.about_pure _

theorem about_extract (p : Program) (o : SourceOptions) (g : IndexedFile) (path : String) :
    (extract p o g path).About g.id := by
  rw [extract]
  split
  · exact Run.about_ofNoted.mpr (Code.about_analyzeCode g.id path _ _)
  · exact Component.about_analyze p.parser g.id path _ _

theorem about_analyzeFile (p : Program) (o : SourceOptions) (channel : Channel) (f : SourceFile) :
    (analyzeFile p o channel f).About f.id := by
  rw [analyzeFile]
  split
  · exact Run.about_bind (Run.about_write _ _ _) fun _ => Noted.about_pure _
  · case h_2 g hg =>
    have hid : g.id = f.id := by simpa using List.find?_some hg
    refine Run.about_bind (Run.about_ofOptions _) fun path => ?_
    refine Run.about_bind (hid ▸ about_extract p o g path) fun x => ?_
    refine Run.about_bind (Run.about_ofOptions _) fun dependencies => ?_
    refine Run.about_bind (Run.about_ofOptions _) fun dependents => ?_
    exact Run.about_bind (Run.about_write _ _ _) fun _ => Noted.about_pure _

end ApiCatalog
