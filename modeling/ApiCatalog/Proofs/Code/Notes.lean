import ApiCatalog.Code.Exports
import ApiCatalog.Proofs.Report.Run

namespace ApiCatalog

namespace Noted

variable {α β : Type} {P Q : Diagnostic → Prop}

def Each (P : Diagnostic → Prop) (x : Noted α) : Prop :=
  ∀ d ∈ x.diagnostics, P d

theorem Each.imp {x : Noted α} (h : x.Each P) (hPQ : ∀ d, P d → Q d) : x.Each Q :=
  fun d hd => hPQ d (h d hd)

@[simp] theorem each_pure (a : α) : (pure a : Noted α).Each P := by
  simp [Each]

@[simp] theorem each_write (l : Level) (c : Channel) (t : String) : (write l c t).Each P := by
  simp [Each, write]

@[simp] theorem each_bind {x : Noted α} {f : α → Noted β} : (x >>= f).Each P ↔ x.Each P ∧ (f x.value).Each P := by
  simp only [Each, diagnostics_bind, List.forall_mem_append]

@[simp] theorem each_map {x : Noted α} {f : α → β} : (f <$> x).Each P ↔ x.Each P := by
  rw [← bind_pure_comp, each_bind]
  simp

theorem each_note {d : Diagnostic} : (note d).Each P ↔ P d := by
  simp [Each, note]

theorem each_mapM {f : α → Noted β} (as : List α) (h : ∀ a ∈ as, (f a).Each P) : (as.mapM f).Each P := by
  induction as with
  | nil => exact each_pure _
  | cons a as ih =>
    rw [List.mapM_cons, each_bind, each_bind]
    exact ⟨h a List.mem_cons_self, ih fun b hb => h b (List.mem_cons_of_mem _ hb), each_pure _⟩

theorem each_foldlM {f : β → α → Noted β} (as : List α) (h : ∀ b, ∀ a ∈ as, (f b a).Each P) (b : β) :
    (as.foldlM f b).Each P := by
  induction as generalizing b with
  | nil => exact each_pure _
  | cons a as ih =>
    rw [List.foldlM_cons, each_bind]
    exact ⟨h b a List.mem_cons_self, ih (fun b c hc => h b c (List.mem_cons_of_mem _ hc)) _⟩

end Noted

/-! Readers -/

namespace Code.Reader

variable (r : Reader)

def IsWarning (d : Diagnostic) : Prop :=
  (d.kind = .typeExtraction ∨ d.kind = .signatureAnalysis ∨ d.kind = .classMember) ∧ d.file = r.file

@[simp] theorem each_warn {k : Finding} {place : Syntax.Position} {message : String} {symbol : Option String} :
    (r.warn k place message symbol).Each r.IsWarning ↔
      k = .typeExtraction ∨ k = .signatureAnalysis ∨ k = .classMember := by
  rw [warn, Noted.each_note]
  exact and_iff_left rfl

@[simp] theorem each_parameters (n : Syntax.Node) (doc : Option DocComment) (owner : String) :
    (r.parameters n doc owner).Each r.IsWarning := by
  have hparameter (c : Syntax.Node) : (r.parameter doc owner c).Each r.IsWarning := by
    rw [parameter]
    split
    · split <;> simp
    · simp
  rw [parameters]
  split
  · simp
  · simp [Noted.each_mapM _ fun c _ => hparameter c]

@[simp] theorem each_returnType (n : Syntax.Node) (owner : String) : (r.returnType n owner).Each r.IsWarning := by
  rw [returnType]
  split
  · exact Noted.each_pure _
  · exact Noted.each_pure _
  · case h_3 body _ _ =>
    cases bodyType? body with
    | some t => exact Noted.each_bind.mpr ⟨Noted.each_pure _, Noted.each_pure _⟩
    | none =>
      simp only [Noted.each_bind]
      exact ⟨r.each_warn.mpr (.inl rfl), Noted.each_pure _, Noted.each_pure _⟩

@[simp] theorem each_asFunction (d : Declaration) (n : Syntax.Node) (doc : Option DocComment) :
    (r.asFunction d n doc).Each r.IsWarning := by
  simp [asFunction]

@[simp] theorem each_asValue (d : Declaration) (value : Option Syntax.Node) :
    (r.asValue d value).Each r.IsWarning := by
  rw [asValue]
  split <;> simp

@[simp] theorem each_fieldMember (d : Declaration) (n : Syntax.Node) (doc : Option DocComment) (symbol : String) :
    (r.fieldMember d n doc symbol).Each r.IsWarning := by
  have htyped (t : Option String) : (fieldMember.typed r d n symbol t).Each r.IsWarning := by
    cases t <;> simp [fieldMember.typed]
  rw [fieldMember]
  split
  · simp
  · split <;> simp [htyped]
  · exact htyped _

@[simp] theorem each_classMember (owner : String) (members : List Declaration) (p : Syntax.Placed) :
    (r.classMember owner members p).Each r.IsWarning := by
  rw [classMember]
  split
  · simp
  · simp only
    repeat' split
    all_goals simp

@[simp] theorem each_asClass (d : Declaration) (n : Syntax.Node) : (r.asClass d n).Each r.IsWarning := by
  rw [asClass, Noted.each_bind]
  refine ⟨Noted.each_foldlM _ ?_ _, by simp⟩
  intro ms p _
  split <;> simp

@[simp] theorem each_asInterface (d : Declaration) (n : Syntax.Node) : (r.asInterface d n).Each r.IsWarning := by
  have hmember (p : Syntax.Placed) : (r.typeMember p).Each r.IsWarning := by
    rw [typeMember]
    split
    · simp
    · simp only
      repeat' split
      all_goals simp
  rw [asInterface]
  split <;> simp [typeMembers, Noted.each_mapM _ fun p _ => hmember p]

@[simp] theorem each_asVariable (d : Declaration) (n : Syntax.Node) (doc : Option DocComment) :
    (r.asVariable d n doc).Each r.IsWarning := by
  simp only [asVariable]
  repeat' split
  all_goals simp

@[simp] theorem each_read (name : String) (n : Syntax.Node) (before : Option Syntax.Node) :
    (r.read name n before).Each r.IsWarning := by
  simp only [read]
  repeat' split
  all_goals simp

end Code.Reader

/-! Offers -/

namespace Code.Surroundings

variable (s : Surroundings) {P : Diagnostic → Prop}

@[simp] theorem each_debug (message : String) : (s.debug message).Each P :=
  Noted.each_write _ _ _

@[simp] theorem each_offerDeclaration {place : Syntax.Position} {d : Noted (Option Declaration)} :
    (offerDeclaration place d).Each P ↔ d.Each P := by
  simp [offerDeclaration]

@[simp] theorem each_offerImported (localName exported : String) (i : Import) (place : Syntax.Position) :
    (s.offerImported localName exported i place).Each P := by
  rw [offerImported]
  split <;> simp

@[simp] theorem each_offerLocal (name exported : String) (b : Binding) (place : Syntax.Position) (renamed : Bool) :
    (s.offerLocal name exported b place renamed).Each s.reader.IsWarning := by
  simp [offerLocal]

theorem each_offerDeclarator {statement : Syntax.Placed} {n : Syntax.Node} {x : Noted (Option Offer)}
    (hx : x ∈ s.offerDeclarator statement n) : x.Each s.reader.IsWarning := by
  simp only [offerDeclarator] at hx
  split at hx
  · cases hx
  · split at hx
    · rw [List.mem_singleton.mp hx]
      simp
    · obtain ⟨i, _, rfl⟩ := List.mem_map.mp hx
      simp

theorem each_offersOfDeclaration {n : Syntax.Node} {statement : Syntax.Placed} {x : Noted (Option Offer)}
    (hx : x ∈ s.offersOfDeclaration n statement) : x.Each s.reader.IsWarning := by
  simp only [offersOfDeclaration] at hx
  split at hx
  · cases hx
  · split at hx
    · obtain ⟨v, _, hx⟩ := List.mem_flatMap.mp hx
      exact s.each_offerDeclarator hx
    · split at hx <;> rw [List.mem_singleton.mp hx] <;> simp

theorem each_offersFrom {n : Syntax.Node} {specifier : String} {x : Noted (Option Offer)}
    (hx : x ∈ s.offersFrom n specifier) : x.Each P := by
  rw [offersFrom] at hx
  split at hx
  · rw [List.mem_singleton.mp hx]
    simp
  · split at hx
    · obtain ⟨_, _, rfl⟩ := List.mem_map.mp hx
      simp
    · split at hx
      · cases hx
      · rw [List.mem_singleton.mp hx]
        simp
    · rw [List.mem_singleton.mp hx]
      simp

theorem each_offersOfClause {clause : Syntax.Node} {x : Noted (Option Offer)} (hx : x ∈ s.offersOfClause clause) :
    x.Each s.reader.IsWarning := by
  obtain ⟨⟨name, exported⟩, _, rfl⟩ := List.mem_map.mp hx
  dsimp only
  split <;> simp

theorem each_offerDefault (value : Syntax.Node) (statement : Syntax.Placed) :
    (s.offerDefault value statement).Each s.reader.IsWarning := by
  simp only [offerDefault]
  split
  · split <;> simp
  · simp

theorem each_offersOfStatement {statement : Syntax.Placed} {x : Noted (Option Offer)}
    (hx : x ∈ s.offersOfStatement statement) : x.Each s.reader.IsWarning := by
  simp only [offersOfStatement] at hx
  split at hx
  · cases hx
  · split at hx
    · exact s.each_offersOfDeclaration hx
    · exact s.each_offersFrom hx
    · split at hx
      · split at hx
        · rw [List.mem_singleton.mp hx]
          exact s.each_offerDefault _ _
        · cases hx
      · split at hx
        · exact s.each_offersOfClause hx
        · cases hx

end Code.Surroundings

/-! What is kept -/

namespace Code

def clashReport (file name : String) (place : Syntax.Position) : Diagnostic where
  kind := .duplicateBinding
  file := file
  line := some place.line
  column := some place.column
  message := "Duplicate export \"" ++ name ++ "\"; keeping the first binding"
  symbol := some name

theorem each_keepOffer {P : Diagnostic → Prop} {file : String} {k : Kept} {x : Noted (Option Offer)} (hx : x.Each P)
    (hclash : ∀ name place, P (clashReport file name place)) : (keepOffer file k x).Each P := by
  have hclaim (name : String) (kind : Option DeclarationKind) (place : Syntax.Position) (accepted : Kept) :
      (k.claim file name kind place accepted).Each P := by
    rw [Kept.claim]
    split
    · exact Noted.each_pure _
    · split
      · exact Noted.each_pure _
      · exact Noted.each_bind.mpr ⟨Noted.each_note.mpr (hclash name place), Noted.each_pure _⟩
  rw [keepOffer, Noted.each_bind]
  refine ⟨hx, ?_⟩
  split
  · case h_1 o _ =>
    rw [Kept.add]
    split <;> simp [hclaim]
  · exact Noted.each_pure _

end Code

end ApiCatalog
