import Mathlib.Logic.Function.Basic
import ApiCatalog.Proofs.Code.Hidden

/-!
Where on a line something stands does not matter to what is read from it. Moving the nodes of a tree along their lines
keeps all declarations; only diagnostics name the new columns.
-/

namespace ApiCatalog

namespace Syntax

namespace Node

mutual

def decEq : (m n : Node) → Decidable (m = n)
  | mk r k t p l cs, mk r' k' t' p' l' cs' =>
    have := decEqAll cs cs'
    decidable_of_iff (r = r' ∧ k = k' ∧ t = t' ∧ p = p' ∧ l = l' ∧ cs = cs') (by simp)

def decEqAll : (ms ns : List Node) → Decidable (ms = ns)
  | [], [] => isTrue rfl
  | [], _ :: _ => isFalse nofun
  | _ :: _, [] => isFalse nofun
  | m :: ms, n :: ns =>
    have := decEq m n
    have := decEqAll ms ns
    decidable_of_iff (m = n ∧ ms = ns) (by simp)

end

instance : DecidableEq Node := decEq

variable {f : Position → Position}

mutual

def move (f : Position → Position) : Node → Node
  | mk role kind text start lastLine children => mk role kind text (f start) lastLine (moveAll f children)

def moveAll (f : Position → Position) : List Node → List Node
  | [] => []
  | n :: ns => move f n :: moveAll f ns

end

theorem moveAll_eq (ns : List Node) : moveAll f ns = ns.map (move f) := by
  induction ns with
  | nil => rfl
  | cons n ns ih => rw [moveAll, ih, List.map_cons]

@[simp] theorem role_move (n : Node) : (n.move f).role = n.role := by
  cases n
  rfl

@[simp] theorem kind_move (n : Node) : (n.move f).kind = n.kind := by
  cases n
  rfl

@[simp] theorem text_move (n : Node) : (n.move f).text = n.text := by
  cases n
  rfl

@[simp] theorem start_move (n : Node) : (n.move f).start = f n.start := by
  cases n
  rfl

@[simp] theorem lastLine_move (n : Node) : (n.move f).lastLine = n.lastLine := by
  cases n
  rfl

@[simp] theorem children_move (n : Node) : (n.move f).children = n.children.map (move f) := by
  cases n
  exact moveAll_eq _

@[simp] theorem isNamed_move (n : Node) : (n.move f).isNamed = n.isNamed := by
  simp only [isNamed, kind_move]

@[simp] theorem namedChildren_move (n : Node) : (n.move f).namedChildren = n.namedChildren.map (move f) := by
  simp [namedChildren, List.filter_map, Function.comp_def]

@[simp] theorem child?_move (n : Node) (r : Role) : (n.move f).child? r = (n.child? r).map (move f) := by
  simp only [child?, children_move, List.find?_map, Function.comp_def, role_move]

@[simp] theorem childOfKind?_move (n : Node) (k : Kind) :
    (n.move f).childOfKind? k = (n.childOfKind? k).map (move f) := by
  simp only [childOfKind?, children_move, List.find?_map, Function.comp_def, kind_move]

@[simp] theorem hasToken_move (n : Node) (t : String) : (n.move f).hasToken t = n.hasToken t := by
  simp [hasToken, List.any_map, Function.comp_def]

@[simp] theorem textOf_move (n : Node) (r : Role) : (n.move f).textOf r = n.textOf r := by
  simp [textOf, Option.map_map, Function.comp_def]

theorem firstError?_of_ne {n : Node} (h : n.kind ≠ .error) : n.firstError? = firstErrorIn? n.children := by
  cases n with
  | mk role kind text start lastLine children => exact firstError?.eq_2 _ _ _ _ _ _ h

mutual

theorem firstError?_move : ∀ n : Node, (n.move f).firstError? = n.firstError?.map (move f)
  | mk role kind text start lastLine children => by
    by_cases hk : kind = .error
    · subst hk
      rfl
    · have hn : (mk role kind text start lastLine children).kind ≠ .error := hk
      rw [firstError?_of_ne hn, firstError?_of_ne (by simpa using hn)]
      exact firstErrorIn?_move children

theorem firstErrorIn?_move : ∀ ns : List Node, firstErrorIn? (moveAll f ns) = (firstErrorIn? ns).map (move f)
  | [] => rfl
  | n :: ns => by
    rw [moveAll, firstErrorIn?, firstErrorIn?, firstError?_move n, firstErrorIn?_move ns]
    cases n.firstError? <;> rfl

end

@[simp] theorem hasError_move (n : Node) : (n.move f).hasError = n.hasError := by
  simp [hasError, firstError?_move]

end Node

def Placed.move (f : Position → Position) (p : Placed) : Placed where
  before := p.before.map (Node.move f)
  node := p.node.move f

theorem Placed.siblingsAfter_move {f : Position → Position} (before : Option Node) (ns : List Node) :
    siblingsAfter (before.map (Node.move f)) (ns.map (Node.move f)) = (siblingsAfter before ns).map (Placed.move f) := by
  induction ns generalizing before with
  | nil => rfl
  | cons n ns ih =>
    rw [List.map_cons, siblingsAfter, siblingsAfter, List.map_cons]
    exact congrArg _ (ih (some n))

@[simp] theorem Node.placedChildren_move {f : Position → Position} (n : Node) :
    (n.move f).placedChildren = n.placedChildren.map (Placed.move f) := by
  rw [placedChildren, children_move]
  exact Placed.siblingsAfter_move none n.children

end Syntax

namespace Code

open Syntax Node

variable {f : Position → Position}

/-! Expressions -/

theorem unwrap_of_ne {n : Node} (h : n.kind ≠ .parenthesized) : unwrap n = n := by
  apply unwrap.eq_2
  rintro role text start lastLine children rfl
  exact h rfl

mutual

theorem unwrap_move : ∀ n : Node, unwrap (n.move f) = (unwrap n).move f
  | .mk role kind text start lastLine children => by
    by_cases hk : kind = .parenthesized
    · subst hk
      rw [move, unwrap, unwrap]
      exact unwrapFirst_move (.mk role .parenthesized text start lastLine children) children
    · have hn : (Node.mk role kind text start lastLine children).kind ≠ .parenthesized := hk
      rw [unwrap_of_ne hn, unwrap_of_ne (by simpa using hn)]

theorem unwrapFirst_move (default : Node) : ∀ ns : List Node,
    unwrapFirst (default.move f) (moveAll f ns) = (unwrapFirst default ns).move f
  | [] => rfl
  | n :: ns => by
    rw [moveAll, unwrapFirst, unwrapFirst, isNamed_move]
    split
    · exact unwrap_move n
    · exact unwrapFirst_move default ns

end

theorem constantType?_move (n : Node) : constantType? (n.move f) = constantType? n := by
  simp only [constantType?, unwrap_move, kind_move, text_move]

theorem castType?_move (n : Node) : castType? (n.move f) = castType? n := by
  simp only [castType?, namedChildren_move, children_move]
  cases n.namedChildren with
  | nil => rfl
  | cons first others =>
    simp [constantType?_move, Option.any_map, Option.map_map, Function.comp_def]

theorem operatorType?_move (n : Node) : operatorType? (n.move f) = operatorType? n := by
  simp only [operatorType?, textOf_move, child?_move, Option.any_map, unwrap_move, kind_move]

theorem constructedType?_move (n : Node) : constructedType? (n.move f) = constructedType? n := by
  simp [constructedType?, Option.map_map, Function.comp_def]

theorem plainType?_move (n : Node) : plainType? (n.move f) = plainType? n := by
  simp only [plainType?, kind_move, castType?_move, operatorType?_move, constructedType?_move]

theorem expressionType?_of_ne {n : Node} (hp : n.kind ≠ .parenthesized) (ha : n.kind ≠ .array) :
    expressionType? n = plainType? n := by
  apply expressionType?.eq_3
  · rintro role text start lastLine children rfl
    exact hp rfl
  · rintro role text start lastLine children rfl
    exact ha rfl

mutual

theorem expressionType?_move : ∀ n : Node, expressionType? (n.move f) = expressionType? n
  | .mk role kind text start lastLine children => by
    by_cases hp : kind = .parenthesized
    · subst hp
      rw [move, expressionType?, expressionType?]
      exact firstType?_move children
    · by_cases ha : kind = .array
      · subst ha
        rw [move, expressionType?, expressionType?, elementTypes_move children]
      · have hp' : (Node.mk role kind text start lastLine children).kind ≠ .parenthesized := hp
        have ha' : (Node.mk role kind text start lastLine children).kind ≠ .array := ha
        rw [expressionType?_of_ne hp' ha', expressionType?_of_ne (by simpa using hp') (by simpa using ha'),
          plainType?_move]

theorem firstType?_move : ∀ ns : List Node, firstType? (moveAll f ns) = firstType? ns
  | [] => rfl
  | n :: ns => by
    rw [moveAll, firstType?, firstType?, isNamed_move, expressionType?_move n, firstType?_move ns]

theorem elementTypes_move : ∀ ns : List Node, elementTypes (moveAll f ns) = elementTypes ns
  | [] => rfl
  | n :: ns => by
    rw [moveAll, elementTypes, elementTypes, isNamed_move, expressionType?_move n, elementTypes_move ns]

end

mutual

theorem returnsValue_move : ∀ n : Node, returnsValue (n.move f) = returnsValue n
  | .mk role kind text start lastLine children => by
    rw [move, returnsValue, returnsValue]
    exact anyReturnsValue_move children

theorem anyReturnsValue_move : ∀ ns : List Node, anyReturnsValue (moveAll f ns) = anyReturnsValue ns
  | [] => rfl
  | n :: ns => by
    rw [moveAll, anyReturnsValue, anyReturnsValue, returnsValue_move n, anyReturnsValue_move ns]
    simp

end

/-! Patterns -/

mutual

theorem boundNames_move : ∀ n : Node, boundNames (n.move f) = (boundNames n).map (move f)
  | .mk role kind text start lastLine children => by
    cases kind with
    | pairPattern => exact boundNamesAs_move .value children
    | objectAssignmentPattern => exact boundNamesAs_move .left children
    | assignmentPattern => exact boundNamesAs_move .left children
    | objectPattern => exact boundNamesIn_move children
    | arrayPattern => exact boundNamesIn_move children
    | restPattern => exact boundNamesIn_move children
    | _ => rfl

theorem boundNamesAs_move (role : Role) : ∀ ns : List Node,
    boundNamesAs role (moveAll f ns) = (boundNamesAs role ns).map (move f)
  | [] => rfl
  | n :: ns => by
    rw [moveAll, boundNamesAs, boundNamesAs, role_move]
    split
    · exact boundNames_move n
    · exact boundNamesAs_move role ns

theorem boundNamesIn_move : ∀ ns : List Node, boundNamesIn (moveAll f ns) = (boundNamesIn ns).map (move f)
  | [] => rfl
  | n :: ns => by
    rw [moveAll, boundNamesIn, boundNamesIn, boundNames_move n, boundNamesIn_move ns, List.map_append]

end

/-! Doc comments and texts -/

theorem isDocNode_move (n : Node) : isDocNode (n.move f) = isDocNode n := by
  simp only [isDocNode, kind_move, text_move]

theorem parseDoc?_move (n : Node) : parseDoc? (n.move f) = parseDoc? n := by
  simp only [parseDoc?, text_move]

theorem clauseType?_move (clause : Option Node) : clauseType? (clause.map (move f)) = clauseType? clause := by
  cases clause with
  | none => rfl
  | some n => simp only [clauseType?, Option.map_some, Option.bind_some, text_move]

namespace Reader

structure Moved (f : Position → Position) (r r' : Reader) : Prop where
  injective : Function.Injective f
  line : ∀ p, (f p).line = p.line
  comment : r'.moduleComment = r.moduleComment.map f

theorem genericParams_move (clause : Option Node) : genericParams (clause.map (move f)) = genericParams clause := by
  cases clause with
  | none => rfl
  | some n =>
    simp [genericParams, List.filterMap_map, Function.comp_def, Option.map_map]

theorem modifiers_move (n : Node) : modifiers (n.move f) = modifiers n := by
  simp only [modifiers, children_move, List.filterMap_map, Function.comp_def, kind_move, text_move]

theorem bodyType?_move (n : Node) : bodyType? (n.move f) = bodyType? n := by
  simp only [bodyType?, kind_move, expressionType?_move, returnsValue_move]

variable {r r' : Reader}

theorem Moved.docBefore? (h : Moved f r r') (before : Option Node) :
    r'.docBefore? (before.map (move f)) = r.docBefore? before := by
  cases before with
  | none => rfl
  | some n =>
    have hsame : (r'.moduleComment != some (f n.start)) = (r.moduleComment != some n.start) := by
      rw [h.comment]
      cases r.moduleComment with
      | none => rfl
      | some m =>
        rw [Bool.eq_iff_iff]
        simp [h.injective.eq_iff]
    simp only [Reader.docBefore?, Option.map_some, Option.bind_some, isDocNode_move, parseDoc?_move, start_move, hsame]

/-! Functions and values -/

theorem parameter_move (doc : Option DocComment) (owner : String) (n : Node) :
    (r'.parameter doc owner (n.move f)).value = (r.parameter doc owner n).value := by
  simp only [parameter, child?_move, hasError_move]
  cases n.child? .pattern with
  | none => rfl
  | some pattern =>
    cases n.hasError with
    | true => rfl
    | false =>
      simp only [Option.map_some, kind_move]
      split
      · rfl
      · have hvalue : ((n.child? .value).map (move f)).bind expressionType? = (n.child? .value).bind expressionType? := by
          simp only [Option.bind_map, Function.comp_def, expressionType?_move]
        simp [clauseType?_move, hvalue, Option.map_map, Function.comp_def]

theorem parameters_move (n : Node) (doc : Option DocComment) (owner : String) :
    (r'.parameters (n.move f) doc owner).value = (r.parameters n doc owner).value := by
  simp only [parameters, child?_move]
  cases n.child? .parameter with
  | some single => simp
  | none =>
    cases n.child? .parameters with
    | none => rfl
    | some list =>
      simp only [Noted.value_bind, Noted.value_pure, Noted.value_mapM, Option.map_none, Option.map_some, Option.getD_some,
        namedChildren_move, List.filter_map, List.map_map, Function.comp_def, kind_move, parameter_move (r := r)]

theorem returnType_move (n : Node) (owner : String) :
    (r'.returnType (n.move f) owner).value = (r.returnType n owner).value := by
  simp only [returnType, child?_move, clauseType?_move, hasToken_move]
  cases clauseType? (n.child? .returns) with
  | some t => rfl
  | none =>
    cases n.child? .body with
    | none => rfl
    | some body =>
      simp only [Option.map_some, bodyType?_move]
      cases bodyType? body <;> rfl

theorem asFunction_move (d : Declaration) (n : Node) (doc : Option DocComment) :
    (r'.asFunction d (n.move f) doc).value = (r.asFunction d n doc).value := by
  simp only [asFunction, Noted.value_bind, Noted.value_pure, parameters_move (r := r), returnType_move (r := r),
    child?_move, genericParams_move, textOf_move]

theorem asValue_move (d : Declaration) (value : Option Node) :
    (r'.asValue d (value.map (move f))).value = (r.asValue d value).value := by
  have htype : (value.map (move f)).bind expressionType? = value.bind expressionType? := by
    simp only [Option.bind_map, Function.comp_def, expressionType?_move]
  simp only [asValue, htype]
  cases value.bind expressionType? <;> rfl

/-! Members -/

theorem typed_move (d : Declaration) (n : Node) (symbol : String) (type : Option String) :
    (fieldMember.typed r' d (n.move f) symbol type).value = (fieldMember.typed r d n symbol type).value := by
  cases type <;> rfl

theorem fieldMember_move (d : Declaration) (n : Node) (doc : Option DocComment) (symbol : String) :
    (r'.fieldMember d (n.move f) doc symbol).value = (r.fieldMember d n doc symbol).value := by
  simp only [fieldMember, child?_move, clauseType?_move]
  cases clauseType? (n.child? .type) with
  | some t => rfl
  | none =>
    cases n.child? .value with
    | none => rfl
    | some v =>
      simp only [Option.map_some, unwrap_move, kind_move, expressionType?_move]
      split
      · exact asFunction_move d (unwrap v) doc
      · exact typed_move d n symbol _

variable (h : Moved f r r')

include h

theorem classMember_move (owner : String) (members : List Declaration) (p : Placed) :
    (r'.classMember owner members (p.move f)).value = (r.classMember owner members p).value := by
  have hdoc : r'.docBefore? (p.move f).before = r.docBefore? p.before := h.docBefore? p.before
  have hline : (f p.node.start).line = p.node.start.line := h.line _
  have hnode : (p.move f).node = p.node.move f := rfl
  simp only [classMember, hdoc, hnode, child?_move]
  cases p.node.child? .name with
  | none => rfl
  | some nameNode =>
    simp only [Option.map_some, kind_move, text_move, hasError_move, start_move, hline, modifiers_move, hasToken_move]
    split
    · rfl
    split
    · rfl
    split
    · simp only [Noted.value_bind, Noted.value_pure, fieldMember_move (r := r)]
    split
    · simp only [Noted.value_bind, Noted.value_pure, returnType_move (r := r)]
    split
    · split
      · rfl
      · simp only [Noted.value_bind, Noted.value_pure, parameters_move (r := r)]
    · simp only [Noted.value_bind, Noted.value_pure, asFunction_move (r := r)]

theorem classMembers_move (owner : String) (body : List Placed) (members : List Declaration) :
    ((body.map (Placed.move f)).foldlM
        (fun ms (p : Placed) => if p.node.isNamed then r'.classMember owner ms p else pure ms) members).value =
      (body.foldlM (fun ms (p : Placed) => if p.node.isNamed then r.classMember owner ms p else pure ms)
        members).value := by
  induction body generalizing members with
  | nil => rfl
  | cons p body ih =>
    have hstep : (if (p.move f).node.isNamed then r'.classMember owner members (p.move f) else pure members).value =
        (if p.node.isNamed then r.classMember owner members p else pure members).value := by
      have hnamed : (p.move f).node.isNamed = p.node.isNamed := isNamed_move p.node
      rw [hnamed]
      split
      · exact classMember_move h owner members p
      · rfl
    rw [List.map_cons, List.foldlM_cons, List.foldlM_cons, Noted.value_bind, Noted.value_bind, hstep]
    exact ih _

theorem asClass_move (d : Declaration) (n : Node) : (r'.asClass d (n.move f)).value = (r.asClass d n).value := by
  have hbody : (((n.child? .body).map (move f)).map Node.placedChildren).getD [] =
      (((n.child? .body).map Node.placedChildren).getD []).map (Placed.move f) := by
    cases n.child? .body with
    | none => rfl
    | some body => exact placedChildren_move body
  have hclauses : (((n.childOfKind? .classHeritage).map (move f)).map Node.namedChildren).getD [] =
      (((n.childOfKind? .classHeritage).map Node.namedChildren).getD []).map (move f) := by
    cases n.childOfKind? .classHeritage with
    | none => rfl
    | some clause => exact namedChildren_move clause
  simp only [asClass, Noted.value_bind, Noted.value_pure, child?_move, childOfKind?_move, hbody, hclauses,
    classMembers_move h, kind_move, genericParams_move, List.filterMap_map, List.flatMap_map, Function.comp_def,
    text_move, namedChildren_move,
    List.map_map]

theorem typeMember_move (p : Placed) : (r'.typeMember (p.move f)).value = (r.typeMember p).value := by
  have hdoc : r'.docBefore? (p.move f).before = r.docBefore? p.before := h.docBefore? p.before
  have hline : (f p.node.start).line = p.node.start.line := h.line _
  have hnode : (p.move f).node = p.node.move f := rfl
  simp only [typeMember, hdoc, hnode, child?_move]
  cases p.node.child? .name with
  | none => rfl
  | some nameNode =>
    simp only [Option.map_some, kind_move, text_move, start_move, hline, hasToken_move, clauseType?_move]
    split
    · rfl
    split
    · simp only [Noted.value_bind, Noted.value_pure, asFunction_move (r := r)]
    · rfl

theorem asInterface_move (d : Declaration) (n : Node) :
    (r'.asInterface d (n.move f)).value = (r.asInterface d n).value := by
  have hbody (body : Node) : (r'.typeMembers (body.move f)).value = (r.typeMembers body).value := by
    simp only [typeMembers, Noted.value_bind, Noted.value_pure, Noted.value_mapM, placedChildren_move, List.map_map,
      Function.comp_def, typeMember_move h]
  have hextended : ((n.childOfKind? .extendsTypes).map (move f)).map (fun c => c.namedChildren.map Node.text) =
      (n.childOfKind? .extendsTypes).map fun c => c.namedChildren.map Node.text := by
    simp [Option.map_map, Function.comp_def]
  simp only [asInterface, child?_move, childOfKind?_move, genericParams_move, hextended]
  cases n.child? .body with
  | none => rfl
  | some body => simp only [Option.map_some, Noted.value_bind, Noted.value_pure, hbody]

theorem enumMember?_move (p : Placed) : r'.enumMember? (p.move f) = r.enumMember? p := by
  have hdoc : r'.docBefore? (p.move f).before = r.docBefore? p.before := h.docBefore? p.before
  have hline : (f p.node.start).line = p.node.start.line := h.line _
  have hnode : (p.move f).node = p.node.move f := rfl
  simp only [enumMember?, hdoc, hnode, kind_move, text_move, start_move, hline, textOf_move, child?_move, Option.map_map,
    Function.comp_def]

theorem asEnum_move (d : Declaration) (n : Node) : r'.asEnum d (n.move f) = r.asEnum d n := by
  simp only [asEnum, child?_move]
  cases n.child? .body with
  | none => rfl
  | some body =>
    simp only [Option.map_some, Option.getD_some, placedChildren_move, List.filterMap_map, Function.comp_def,
      enumMember?_move h]

/-! Declarations -/

theorem asVariable_move (d : Declaration) (n : Node) (doc : Option DocComment) :
    (r'.asVariable d (n.move f) doc).value = (r.asVariable d n doc).value := by
  simp only [asVariable, child?_move, clauseType?_move]
  cases n.child? .value with
  | none =>
    cases clauseType? (n.child? .type) with
    | none => exact asValue_move (f := f) d none
    | some t => rfl
  | some v =>
    simp only [Option.map_some, unwrap_move, kind_move, Option.any_some]
    split
    · simp only [Noted.value_bind, Noted.value_pure, asFunction_move (r := r)]
    split
    · exact asClass_move h d (unwrap v)
    · cases clauseType? (n.child? .type) with
      | none => exact asValue_move d (some (unwrap v))
      | some t => rfl

theorem read_move (name : String) (n : Node) {before before' : Option Node}
    (hdoc : r'.docBefore? before' = r.docBefore? before) :
    (r'.read name (n.move f) before').value = (r.read name n before).value := by
  have hline : (f n.start).line = n.start.line := h.line _
  simp only [read, hdoc, kind_move, start_move, hline]
  split
  · rfl
  split
  · simp only [Noted.value_bind, Noted.value_pure, asFunction_move (r := r)]
  split
  · simp only [Noted.value_bind, Noted.value_pure, asClass_move h]
  split
  · simp only [Noted.value_pure, textOf_move, child?_move, genericParams_move]
  · simp only [Noted.value_bind, Noted.value_pure, asInterface_move h]
  · simp only [Noted.value_pure, asEnum_move h]
  · simp only [Noted.value_bind, Noted.value_pure, asVariable_move h]
  · have hvalue (d : Declaration) : (r'.asValue d (some (n.move f))).value = (r.asValue d (some n)).value :=
      asValue_move d (some n)
    simp only [Noted.value_bind, Noted.value_pure, hvalue]

omit h

theorem read_withRole (name : String) (n : Node) (role : Role) (before : Option Node) :
    r.read name (n.withRole role) before = r.read name n before := by
  cases n with
  | mk role' kind text start lastLine children => cases kind <;> rfl

end Reader

end Code

end ApiCatalog
