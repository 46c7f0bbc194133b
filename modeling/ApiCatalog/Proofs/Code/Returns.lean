import Mathlib.Logic.Relation
import ApiCatalog.Proofs.Code.DefaultExport
import ApiCatalog.Syntax.Program

namespace ApiCatalog.Code

open Syntax Relation

variable {body m n : Node} {r : Reader}

/-! Return statements of a function -/

def hasOwnStatements : Kind → Bool
  | .functionDeclaration | .generatorDeclaration | .functionSignature => true
  | .arrowFunction | .functionExpression | .generatorFunction => true
  | .classDeclaration | .abstractClassDeclaration | .classExpression => true
  | .methodDefinition => true
  | _ => false

theorem isScope_eq (k : Kind) : isScope k = hasOwnStatements k := by
  cases k <;> rfl

def IsPart (n c : Node) : Prop :=
  c ∈ n.namedChildren ∧ hasOwnStatements c.kind = false

/-- What is inside a body at any depth, and in no function, method or class inside it. -/
def BelongsTo (body : Node) : Node → Prop :=
  TransGen IsPart body

/-- A return statement with a value. A comment in the place of the value counts as one. -/
def ReturnsSomething (m : Node) : Prop :=
  m.kind = .returnStatement ∧ m.namedChildren ≠ []

def GivesValue (body : Node) : Prop :=
  ∃ m, BelongsTo body m ∧ ReturnsSomething m

theorem anyReturnsValue_iff (cs : List Node) :
    anyReturnsValue cs = true ↔ ∃ c ∈ cs, c.isNamed = true ∧ hasOwnStatements c.kind = false ∧
      (ReturnsSomething c ∨ returnsValue c = true) := by
  induction cs with
  | nil => simp [anyReturnsValue]
  | cons c cs ih =>
    rw [anyReturnsValue, Bool.or_eq_true, ih, isScope_eq]
    simp [ReturnsSomething, and_assoc]

theorem givesValue_iff :
    GivesValue n ↔ ∃ c, IsPart n c ∧ (ReturnsSomething c ∨ GivesValue c) := by
  constructor
  · rintro ⟨m, hm, hreturns⟩
    obtain ⟨c, hc, hrest⟩ := TransGen.head'_iff.mp hm
    rcases reflTransGen_iff_eq_or_transGen.mp hrest with rfl | hrest
    · exact ⟨_, hc, .inl hreturns⟩
    · exact ⟨c, hc, .inr ⟨m, hrest, hreturns⟩⟩
  · rintro ⟨c, hc, hreturns | ⟨m, hm, hreturns⟩⟩
    · exact ⟨c, .single hc, hreturns⟩
    · exact ⟨m, .head hc hm, hreturns⟩

theorem returnsValue_iff : ∀ n : Node, returnsValue n = true ↔ GivesValue n
  | .mk role kind text start lastLine children => by
    have ih : ∀ c ∈ children, (returnsValue c = true ↔ GivesValue c) := fun c hc => returnsValue_iff c
    rw [returnsValue, anyReturnsValue_iff, givesValue_iff]
    constructor
    · rintro ⟨c, hc, hnamed, hown, h⟩
      exact ⟨c, ⟨List.mem_filter.mpr ⟨hc, hnamed⟩, hown⟩, h.imp_right (ih c hc).mp⟩
    · rintro ⟨c, ⟨hmem, hown⟩, h⟩
      obtain ⟨hc, hnamed⟩ := List.mem_filter.mp hmem
      exact ⟨c, hc, hnamed, hown, h.imp_right (ih c hc).mpr⟩

/-! Inferred types -/

namespace Reader

def awaited (n : Node) (t : String) : String :=
  if n.hasToken "async" then "Promise<" ++ t ++ ">" else t

def noReturnType (r : Reader) (n : Node) (owner : String) : Diagnostic where
  kind := .typeExtraction
  file := r.file
  line := some n.start.line
  column := some n.start.column
  message := "Failed to infer return type of \"" ++ owner ++ "\"; add a return type annotation"
  symbol := some owner

theorem awaited_void_ne (n : Node) : awaited n "void" ≠ awaited n "unknown" := by
  unfold awaited
  split <;> decide

theorem returnType_of_block (r : Reader) (owner : String) (hclause : clauseType? (n.child? .returns) = none)
    (hbody : n.child? .body = some body) (hblock : body.kind = .statementBlock) :
    r.returnType n owner =
      if returnsValue body then { value := awaited n "unknown", diagnostics := [r.noReturnType n owner] }
      else { value := awaited n "void" } := by
  have htype : bodyType? body = if returnsValue body then none else some "void" := by simp [bodyType?, hblock]
  rw [returnType, hclause, hbody]
  cases hreturns : returnsValue body <;> simp [htype, hreturns] <;> rfl

theorem asFunction_returnType (r : Reader) (d : Declaration) (n : Node) (doc : Option DocComment) :
    (r.asFunction d n doc).value.returnType = some (r.returnType n d.name).value ∧
      (r.asFunction d n doc).diagnostics =
        (r.parameters n doc d.name).diagnostics ++ (r.returnType n d.name).diagnostics := by
  rw [asFunction]
  exact ⟨rfl, congrArg (_ ++ ·) (List.append_nil _)⟩

structure ReadsGetter (r : Reader) (p : Placed) (name : Node) : Prop where
  kind : p.node.kind = .methodDefinition
  get : p.node.hasToken "get"
  named : p.node.child? .name = some name
  notPrivate : name.kind ≠ .privateName
  shown : ¬ r.Hides p.before
  readable : p.node.hasError = false

theorem ReadsGetter.classMember {p : Placed} {name : Node} (h : r.ReadsGetter p name) (owner : String)
    (members : List Declaration) :
    ∃ d, (r.classMember owner members p).value = members ++ [d] ∧ d.name = name.text ∧
      d.typeSignature = some (r.returnType p.node (owner ++ "." ++ name.text)).value ∧
      (r.classMember owner members p).diagnostics = (r.returnType p.node (owner ++ "." ++ name.text)).diagnostics := by
  have hmember : isClassMember .methodDefinition = true := rfl
  have hshown : (r.docBefore? p.before).any (·.hidden) = false := eq_false_of_ne_true h.shown
  simp [Reader.classMember, h.named, h.kind, hmember, h.get, h.notPrivate, hshown, h.readable, (documented_shape _ _).1,
    -bind_pure_comp]

theorem inferred_return_type (hclause : clauseType? (n.child? .returns) = none) (hbody : n.child? .body = some body)
    (hblock : body.kind = .statementBlock) :
    (∀ owner,
      ((r.returnType n owner).value = awaited n "void" ↔ ¬ GivesValue body) ∧
      ((r.returnType n owner).value = awaited n "unknown" ↔ GivesValue body) ∧
      (¬ GivesValue body → (r.returnType n owner).diagnostics = []) ∧
      (GivesValue body → (r.returnType n owner).diagnostics = [r.noReturnType n owner])) ∧
    (∀ d doc,
      (r.asFunction d n doc).value.returnType = some (r.returnType n d.name).value ∧
      (r.asFunction d n doc).diagnostics =
        (r.parameters n doc d.name).diagnostics ++ (r.returnType n d.name).diagnostics) ∧
    ∀ owner members before name, r.ReadsGetter ⟨before, n⟩ name →
      ∃ d, (r.classMember owner members ⟨before, n⟩).value = members ++ [d] ∧ d.name = name.text ∧
        d.typeSignature = some (r.returnType n (owner ++ "." ++ name.text)).value ∧
        (r.classMember owner members ⟨before, n⟩).diagnostics =
          (r.returnType n (owner ++ "." ++ name.text)).diagnostics := by
  refine ⟨fun owner => ?_, fun d doc => r.asFunction_returnType d n doc, fun owner members before name h =>
    h.classMember owner members⟩
  rw [r.returnType_of_block owner hclause hbody hblock, ← returnsValue_iff]
  cases returnsValue body with
  | true => simp [(awaited_void_ne n).symm]
  | false => simp [awaited_void_ne n]

end Reader

def exportedFunctions (root : Node) : List Node :=
  root.namedChildren.filterMap (·.child? .declaration)

def loadAndLog : Node :=
  parseScript ("export async function load(x) \x7b for (;;) \x7b return x \x7d \x7d\n" ++
    "export function log() \x7b f(() => \x7b return 1 \x7d); return \x7d")

theorem inferred_return_type_loadAndLog :
    ∃ load log loadBody logBody, exportedFunctions loadAndLog = [load, log] ∧
      load.child? .body = some loadBody ∧ log.child? .body = some logBody ∧
      ((Reader.ofRoot "m.ts" loadAndLog).returnType load "load").value = "Promise<unknown>" ∧ GivesValue loadBody ∧
      ((Reader.ofRoot "m.ts" loadAndLog).returnType log "log").value = "void" ∧ ¬ GivesValue logBody := by
  have hread : (exportedFunctions loadAndLog).map (fun n => (clauseType? (n.child? .returns),
      (n.child? .body).map Node.kind, n.hasToken "async", ((Reader.ofRoot "m.ts" loadAndLog).returnType n "load").value,
      ((Reader.ofRoot "m.ts" loadAndLog).returnType n "log").value)) =
      [(none, some .statementBlock, true, "Promise<unknown>", "Promise<unknown>"),
        (none, some .statementBlock, false, "void", "void")] := by
    decide +kernel
  obtain ⟨load, rest, hfunctions, hload, hrest⟩ := List.map_eq_cons_iff.mp hread
  obtain ⟨log, rest, rfl, hlog, hnil⟩ := List.map_eq_cons_iff.mp hrest
  obtain rfl := List.map_eq_nil_iff.mp hnil
  simp only [Prod.mk.injEq, Option.map_eq_some_iff] at hload hlog
  obtain ⟨hclause, ⟨loadBody, hbody, hblock⟩, hasync, htype, -⟩ := hload
  obtain ⟨hclause', ⟨logBody, hbody', hblock'⟩, hsync, -, htype'⟩ := hlog
  obtain ⟨-, hgives, -⟩ := (Reader.inferred_return_type hclause hbody hblock).1 "load"
  obtain ⟨hnothing, -⟩ := (Reader.inferred_return_type hclause' hbody' hblock').1 "log"
  refine ⟨load, log, loadBody, logBody, hfunctions, hbody, hbody', htype, hgives.mp ?_, htype', hnothing.mp ?_⟩
  · rw [htype, Reader.awaited, if_pos hasync]
    rfl
  · rw [htype', Reader.awaited, if_neg (by simp [hsync])]

/-! Generators -/

def isGenerator (n : Node) : Bool :=
  n.kind == .generatorDeclaration || n.kind == .generatorFunction || (n.kind == .methodDefinition && n.hasToken "*")

def idGenerator : Node :=
  parseScript "export function* ids() \x7b yield 1; \x7d"

theorem generator_without_value :
    ((exportedFunctions idGenerator).map fun n => (isGenerator n, clauseType? (n.child? .returns))) = [(true, none)] ∧
    (analyzeCode "m.ts" "m.ts" (fun _ => none) idGenerator).value.declarations.map (fun d => (d.name, d.returnType)) =
      [("ids", some "void")] ∧
    (analyzeCode "m.ts" "m.ts" (fun _ => none) idGenerator).diagnostics = [] := by
  decide +kernel

end ApiCatalog.Code
