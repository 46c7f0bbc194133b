import Mathlib.Data.List.Induction
import ApiCatalog.Proofs.Code.Clashes

namespace ApiCatalog.Code

open Syntax

structure Occurrence where
  name : String
  place : Position
  shorthand : Bool
  deriving DecidableEq

namespace Occurrence

def kind (o : Occurrence) : Kind :=
  if o.shorthand then .shorthandPattern else if o.name = "undefined" then .undefinedLiteral else .identifier

def isFound (o : Occurrence) : Bool :=
  o.shorthand || o.name != "undefined"

def ofNode (i : Node) : Occurrence :=
  ⟨i.text, i.start, i.kind == .shorthandPattern⟩

def declaration (o : Occurrence) : Declaration where
  name := o.name
  kind := .value
  sourceLine := some o.place.line
  typeSignature := some "unknown"

def report (file : String) (start : Position) (o : Occurrence) : Diagnostic where
  kind := .typeExtraction
  file := file
  line := some start.line
  column := some start.column
  message := "Failed to extract type for \"" ++ o.name ++ "\"; add a type annotation"
  symbol := some o.name

end Occurrence

/-! Patterns and their trees -/

inductive BindingPattern where
  | name (o : Occurrence)
  | pair (key : String) (target : BindingPattern)
  | initialized (target : BindingPattern) (default : String)
  | rest (target : BindingPattern)
  | object (parts : List BindingPattern)
  | array (parts : List BindingPattern)

def partsOf (n : Node) : List Node :=
  n.namedChildren.filter fun c => c.kind != .comment && c.kind != .markupComment

namespace BindingPattern

def takesApart : BindingPattern → Bool
  | object _ => true
  | array _ => true
  | _ => false

mutual

def bound : BindingPattern → List Occurrence
  | name o => [o]
  | pair _ target => target.bound
  | initialized target _ => target.bound
  | rest target => target.bound
  | object parts => boundIn parts
  | array parts => boundIn parts

def boundIn : List BindingPattern → List Occurrence
  | [] => []
  | p :: ps => p.bound ++ boundIn ps

end

mutual

def fits : BindingPattern → Node → Bool
  | name o, n => n.kind == o.kind && Occurrence.ofNode n == o
  | pair key target, n => n.kind == .pairPattern && n.textOf .key == key && (n.child? .value).any target.fits
  | initialized target default, n =>
    (n.kind == .assignmentPattern || n.kind == .objectAssignmentPattern) && n.textOf .right == default &&
      (n.child? .left).any target.fits
  | rest target, n => n.kind == .restPattern && (partsOf n).length == 1 && (partsOf n).all target.fits
  | object parts, n => n.kind == .objectPattern && fitAll parts (partsOf n)
  | array parts, n => n.kind == .arrayPattern && fitAll parts (partsOf n)

def fitAll : List BindingPattern → List Node → Bool
  | [], ns => ns.isEmpty
  | p :: ps, ns => ns.head?.any p.fits && fitAll ps ns.tail

end

end BindingPattern

/-! The names that are found -/

section Found

variable {n : Node}

theorem boundNames_of_aside (h : (n.isNamed && (n.kind != .comment && n.kind != .markupComment)) = false) :
    boundNames n = [] := by
  obtain ⟨role, kind, text, start, lastLine, children⟩ := n
  cases kind with
  | token _ | comment | markupComment => rfl
  | _ => cases h

theorem boundNamesIn_filter {q : Node → Bool} (h : ∀ c, q c = false → boundNames c = []) (cs : List Node) :
    boundNamesIn cs = boundNamesIn (cs.filter q) := by
  induction cs with
  | nil => rfl
  | cons c cs ih =>
    rw [boundNamesIn, ih, List.filter_cons]
    split
    · rw [boundNamesIn]
    · case isFalse hq => rw [h c (eq_false_of_ne_true hq), List.nil_append]

theorem boundNamesIn_children (n : Node) : boundNamesIn n.children = boundNamesIn (partsOf n) := by
  rw [partsOf, Node.namedChildren, List.filter_filter]
  apply boundNamesIn_filter
  intro c hc
  apply boundNames_of_aside
  rw [← hc, Bool.and_comm]

theorem boundNamesAs_eq (role : Role) (cs : List Node) :
    boundNamesAs role cs = (cs.find? fun c => c.role == some role).elim [] boundNames := by
  induction cs with
  | nil => rfl
  | cons c cs ih =>
    rw [boundNamesAs, List.find?_cons, ih]
    split
    · case isTrue hrole => rw [hrole]; rfl
    · case isFalse hrole => rw [eq_false_of_ne_true hrole]

theorem boundNames_of_pair (h : n.kind = .pairPattern) : boundNames n = (n.child? .value).elim [] boundNames := by
  obtain ⟨role, kind, text, start, lastLine, children⟩ := n
  cases h
  exact boundNamesAs_eq .value children

theorem boundNames_of_initialized (h : n.kind = .assignmentPattern ∨ n.kind = .objectAssignmentPattern) :
    boundNames n = (n.child? .left).elim [] boundNames := by
  obtain ⟨role, kind, text, start, lastLine, children⟩ := n
  rcases h with h | h <;> cases h <;> exact boundNamesAs_eq .left children

theorem boundNames_of_parts (h : n.kind = .restPattern ∨ n.kind = .objectPattern ∨ n.kind = .arrayPattern) :
    boundNames n = boundNamesIn (partsOf n) := by
  rw [← boundNamesIn_children]
  obtain ⟨role, kind, text, start, lastLine, children⟩ := n
  rcases h with h | h | h <;> cases h <;> rfl

theorem boundNames_of_identifier (h : n.kind = .identifier ∨ n.kind = .shorthandPattern) : boundNames n = [n] := by
  obtain ⟨role, kind, text, start, lastLine, children⟩ := n
  rcases h with h | h <;> cases h <;> rfl

theorem boundNames_of_undefined (h : n.kind = .undefinedLiteral) : boundNames n = [] := by
  obtain ⟨role, kind, text, start, lastLine, children⟩ := n
  cases h
  rfl

theorem boundNames_of_name {o : Occurrence} (h : n.kind = o.kind) :
    boundNames n = if o.isFound then [n] else [] := by
  rw [Occurrence.kind] at h
  rw [Occurrence.isFound]
  split at h
  · case isTrue hshorthand =>
    rw [boundNames_of_identifier (.inr h), hshorthand]
    rfl
  case isFalse hshorthand =>
  split at h
  · case isTrue hname =>
    rw [boundNames_of_undefined h, eq_false_of_ne_true hshorthand, hname]
    rfl
  · case isFalse hname =>
    rw [boundNames_of_identifier (.inl h), if_pos]
    simp [hname]

end Found

namespace BindingPattern

-- The induction is on the pattern; the tree is opened by the kind that the pattern asks for.
mutual

theorem boundNames_of_fits : ∀ {p : BindingPattern} {n : Node}, p.fits n →
    (boundNames n).map Occurrence.ofNode = p.bound.filter Occurrence.isFound
  | name o, n, h => by
    rw [fits, Bool.and_eq_true, beq_iff_eq, beq_iff_eq] at h
    obtain ⟨hkind, rfl⟩ := h
    rw [boundNames_of_name hkind, bound]
    cases hfound : (Occurrence.ofNode n).isFound <;> simp [hfound]
  | pair key target, n, h => by
    simp only [fits, Bool.and_eq_true, beq_iff_eq, Option.any_eq_true] at h
    obtain ⟨⟨hkind, _⟩, t, ht, hfits⟩ := h
    rw [boundNames_of_pair hkind, ht, bound]
    exact boundNames_of_fits hfits
  | initialized target default, n, h => by
    simp only [fits, Bool.and_eq_true, Bool.or_eq_true, beq_iff_eq, Option.any_eq_true] at h
    obtain ⟨⟨hkind, _⟩, t, ht, hfits⟩ := h
    rw [boundNames_of_initialized hkind, ht, bound]
    exact boundNames_of_fits hfits
  | rest target, n, h => by
    simp only [fits, Bool.and_eq_true, beq_iff_eq, List.all_eq_true] at h
    obtain ⟨⟨hkind, hlength⟩, hfits⟩ := h
    obtain ⟨t, ht⟩ := List.length_eq_one_iff.mp hlength
    rw [ht, List.forall_mem_singleton] at hfits
    rw [boundNames_of_parts (.inl hkind), ht, boundNamesIn, boundNamesIn, List.append_nil, bound]
    exact boundNames_of_fits hfits
  | object parts, n, h => by
    rw [fits, Bool.and_eq_true, beq_iff_eq] at h
    rw [boundNames_of_parts (.inr (.inl h.1)), bound]
    exact boundNamesIn_of_fitAll h.2
  | array parts, n, h => by
    rw [fits, Bool.and_eq_true, beq_iff_eq] at h
    rw [boundNames_of_parts (.inr (.inr h.1)), bound]
    exact boundNamesIn_of_fitAll h.2

theorem boundNamesIn_of_fitAll : ∀ {ps : List BindingPattern} {ns : List Node}, fitAll ps ns →
    (boundNamesIn ns).map Occurrence.ofNode = (boundIn ps).filter Occurrence.isFound
  | [], ns, h => by
    rw [fitAll, List.isEmpty_iff] at h
    subst h
    rfl
  | p :: ps, ns, h => by
    rw [fitAll, Bool.and_eq_true] at h
    cases ns with
    | nil => cases h.1
    | cons n ns =>
      rw [boundNamesIn, boundIn, List.map_append, List.filter_append]
      exact congrArg₂ (· ++ ·) (boundNames_of_fits h.1) (boundNamesIn_of_fitAll h.2)

end

theorem kind_of_takesApart {p : BindingPattern} {n : Node} (htakes : p.takesApart) (h : p.fits n) :
    n.kind ≠ .identifier := by
  cases p with
  | object parts | array parts =>
    rw [fits, Bool.and_eq_true, beq_iff_eq] at h
    rw [h.1]
    decide
  | _ => cases htakes

end BindingPattern

/-! The exports -/

def boundBySingle? (st : Placed) : Option Node :=
  ((st.node.child? .declaration).bind declared?).bind fun d =>
    if isVariableStatement d.kind then
      match declarators d with
      | [v] => v.child? .name
      | _ => none
    else none

def onlyExport? (root : Node) : Option Node :=
  match (statements root).filter fun st => st.node.kind == .exportStatement with
  | [st] => boundBySingle? st
  | _ => none

section Offers

variable {s : Surroundings} {st : Placed} {root n : Node}

def offerBound (s : Surroundings) (place : Position) (i : Node) : Noted (Option Offer) :=
  Surroundings.offerDeclaration place do
    let d ← s.reader.asValue { name := i.text, kind := .value, sourceLine := some i.start.line } none
    pure (some d)

theorem value_offerBound (s : Surroundings) (place : Position) (i : Node) :
    (offerBound s place i).value = some ⟨.declaration (Occurrence.ofNode i).declaration, place⟩ := rfl

theorem diagnostics_offerBound (s : Surroundings) (place : Position) (i : Node) :
    (offerBound s place i).diagnostics = [(Occurrence.ofNode i).report s.reader.file s.reader.start] := rfl

theorem offersOfStatement_of_pattern (hexport : st.node.kind = .exportStatement) (h : boundBySingle? st = some n)
    (hn : n.kind ≠ .identifier) : s.offersOfStatement st = (boundNames n).map (offerBound s st.node.start) := by
  obtain ⟨d, hd, h⟩ := Option.bind_eq_some_iff.mp h
  obtain ⟨c, hc, hdeclared⟩ := Option.bind_eq_some_iff.mp hd
  split at h
  · case isTrue hvariable =>
    split at h
    · case h_1 v hv =>
      have hoffers : s.offerDeclarator st v = (boundNames n).map (offerBound s st.node.start) := by
        simp only [Surroundings.offerDeclarator, h]
        rw [if_neg (by simpa using hn)]
        rfl
      simp only [Surroundings.offersOfStatement, hexport, hc, Surroundings.offersOfDeclaration, hdeclared, hvariable, hv]
      simpa using hoffers
    · cases h
  · cases h

theorem flatMap_offersOfStatement (sts : List Placed) : sts.flatMap s.offersOfStatement =
    (sts.filter fun st => st.node.kind == .exportStatement).flatMap s.offersOfStatement := by
  induction sts with
  | nil => rfl
  | cons st sts ih =>
    rw [List.flatMap_cons, ih, List.filter_cons]
    split
    · rw [List.flatMap_cons]
    · case isFalse hkind =>
      have hnone : s.offersOfStatement st = [] := by simp [Surroundings.offersOfStatement, bne, hkind]
      rw [hnone, List.nil_append]

theorem offers_of_onlyExport (h : onlyExport? root = some n) (hn : n.kind ≠ .identifier) :
    ∃ place, ∀ s : Surroundings,
      (statements root).flatMap s.offersOfStatement = (boundNames n).map (offerBound s place) := by
  rw [onlyExport?] at h
  split at h
  · case h_1 st hst =>
    refine ⟨st.node.start, fun s => ?_⟩
    have hexport : st.node.kind = .exportStatement := by
      have hmem := List.mem_filter.mp (hst ▸ List.mem_singleton_self st)
      exact eq_of_beq hmem.2
    rw [flatMap_offersOfStatement, hst, List.flatMap_singleton]
    exact offersOfStatement_of_pattern hexport h hn
  · cases h

end Offers

namespace Kept

variable {os : List Occurrence} {k : Kept}

def offerOf (place : Position) (o : Occurrence) : Offer :=
  ⟨.declaration o.declaration, place⟩

structure KeepsFirst (k : Kept) (os : List Occurrence) : Prop where
  names : k.extracted.declarations.map Declaration.name = (os.map Occurrence.name).eraseDups
  first : ∀ d ∈ k.extracted.declarations, ∃ o, os.find? (fun o => o.name == d.name) = some o ∧ d = o.declaration
  taken : ∀ x, k.Taken x ↔ x ∈ os.map Occurrence.name
  alone : k.extracted.reExports = [] ∧ k.extracted.starExports = []

theorem KeepsFirst.take (h : k.KeepsFirst os) (place : Position) (o : Occurrence) :
    (k.take (offerOf place o)).KeepsFirst (os ++ [o]) := by
  have hfirst : ∀ d ∈ k.extracted.declarations,
      ∃ o', (os ++ [o]).find? (fun o => o.name == d.name) = some o' ∧ d = o'.declaration := by
    intro d hd
    obtain ⟨o', ho', rfl⟩ := h.first d hd
    exact ⟨o', by rw [List.find?_append, ho']; rfl, rfl⟩
  -- A name that is taken is among the earlier ones, and then neither side changes.
  by_cases htaken : k.Taken o.name
  · have hmem : o.name ∈ os.map Occurrence.name := (h.taken _).mp htaken
    have heq : k.take (offerOf place o) = k := if_pos htaken
    rw [heq]
    refine ⟨?_, hfirst, ?_, h.alone⟩
    · rw [h.names, List.map_append, List.map_singleton, eraseDups_concat, if_pos hmem]
    · intro x
      rw [h.taken, List.map_append, List.map_singleton, List.mem_append, List.mem_singleton]
      exact ⟨.inl, fun hx => hx.elim id fun hx => hx ▸ hmem⟩
  · have hmem : o.name ∉ os.map Occurrence.name := fun hmem => htaken ((h.taken _).mpr hmem)
    have heq : k.take (offerOf place o) = k.addDeclaration o.declaration := if_neg htaken
    rw [heq]
    refine ⟨?_, ?_, ?_, h.alone⟩
    · rw [List.map_append, List.map_singleton, eraseDups_concat, if_neg hmem, ← h.names]
      exact List.map_append
    · intro d hd
      rcases List.mem_append.mp hd with hd | hd
      · exact hfirst d hd
      · obtain rfl := List.mem_singleton.mp hd
        have hnone : os.find? (fun o' => o'.name == o.name) = none := by
          simpa [List.find?_eq_none] using hmem
        refine ⟨o, ?_, rfl⟩
        change (os ++ [o]).find? (fun o' => o'.name == o.name) = some o
        simp [List.find?_append, hnone]
    · intro x
      rw [taken_addDeclaration, h.taken, List.map_append, List.map_singleton, List.mem_append, List.mem_singleton, eq_comm]
      rfl

theorem keepsFirst_foldl (c : Option String) (place : Position) (os : List Occurrence) :
    ((os.map (offerOf place)).foldl Kept.take { extracted := { moduleComment := c } }).KeepsFirst os := by
  induction os using List.reverseRecOn with
  | nil => exact ⟨rfl, nofun, fun x => ⟨nofun, nofun⟩, rfl, rfl⟩
  | append_singleton os o ih =>
    rw [List.map_append, List.foldl_append]
    exact ih.take place o

end Kept

section Reports

variable {file : String} {q : Diagnostic → Bool}

theorem diagnostics_keepOffer (hq : ∀ name place, q (clashReport file name place) = false)
    (xs : List (Noted (Option Offer))) (k : Kept) :
    (xs.foldlM (keepOffer file) k).diagnostics.filter q = xs.flatMap fun x => x.diagnostics.filter q := by
  induction xs generalizing k with
  | nil => rfl
  | cons x xs ih =>
    -- Beside what the offer notes itself, there is at most the report of a name that is taken.
    have hkeep : (keepOffer file k (pure x.value)).Each fun d => q d = false :=
      each_keepOffer (Noted.each_pure _) hq
    have hadded : (keepOffer file k (pure x.value)).diagnostics.filter q = [] :=
      List.filter_eq_nil_iff.mpr fun d hd => by simp [hkeep d hd]
    have hsplit : (keepOffer file k x).diagnostics = x.diagnostics ++ (keepOffer file k (pure x.value)).diagnostics := rfl
    rw [List.foldlM_cons, Noted.diagnostics_bind, List.filter_append, ih, hsplit, List.filter_append, hadded,
      List.append_nil, List.flatMap_cons]

end Reports

section Exports

variable {pattern : BindingPattern} {n root : Node} {file modulePath : String} {resolve : String → Option String}

theorem offers_of_fits (hfits : pattern.fits n) (htakes : pattern.takesApart) (honly : onlyExport? root = some n)
    (s : Surroundings) :
    ∃ place, offers s root = (pattern.bound.filter Occurrence.isFound).map (Kept.offerOf place) := by
  obtain ⟨place, hplace⟩ := offers_of_onlyExport honly (BindingPattern.kind_of_takesApart htakes hfits)
  refine ⟨place, ?_⟩
  have hvalue : Noted.value ∘ offerBound s place = some ∘ (Kept.offerOf place ∘ Occurrence.ofNode) :=
    funext (value_offerBound s place)
  rw [offers, hplace, ← BindingPattern.boundNames_of_fits hfits, List.filterMap_map, List.map_map, hvalue,
    List.filterMap_eq_map]

theorem typeReports_of_fits (hfits : pattern.fits n) (htakes : pattern.takesApart) (honly : onlyExport? root = some n) :
    (analyzeCode file modulePath resolve root).diagnostics.filter (fun d => d.kind == .typeExtraction) =
      (pattern.bound.filter Occurrence.isFound).map (Occurrence.report file root.start) := by
  obtain ⟨place, hplace⟩ := offers_of_onlyExport honly (BindingPattern.kind_of_takesApart htakes hfits)
  rw [diagnostics_analyzeCode, diagnostics_keepOffer fun name place => rfl, hplace,
    ← BindingPattern.boundNames_of_fits hfits, List.flatMap_map, List.map_map, List.map_eq_flatMap]
  simp only [diagnostics_offerBound]
  rfl

theorem pattern_names_exported (hfits : pattern.fits n) :
    let found := pattern.bound.filter Occurrence.isFound
    (boundNames n).map Occurrence.ofNode = found ∧
    ∀ (p : Program) (o : SourceOptions) (id modulePath content : String) (kind : FileKind) (root : Node),
      pattern.takesApart → onlyExport? root = some n →
      let run := extract p o { id, kind, content, script := some root } modulePath
      ∃ x, run.outcome = .ok x ∧ x.reExports = [] ∧ x.starExports = [] ∧
        x.declarations.map Declaration.name = (found.map Occurrence.name).eraseDups ∧
        (∀ d ∈ x.declarations, ∃ b, found.find? (fun b => b.name == d.name) = some b ∧ d = b.declaration) ∧
        run.diagnostics.filter (fun d => d.kind == .typeExtraction) = found.map (Occurrence.report id root.start) := by
  intro found
  refine ⟨BindingPattern.boundNames_of_fits hfits, ?_⟩
  intro p o id modulePath content kind root htakes honly run
  have hrun : run = Run.ofNoted (analyzeCode id modulePath (p.targetPath? o id) root) := rfl
  obtain ⟨place, hoffers⟩ := offers_of_fits hfits htakes honly (surroundingsOf id modulePath (p.targetPath? o id) root)
  have hvalue : (analyzeCode id modulePath (p.targetPath? o id) root).value =
      ((found.map (Kept.offerOf place)).foldl Kept.take
        { extracted := { moduleComment := moduleCommentText? root } }).extracted := by
    rw [analyzeCode_value, extractExports_value, hoffers]
  obtain ⟨hnames, hfirst, _, hreExports, hstars⟩ := Kept.keepsFirst_foldl (moduleCommentText? root) place found
  refine ⟨_, ?_, hreExports, hstars, hnames, hfirst, ?_⟩
  · rw [hrun, Run.outcome_ofNoted, hvalue]
  · rw [hrun, Run.diagnostics_ofNoted]
    exact typeReports_of_fits hfits htakes honly

end Exports

def nestedPattern : BindingPattern :=
  .object [
    .name ⟨"a", ⟨1, 16⟩, true⟩,
    .pair "b" (.object [.initialized (.name ⟨"c", ⟨1, 24⟩, true⟩) "d"]),
    .pair "[k]" (.array [.name ⟨"e", ⟨1, 39⟩, false⟩, .rest (.name ⟨"a", ⟨1, 47⟩, false⟩)])]

def nestedExport : Node :=
  parseScript "export const \x7b a, b: \x7b c = d \x7d, [k]: [e, , ...a] \x7d = o;"

theorem pattern_names_exported_nested :
    let run := extract {} {} { id := "m.ts", kind := .code, content := "", script := some nestedExport } "m.ts"
    ∃ n, nestedPattern.fits n ∧ onlyExport? nestedExport = some n ∧
      (boundNames n).map Occurrence.ofNode = nestedPattern.bound ∧
      ∃ x, run.outcome = .ok x ∧ x.declarations.map Declaration.name = ["a", "c", "e"] ∧
        (run.diagnostics.filter fun d => d.kind == .typeExtraction).map Diagnostic.symbol =
          [some "a", some "c", some "e", some "a"] := by
  intro run
  obtain ⟨n, honly, hn⟩ : ∃ n, onlyExport? nestedExport = some n ∧ nestedPattern.fits n :=
    (Option.any_eq_true ..).mp (by decide +kernel)
  obtain ⟨hbound, hexports⟩ := pattern_names_exported hn
  obtain ⟨x, hx, _, _, hnames, _, hreports⟩ := hexports {} {} "m.ts" "m.ts" "" .code nestedExport rfl honly
  have hfound : nestedPattern.bound.filter Occurrence.isFound = nestedPattern.bound := by decide
  refine ⟨n, hn, honly, hbound.trans hfound, x, hx, ?_, ?_⟩
  · rw [hnames, hfound]
    decide
  · rw [hreports, hfound]
    rfl

def undefinedExport : Node :=
  parseScript "export const [undefined] = o;"

theorem undefined_not_exported :
    let pattern : BindingPattern := .array [.name ⟨"undefined", ⟨1, 15⟩, false⟩]
    let exports := analyzeCode "m.ts" "m.ts" (fun _ => none) undefinedExport
    (onlyExport? undefinedExport).any pattern.fits ∧ pattern.bound.map Occurrence.name = ["undefined"] ∧
      (onlyExport? undefinedExport).map (fun n => (boundNames n).map Node.text) = some [] ∧
      exports.value.declarations.map Declaration.name = [] ∧ exports.diagnostics.map Diagnostic.symbol = [] := by
  decide +kernel

end ApiCatalog.Code
