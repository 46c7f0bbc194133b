import Mathlib.Tactic.MkIffOfInductiveProp
import ApiCatalog.Proofs.Code.Bindings
import ApiCatalog.Proofs.Code.Moved

namespace ApiCatalog.Code

open Syntax Node

/-! Statements among siblings -/

section Siblings

variable {before : Option Node} {ns : List Node} {s : Surroundings}

def statementsAfter (before : Option Node) (ns : List Node) : List Placed :=
  (Placed.siblingsAfter before ns).filter fun p => p.node.isNamed && p.node.kind != .comment

theorem statements_eq (root : Node) : statements root = statementsAfter none root.children := rfl

theorem statementsAfter_cons (n : Node) : statementsAfter before (n :: ns) =
    (if n.isNamed && n.kind != .comment then [⟨before, n⟩] else []) ++ statementsAfter (some n) ns := by
  rw [statementsAfter, Placed.siblingsAfter, List.filter_cons]
  split
  · rfl
  · rfl

theorem siblingsAfter_append (xs ys : List Node) : Placed.siblingsAfter before (xs ++ ys) =
    Placed.siblingsAfter before xs ++ Placed.siblingsAfter (xs.getLast?.or before) ys := by
  induction xs generalizing before with
  | nil => rfl
  | cons x xs ih =>
    rw [List.cons_append, Placed.siblingsAfter, ih, Placed.siblingsAfter, List.cons_append, List.getLast?_cons]
    cases xs.getLast? <;> rfl

theorem statementsAfter_append (xs ys : List Node) : statementsAfter before (xs ++ ys) =
    statementsAfter before xs ++ statementsAfter (xs.getLast?.or before) ys := by
  rw [statementsAfter, siblingsAfter_append, List.filter_append]
  rfl

theorem node_mem_of_statementsAfter {p : Placed} (h : p ∈ statementsAfter before ns) : p.node ∈ ns := by
  have hp : p ∈ Placed.siblingsAfter before ns := (List.mem_filter.mp h).1
  clear h
  induction ns generalizing before with
  | nil => cases hp
  | cons n ns ih =>
    rcases List.mem_cons.mp hp with rfl | hp
    · exact List.mem_cons_self
    · exact List.mem_cons_of_mem _ (ih hp)

theorem candidatesOf_eq_nil {st : Placed} (h : st.node.kind ≠ .exportStatement) : candidatesOf s st = [] := by
  simp [candidatesOf, h]

theorem flatMap_candidatesOf_eq_nil (h : ∀ n ∈ ns, n.kind ≠ .exportStatement) :
    (statementsAfter before ns).flatMap (candidatesOf s) = [] := by
  rw [List.flatMap_eq_nil_iff]
  intro st hst
  exact candidatesOf_eq_nil (h _ (node_mem_of_statementsAfter hst))

end Siblings

/-! Exported declarations -/

def destructured (n : Node) : List Node :=
  match declared? n with
  | none => []
  | some d =>
    if isVariableStatement d.kind then
      (declarators d).flatMap fun v =>
        (v.child? .name).toList.flatMap fun name => if name.kind = .identifier then [] else boundNames name
    else []

@[mk_iff] structure Exports (f : Position → Position) (n e : Node) : Prop where
  kind : e.kind = .exportStatement
  child : e.child? .declaration = some ((n.move f).withRole .declaration)
  line : e.start.line = n.start.line
  declares : ∃ d ∈ declared? n, isVariableStatement d.kind ∨ isNamedDeclaration d.kind ∧ (d.child? .name).isSome

instance (f : Position → Position) (n e : Node) : Decidable (Exports f n e) :=
  decidable_of_iff _ (exports_iff f n e).symm

section Exported

variable {f : Position → Position} {s s' : Surroundings} {b b' : Option Node}

theorem results_declarator (h : Reader.Moved f s.reader s'.reader)
    (hdoc : s'.reader.docBefore? b' = s.reader.docBefore? b) (n e v : Node) :
    (candidatesOfDeclarator ⟨b', e⟩ (v.move f)).filterMap (·.result? s') =
      (candidatesOfDeclarator ⟨b, n⟩ v).filterMap (·.result? s) := by
  simp only [candidatesOfDeclarator, child?_move]
  cases v.child? .name with
  | none => rfl
  | some name =>
    simp only [Option.map_some, kind_move, text_move]
    split
    · simp only [List.filterMap_cons, List.filterMap_nil, Candidate.result?, Reader.read_move h name.text v hdoc]
    · have hbound (i : Node) : (Candidate.bound (i.move f)).result? s' = (Candidate.bound i).result? s := by
        have hline : (f i.start).line = i.start.line := h.line _
        simp only [Candidate.result?, text_move, start_move, hline]
        rfl
      simp only [boundNames_move, List.map_map, List.filterMap_map, Function.comp_def, hbound]

theorem results_declared (h : Reader.Moved f s.reader s'.reader)
    (hdoc : s'.reader.docBefore? b' = s.reader.docBefore? b) (m e n : Node) {n' : Node}
    (hn' : n' = n.move f ∨ n' = (n.move f).withRole .declaration) :
    (if isVariableStatement n'.kind then (declarators n').flatMap (candidatesOfDeclarator ⟨b', e⟩)
      else if isNamedDeclaration n'.kind then
        [.declared (((n'.child? .name).map Node.text).getD "default") n' b' none]
      else []).filterMap (·.result? s') =
    (if isVariableStatement n.kind then (declarators n).flatMap (candidatesOfDeclarator ⟨b, m⟩)
      else if isNamedDeclaration n.kind then
        [.declared (((n.child? .name).map Node.text).getD "default") n b none]
      else []).filterMap (·.result? s) := by
  have hkind : n'.kind = n.kind := by
    rcases hn' with rfl | rfl
    · exact kind_move n
    · cases n
      rfl
  have hchildren : n'.children = n.children.map (move f) := by
    rcases hn' with rfl | rfl
    · exact children_move n
    · cases n
      exact moveAll_eq _
  have hread (name : String) : (s'.reader.read name n' b').value = (s.reader.read name n b).value := by
    rcases hn' with rfl | rfl
    · exact Reader.read_move h name n hdoc
    · rw [Reader.read_withRole]
      exact Reader.read_move h name n hdoc
  have hname : (n'.child? .name).map Node.text = (n.child? .name).map Node.text := by
    simp [child?, hchildren, List.find?_map, Function.comp_def, Option.map_map]
  have hdeclarators : declarators n' = (declarators n).map (move f) := by
    simp [declarators, namedChildren, hchildren, List.filter_map, Function.comp_def]
  rw [hkind, hname, hdeclarators]
  split
  · rw [List.flatMap_map, List.filterMap_flatMap, List.filterMap_flatMap]
    simp only [results_declarator h hdoc m e]
  · split
    · simp only [List.filterMap_cons, List.filterMap_nil, Candidate.result?, hread]
    · rfl

theorem results_exported (h : Reader.Moved f s.reader s'.reader)
    (hdoc : s'.reader.docBefore? b' = s.reader.docBefore? b) (n e : Node) :
    (candidatesOfDeclaration ((n.move f).withRole .declaration) ⟨b', e⟩).filterMap (·.result? s') =
      (candidatesOfDeclaration n ⟨b, n⟩).filterMap (·.result? s) := by
  have hkind : ((n.move f).withRole .declaration).kind = n.kind := by
    cases n
    rfl
  have hinner : ambientInner? ((n.move f).withRole .declaration) = (ambientInner? n).map (move f) := by
    have hnamed : ((n.move f).withRole .declaration).namedChildren = n.namedChildren.map (move f) := by
      rw [← namedChildren_move]
      cases n
      rfl
    simp only [ambientInner?, hnamed, List.find?_map, Function.comp_def, kind_move]
  simp only [candidatesOfDeclaration, declared?, hkind, hinner]
  by_cases hambient : n.kind = .ambientDeclaration
  · simp only [hambient, beq_self_eq_true, if_true]
    cases ambientInner? n with
    | none => rfl
    | some d => exact results_declared h hdoc n e d (.inl rfl)
  · have hne : (n.kind == .ambientDeclaration) = false := beq_false_of_ne hambient
    simp only [hne, Bool.false_eq_true, if_false]
    exact results_declared h hdoc n e n (.inr rfl)

theorem Exports.kind_cases {n e : Node} (h : Exports f n e) :
    n.kind = .ambientDeclaration ∨ isVariableStatement n.kind ∨ isNamedDeclaration n.kind := by
  obtain ⟨d, hd, hkind⟩ := h.declares
  rw [declared?] at hd
  split at hd
  · case isTrue hambient => exact .inl (by simpa using hambient)
  · cases hd
    exact .inr (hkind.imp id And.left)

theorem Exports.kind_ne {n e : Node} (h : Exports f n e) {k : Kind} (hambient : k ≠ .ambientDeclaration)
    (hvariable : isVariableStatement k = false) (hnamed : isNamedDeclaration k = false) : n.kind ≠ k := by
  rintro rfl
  rcases h.kind_cases with hk | hk | hk
  · exact hambient hk
  · rw [hvariable] at hk
    cases hk
  · rw [hnamed] at hk
    cases hk

theorem Exports.ne_comment {n e : Node} (h : Exports f n e) : n.kind ≠ .comment :=
  h.kind_ne (by decide) (by decide) (by decide)

theorem Exports.ne_export {n e : Node} (h : Exports f n e) : n.kind ≠ .exportStatement :=
  h.kind_ne (by decide) (by decide) (by decide)

theorem Exports.ne_import {n e : Node} (h : Exports f n e) : n.kind ≠ .importStatement :=
  h.kind_ne (by decide) (by decide) (by decide)

theorem Exports.isNamed {n e : Node} (h : Exports f n e) : n.isNamed := by
  unfold Node.isNamed
  split
  · case h_1 t hk => exact absurd hk (h.kind_ne nofun rfl rfl)
  · rfl

theorem docBefore?_of_ne {r : Reader} {n : Node} (h : n.kind ≠ .comment) : r.docBefore? (some n) = none := by
  simp [Reader.docBefore?, isDocNode, h]

end Exported

/-! Modules in two forms -/

/-- A child of a module: one that stays, or a declaration with the statement that exports it. -/
inductive Item where
  | kept (n : Node)
  | declared (n e : Node)

namespace Item

def plain : Item → Node
  | kept n => n
  | declared n _ => n

def inline (f : Position → Position) : Item → Node
  | kept n => n.move f
  | declared _ e => e

def groupAfter : Option Node → List Item → List Placed
  | _, [] => []
  | _, kept n :: items => groupAfter (some n) items
  | before, declared n _ :: items => ⟨before, n⟩ :: groupAfter (some n) items

end Item

def Leaves (names : List String) (n : Node) : Prop :=
  n.kind ≠ .exportStatement ∧ ∀ x ∈ names, x ∉ (declares n).map Prod.fst

instance (names : List String) (n : Node) : Decidable (Leaves names n) :=
  inferInstanceAs (Decidable (_ ∧ _))

namespace Item

def Fits (f : Position → Position) (names : List String) : Item → Prop
  | kept n => Leaves names n
  | declared n e => Exports f n e

instance (f : Position → Position) (names : List String) : DecidablePred (Fits f names)
  | kept n => inferInstanceAs (Decidable (Leaves names n))
  | declared n e => inferInstanceAs (Decidable (Exports f n e))

def isDeclared : Item → Bool
  | kept _ => false
  | declared _ _ => true

end Item

@[mk_iff] structure Lists (c : Node) (names : List String) : Prop where
  kind : c.kind = .exportStatement
  declaration : (c.child? .declaration).isNone
  source : (c.child? .source).isNone
  default : c.hasToken "default" = false
  specifiers : (c.childOfKind? .exportClause).map Surroundings.specifiers = some (names.map fun x => (x, x))

instance (c : Node) (names : List String) : Decidable (Lists c names) :=
  decidable_of_iff _ (lists_iff c names).symm

theorem Lists.isStatement {c : Node} {names : List String} (h : Lists c names) :
    (c.isNamed && c.kind != .comment) = true := by
  simp [Node.isNamed, h.kind]

/-- A module with exported declarations, and the module in which they stand plain and a clause lists names. There are no
other exports, and the names in the clause are imported and bound by nothing else. -/
structure Twins (f : Position → Position) (inline clause : Node) (items : List Item) (names : List String) : Prop where
  injective : Function.Injective f
  line : ∀ p, (f p).line = p.line
  fits : ∀ item ∈ items, item.Fits f names
  nonempty : ∃ item ∈ items, item.isDeclared
  inlineChildren : ∃ rest, inline.children = items.map (Item.inline f) ++ rest ∧ ∀ n ∈ rest, n.kind ≠ .exportStatement
  clauseChildren : ∃ c rest, clause.children = items.map Item.plain ++ c :: rest ∧ Lists c names ∧
    ∀ n ∈ rest, Leaves names n
  imports : ∀ x ∈ names, x ∉ ((statements clause).flatMap importsOf).map Prod.fst

def exported (items : List Item) : List Placed :=
  Item.groupAfter none items

section ModuleComment

variable {f : Position → Position} {items : List Item} {names : List String}

theorem moduleCommentAmong?_items (hline : ∀ p, (f p).line = p.line)
    (hfits : ∀ item ∈ items, item.Fits f names) (hsome : ∃ item ∈ items, item.isDeclared) (rest rest' : List Node) :
    moduleCommentAmong? (items.map (Item.inline f) ++ rest') =
      (moduleCommentAmong? (items.map Item.plain ++ rest)).map (move f) := by
  induction items with
  | nil =>
    obtain ⟨_, h, _⟩ := hsome
    cases h
  | cons item items ih =>
    obtain ⟨hitem, hitems⟩ := List.forall_mem_cons.mp hfits
    cases item with
    | declared n e =>
      have hexports : Exports f n e := hitem
      have hhash : n.kind ≠ .hashBang := hexports.kind_ne (by decide) (by decide) (by decide)
      have hinline : moduleCommentAmong? (e :: (items.map (Item.inline f) ++ rest')) = none := by
        rw [moduleCommentAmong?.eq_def]
        simp only [hexports.kind]
      have hplain : moduleCommentAmong? (n :: (items.map Item.plain ++ rest)) = none := by
        rw [moduleCommentAmong?.eq_def]
        simp only
        split
        · case h_1 hk => exact absurd hk hhash
        · case h_2 hk => exact absurd hk hexports.ne_comment
        · rfl
      simp only [List.map_cons, List.cons_append, Item.inline, Item.plain, hinline, hplain]
      rfl
    | kept n =>
      have hrest : ∃ item ∈ items, item.isDeclared := by
        obtain ⟨item, hmem, hdeclared⟩ := hsome
        rcases List.mem_cons.mp hmem with rfl | hmem
        · cases hdeclared
        · exact ⟨item, hmem, hdeclared⟩
      have hih := ih hitems hrest
      -- What follows starts on the same line in both forms.
      have hnext : ∃ next others next' others', items.map Item.plain ++ rest = next :: others ∧
          items.map (Item.inline f) ++ rest' = next' :: others' ∧ next'.start.line = next.start.line := by
        cases items with
        | nil =>
          obtain ⟨_, h, _⟩ := hrest
          cases h
        | cons item items =>
          refine ⟨_, _, _, _, rfl, rfl, ?_⟩
          cases item with
          | kept m =>
            simp only [Item.inline, Item.plain, start_move, hline]
          | declared m e =>
            have hexports : Exports f m e := hitems _ List.mem_cons_self
            exact hexports.line
      obtain ⟨next, others, next', others', hplain, hinline, hlines⟩ := hnext
      simp only [List.map_cons, List.cons_append, Item.inline, Item.plain]
      rw [moduleCommentAmong?.eq_def, moduleCommentAmong?.eq_def (n :: _)]
      simp only [kind_move]
      split
      · exact hih
      · rw [isDocNode_move, parseDoc?_move]
        split
        · exact hih
        · split
          · rfl
          · rw [hplain, hinline] at hih ⊢
            simp only [hlines, lastLine_move]
            split
            · rfl
            · exact hih
      · rfl

end ModuleComment

/-! What both forms put forward -/

section Forms

variable {f : Position → Position} {items : List Item} {names : List String} {s s' : Surroundings}

def candidatesOfGroup (sts : List Placed) : List Candidate :=
  sts.flatMap fun st => candidatesOfDeclaration st.node st

theorem results_inline (h : Reader.Moved f s.reader s'.reader) (hfits : ∀ item ∈ items, item.Fits f names)
    {rest : List Node} (hrest : ∀ n ∈ rest, n.kind ≠ .exportStatement) {b b' : Option Node}
    (hdoc : s'.reader.docBefore? b' = s.reader.docBefore? b) :
    ((statementsAfter b' (items.map (Item.inline f) ++ rest)).flatMap (candidatesOf s')).filterMap (·.result? s') =
      (candidatesOfGroup (Item.groupAfter b items)).filterMap (·.result? s) := by
  induction items generalizing b b' with
  | nil =>
    rw [List.map_nil, List.nil_append, flatMap_candidatesOf_eq_nil hrest]
    rfl
  | cons item items ih =>
    obtain ⟨hitem, hitems⟩ := List.forall_mem_cons.mp hfits
    have ih' {b b' : Option Node} := @ih hitems b b'
    cases item with
    | kept n =>
      have hnone : (if (n.move f).isNamed && (n.move f).kind != .comment then [Placed.mk b' (n.move f)] else []).flatMap
          (candidatesOf s') = [] := by
        have hkind : (n.move f).kind ≠ .exportStatement := by
          rw [kind_move]
          exact hitem.1
        have hnil : candidatesOf s' ⟨b', n.move f⟩ = [] := candidatesOf_eq_nil hkind
        split
        · rw [List.flatMap_cons, hnil]
          rfl
        · rfl
      have hnext : s'.reader.docBefore? (some (n.move f)) = s.reader.docBefore? (some n) := h.docBefore? (some n)
      rw [List.map_cons, List.cons_append, Item.inline, statementsAfter_cons, List.flatMap_append, hnone,
        List.nil_append, ih' hnext]
      rfl
    | declared n e =>
      have hexports : Exports f n e := hitem
      have hstatement : (e.isNamed && e.kind != .comment) = true := by
        simp [Node.isNamed, hexports.kind]
      have hcandidates : candidatesOf s' ⟨b', e⟩ =
          candidatesOfDeclaration ((n.move f).withRole .declaration) ⟨b', e⟩ := by
        simp [candidatesOf, hexports.kind, hexports.child]
      have hnext : s'.reader.docBefore? (some e) = s.reader.docBefore? (some n) := by
        rw [docBefore?_of_ne hexports.ne_comment, docBefore?_of_ne (by rw [hexports.kind]; decide)]
      rw [List.map_cons, List.cons_append, Item.inline, statementsAfter_cons, if_pos hstatement, List.flatMap_append,
        List.filterMap_append, ih' hnext, List.flatMap_cons, List.flatMap_nil, List.append_nil, hcandidates,
        results_exported h hdoc n e, ← List.filterMap_append]
      rfl

theorem flatMap_bindingsOf_eq_nil {x : String} (hx : x ∈ names) {b : Option Node} {ns : List Node}
    (h : ∀ n ∈ ns, Leaves names n) :
    (statementsAfter b ns).flatMap (bindingsOf x) = [] := by
  rw [List.flatMap_eq_nil_iff]
  intro st hst
  obtain ⟨hexport, hnames⟩ := h _ (node_mem_of_statementsAfter hst)
  by_cases himport : st.node.kind = .importStatement
  · have hnone : declarationIn? st = none := by rw [declarationIn?, himport]
    rw [bindingsOf, hnone]
    rfl
  · rw [bindingsOf, declarationIn?_plain himport hexport, List.filterMap_eq_nil_iff]
    intro e he
    rw [if_neg]
    rintro rfl
    exact hnames _ hx (List.mem_map_of_mem he)

theorem bindings_items {x : String} (hx : x ∈ names) (hfits : ∀ item ∈ items, item.Fits f names) {b : Option Node} :
    (statementsAfter b (items.map Item.plain)).flatMap (bindingsOf x) =
      (Item.groupAfter b items).flatMap (bindingsOf x) := by
  induction items generalizing b with
  | nil => rfl
  | cons item items ih =>
    obtain ⟨hitem, hitems⟩ := List.forall_mem_cons.mp hfits
    have ih' {b : Option Node} := @ih hitems b
    cases item with
    | kept n =>
      have hnone : (statementsAfter b [n]).flatMap (bindingsOf x) = [] :=
        flatMap_bindingsOf_eq_nil hx (List.forall_mem_singleton.mpr hitem)
      rw [statementsAfter_cons, List.flatMap_append] at hnone
      rw [List.map_cons, Item.plain, statementsAfter_cons, List.flatMap_append, (List.append_eq_nil_iff.mp hnone).1, ih']
      rfl
    | declared n e =>
      have hexports : Exports f n e := hitem
      have hstatement : (n.isNamed && n.kind != .comment) = true := by
        simp [hexports.isNamed, hexports.ne_comment]
      rw [List.map_cons, Item.plain, statementsAfter_cons, if_pos hstatement, List.flatMap_append, ih',
        Item.groupAfter, List.flatMap_cons, List.flatMap_cons, List.flatMap_nil, List.append_nil]

theorem exports_of_groupAfter (hfits : ∀ item ∈ items, item.Fits f names) {b : Option Node} {st : Placed}
    (h : st ∈ Item.groupAfter b items) : ∃ e, Exports f st.node e := by
  induction items generalizing b with
  | nil => cases h
  | cons item items ih =>
    obtain ⟨hitem, hitems⟩ := List.forall_mem_cons.mp hfits
    cases item with
    | kept n => exact ih hitems h
    | declared n e =>
      rcases List.mem_cons.mp h with rfl | h
      · exact ⟨e, hitem⟩
      · exact ih hitems h

end Forms

section Twins

variable {f : Position → Position} {inline clause : Node} {items : List Item} {names : List String}
  {file modulePath : String} {resolve : String → Option String} {x : String}

theorem Twins.moduleComment? (h : Twins f inline clause items names) :
    Code.moduleComment? inline = (Code.moduleComment? clause).map (move f) := by
  obtain ⟨rest', hinline, _⟩ := h.inlineChildren
  obtain ⟨c, rest, hclause, _⟩ := h.clauseChildren
  rw [Code.moduleComment?, Code.moduleComment?, hinline, hclause]
  exact moduleCommentAmong?_items h.line h.fits h.nonempty (c :: rest) rest'

theorem Twins.moved (h : Twins f inline clause items names) (file : String) :
    Reader.Moved f (.ofRoot file clause) (.ofRoot file inline) where
  injective := h.injective
  line := h.line
  comment := by
    simp only [Reader.ofRoot, h.moduleComment?, Option.map_map, Function.comp_def, start_move]

theorem Twins.moduleCommentText? (h : Twins f inline clause items names) :
    Code.moduleCommentText? inline = Code.moduleCommentText? clause := by
  rw [Code.moduleCommentText?, Code.moduleCommentText?, h.moduleComment?]
  cases Code.moduleComment? clause with
  | none => rfl
  | some n => simp only [Option.map_some, Option.bind_some, text_move]

theorem Twins.results_inline (h : Twins f inline clause items names) :
    (offers (surroundingsOf file modulePath resolve inline) inline).map Offer.entry =
      (candidatesOfGroup (exported items)).filterMap (·.result? (surroundingsOf file modulePath resolve clause)) := by
  obtain ⟨rest, hchildren, hrest⟩ := h.inlineChildren
  rw [offers_entries, candidates, statements_eq, hchildren]
  have hmoved : Reader.Moved f (surroundingsOf file modulePath resolve clause).reader
      (surroundingsOf file modulePath resolve inline).reader := h.moved file
  exact Code.results_inline (b := none) hmoved h.fits hrest rfl

theorem Twins.candidates_clause (h : Twins f inline clause items names) (s : Surroundings) :
    candidates s clause = names.map fun x => candidateOfItem s x x := by
  obtain ⟨c, rest, hchildren, hlists, hrest⟩ := h.clauseChildren
  have hplain : ∀ n ∈ items.map Item.plain, n.kind ≠ .exportStatement := by
    intro n hn
    obtain ⟨item, hitem, rfl⟩ := List.mem_map.mp hn
    have hfits := h.fits item hitem
    cases item with
    | kept m => exact hfits.1
    | declared m e => exact Exports.ne_export hfits
  have hc (b : Option Node) : candidatesOf s ⟨b, c⟩ = names.map fun x => candidateOfItem s x x := by
    obtain ⟨list, hlist, hnames⟩ := Option.map_eq_some_iff.mp hlists.specifiers
    simp [candidatesOf, hlists.kind, Option.isNone_iff_eq_none.mp hlists.declaration,
      Option.isNone_iff_eq_none.mp hlists.source, hlists.default, hlist, hnames, Function.comp_def]
  rw [candidates, statements_eq, hchildren, statementsAfter_append, statementsAfter_cons, if_pos hlists.isStatement,
    List.flatMap_append, flatMap_candidatesOf_eq_nil hplain, List.flatMap_append,
    flatMap_candidatesOf_eq_nil fun n hn => (hrest n hn).1]
  simp [hc]

theorem Twins.local? (h : Twins f inline clause items names) (hx : x ∈ names) :
    (namesAt clause).local? x = ((exported items).flatMap (bindingsOf x)).foldl settle none := by
  obtain ⟨c, rest, hchildren, hlists, hrest⟩ := h.clauseChildren
  have hc (b : Option Node) : bindingsOf x ⟨b, c⟩ = [] := by
    have hnone : declarationIn? ⟨b, c⟩ = none := by
      rw [declarationIn?, hlists.kind]
      exact Option.isNone_iff_eq_none.mp hlists.declaration
    rw [bindingsOf, hnone]
    rfl
  rw [local?_namesAt, statements_eq, hchildren, statementsAfter_append, statementsAfter_cons, if_pos hlists.isStatement,
    List.flatMap_append, List.flatMap_append, flatMap_bindingsOf_eq_nil hx hrest, bindings_items hx h.fits]
  simp [hc, exported]

end Twins

end ApiCatalog.Code
