import ApiCatalog.Analysis.Basic
import ApiCatalog.Proofs.Catalog.Order
import ApiCatalog.Proofs.Code.DefaultExport
import ApiCatalog.Proofs.Report.Run

namespace ApiCatalog.Code

open Syntax

def Extracted.names (x : Extracted) : List String :=
  x.declarations.map Declaration.name ++ x.reExports.map ReExport.exportedName

def Extracted.under? (x : Extracted) (n : String) : Option Entry :=
  ((x.declarations.find? fun d => d.name == n).map .declaration).or
    ((x.reExports.find? fun e => e.exportedName == n).map .reExport)

namespace Extracted

variable {x : Extracted} {n : String} {e : Entry}

theorem holds_of_under? (h : x.under? n = some e) : x.Holds e ∧ e.name? = some n := by
  rw [under?, Option.or_eq_some_iff] at h
  rcases h with h | ⟨_, h⟩
  · obtain ⟨d, hd, rfl⟩ := Option.map_eq_some_iff.mp h
    exact ⟨List.mem_of_find?_eq_some hd, congrArg some (by simpa using List.find?_some hd)⟩
  · obtain ⟨r, hr, rfl⟩ := Option.map_eq_some_iff.mp h
    exact ⟨List.mem_of_find?_eq_some hr, congrArg some (by simpa using List.find?_some hr)⟩

theorem under?_of_holds (hd : x.names.Nodup) (h : x.Holds e) (hn : e.name? = some n) :
    x.under? n = some e := by
  obtain ⟨hdecl, hre, hapart⟩ := List.nodup_append.mp hd
  cases e with
  | declaration d =>
    cases hn
    rw [under?, (find?_key_eq_some_iff hdecl).mpr ⟨h, rfl⟩]
    rfl
  | reExport r =>
    cases hn
    have hnone : x.declarations.find? (fun d => d.name == r.exportedName) = none :=
      List.find?_eq_none.mpr fun d hmem hname =>
        hapart _ (List.mem_map_of_mem hmem) _ (List.mem_map_of_mem h) (by simpa using hname)
    rw [under?, hnone, (find?_key_eq_some_iff hre).mpr ⟨h, rfl⟩]
    rfl
  | star t => cases hn

end Extracted

/-! What is kept stays without repetition. -/

namespace Kept

structure Distinct (k : Kept) : Prop where
  names : k.extracted.names.Nodup
  stars : k.extracted.starExports.Nodup
  taken : ∀ n, k.Taken n ↔ n ∈ k.extracted.names

theorem distinct_addStar {k : Kept} (h : k.Distinct) (t : String) : (k.addStar t).Distinct := by
  rw [addStar]
  split
  · exact h
  · case isFalse ht =>
    refine ⟨h.names, ?_, h.taken⟩
    rw [List.contains_iff_mem] at ht
    exact List.concat_eq_append ▸ h.stars.concat ht

theorem Distinct.cons {k k' : Kept} {n : String} (h : k.Distinct) (hn : ¬ k.Taken n)
    (hnames : k'.extracted.names.Perm (n :: k.extracted.names))
    (hstars : k'.extracted.starExports = k.extracted.starExports)
    (htaken : ∀ m, k'.Taken m ↔ k.Taken m ∨ n = m) : k'.Distinct := by
  refine ⟨?_, hstars ▸ h.stars, fun m => ?_⟩
  · rw [hnames.nodup_iff, List.nodup_cons]
    exact ⟨fun hmem => hn ((h.taken _).mpr hmem), h.names⟩
  · rw [htaken, h.taken, hnames.mem_iff, List.mem_cons, or_comm, eq_comm]

theorem distinct_addDeclaration {k : Kept} {d : Declaration} (h : k.Distinct) (hd : ¬ k.Taken d.name) :
    (k.addDeclaration d).Distinct := by
  refine h.cons hd ?_ rfl fun m => taken_addDeclaration
  simp only [addDeclaration, Extracted.names, List.map_append, List.map_cons, List.map_nil, List.append_assoc]
  exact List.perm_middle

theorem distinct_addReExport {k : Kept} {e : ReExport} (h : k.Distinct) (he : ¬ k.Taken e.exportedName) :
    (k.addReExport e).Distinct := by
  refine h.cons he ?_ rfl fun m => taken_addReExport
  simp only [addReExport, Extracted.names, List.map_append, List.map_cons, List.map_nil, ← List.append_assoc]
  exact List.perm_append_singleton _ _

theorem distinct_take {k : Kept} (h : k.Distinct) (o : Offer) : (k.take o).Distinct := by
  rw [take]
  split
  · exact distinct_addStar h _
  · split
    · exact h
    · case isFalse hd => exact distinct_addDeclaration h hd
  · split
    · exact h
    · case isFalse he => exact distinct_addReExport h he

theorem distinct_foldl {k : Kept} (h : k.Distinct) (os : List Offer) : (os.foldl take k).Distinct := by
  induction os generalizing k with
  | nil => exact h
  | cons o os ih => exact ih (distinct_take h o)

theorem holds_foldl_of_star {k : Kept} {os : List Offer} {t : String} (h : ∃ o ∈ os, o.entry = .star t) :
    (os.foldl take k).Holds (.star t) := by
  induction os generalizing k with
  | nil => obtain ⟨_, ho, _⟩ := h; cases ho
  | cons o os ih =>
    obtain ⟨o', ho', he⟩ := h
    rcases List.mem_cons.mp ho' with rfl | ho'
    · rcases take_cases k o' with ⟨_, n, hn, _⟩ | ⟨hholds, _⟩
      · rw [he] at hn
        cases hn
      · exact holds_foldl ((hholds _).mpr (.inr he.symm)) os
    · exact ih ⟨o', ho', he⟩

end Kept

/-! Candidates -/

/-- What an export statement puts forward. -/
inductive Candidate where
  | declared (name : String) (node : Node) (before : Option Node) (aliasOf : Option AliasOf)
  | bound (identifier : Node)
  | whole (specifier name : String) (line : Nat)
  | passed (specifier localName name : String)
  | unknown (name : String)
  | star (specifier : String)

namespace Candidate

def name? : Candidate → Option String
  | declared name _ _ _ => some name
  | bound i => some i.text
  | whole _ name _ => some name
  | passed _ _ name => some name
  | unknown name => some name
  | star _ => none

variable (s : Surroundings)

/-- A candidate is dropped when a comment hides it, when nothing is known by its name, and when it refers to a
module that the program does not hold. -/
def dropped : Candidate → Bool
  | declared _ _ before _ => (s.reader.docBefore? before).any (·.hidden)
  | bound _ => false
  | whole specifier _ _ => (s.resolve specifier).isNone
  | passed specifier _ _ => (s.resolve specifier).isNone
  | unknown _ => true
  | star specifier => (s.resolve specifier).isNone

def result? : Candidate → Option Entry
  | declared name node before aliasOf =>
    (s.reader.read name node before).value.map fun d =>
      .declaration (aliasOf.elim d fun a => { d with aliasOf := some a })
  | bound i =>
    some (.declaration
      (s.reader.asValue { name := i.text, kind := .value, sourceLine := some i.start.line } none).value)
  | whole specifier name line =>
    (s.resolve specifier).map fun _ => .declaration {
      name, kind := .value, sourceLine := some line
      typeSignature := some ("typeof import(\"" ++ specifier ++ "\")") }
  | passed specifier localName name =>
    (s.resolve specifier).map fun target => .reExport ⟨localName, target, name⟩
  | unknown _ => none
  | star specifier => (s.resolve specifier).map .star

theorem result?_cases (c : Candidate) :
    (c.dropped s = true ∧ c.result? s = none) ∨
      (c.dropped s = false ∧ ∃ e, c.result? s = some e ∧ e.name? = c.name?) := by
  have hresolve (specifier : String) : (s.resolve specifier).isNone = true ∧ s.resolve specifier = none ∨
      (s.resolve specifier).isNone = false ∧ ∃ t, s.resolve specifier = some t := by
    cases s.resolve specifier with
    | none => exact .inl ⟨rfl, rfl⟩
    | some t => exact .inr ⟨rfl, t, rfl⟩
  cases c with
  | declared name node before aliasOf =>
    by_cases hh : s.reader.Hides before
    · exact .inl ⟨hh, by rw [result?, s.reader.read_of_hides hh]; rfl⟩
    · obtain ⟨d, hd, hname, _⟩ := @Reader.read_named s.reader name node before hh
      refine .inr ⟨eq_false_of_ne_true hh, _, by rw [result?, hd]; rfl, ?_⟩
      cases aliasOf <;> exact congrArg some hname
  | bound i => exact .inr ⟨rfl, _, rfl, congrArg some (s.reader.asValue_named _ none).1⟩
  | whole specifier name line =>
    rcases hresolve specifier with ⟨h, hnone⟩ | ⟨h, t, ht⟩
    · exact .inl ⟨h, by rw [result?, hnone]; rfl⟩
    · exact .inr ⟨h, _, by rw [result?, ht]; rfl, rfl⟩
  | passed specifier localName name =>
    rcases hresolve specifier with ⟨h, hnone⟩ | ⟨h, t, ht⟩
    · exact .inl ⟨h, by rw [result?, hnone]; rfl⟩
    · exact .inr ⟨h, _, by rw [result?, ht]; rfl, rfl⟩
  | unknown name => exact .inl ⟨rfl, rfl⟩
  | star specifier =>
    rcases hresolve specifier with ⟨h, hnone⟩ | ⟨h, t, ht⟩
    · exact .inl ⟨h, by rw [result?, hnone]; rfl⟩
    · exact .inr ⟨h, _, by rw [result?, ht]; rfl, rfl⟩

theorem result?_eq_star_iff {c : Candidate} {t : String} :
    c.result? s = some (.star t) ↔ ∃ specifier, c = .star specifier ∧ s.resolve specifier = some t := by
  cases c <;> simp [result?]

end Candidate

/-! The candidates of a module, by the form of its export statements -/

section Candidates

variable (s : Surroundings)

def candidatesOfDeclarator (statement : Placed) (n : Node) : List Candidate :=
  match n.child? .name with
  | none => []
  | some name =>
    if name.kind = .identifier then [.declared name.text n statement.before none]
    else (boundNames name).map .bound

def candidatesOfDeclaration (n : Node) (statement : Placed) : List Candidate :=
  match declared? n with
  | none => []
  | some d =>
    if isVariableStatement d.kind then (declarators d).flatMap (candidatesOfDeclarator statement)
    else if isNamedDeclaration d.kind then
      [.declared (((d.child? .name).map Node.text).getD "default") d statement.before none]
    else []

def candidatesFrom (n : Node) (specifier : String) : List Candidate :=
  match n.childOfKind? .exportClause, n.childOfKind? .namespaceExport with
  | some clause, _ => (Surroundings.specifiers clause).map fun (name, exported) => .passed specifier name exported
  | none, some namespaceNode =>
    namespaceNode.namedChildren.head?.toList.map fun bound =>
      .whole specifier (unquote bound.text) n.start.line
  | none, none => [.star specifier]

def candidateOfItem (name exported : String) : Candidate :=
  match s.names.import? name, s.names.local? name with
  | some i, _ => .passed i.specifier i.name exported
  | none, some b =>
    .declared exported b.node b.before (if exported = name then none else some ⟨s.modulePath, name⟩)
  | none, none => .unknown exported

/-- A default export of a name stands for what the name is bound to; of a name that nothing binds it is a value,
as of any other expression. -/
def candidateOfDefault (value : Node) (before : Option Node) : Candidate :=
  let v := unwrap value
  if v.kind = .identifier then
    match s.names.import? v.text, s.names.local? v.text with
    | some i, _ => .passed i.specifier i.name "default"
    | none, some b => .declared "default" b.node b.before (some ⟨s.modulePath, v.text⟩)
    | none, none => .declared "default" v before none
  else .declared "default" v before none

def candidatesOf (statement : Placed) : List Candidate :=
  let n := statement.node
  if n.kind ≠ .exportStatement then []
  else
    match n.child? .declaration, n.child? .source with
    | some d, _ => candidatesOfDeclaration d statement
    | none, some source => candidatesFrom n (unquote source.text)
    | none, none =>
      if n.hasToken "default" then
        (n.child? .value).toList.map fun v => candidateOfDefault s v statement.before
      else
        match n.childOfKind? .exportClause with
        | some clause =>
          (Surroundings.specifiers clause).map fun (name, exported) => candidateOfItem s name exported
        | none => []

def candidates (root : Node) : List Candidate :=
  (statements root).flatMap (candidatesOf s)

end Candidates

/-! Offers are the candidates that are not dropped. -/

section Offers

variable {s : Surroundings} {st : Placed}

def entriesOf (xs : List (Noted (Option Offer))) : List Entry :=
  xs.filterMap fun x => x.value.map Offer.entry

theorem entriesOf_flatMap {α : Type} (as : List α) (f : α → List (Noted (Option Offer))) :
    entriesOf (as.flatMap f) = as.flatMap fun a => entriesOf (f a) :=
  List.filterMap_flatMap

theorem entriesOf_map {α : Type} (as : List α) (f : α → Noted (Option Offer)) :
    entriesOf (as.map f) = as.filterMap fun a => (f a).value.map Offer.entry := by
  rw [entriesOf, List.filterMap_map]
  rfl

theorem offerDeclaration_entry (place : Position) (x : Noted (Option Declaration)) :
    (Surroundings.offerDeclaration place x).value.map Offer.entry = x.value.map .declaration := by
  rw [Surroundings.offerDeclaration, Noted.value_bind, Noted.value_pure, Option.map_map]
  rfl

theorem read_entry (place : Position) (name : String) (n : Node) (before : Option Node) :
    (Surroundings.offerDeclaration place (s.reader.read name n before)).value.map Offer.entry =
      (Candidate.declared name n before none).result? s := by
  rw [offerDeclaration_entry]
  rfl

theorem offerLocal_entry (name exported : String) (b : Binding) (place : Position) (renamed : Bool) :
    (s.offerLocal name exported b place renamed).value.map Offer.entry =
      (Candidate.declared exported b.node b.before
        (if renamed then some ⟨s.modulePath, name⟩ else none)).result? s := by
  rw [Surroundings.offerLocal, offerDeclaration_entry, Noted.value_bind, Noted.value_pure, Option.map_map]
  cases renamed <;> rfl

theorem offerImported_entry (name exported : String) (i : Import) (place : Position) :
    (s.offerImported name exported i place).value.map Offer.entry =
      (Candidate.passed i.specifier i.name exported).result? s := by
  rw [Surroundings.offerImported, Candidate.result?]
  cases s.resolve i.specifier <;> rfl

theorem offerDeclarator_entries (n : Node) :
    entriesOf (s.offerDeclarator st n) = (candidatesOfDeclarator st n).filterMap (·.result? s) := by
  simp only [Surroundings.offerDeclarator, candidatesOfDeclarator]
  cases n.child? .name with
  | none => rfl
  | some name =>
    by_cases hk : name.kind = .identifier
    · simp only [hk, beq_self_eq_true, if_true, entriesOf, List.filterMap_cons, List.filterMap_nil, read_entry]
    · simp only [hk, beq_iff_eq, if_false, entriesOf_map, List.filterMap_map, offerDeclaration_entry]
      rfl

theorem offersOfDeclaration_entries (n : Node) :
    entriesOf (s.offersOfDeclaration n st) = (candidatesOfDeclaration n st).filterMap (·.result? s) := by
  rw [Surroundings.offersOfDeclaration, candidatesOfDeclaration]
  cases declared? n with
  | none => rfl
  | some d =>
    dsimp only
    split
    · rw [entriesOf_flatMap, List.filterMap_flatMap]
      simp only [offerDeclarator_entries]
    · by_cases hk : isNamedDeclaration d.kind
      · simp only [hk, Bool.not_true, Bool.false_eq_true, if_false, if_true, entriesOf, List.filterMap_cons,
          List.filterMap_nil, read_entry]
      · simp only [hk, Bool.not_false, if_true]
        rfl

theorem offersFrom_entries (n : Node) (specifier : String) :
    entriesOf (s.offersFrom n specifier) = (candidatesFrom n specifier).filterMap (·.result? s) := by
  rw [Surroundings.offersFrom, candidatesFrom]
  cases hs : s.resolve specifier with
  | none =>
    have hdebug : entriesOf [do
        s.debug ("Dropping re-export of external module " ++ Text.quoted specifier)
        pure none] = [] := rfl
    rw [hdebug]
    split <;> simp [Candidate.result?, hs]
  | some target =>
    cases n.childOfKind? .exportClause with
    | some clause =>
      dsimp only
      rw [entriesOf_map, List.filterMap_map]
      simp only [Function.comp_def, Candidate.result?, hs]
      rfl
    | none =>
      cases n.childOfKind? .namespaceExport with
      | none => simp [entriesOf, Candidate.result?, hs]
      | some namespaceNode =>
        dsimp only
        cases namespaceNode.namedChildren with
        | nil => rfl
        | cons bound rest => simp [entriesOf, Candidate.result?, hs]

theorem offersOfClause_entries (clause : Node) :
    entriesOf (s.offersOfClause clause) =
      ((Surroundings.specifiers clause).map fun (name, exported) => candidateOfItem s name exported).filterMap
        (·.result? s) := by
  rw [Surroundings.offersOfClause, entriesOf_map, List.filterMap_map]
  congr 1
  funext p
  obtain ⟨name, exported⟩ := p
  simp only [Function.comp_apply, candidateOfItem]
  cases s.names.import? name with
  | some i => exact offerImported_entry ..
  | none =>
    cases s.names.local? name with
    | none => rfl
    | some b =>
      dsimp only
      rw [offerLocal_entry]
      by_cases h : exported = name <;> simp [h]

theorem offerDefault_entry (value : Node) :
    (s.offerDefault value st).value.map Offer.entry = (candidateOfDefault s value st.before).result? s := by
  simp only [Surroundings.offerDefault, candidateOfDefault, beq_iff_eq]
  split
  · cases s.names.import? (unwrap value).text with
    | some i => exact offerImported_entry ..
    | none =>
      cases s.names.local? (unwrap value).text with
      | none => exact read_entry ..
      | some b => exact offerLocal_entry ..
  · exact read_entry ..

theorem offersOfStatement_entries :
    entriesOf (s.offersOfStatement st) = (candidatesOf s st).filterMap (·.result? s) := by
  simp only [Surroundings.offersOfStatement, candidatesOf, bne_iff_ne]
  split
  · rfl
  cases st.node.child? .declaration with
  | some d => exact offersOfDeclaration_entries d
  | none =>
    cases st.node.child? .source with
    | some source => exact offersFrom_entries _ _
    | none =>
      dsimp only
      split
      · cases st.node.child? .value with
        | none => rfl
        | some v =>
          simp only [entriesOf, List.filterMap_cons, List.filterMap_nil, offerDefault_entry, Option.toList_some,
            List.map_cons, List.map_nil]
      · cases st.node.childOfKind? .exportClause with
        | none => rfl
        | some clause => exact offersOfClause_entries clause

theorem offers_entries (root : Node) :
    (offers s root).map Offer.entry = (candidates s root).filterMap (·.result? s) := by
  have hentries : (offers s root).map Offer.entry = entriesOf ((statements root).flatMap s.offersOfStatement) := by
    rw [offers, List.map_filterMap]
    rfl
  rw [hentries, entriesOf_flatMap, candidates, List.filterMap_flatMap]
  simp only [offersOfStatement_entries]

theorem find?_entries (root : Node) (n : String) :
    ((offers s root).map Offer.entry).find? (fun e => e.name? == some n) =
      ((candidates s root).find? fun c => c.name? == some n && !c.dropped s).bind (·.result? s) := by
  -- A candidate gives an entry under the name exactly if it has the name and is not dropped.
  have htest (c : Candidate) : (c.result? s).any (fun e => e.name? == some n) =
      (c.name? == some n && !c.dropped s) := by
    rcases c.result?_cases s with ⟨hdrop, hnone⟩ | ⟨hkeep, e, he, hname⟩
    · simp [hdrop, hnone]
    · simp [hkeep, he, hname]
  rw [offers_entries, List.find?_filterMap]
  simp only [htest]

end Offers

/-! The exports that are kept -/

section Exports

variable {file modulePath : String} {resolve : String → Option String} {root : Node}

theorem analyzeCode_distinct :
    (analyzeCode file modulePath resolve root).value.names.Nodup ∧
      (analyzeCode file modulePath resolve root).value.starExports.Nodup := by
  have hstart : Kept.Distinct { extracted := { moduleComment := moduleCommentText? root } } :=
    ⟨List.nodup_nil, List.nodup_nil, fun n => by simp [Kept.Taken, Extracted.names]⟩
  have h := Kept.distinct_foldl hstart (offers (surroundingsOf file modulePath resolve root) root)
  rw [analyzeCode_value, extractExports_value]
  exact ⟨h.names, h.stars⟩

theorem analyzeCode_under? (n : String) :
    (analyzeCode file modulePath resolve root).value.under? n =
      ((offers (surroundingsOf file modulePath resolve root) root).map Offer.entry).find?
        fun e => e.name? == some n := by
  rw [List.find?_map]
  cases hfirst : (offers (surroundingsOf file modulePath resolve root) root).find?
      ((fun e : Entry => e.name? == some n) ∘ Offer.entry) with
  | some o =>
    have hname : o.entry.name? = some n := by simpa using List.find?_some hfirst
    exact Extracted.under?_of_holds analyzeCode_distinct.1 (extracted_of_first hfirst) hname
  | none =>
    -- What is kept was offered, so that nothing is kept under the name either.
    cases hentry : (analyzeCode file modulePath resolve root).value.under? n with
    | none => rfl
    | some e =>
      obtain ⟨hholds, hname⟩ := Extracted.holds_of_under? hentry
      obtain ⟨o, ho, rfl⟩ := exists_offer hholds
      exact absurd hname (by simpa using List.find?_eq_none.mp hfirst o ho)

theorem mem_starExports_iff {t : String} :
    t ∈ (analyzeCode file modulePath resolve root).value.starExports ↔
      .star t ∈ (offers (surroundingsOf file modulePath resolve root) root).map Offer.entry := by
  rw [List.mem_map]
  constructor
  · exact exists_offer (e := .star t)
  · intro h
    rw [analyzeCode_value, extractExports_value]
    exact Kept.holds_foldl_of_star h

def surroundingsIn (p : Program) (o : SourceOptions) (id modulePath : String) (root : Node) : Surroundings :=
  surroundingsOf id modulePath (p.targetPath? o id) root

theorem extract_keeps_first (p : Program) (o : SourceOptions) (id modulePath content : String) (kind : FileKind)
    (root : Node) :
    let s := surroundingsIn p o id modulePath root
    ∃ x, (extract p o { id, kind, content, script := some root } modulePath).outcome = .ok x ∧
      x.names.Nodup ∧ x.starExports.Nodup ∧
      (∀ n, x.under? n =
        ((candidates s root).find? fun c => c.name? == some n && !c.dropped s).bind (·.result? s)) ∧
      (∀ c : Candidate, c.dropped s = false → ∃ e, c.result? s = some e ∧ e.name? = c.name?) ∧
      (∀ t, t ∈ x.starExports ↔
        ∃ specifier, .star specifier ∈ candidates s root ∧ s.resolve specifier = some t) ∧
      ∀ specifier, s.resolve specifier = none ↔ p.resolve? specifier id = none := by
  intro s
  refine ⟨_, Run.outcome_ofNoted _, analyzeCode_distinct.1, analyzeCode_distinct.2, fun n => ?_, ?_, fun t => ?_,
    fun specifier => Option.map_eq_none_iff⟩
  · rw [analyzeCode_under?, find?_entries]
    rfl
  · intro c hc
    rcases c.result?_cases s with ⟨hdrop, _⟩ | ⟨_, hentry⟩
    · rw [hc] at hdrop
      cases hdrop
    · exact hentry
  · rw [mem_starExports_iff, offers_entries, List.mem_filterMap]
    simp only [Candidate.result?_eq_star_iff]
    constructor
    · rintro ⟨_, hc, specifier, rfl, ht⟩
      exact ⟨specifier, hc, ht⟩
    · rintro ⟨specifier, hc, ht⟩
      exact ⟨_, hc, specifier, rfl, ht⟩

def Candidate.unbound (names : Names) : Candidate → Bool
  | declared _ node _ _ =>
    node.kind == .identifier && (names.import? node.text).isNone && (names.local? node.text).isNone
  | unknown _ => true
  | _ => false

def Entry.line? : Entry → Option Nat
  | .declaration d => d.sourceLine
  | _ => none

def unboundDefault : Node :=
  parseScript "export default Foo;\nconst x = 1;\nexport { x as default };"

theorem unboundDefault_kept :
    let s := surroundingsOf "m.ts" "m.ts" (fun _ => none) unboundDefault
    (analyzeCode "m.ts" "m.ts" (fun _ => none) unboundDefault).value.under? "default" ≠
      ((candidates s unboundDefault).find? fun c =>
        c.name? == some "default" && !c.dropped s && !c.unbound s.names).bind (·.result? s) := by
  intro s h
  have hlines := congrArg (Option.map Entry.line?) h
  revert hlines
  decide +kernel

end Exports

end ApiCatalog.Code
