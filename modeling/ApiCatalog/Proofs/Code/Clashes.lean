import ApiCatalog.Proofs.Code.FirstExport
import ApiCatalog.Proofs.Code.Notes
import ApiCatalog.Syntax.Program

namespace ApiCatalog.Code

open Syntax

def Entry.kind? : Entry → Option DeclarationKind
  | .declaration d => some d.kind
  | _ => none

def isClash (name : String) (d : Diagnostic) : Bool :=
  d.kind == .duplicateBinding && d.symbol == some name

/-! Runs of offers -/

namespace Kept

variable {k : Kept} {file name : String} {o : Offer} {os : List Offer}

theorem diagnostics_claim (k : Kept) (file name : String) (kind : Option DeclarationKind) (place : Position)
    (accepted : Kept) :
    (k.claim file name kind place accepted).diagnostics =
      (k.taken.lookup name).elim [] fun earlier =>
        if isOverload earlier kind then [] else [clashReport file name place] := by
  rw [claim]
  cases k.taken.lookup name with
  | none => rfl
  | some earlier =>
    dsimp only [Option.elim]
    split <;> rfl

theorem diagnostics_add (h : o.entry.name? = some name) :
    (k.add file o).diagnostics =
      (k.taken.lookup name).elim [] fun earlier =>
        if isOverload earlier o.entry.kind? then [] else [clashReport file name o.place] := by
  rw [add]
  cases he : o.entry with
  | star t =>
    rw [he] at h
    cases h
  | declaration d =>
    rw [he] at h
    cases h
    exact diagnostics_claim ..
  | reExport e =>
    rw [he] at h
    cases h
    exact diagnostics_claim ..

theorem clashes_add (k : Kept) (file name : String) (o : Offer) :
    (k.add file o).diagnostics.filter (isClash name) =
      if o.entry.name? = some name then
        (k.taken.lookup name).elim [] fun earlier =>
          if isOverload earlier o.entry.kind? then [] else [clashReport file name o.place]
      else [] := by
  cases hname : o.entry.name? with
  | none =>
    have hstar : (k.add file o).diagnostics = [] := by
      rw [add]
      cases he : o.entry with
      | star t => rfl
      | declaration d => simp [he, Entry.name?] at hname
      | reExport e => simp [he, Entry.name?] at hname
    simp [hstar]
  | some m =>
    rw [diagnostics_add hname]
    by_cases hm : m = name
    · subst hm
      rw [if_pos rfl]
      cases k.taken.lookup m with
      | none => rfl
      | some earlier =>
        dsimp only [Option.elim]
        split <;> simp [isClash, clashReport]
    · rw [if_neg (by simpa using hm)]
      cases k.taken.lookup m with
      | none => rfl
      | some earlier =>
        dsimp only [Option.elim]
        split <;> simp [isClash, clashReport, hm]

theorem lookup_accepted {m : String} {kind : Option DeclarationKind} {accepted : Kept}
    (haccepted : accepted.taken = (m, kind) :: k.taken) (name : String) :
    (if (k.taken.lookup m).isSome then k else accepted).taken.lookup name =
      if m = name then (k.taken.lookup name).or (some kind) else k.taken.lookup name := by
  by_cases hm : m = name
  · subst hm
    cases hlookup : k.taken.lookup m <;> simp [haccepted, hlookup]
  · rw [if_neg hm]
    split
    · rfl
    · rw [haccepted, List.lookup_cons, beq_false_of_ne (Ne.symm hm)]

theorem lookup_take (k : Kept) (o : Offer) (name : String) :
    (k.take o).taken.lookup name =
      if o.entry.name? = some name then (k.taken.lookup name).or (some o.entry.kind?) else k.taken.lookup name := by
  rw [take]
  cases o.entry with
  | star t =>
    have hstar : (k.addStar t).taken = k.taken := by
      rw [addStar]
      split <;> rfl
    simp [hstar, Entry.name?]
  | declaration d => simpa [Entry.name?, Entry.kind?] using @lookup_accepted k _ _ (k.addDeclaration d) rfl name
  | reExport e => simpa [Entry.name?, Entry.kind?] using @lookup_accepted k _ _ (k.addReExport e) rfl name

def under (name : String) (os : List Offer) : List Offer :=
  os.filter fun o => o.entry.name? == some name

def reported : List Offer → List Offer
  | [] => []
  | first :: later => later.filter fun o => !isOverload first.entry.kind? o.entry.kind?

theorem clashes_of_taken {earlier : Option DeclarationKind} (h : k.taken.lookup name = some earlier) :
    (os.foldlM (fun k o => add k file o) k).diagnostics.filter (isClash name) =
      ((under name os).filter fun o => !isOverload earlier o.entry.kind?).map fun o => clashReport file name o.place := by
  induction os generalizing k with
  | nil => rfl
  | cons o os ih =>
    have htake : (k.add file o).value.taken.lookup name = some earlier := by
      rw [value_add, lookup_take, h]
      split <;> rfl
    rw [List.foldlM_cons, Noted.diagnostics_bind, List.filter_append, ih htake, clashes_add, h]
    by_cases hname : o.entry.name? = some name
    · by_cases hover : isOverload earlier o.entry.kind? = true <;> simp [under, hname, hover]
    · simp [under, hname]

theorem clashes_of_free (h : k.taken.lookup name = none) :
    (os.foldlM (fun k o => add k file o) k).diagnostics.filter (isClash name) =
      (reported (under name os)).map fun o => clashReport file name o.place := by
  induction os generalizing k with
  | nil => rfl
  | cons o os ih =>
    rw [List.foldlM_cons, Noted.diagnostics_bind, List.filter_append, clashes_add, h]
    by_cases hname : o.entry.name? = some name
    · have htake : (k.add file o).value.taken.lookup name = some o.entry.kind? := by
        rw [value_add, lookup_take, if_pos hname, h]
        rfl
      rw [clashes_of_taken htake]
      simp [under, hname, reported]
    · have htake : (k.add file o).value.taken.lookup name = none := by rw [value_add, lookup_take, if_neg hname, h]
      rw [ih htake]
      simp [under, hname]

theorem clashes_keepOffer {xs : List (Noted (Option Offer))}
    (h : ∀ x ∈ xs, x.Each fun d => isClash name d = false) (k : Kept) :
    (xs.foldlM (keepOffer file) k).diagnostics.filter (isClash name) =
      ((xs.filterMap Noted.value).foldlM (fun k o => add k file o) k).diagnostics.filter (isClash name) := by
  induction xs generalizing k with
  | nil => rfl
  | cons x xs ih =>
    obtain ⟨hx, hxs⟩ := List.forall_mem_cons.mp h
    have hown : x.diagnostics.filter (isClash name) = [] := List.filter_eq_nil_iff.mpr fun d hd => by simp [hx d hd]
    rw [List.foldlM_cons, Noted.diagnostics_bind, List.filter_append, ih hxs, keepOffer, Noted.diagnostics_bind,
      List.filter_append, hown, List.nil_append, Noted.value_bind]
    cases hv : x.value with
    | none => simp [hv]
    | some o => simp [hv, List.foldlM_cons]

end Kept

/-! Functions -/

def definesFunction (n : Node) : Bool :=
  isFunctionDeclaration n.kind || isFunctionValue n.kind ||
    (n.kind == .variableDeclarator && ((n.child? .value).map unwrap).any fun v => isFunctionValue v.kind)

namespace Reader

variable (r : Reader)

theorem asValue_kind (d : Declaration) (v : Option Node) : (r.asValue d v).value.kind = .value := by
  rw [asValue]
  cases v.bind expressionType? <;> rfl

theorem asInterface_kind (d : Declaration) (n : Node) : (r.asInterface d n).value.kind = .interface := by
  rw [asInterface]
  cases n.child? .body <;> rfl

theorem asVariable_kind (d : Declaration) (n : Node) (doc : Option DocComment) :
    ((r.asVariable d n doc).value.kind == .function) =
      ((n.child? .value).map unwrap).any fun v => isFunctionValue v.kind := by
  simp only [asVariable]
  split
  next hfunction =>
    rw [hfunction]
    split
    next => rfl
    next hnone => simp [hnone] at hfunction
  next hother =>
    rw [eq_false_of_ne_true hother]
    split
    next =>
      split
      next => rfl
      next =>
        split
        next => rfl
        next => rw [asValue_kind]; rfl
    next => rfl
    next => rw [asValue_kind]; rfl

theorem read_kind {name : String} {n : Node} {before : Option Node} {d : Declaration}
    (h : (r.read name n before).value = some d) : (d.kind == .function) = definesFunction n := by
  have hshown : ¬ (r.docBefore? before).any (·.hidden) = true := by
    intro hhides
    rw [r.read_of_hides hhides] at h
    cases h
  simp only [read] at h
  rw [if_neg hshown] at h
  rw [definesFunction]
  split at h
  next hfunction =>
    cases h
    rw [hfunction]
    rfl
  next hother =>
    rw [eq_false_of_ne_true hother, Bool.false_or]
    split at h
    next hclass =>
      cases h
      rw [beq_false_of_ne (a := n.kind), Bool.false_and]
      · rfl
      · intro hk
        rw [hk] at hclass
        cases hclass
    next =>
      split at h
      case h_1 hk | h_3 hk =>
        cases h
        rw [hk]
        rfl
      case h_2 hk =>
        cases h
        rw [asInterface_kind, hk]
        rfl
      case h_4 hk =>
        cases h
        rw [hk]
        exact r.asVariable_kind ..
      case h_5 hk =>
        cases h
        rw [asValue_kind, beq_false_of_ne hk]
        rfl

end Reader

namespace Candidate

def isFunction : Candidate → Bool
  | declared _ node _ _ => definesFunction node
  | _ => false

theorem kind?_result? {s : Surroundings} {c : Candidate} {e : Entry} (h : c.result? s = some e) :
    (e.kind? == some .function) = c.isFunction := by
  cases c with
  | declared name node before aliasOf =>
    obtain ⟨d, hd, rfl⟩ := Option.map_eq_some_iff.mp h
    have hkind : (Entry.declaration (aliasOf.elim d fun a => { d with aliasOf := some a })).kind? = some d.kind := by
      cases aliasOf <;> rfl
    rw [hkind, isFunction, ← s.reader.read_kind hd]
    rfl
  | bound i =>
    cases h
    rw [Entry.kind?, Reader.asValue_kind]
    rfl
  | whole specifier name line =>
    obtain ⟨_, _, rfl⟩ := Option.map_eq_some_iff.mp h
    rfl
  | passed specifier localName name =>
    obtain ⟨_, _, rfl⟩ := Option.map_eq_some_iff.mp h
    rfl
  | unknown name => cases h
  | star specifier =>
    obtain ⟨_, _, rfl⟩ := Option.map_eq_some_iff.mp h
    rfl

end Candidate

/-! Places -/

/-- Where the exports of a statement are reported: at the clause with their names if they are names of the module, and else
at the statement. -/
def reportPlace (st : Placed) : Position :=
  if (st.node.child? .declaration).isNone && (st.node.child? .source).isNone && !st.node.hasToken "default" then
    ((st.node.childOfKind? .exportClause).map Node.start).getD st.node.start
  else st.node.start

section Places

variable {s : Surroundings} {st : Placed} {x : Noted (Option Offer)} {o : Offer} {n : Node} {place : Position}

def PlacedAt (place : Position) (xs : List (Noted (Option Offer))) : Prop :=
  ∀ x ∈ xs, ∀ o, x.value = some o → o.place = place

theorem offerDeclaration_place {x : Noted (Option Declaration)}
    (h : (Surroundings.offerDeclaration place x).value = some o) : o.place = place := by
  obtain ⟨d, _, rfl⟩ := Option.map_eq_some_iff.mp h
  rfl

theorem offerImported_place {name exported : String} {i : Import}
    (h : (s.offerImported name exported i place).value = some o) : o.place = place := by
  rw [Surroundings.offerImported] at h
  split at h
  · cases h
  · cases h
    rfl

theorem offersOfDeclaration_place : PlacedAt st.node.start (s.offersOfDeclaration n st) := by
  intro x hx o ho
  rw [Surroundings.offersOfDeclaration] at hx
  split at hx
  · cases hx
  split at hx
  · obtain ⟨v, -, hx⟩ := List.mem_flatMap.mp hx
    simp only [Surroundings.offerDeclarator] at hx
    split at hx
    · cases hx
    split at hx
    · cases List.mem_singleton.mp hx
      exact offerDeclaration_place ho
    · obtain ⟨i, -, rfl⟩ := List.mem_map.mp hx
      exact offerDeclaration_place ho
  split at hx
  · cases List.mem_singleton.mp hx
    cases ho
  · cases List.mem_singleton.mp hx
    exact offerDeclaration_place ho

theorem offersFrom_place {specifier : String} : PlacedAt n.start (s.offersFrom n specifier) := by
  intro x hx o ho
  rw [Surroundings.offersFrom] at hx
  split at hx
  · cases List.mem_singleton.mp hx
    cases ho
  split at hx
  · obtain ⟨_, -, rfl⟩ := List.mem_map.mp hx
    cases ho
    rfl
  · split at hx
    · cases hx
    · cases List.mem_singleton.mp hx
      cases ho
      rfl
  · cases List.mem_singleton.mp hx
    cases ho
    rfl

theorem offersOfClause_place : PlacedAt n.start (s.offersOfClause n) := by
  intro x hx o ho
  obtain ⟨⟨name, exported⟩, -, rfl⟩ := List.mem_map.mp hx
  dsimp only at ho
  split at ho
  · exact offerImported_place ho
  · exact offerDeclaration_place ho
  · cases ho

theorem offerDefault_place (h : (s.offerDefault n st).value = some o) : o.place = st.node.start := by
  simp only [Surroundings.offerDefault] at h
  split at h
  · split at h
    · exact offerImported_place h
    · exact offerDeclaration_place h
    · exact offerDeclaration_place h
  · exact offerDeclaration_place h

theorem offersOfStatement_place : PlacedAt (reportPlace st) (s.offersOfStatement st) := by
  simp only [Surroundings.offersOfStatement]
  split
  · exact fun x hx => absurd hx List.not_mem_nil
  rw [reportPlace]
  cases st.node.child? .declaration with
  | some d => exact offersOfDeclaration_place
  | none =>
    cases st.node.child? .source with
    | some source => exact offersFrom_place
    | none =>
      by_cases hdefault : st.node.hasToken "default" = true
      · simp only [hdefault, if_true]
        intro x hx o ho
        split at hx
        · cases List.mem_singleton.mp hx
          exact offerDefault_place ho
        · cases hx
      · simp only [hdefault, Bool.false_eq_true, if_false]
        cases st.node.childOfKind? .exportClause with
        | some clause => exact offersOfClause_place
        | none => exact fun x hx => absurd hx List.not_mem_nil

end Places

/-! Rivals -/

section Rivals

variable {s : Surroundings} {root : Node} {name : String}

def visited (s : Surroundings) (root : Node) : List (Candidate × Position) :=
  (statements root).flatMap fun st => (candidatesOf s st).map fun c => (c, reportPlace st)

def offer? (s : Surroundings) (c : Candidate × Position) : Option Offer :=
  (c.1.result? s).map fun e => ⟨e, c.2⟩

def rivals (s : Surroundings) (root : Node) (name : String) : List (Candidate × Position) :=
  (visited s root).filter fun c => c.1.name? == some name && !c.1.dropped s

/-- Of the candidates for a name, those that are refused with a report: all but the first, unless the first is a
function and so is the other. -/
def refused : List (Candidate × Position) → List (Candidate × Position)
  | [] => []
  | first :: later => later.filter fun c => !(first.1.isFunction && c.1.isFunction)

theorem offersOfStatement_eq (st : Placed) :
    (s.offersOfStatement st).filterMap Noted.value =
      ((candidatesOf s st).map fun c => (c, reportPlace st)).filterMap (offer? s) := by
  have hplaced : ∀ o ∈ (s.offersOfStatement st).filterMap Noted.value, (⟨o.entry, reportPlace st⟩ : Offer) = o := by
    intro o ho
    obtain ⟨x, hx, hvalue⟩ := List.mem_filterMap.mp ho
    rw [← offersOfStatement_place x hx o hvalue]
  calc (s.offersOfStatement st).filterMap Noted.value
      = (entriesOf (s.offersOfStatement st)).map fun e => ⟨e, reportPlace st⟩ := by
        have hentries : entriesOf (s.offersOfStatement st) =
            ((s.offersOfStatement st).filterMap Noted.value).map Offer.entry := List.map_filterMap.symm
        rw [hentries, List.map_map]
        exact ((List.map_congr_left hplaced).trans (List.map_id _)).symm
    _ = ((candidatesOf s st).map fun c => (c, reportPlace st)).filterMap (offer? s) := by
        rw [offersOfStatement_entries, List.map_filterMap, List.filterMap_map]
        rfl

theorem offers_eq : offers s root = (visited s root).filterMap (offer? s) := by
  rw [offers, visited, List.filterMap_flatMap, List.filterMap_flatMap]
  simp only [offersOfStatement_eq]

theorem candidates_eq : candidates s root = (visited s root).map Prod.fst := by
  simp [candidates, visited, List.map_flatMap, Function.comp_def]

theorem under_offers : Kept.under name (offers s root) = (rivals s root name).filterMap (offer? s) := by
  rw [offers_eq, Kept.under, rivals, List.filter_filterMap, List.filterMap_filter]
  congr 1
  funext c
  rcases c.1.result?_cases s with ⟨hdrop, hnone⟩ | ⟨hkeep, e, he, hname⟩
  · simp [offer?, hdrop, hnone]
  · by_cases hc : c.1.name? = some name <;> simp [offer?, hkeep, he, hname, hc]

theorem offer?_of_mem_rivals {c : Candidate × Position} (h : c ∈ rivals s root name) :
    ∃ o, offer? s c = some o ∧ o.place = c.2 ∧ (o.entry.kind? == some .function) = c.1.isFunction := by
  have hkept : c.1.dropped s = false := by simpa using (Bool.and_eq_true_iff.mp (List.mem_filter.mp h).2).2
  rcases c.1.result?_cases s with ⟨hdrop, -⟩ | ⟨-, e, he, -⟩
  · rw [hkept] at hdrop
    cases hdrop
  · exact ⟨⟨e, c.2⟩, by rw [offer?, he]; rfl, rfl, Candidate.kind?_result? he⟩

theorem reported_rivals :
    (Kept.reported ((rivals s root name).filterMap (offer? s))).map Offer.place =
      (refused (rivals s root name)).map Prod.snd := by
  have hoffers := @offer?_of_mem_rivals s root name
  generalize rivals s root name = cs at hoffers ⊢
  cases cs with
  | nil => rfl
  | cons first later =>
    obtain ⟨⟨o, ho, -, hfirst⟩, hlater⟩ := List.forall_mem_cons.mp @hoffers
    rw [List.filterMap_cons_some ho, Kept.reported, refused]
    clear hoffers
    induction later with
    | nil => rfl
    | cons c cs ih =>
      obtain ⟨⟨o', ho', hplace, hkind⟩, hcs⟩ := List.forall_mem_cons.mp hlater
      have hoverload : Kept.isOverload o.entry.kind? o'.entry.kind? = (first.1.isFunction && c.1.isFunction) := by
        rw [Kept.isOverload, hfirst, hkind, Bool.and_comm]
      rw [List.filterMap_cons_some ho', List.filter_cons, List.filter_cons, hoverload]
      split
      · rw [List.map_cons, List.map_cons, ih hcs, hplace]
      · exact ih hcs

end Rivals

/-! Reports of a module -/

section Reports

variable {file modulePath : String} {resolve : String → Option String} {root : Node}

theorem diagnostics_analyzeCode :
    (analyzeCode file modulePath resolve root).diagnostics =
      (((statements root).flatMap (surroundingsOf file modulePath resolve root).offersOfStatement).foldlM
        (keepOffer file) { extracted := { moduleComment := moduleCommentText? root } }).diagnostics := by
  have hexports : (extractExports file modulePath resolve root).diagnostics =
      (((statements root).flatMap (surroundingsOf file modulePath resolve root).offersOfStatement).foldlM
        (keepOffer file) { extracted := { moduleComment := moduleCommentText? root } }).diagnostics := by
    rw [extractExports]
    exact List.append_nil _
  rw [analyzeCode]
  cases root.firstError? <;> exact hexports

theorem offers_not_clash {s : Surroundings} {x : Noted (Option Offer)}
    (hx : x ∈ (statements root).flatMap s.offersOfStatement) : x.Each fun d => d.kind ≠ .duplicateBinding := by
  obtain ⟨st, -, hx⟩ := List.mem_flatMap.mp hx
  refine (s.each_offersOfStatement hx).imp ?_
  rintro d ⟨hkind | hkind | hkind, -⟩ <;> simp [hkind]

theorem clashes_analyzeCode (name : String) :
    (analyzeCode file modulePath resolve root).diagnostics.filter (isClash name) =
      (refused (rivals (surroundingsOf file modulePath resolve root) root name)).map fun c =>
        clashReport file name c.2 := by
  have hown : ∀ x ∈ (statements root).flatMap (surroundingsOf file modulePath resolve root).offersOfStatement,
      x.Each fun d => isClash name d = false :=
    fun x hx => (offers_not_clash hx).imp fun d hd => by simp [isClash, hd]
  rw [diagnostics_analyzeCode, Kept.clashes_keepOffer hown, ← offers, Kept.clashes_of_free rfl, under_offers]
  have hplaces := congrArg (List.map (clashReport file name))
    (@reported_rivals (surroundingsOf file modulePath resolve root) root name)
  rwa [List.map_map, List.map_map] at hplaces

theorem symbol_of_clash :
    (analyzeCode file modulePath resolve root).Each fun d => d.kind = .duplicateBinding → ∃ name, d.symbol = some name := by
  rw [Noted.Each, diagnostics_analyzeCode]
  refine Noted.each_foldlM _ (fun k x hx => ?_) _
  exact each_keepOffer ((offers_not_clash hx).imp fun d hd h => absurd h hd) fun name place _ => ⟨name, rfl⟩

/-- Under each name stands the first candidate for it that is not dropped. The reports over the name are one for each later
one, in order, at its place, unless both it and the first are functions. There are no other reports of exports that are
refused. -/
theorem refused_exports_reported (p : Program) (o : SourceOptions) (id modulePath content : String) (kind : FileKind)
    (root : Node) :
    let s := surroundingsIn p o id modulePath root
    let run := extract p o { id, kind, content, script := some root } modulePath
    (∃ x, run.outcome = .ok x ∧
      ∀ name, x.under? name = (rivals s root name).head?.bind fun c => c.1.result? s) ∧
    (∀ name, run.diagnostics.filter (isClash name) =
      (refused (rivals s root name)).map fun c => clashReport id name c.2) ∧
    ∀ d ∈ run.diagnostics, d.kind = .duplicateBinding → ∃ name, d.symbol = some name := by
  intro s run
  have hdiagnostics : run.diagnostics = (analyzeCode id modulePath (p.targetPath? o id) root).diagnostics :=
    Run.diagnostics_ofNoted _
  rw [hdiagnostics]
  refine ⟨⟨_, Run.outcome_ofNoted _, fun name => ?_⟩, fun name => clashes_analyzeCode name, symbol_of_clash⟩
  rw [analyzeCode_under?, find?_entries, candidates_eq, List.find?_map, rivals, List.head?_filter, Option.bind_map]
  rfl

def Candidate.localFunction? : Candidate → Option String
  | declared _ node _ _ => if isFunctionDeclaration node.kind then (node.child? .name).map Node.text else none
  | _ => none

def renamedFunctions : Node :=
  parseScript "function a() \x7b\x7d\nfunction b(x: string) \x7b\x7d\nexport \x7b a as f, b as f \x7d;"

theorem renamed_function_unreported :
    let s := surroundingsOf "m.ts" "m.ts" (fun _ => none) renamedFunctions
    (rivals s renamedFunctions "f").map (fun c => c.1.localFunction?) = [some "a", some "b"] ∧
    (analyzeCode "m.ts" "m.ts" (fun _ => none) renamedFunctions).value.declarations.map
      (fun d => (d.name, d.typeSignature)) = [("f", some "() => void")] ∧
    (analyzeCode "m.ts" "m.ts" (fun _ => none) renamedFunctions).diagnostics = [] := by
  decide +kernel

end Reports

end ApiCatalog.Code
