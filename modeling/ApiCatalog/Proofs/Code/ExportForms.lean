import ApiCatalog.Proofs.Code.Twins

/-!
Two forms of an export: the word `export` before each declaration, or a clause that lists the names. Both give the same
catalog where every name has one declaration of its own. Of a function with overloads the first form shows the first
declaration and the clause the last one, and names that are bound by taking a value apart are only found by the first
form.
-/

namespace ApiCatalog.Code

open Syntax Node

/-! What stands under a name -/

namespace Candidate

variable {s : Surroundings} {x : String} {cs : List Candidate}

def isNamed (x : String) (c : Candidate) : Bool :=
  c.name? == some x

theorem find?_results (cs : List Candidate) :
    (cs.filterMap (·.result? s)).find? (fun e => e.name? == some x) =
      (cs.filter (isNamed x)).findSome? (·.result? s) := by
  induction cs with
  | nil => rfl
  | cons c cs ih =>
    rcases c.result?_cases s with ⟨_, hnone⟩ | ⟨_, entry, hentry, hname⟩
    · rw [List.filterMap_cons_none hnone, ih, List.filter_cons]
      split
      · rw [List.findSome?_cons, hnone]
      · rfl
    · rw [List.filterMap_cons_some hentry, List.find?_cons, List.filter_cons, hname, isNamed]
      cases c.name? == some x with
      | true => simp [hentry]
      | false => simpa using ih

def ofBinding (x : String) (b : Binding) : Candidate :=
  .declared x b.node b.before none

def binding? : Candidate → Option (String × Binding)
  | declared x n b none => some (x, ⟨n, b⟩)
  | _ => none

def identifier? : Candidate → Option Node
  | bound i => some i
  | _ => none

@[simp] theorem isNamed_ofBinding (y : String) (b : Binding) : (ofBinding y b).isNamed x = (y == x) := rfl

@[simp] theorem binding?_ofBinding (y : String) (b : Binding) : (ofBinding y b).binding? = some (y, b) := rfl

@[simp] theorem identifier?_ofBinding (y : String) (b : Binding) : (ofBinding y b).identifier? = none := rfl

@[simp] theorem isNamed_bound (i : Node) : (bound i).isNamed x = (i.text == x) := rfl

@[simp] theorem binding?_bound (i : Node) : (bound i).binding? = none := rfl

@[simp] theorem identifier?_bound (i : Node) : (bound i).identifier? = some i := rfl

def IsPlain (c : Candidate) : Prop :=
  (∃ x b, c = ofBinding x b) ∨ ∃ i, c = bound i

theorem eq_map_of_identifiers (h : ∀ c ∈ cs, c.IsPlain) (hnone : cs.filterMap identifier? = []) :
    cs = (cs.filterMap binding?).map fun p => ofBinding p.1 p.2 := by
  induction cs with
  | nil => rfl
  | cons c cs ih =>
    obtain ⟨hc, hcs⟩ := List.forall_mem_cons.mp h
    rcases hc with ⟨y, b, rfl⟩ | ⟨i, rfl⟩
    · exact congrArg (ofBinding y b :: ·) (ih hcs hnone)
    · cases hnone

theorem filter_of_identifiers (h : ∀ c ∈ cs, c.IsPlain) (hx : ∀ i ∈ cs.filterMap identifier?, i.text ≠ x) :
    cs.filter (isNamed x) =
      ((cs.filterMap binding?).filterMap fun p => if p.1 = x then some p.2 else none).map (ofBinding x) := by
  induction cs with
  | nil => rfl
  | cons c cs ih =>
    obtain ⟨hc, hcs⟩ := List.forall_mem_cons.mp h
    rcases hc with ⟨y, b, rfl⟩ | ⟨i, rfl⟩
    · have ih' := ih hcs hx
      by_cases hy : y = x
      · simp [hy, ih']
      · simp [hy, ih']
    · obtain ⟨hi, hrest⟩ := List.forall_mem_cons.mp hx
      simp [hi, ih hcs hrest, List.filterMap_cons]

theorem filter_of_bindings (h : ∀ c ∈ cs, c.IsPlain) (hx : ∀ p ∈ cs.filterMap binding?, p.1 ≠ x) :
    cs.filter (isNamed x) = ((cs.filterMap identifier?).filter fun i => i.text == x).map bound := by
  induction cs with
  | nil => rfl
  | cons c cs ih =>
    obtain ⟨hc, hcs⟩ := List.forall_mem_cons.mp h
    rcases hc with ⟨y, b, rfl⟩ | ⟨i, rfl⟩
    · obtain ⟨hy, hrest⟩ := List.forall_mem_cons.mp hx
      simp [hy, ih hcs hrest, List.filterMap_cons]
    · have ih' := ih hcs hx
      by_cases hi : i.text = x
      · simp [hi, ih']
      · simp [hi, ih']

end Candidate

section Declared

variable {f : Position → Position} {n e : Node} {st : Placed} {sts : List Placed} {x : String}

def boundBy (st : Placed) : List (String × Binding) :=
  (declares st.node).map fun e => (e.1, ⟨e.2, st.before⟩)

theorem candidatesOfDeclarator_forms (v : Node) :
    (∀ c ∈ candidatesOfDeclarator st v, c.IsPlain) ∧
    (candidatesOfDeclarator st v).filterMap Candidate.binding? =
      (((v.child? .name).bind fun name => if name.kind = .identifier then some (name.text, v) else none).map
        fun e => (e.1, Binding.mk e.2 st.before)).toList ∧
    (candidatesOfDeclarator st v).filterMap Candidate.identifier? =
      (v.child? .name).toList.flatMap fun name => if name.kind = .identifier then [] else boundNames name := by
  rw [candidatesOfDeclarator]
  cases v.child? .name with
  | none => exact ⟨List.forall_mem_nil _, rfl, rfl⟩
  | some name =>
    by_cases hk : name.kind = .identifier
    · have hplain : (Candidate.declared name.text v st.before none).IsPlain := .inl ⟨name.text, ⟨v, st.before⟩, rfl⟩
      simp [hk, hplain, Candidate.binding?, Candidate.identifier?]
    · have hplain (i : Node) : (Candidate.bound i).IsPlain := .inr ⟨i, rfl⟩
      simp [hk, hplain, List.filterMap_map, Function.comp_def]

theorem Exports.candidates_forms (h : Exports f st.node e) :
    (∀ c ∈ candidatesOfDeclaration st.node st, c.IsPlain) ∧
    (candidatesOfDeclaration st.node st).filterMap Candidate.binding? = boundBy st ∧
    (candidatesOfDeclaration st.node st).filterMap Candidate.identifier? = destructured st.node := by
  obtain ⟨d, hd, hkind⟩ := h.declares
  simp only [candidatesOfDeclaration, boundBy, Code.declares, destructured, Option.mem_def.mp hd]
  by_cases hvariable : isVariableStatement d.kind
  · simp only [hvariable, if_true, List.filterMap_flatMap, List.map_filterMap, candidatesOfDeclarator_forms]
    refine ⟨?_, ?_, trivial⟩
    · intro c hc
      obtain ⟨v, _, hc⟩ := List.mem_flatMap.mp hc
      exact (candidatesOfDeclarator_forms v).1 c hc
    · rw [← List.filterMap_eq_flatMap_toList]
  · obtain ⟨hnamed, hname⟩ := hkind.resolve_left hvariable
    obtain ⟨name, hname⟩ := Option.isSome_iff_exists.mp hname
    have hplain : (Candidate.declared name.text d st.before none).IsPlain := .inl ⟨name.text, ⟨d, st.before⟩, rfl⟩
    simp [hvariable, hnamed, hname, hplain, Candidate.binding?, Candidate.identifier?]

theorem Exports.bindingsOf (h : Exports f st.node e) :
    bindingsOf x st = (boundBy st).filterMap fun p => if p.1 = x then some p.2 else none := by
  rw [Code.bindingsOf, declarationIn?_plain h.ne_import h.ne_export, boundBy, List.filterMap_map]
  rfl

theorem candidatesOfGroup_forms (h : ∀ st ∈ sts, ∃ e, Exports f st.node e) :
    (∀ c ∈ candidatesOfGroup sts, c.IsPlain) ∧
    (candidatesOfGroup sts).filterMap Candidate.binding? = sts.flatMap boundBy ∧
    (candidatesOfGroup sts).filterMap Candidate.identifier? = sts.flatMap fun st => destructured st.node := by
  induction sts with
  | nil => exact ⟨nofun, rfl, rfl⟩
  | cons st sts ih =>
    obtain ⟨⟨e, he⟩, hrest⟩ := List.forall_mem_cons.mp h
    obtain ⟨hplain, hbindings, hidentifiers⟩ := he.candidates_forms
    obtain ⟨ihplain, ihbindings, ihidentifiers⟩ := ih hrest
    rw [candidatesOfGroup] at ihplain ihbindings ihidentifiers ⊢
    refine ⟨?_, ?_, ?_⟩
    · rw [List.flatMap_cons, List.forall_mem_append]
      exact ⟨hplain, ihplain⟩
    · rw [List.flatMap_cons, List.filterMap_append, hbindings, ihbindings, List.flatMap_cons]
    · rw [List.flatMap_cons, List.filterMap_append, hidentifiers, ihidentifiers, List.flatMap_cons]

theorem flatMap_bindingsOf (h : ∀ st ∈ sts, ∃ e, Exports f st.node e) :
    sts.flatMap (bindingsOf x) = (sts.flatMap boundBy).filterMap fun p => if p.1 = x then some p.2 else none := by
  rw [List.filterMap_flatMap]
  apply List.flatMap_congr
  intro st hst
  obtain ⟨e, he⟩ := h st hst
  exact he.bindingsOf

end Declared

/-! Both forms of a module -/

namespace Kept

theorem foldl_take_congr {os os' : List Offer} (h : os.map Offer.entry = os'.map Offer.entry) (k : Kept) :
    os.foldl take k = os'.foldl take k := by
  induction os generalizing os' k with
  | nil =>
    cases os' with
    | nil => rfl
    | cons o' os' => cases h
  | cons o os ih =>
    cases os' with
    | nil => cases h
    | cons o' os' =>
      obtain ⟨hentry, hrest⟩ := List.cons.inj h
      have htake : k.take o = k.take o' := by rw [take, take, hentry]
      rw [List.foldl_cons, List.foldl_cons, htake]
      exact ih hrest _

end Kept

theorem bindings_of_nodup {ps : List (String × Binding)} (h : (ps.map Prod.fst).Nodup) {p : String × Binding}
    (hp : p ∈ ps) : (ps.filterMap fun q => if q.1 = p.1 then some q.2 else none) = [p.2] := by
  induction ps with
  | nil => cases hp
  | cons q ps ih =>
    obtain ⟨hnew, hrest⟩ := List.nodup_cons.mp h
    have hne {r : String × Binding} (hr : r ∈ ps) : q.1 ≠ r.1 := by
      intro heq
      apply hnew
      rw [heq]
      exact List.mem_map_of_mem hr
    rcases List.mem_cons.mp hp with rfl | hp
    · have hnone : (ps.filterMap fun q => if q.1 = p.1 then some q.2 else none) = [] := by
        rw [List.filterMap_eq_nil_iff]
        intro r hr
        exact if_neg (hne hr).symm
      simp [hnone]
    · simp [hne hp, ih hrest hp]

section Analysis

variable {f : Position → Position} {inline clause : Node} {items : List Item} {names : List String}
  {file modulePath : String} {resolve : String → Option String} {x : String}

theorem Twins.exports (h : Twins f inline clause items names) :
    ∀ st ∈ exported items, ∃ e, Exports f st.node e :=
  fun _ hst => exports_of_groupAfter h.fits hst

theorem Twins.candidateOfItem (h : Twins f inline clause items names) (hx : x ∈ names) :
    candidateOfItem (surroundingsOf file modulePath resolve clause) x x =
      match ((exported items).flatMap (bindingsOf x)).foldl settle none with
      | some b => .ofBinding x b
      | none => .unknown x := by
  have himport : (surroundingsOf file modulePath resolve clause).names.import? x = none := by
    apply import?_eq_none
    intro i hi
    exact h.imports x hx (List.mem_map_of_mem hi)
  have hlocal : (surroundingsOf file modulePath resolve clause).names.local? x =
      ((exported items).flatMap (bindingsOf x)).foldl settle none := h.local? hx
  rw [Code.candidateOfItem, himport, hlocal]
  cases ((exported items).flatMap (bindingsOf x)).foldl settle none with
  | none => rfl
  | some b => simp [Candidate.ofBinding]

theorem Twins.under?_inline (h : Twins f inline clause items names) :
    (analyzeCode file modulePath resolve inline).value.under? x =
      ((candidatesOfGroup (exported items)).filter (Candidate.isNamed x)).findSome?
        (·.result? (surroundingsOf file modulePath resolve clause)) := by
  rw [analyzeCode_under?, h.results_inline, Candidate.find?_results]

theorem Twins.under?_clause (h : Twins f inline clause items names) (hx : x ∈ names) :
    (analyzeCode file modulePath resolve clause).value.under? x =
      (Code.candidateOfItem (surroundingsOf file modulePath resolve clause) x x).result?
        (surroundingsOf file modulePath resolve clause) := by
  have hname (s : Surroundings) (y : String) : (Code.candidateOfItem s y y).name? = some y := by
    rw [Code.candidateOfItem]
    split <;> rfl
  rw [analyzeCode_under?, offers_entries, h.candidates_clause, Candidate.find?_results, List.filter_map]
  have htest : (Candidate.isNamed x ∘ fun y => Code.candidateOfItem
      (surroundingsOf file modulePath resolve clause) y y) = fun y => y == x := by
    funext y
    simp [Candidate.isNamed, hname]
  rw [htest, List.filter_beq, List.map_replicate, List.findSome?_replicate_of_pos (List.count_pos_iff.mpr hx)]

variable (file modulePath resolve)

theorem Twins.eq_of_single (h : Twins f inline clause items names)
    (hplain : ∀ st ∈ exported items, destructured st.node = [])
    (hnames : names = ((exported items).flatMap boundBy).map Prod.fst) (hnodup : names.Nodup) :
    (analyzeCode file modulePath resolve inline).value = (analyzeCode file modulePath resolve clause).value := by
  obtain ⟨hforms, hbindings, hidentifiers⟩ := candidatesOfGroup_forms h.exports
  have hnone : (candidatesOfGroup (exported items)).filterMap Candidate.identifier? = [] := by
    rw [hidentifiers, List.flatMap_eq_nil_iff]
    exact hplain
  have hcandidates : candidates (surroundingsOf file modulePath resolve clause) clause =
      candidatesOfGroup (exported items) := by
    rw [h.candidates_clause, Candidate.eq_map_of_identifiers hforms hnone, hbindings, hnames, List.map_map]
    apply List.map_congr_left
    intro p hp
    have hmem : p.1 ∈ names := by
      rw [hnames]
      exact List.mem_map_of_mem hp
    have hsingle : (exported items).flatMap (bindingsOf p.1) = [p.2] := by
      rw [flatMap_bindingsOf h.exports]
      exact bindings_of_nodup (hnames ▸ hnodup) hp
    have hsettle : [p.2].foldl settle none = some p.2 := by simp [settle]
    rw [Function.comp_apply, h.candidateOfItem hmem, hsingle, hsettle]
  rw [analyzeCode_value, analyzeCode_value, extractExports_value, extractExports_value, h.moduleCommentText?]
  congr 1
  apply Kept.foldl_take_congr
  rw [h.results_inline, offers_entries, hcandidates]

theorem Twins.under?_bound (h : Twins f inline clause items names) (hx : x ∈ names) :
    (analyzeCode file modulePath resolve clause).value.under? x =
      (((exported items).flatMap (bindingsOf x)).foldl settle none).bind fun b =>
        ((Reader.ofRoot file clause).read x b.node b.before).value.map Entry.declaration := by
  rw [h.under?_clause hx, h.candidateOfItem hx]
  cases ((exported items).flatMap (bindingsOf x)).foldl settle none with
  | none => rfl
  | some b => rfl

theorem Twins.under?_declared (h : Twins f inline clause items names)
    (hnone : ∀ st ∈ exported items, ∀ i ∈ destructured st.node, i.text ≠ x) :
    (analyzeCode file modulePath resolve inline).value.under? x =
      ((exported items).flatMap (bindingsOf x)).findSome? fun b =>
        ((Reader.ofRoot file clause).read x b.node b.before).value.map Entry.declaration := by
  obtain ⟨hforms, hbindings, hidentifiers⟩ := candidatesOfGroup_forms h.exports
  have hnamed : ∀ i ∈ (candidatesOfGroup (exported items)).filterMap Candidate.identifier?, i.text ≠ x := by
    rw [hidentifiers]
    intro i hi
    obtain ⟨st, hst, hi⟩ := List.mem_flatMap.mp hi
    exact hnone st hst i hi
  rw [h.under?_inline, Candidate.filter_of_identifiers hforms hnamed, hbindings, ← flatMap_bindingsOf h.exports,
    List.findSome?_map]
  rfl

def untyped (i : Node) : Declaration where
  name := i.text
  kind := .value
  sourceLine := some i.start.line
  typeSignature := some "unknown"

theorem Twins.under?_destructured (h : Twins f inline clause items names)
    (hnone : (exported items).flatMap (bindingsOf x) = []) :
    (analyzeCode file modulePath resolve inline).value.under? x =
      (((exported items).flatMap fun st => destructured st.node).find? fun i => i.text == x).map
        fun i => Entry.declaration (untyped i) := by
  obtain ⟨hforms, hbindings, hidentifiers⟩ := candidatesOfGroup_forms h.exports
  have hnamed : ∀ p ∈ (candidatesOfGroup (exported items)).filterMap Candidate.binding?, p.1 ≠ x := by
    rw [hbindings]
    rw [flatMap_bindingsOf h.exports, List.filterMap_eq_nil_iff] at hnone
    intro p hp hpx
    have hsome := hnone p hp
    rw [if_pos hpx] at hsome
    cases hsome
  rw [h.under?_inline, Candidate.filter_of_bindings hforms hnamed, hidentifiers, List.findSome?_map,
    ← List.head?_filter]
  -- Every identifier gives an entry, so that the first one does.
  cases ((exported items).flatMap fun st => destructured st.node).filter fun i => i.text == x with
  | nil => rfl
  | cons i is => rfl

/-- Where every name has one declaration of its own, both forms give the same. Else the word `export` shows the first
declaration of a name that no comment hides, and the clause the one that the name is bound to, which is the last one of a
function with overloads. A name that is only bound by taking a value apart is missing from the clause. -/
theorem export_forms (h : Twins f inline clause items names) :
    let x := (analyzeCode file modulePath resolve inline).value
    let y := (analyzeCode file modulePath resolve clause).value
    ((∀ st ∈ exported items, destructured st.node = []) →
      names = ((exported items).flatMap boundBy).map Prod.fst → names.Nodup → x = y) ∧
    ∀ name ∈ names,
      let bs := (exported items).flatMap (bindingsOf name)
      let read (b : Binding) := ((Reader.ofRoot file clause).read name b.node b.before).value.map Entry.declaration
      y.under? name = (bs.foldl settle none).bind read ∧
      (∀ earlier last, bs = earlier ++ [last] → (∀ b ∈ earlier, b.isSignature) → y.under? name = read last) ∧
      ((∀ st ∈ exported items, ∀ i ∈ destructured st.node, i.text ≠ name) → x.under? name = bs.findSome? read) ∧
      (bs = [] → y.under? name = none ∧
        x.under? name = (((exported items).flatMap fun st => destructured st.node).find? fun i => i.text == name).map
          fun i => .declaration (untyped i)) := by
  intro x y
  refine ⟨h.eq_of_single file modulePath resolve, ?_⟩
  intro name hname bs read
  have hy : y.under? name = (bs.foldl settle none).bind read := h.under?_bound file modulePath resolve hname
  refine ⟨hy, ?_, h.under?_declared file modulePath resolve, ?_⟩
  · intro earlier last hbs hsignatures
    rw [hy, hbs, foldl_settle_of_signatures rfl hsignatures last]
    rfl
  · intro hbs
    refine ⟨?_, h.under?_destructured file modulePath resolve hbs⟩
    rw [hy, hbs]
    rfl

end Analysis

/-! Modules side by side -/

section Pairs

def pairUp (inline clause : Node) : List Item :=
  List.zipWith (fun n e => if e.kind = .exportStatement then .declared n e else .kept n) clause.children inline.children

theorem twins_pairUp {f : Position → Position} {inline clause : Node} {names : List String}
    (hinjective : Function.Injective f) (hline : ∀ p, (f p).line = p.line)
    (h : (∀ item ∈ pairUp inline clause, item.Fits f names) ∧ (∃ item ∈ pairUp inline clause, item.isDeclared) ∧
      inline.children = (pairUp inline clause).map (Item.inline f) ∧
      (∃ c ∈ clause.children.getLast?, clause.children = (pairUp inline clause).map Item.plain ++ [c] ∧ Lists c names) ∧
      ∀ x ∈ names, x ∉ ((statements clause).flatMap importsOf).map Prod.fst) :
    Twins f inline clause (pairUp inline clause) names := by
  obtain ⟨hfits, hsome, hinline, ⟨c, _, hclause, hlists⟩, himports⟩ := h
  refine ⟨hinjective, hline, hfits, hsome, ⟨[], ?_, nofun⟩, ⟨c, [], hclause, hlists, nofun⟩, himports⟩
  rw [List.append_nil]
  exact hinline

def indent (lines : List Nat) (p : Position) : Position :=
  if p.line ∈ lines then { p with column := p.column + 7 } else p

theorem line_indent (lines : List Nat) (p : Position) : (indent lines p).line = p.line := by
  rw [indent]
  split
  · rfl
  · rfl

theorem indent_injective (lines : List Nat) : Function.Injective (indent lines) := by
  intro p q h
  have hline : p.line = q.line := by
    rw [← line_indent lines p, h, line_indent]
  rw [indent, indent, hline] at h
  split at h
  · cases p
    cases q
    simp_all
  · exact h

def overloadsInline : Node :=
  parseScript "export function f(a: A);\nexport function f(a) \x7b\x7d\nexport const [u] = o;"

def overloadsClause : Node :=
  parseScript "function f(a: A);\nfunction f(a) \x7b\x7d\nconst [u] = o;\nexport \x7b f, u \x7d;"

theorem twins_overloads :
    Twins (indent [1, 2, 3]) overloadsInline overloadsClause (pairUp overloadsInline overloadsClause) ["f", "u"] :=
  twins_pairUp (indent_injective _) (line_indent _) (by decide +kernel)

def constantInline : Node :=
  parseScript "/** One. */\nexport const k = 1;"

def constantClause : Node :=
  parseScript "/** One. */\nconst k = 1;\nexport \x7b k \x7d;"

theorem twins_constant :
    Twins (indent [2]) constantInline constantClause (pairUp constantInline constantClause) ["k"] :=
  twins_pairUp (indent_injective _) (line_indent _) (by decide +kernel)

theorem export_forms_pairs :
    let analyze (root : Node) := (analyzeCode "m.ts" "m.ts" (fun _ => none) root).value
    let sts := exported (pairUp overloadsInline overloadsClause)
    (sts.flatMap (bindingsOf "f")).map Binding.isSignature = [true, false] ∧
    (analyze overloadsInline).under? "f" = (sts.flatMap (bindingsOf "f")).findSome? (fun b =>
      ((Reader.ofRoot "m.ts" overloadsClause).read "f" b.node b.before).value.map Entry.declaration) ∧
    sts.flatMap (bindingsOf "u") = [] ∧ (analyze overloadsClause).under? "u" = none ∧
    analyze constantInline = analyze constantClause := by
  intro analyze sts
  have hnames := (export_forms "m.ts" "m.ts" (fun _ => none) twins_overloads).2
  have hfacts : (sts.flatMap (bindingsOf "f")).map Binding.isSignature = [true, false] ∧
      (∀ st ∈ sts, ∀ i ∈ destructured st.node, i.text ≠ "f") ∧ sts.flatMap (bindingsOf "u") = [] := by
    decide +kernel
  obtain ⟨hsignatures, hdeclared, hnone⟩ := hfacts
  have hplain : (∀ st ∈ exported (pairUp constantInline constantClause), destructured st.node = []) ∧
      ["k"] = ((exported (pairUp constantInline constantClause)).flatMap boundBy).map Prod.fst := by
    decide +kernel
  refine ⟨hsignatures, (hnames "f" (by decide)).2.2.1 hdeclared, hnone, ((hnames "u" (by decide)).2.2.2 hnone).1, ?_⟩
  exact (export_forms "m.ts" "m.ts" (fun _ => none) twins_constant).1 hplain.1 hplain.2 (by decide)

def signatures (root : Node) : List (String × Option (List Char)) :=
  (analyzeCode "m.ts" "m.ts" (fun _ => none) root).value.declarations.map fun d =>
    (d.name, d.typeSignature.map String.toList)

theorem overloads_differ :
    Twins (indent [1, 2, 3]) overloadsInline overloadsClause (pairUp overloadsInline overloadsClause) ["f", "u"] ∧
    signatures overloadsInline = [("f", some "(a: A) => any".toList), ("u", some "unknown".toList)] ∧
    signatures overloadsClause = [("f", some "(a: any) => void".toList)] :=
  ⟨twins_overloads, by decide +kernel, by decide +kernel⟩

end Pairs

end ApiCatalog.Code
