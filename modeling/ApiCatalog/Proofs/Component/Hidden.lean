import ApiCatalog.Proofs.Analysis.Batch
import ApiCatalog.Proofs.Code.Hidden
import ApiCatalog.Proofs.Component.Signatures
import ApiCatalog.Proofs.Library.Modules

namespace ApiCatalog.Component

open Syntax Code

namespace PropReader

variable {r : PropReader} {p : Placed} {t : TypedProp} {c : PropsCall} {prop : ComponentProp}

/-! Members of types -/

theorem member_shown (h : (r.member p).value = some t) : ¬ r.reader.Hides p.before := by
  simp only [member] at h
  cases hname : p.node.child? .name with
  | none => rw [hname] at h; cases h
  | some name =>
    rw [hname] at h
    dsimp only at h
    split at h
    · cases h
    · case isFalse hguard => exact Reader.not_hides_of_guard hguard

/-! Properties of the call -/

def typeOf (c : PropsCall) : Option Node :=
  (c.declarator.child? .type).or (c.call.child? .typeArguments)

def partsOf (c : PropsCall) : List TypePart :=
  ((typeOf c).map typeParts).getD []

def takenApart (c : PropsCall) : List (String × Default) :=
  defaults (c.declarator.child? .name)

def Declares (r : PropReader) (c : PropsCall) (t : TypedProp) : Prop :=
  ∃ n via pos p, typeOf c = some n ∧ Occurs r.types n via pos p ∧ ¬ r.reader.Hides p.before ∧
    (r.member p).value = some t

theorem readInOrder_partsOf (r : PropReader) (c : PropsCall) :
    ReadInOrder (fun p => (r.member p).value) []
      (fun via pos p => ∃ n, typeOf c = some n ∧ Occurs r.types n via pos p)
      (r.typedProps (r.types.length + 1) [] (partsOf c)).value := by
  rw [partsOf, typedProps_option]
  exact readInOrder_option (typeOf c) fun n _ => readInOrder_expand (Nat.lt_succ_of_le unseen_nil) n

theorem mem_typedProps :
    t ∈ (r.typedProps (r.types.length + 1) [] (partsOf c)).value ↔ r.Declares c t := by
  obtain ⟨ps, hps, hvalue⟩ := r.readInOrder_partsOf c
  rw [hvalue, List.mem_filterMap]
  constructor
  · rintro ⟨⟨pos, p⟩, hp, hmember⟩
    obtain ⟨via, ⟨n, hn, hoccurs⟩, -⟩ := (hps.mem_iff pos p).mp hp
    exact ⟨n, via, pos, p, hn, hoccurs, member_shown hmember, hmember⟩
  · rintro ⟨n, _, _, p, hn, hoccurs, -, hmember⟩
    obtain ⟨via, pos, hoccurs, hsimple⟩ := hoccurs.without_cycles
    exact ⟨(pos, p), (hps.mem_iff pos p).mpr ⟨via, ⟨n, hn, hoccurs⟩, hsimple⟩, hmember⟩

theorem firstOfEachName_concat (ps : List TypedProp) (p : TypedProp) :
    firstOfEachName (ps ++ [p]) =
      if (firstOfEachName ps).any (·.name == p.name) then firstOfEachName ps else firstOfEachName ps ++ [p] := by
  rw [firstOfEachName, List.foldl_append, List.foldl_cons, List.foldl_nil]
  rfl

theorem mem_of_firstOfEachName {ps : List TypedProp} (h : t ∈ firstOfEachName ps) : t ∈ ps := by
  induction ps using List.reverseRecOn with
  | nil => exact h
  | append_singleton ps p ih =>
    rw [firstOfEachName_concat] at h
    rw [List.mem_append]
    split at h
    · exact .inl (ih h)
    · exact (List.mem_append.mp h).imp_left ih

theorem any_firstOfEachName (ps : List TypedProp) (x : String) :
    (firstOfEachName ps).any (·.name == x) = ps.any (·.name == x) := by
  induction ps using List.reverseRecOn with
  | nil => rfl
  | append_singleton ps p ih =>
    rw [firstOfEachName_concat, List.any_append, ← ih]
    split
    · case isTrue hmet =>
      -- A property that is left out has the name of an earlier one.
      by_cases hx : p.name = x
      · rw [hx] at hmet
        rw [hmet, Bool.true_or]
      · simp [hx]
    · rw [List.any_append]

theorem calledProps_value (c : PropsCall) :
    (r.calledProps c).value =
      (firstOfEachName (r.typedProps (r.types.length + 1) [] (partsOf c)).value).map
          (fun t => r.prop t (((takenApart c).lookup t.name).getD {})) ++
        ((takenApart c).filter fun e =>
          !(r.typedProps (r.types.length + 1) [] (partsOf c)).value.any (·.name == e.1)).map
          fun e => r.prop ⟨e.1, "any", false, none, none⟩ e.2 := by
  simp only [calledProps, Noted.value_bind, Noted.value_pure, Noted.value_mapM]
  simp only [any_firstOfEachName]
  rfl

inductive From (r : PropReader) : ComponentProp → Prop
  | variable {st : Placed} {d v : Node} {prop : ComponentProp} (hcall : r.propsCall? = none)
      (hst : st ∈ r.statements) (hshown : ¬ r.reader.Hides st.before) (hd : st.node.child? .declaration = some d)
      (hv : v ∈ d.namedChildren)
      (hprop : (r.variableProp (r.reader.docBefore? st.before) v).value = some prop) : From r prop
  | declared {c : PropsCall} {t : TypedProp} (hcall : r.propsCall? = some c) (ht : r.Declares c t) :
      From r (r.prop t (((takenApart c).lookup t.name).getD {}))
  | untyped {c : PropsCall} {e : String × Default} (hcall : r.propsCall? = some c) (he : e ∈ takenApart c)
      (hnone : ∀ t, r.Declares c t → t.name ≠ e.1) : From r (r.prop ⟨e.1, "any", false, none, none⟩ e.2)

theorem from_of_calledProps (hcall : r.propsCall? = some c) (h : prop ∈ (r.calledProps c).value) :
    r.From prop := by
  rw [calledProps_value] at h
  rcases List.mem_append.mp h with h | h
  · obtain ⟨t, ht, rfl⟩ := List.mem_map.mp h
    exact .declared hcall (mem_typedProps.mp (mem_of_firstOfEachName ht))
  · obtain ⟨e, he, rfl⟩ := List.mem_map.mp h
    obtain ⟨he, hnot⟩ := List.mem_filter.mp he
    refine .untyped hcall he fun t ht hname => ?_
    have hany : (r.typedProps (r.types.length + 1) [] (partsOf c)).value.any (·.name == e.1) :=
      List.any_eq_true.mpr ⟨t, mem_typedProps.mpr ht, beq_iff_eq.mpr hname⟩
    rw [hany] at hnot
    cases hnot

theorem mem_names_calledProps {x : String} :
    x ∈ (r.calledProps c).value.map ComponentProp.name ↔
      (∃ t, r.Declares c t ∧ t.name = x) ∨ x ∈ (takenApart c).map Prod.fst := by
  rw [calledProps_value, List.map_append, List.mem_append, List.map_map, List.map_map, List.mem_map, List.mem_map]
  constructor
  · rintro (⟨t, ht, rfl⟩ | ⟨e, he, rfl⟩)
    · exact .inl ⟨t, mem_typedProps.mp (mem_of_firstOfEachName ht), rfl⟩
    · exact .inr (List.mem_map_of_mem (List.mem_filter.mp he).1)
  · intro h
    by_cases hany : (r.typedProps (r.types.length + 1) [] (partsOf c)).value.any (·.name == x)
    · rw [← any_firstOfEachName] at hany
      obtain ⟨t, ht, hname⟩ := List.any_eq_true.mp hany
      exact .inl ⟨t, ht, eq_of_beq hname⟩
    · rcases h with ⟨t, ht, hname⟩ | h
      · exact absurd (List.any_eq_true.mpr ⟨t, mem_typedProps.mpr ht, by simpa using hname⟩) hany
      · obtain ⟨e, he, rfl⟩ := List.mem_map.mp h
        exact .inr ⟨e, List.mem_filter.mpr ⟨he, by simpa using hany⟩, rfl⟩

theorem from_of_variableProps (hcall : r.propsCall? = none) (h : prop ∈ r.variableProps.value) : r.From prop := by
  simp only [variableProps, Noted.value_bind, Noted.value_pure, Noted.value_mapM] at h
  obtain ⟨ps, hps, h⟩ := List.mem_flatten.mp h
  obtain ⟨st, hst, rfl⟩ := List.mem_map.mp hps
  simp only [exportedProps] at h
  split at h
  · case h_1 d hkind hd =>
    split at h
    · cases h
    · case isFalse hguard =>
      have hshown : ¬ r.reader.Hides st.before := Reader.not_hides_of_guard hguard
      simp only [Noted.value_bind, Noted.value_pure, Noted.value_mapM] at h
      obtain ⟨_, hx, rfl⟩ := List.mem_filterMap.mp h
      obtain ⟨v, hv, hvalue⟩ := List.mem_map.mp hx
      exact .variable hcall hst hshown hd hv hvalue
  · cases h

end PropReader

/-! Components -/

theorem describe_parts {d : Declaration} (hd : d.Flat) (file : String) (b : Bool) (root : Node) :
    (describe d file b root).value.Flat := by
  simp only [describe]
  split
  · exact Reader.flat_documented hd _
  · exact hd

theorem describe_from (d : Declaration) (file : String) (b : Bool) (root : Node) :
    let r := PropReader.ofRoot file d.name b root
    (∀ prop ∈ (describe d file b root).value.props, r.From prop) ∧
      ∀ c, r.propsCall? = some c → ∀ name,
        name ∈ (describe d file b root).value.props.map ComponentProp.name ↔
          (∃ t, r.Declares c t ∧ t.name = name) ∨ name ∈ (PropReader.takenApart c).map Prod.fst := by
  intro r
  cases hcall : r.propsCall? with
  | none =>
    have hprops : (describe d file b root).value.props = r.variableProps.value := by
      simp only [describe]
      rw [hcall]
      rfl
    rw [hprops]
    exact ⟨fun prop hprop => PropReader.from_of_variableProps hcall hprop, fun _ hc => by cases hc⟩
  | some c =>
    have hprops : (describe d file b root).value.props = (r.calledProps c).value := by
      simp only [describe]
      rw [hcall]
      rfl
    rw [hprops]
    refine ⟨fun prop hprop => PropReader.from_of_calledProps hcall hprop, ?_⟩
    intro c' hc' name
    cases hc'
    exact PropReader.mem_names_calledProps

theorem analyze_from {parser : ScriptParser} {file modulePath content : String} {b : Bool} {x : Extracted}
    (h : (analyze parser file modulePath content b).outcome = .ok x) :
    ∃ d, x.declarations = [d] ∧ d.Flat ∧ ∃ tree, scriptTree parser file content = .ok tree ∧
      (tree = none → d.props = []) ∧
      ∀ root, tree = some root →
        let r := PropReader.ofRoot file d.name b root
        (∀ prop ∈ d.props, r.From prop) ∧
          ∀ c, r.propsCall? = some c → ∀ name,
            name ∈ d.props.map ComponentProp.name ↔
              (∃ t, r.Declares c t ∧ t.name = name) ∨ name ∈ (PropReader.takenApart c).map Prod.fst := by
  rw [analyze] at h
  obtain ⟨tree, htree, h⟩ := Run.outcome_bind_eq_ok.mp h
  replace htree : (scriptTree parser file content).mapError Failure.file = .ok tree := htree
  have htree : scriptTree parser file content = .ok tree := by
    cases hx : scriptTree parser file content with
    | error e => rw [hx] at htree; cases htree
    | ok t => rw [hx] at htree; cases htree; rfl
  cases tree with
  | none =>
    obtain ⟨d, hd, h⟩ := Run.outcome_bind_eq_ok.mp h
    obtain ⟨_, _, h⟩ := Run.outcome_bind_eq_ok.mp h
    cases hd
    cases h
    exact ⟨_, rfl, ⟨rfl, rfl⟩, none, htree, fun _ => rfl, fun _ hroot => by cases hroot⟩
  | some root =>
    obtain ⟨d, hd, h⟩ := Run.outcome_bind_eq_ok.mp h
    obtain ⟨_, _, h⟩ := Run.outcome_bind_eq_ok.mp h
    rw [Run.outcome_ofNoted, Except.ok.injEq] at hd
    subst hd
    cases h
    refine ⟨_, rfl, describe_parts ⟨rfl, rfl⟩ file b root, some root, htree, fun hnone => absurd hnone (Option.some_ne_none root), ?_⟩
    intro root' hroot
    cases hroot
    rw [(describe_shape _ file b root).1]
    exact describe_from _ file b root

end ApiCatalog.Component

namespace ApiCatalog

open Code Syntax

/-- A mark before a statement or a member leaves it out of what is extracted from a file. Each declaration of a code file
is read from a statement without a mark, and so are the members of its class and the properties of its interface; and
each property of a component comes from an exported variable or a member of a type without a mark. A mark has no effect
for the members of an enum, for names that are bound by taking a value apart, for whole modules, and for the properties
of a component that are taken apart; nor is it seen where a decorator stands between it and a method. -/
theorem extract_hides {p : Program} {o : SourceOptions} {g : IndexedFile} {path : String} {x : Extracted}
    (h : (extract p o g path).outcome = .ok x) :
    (∀ root, g.script = some root →
      let s := surroundingsIn p o g.id path root
      (∀ d ∈ x.declarations, ∃ st ∈ statements root,
        (¬ s.reader.Hides st.before ∧ ∃ n, Gives st n ∧ s.reader.ReadsAs n st.before d ∧ s.reader.PartsFrom n d) ∨
          ∃ c ∈ candidatesOf s st, c.unguarded ∧ c.result? s = some (.declaration d)) ∧
      ∀ c ∈ candidates s root, c.unguarded → c.dropped s = false → ∀ name, c.name? = some name → name ∈ x.names) ∧
    (g.script = none →
      ∃ d, x.declarations = [d] ∧ d.Flat ∧ ∃ tree, Component.scriptTree p.parser g.id g.content = .ok tree ∧
        (tree = none → d.props = []) ∧
        ∀ root, tree = some root →
          let r := Component.PropReader.ofRoot g.id d.name o.defaultImpliesOptional root
          (∀ prop ∈ d.props, r.From prop) ∧
            ∀ c, r.propsCall? = some c → ∀ name,
              name ∈ d.props.map ComponentProp.name ↔
                (∃ t, r.Declares c t ∧ t.name = name) ∨
                  name ∈ (Component.PropReader.takenApart c).map Prod.fst) := by
  rw [extract] at h
  cases hscript : g.script with
  | some root =>
    rw [hscript] at h
    rw [Run.outcome_ofNoted, Except.ok.injEq] at h
    subst h
    refine ⟨?_, nofun⟩
    intro root' hroot
    cases hroot
    exact ⟨fun d hd => declaration_from hd, fun c hc _ hkeep name hname => mem_names_of_candidate hc hname hkeep⟩
  | none =>
    rw [hscript] at h
    exact ⟨nofun, fun _ => Component.analyze_from h⟩

def markedScript : Node :=
  parseScript "export class A \x7b\n/** @nodocs */\na = 1;\nb = 2;\n\x7d\n/** @nodocs */\nexport const c = 1;"

def markedFile : IndexedFile where
  id := "m.ts"
  kind := .code
  content := ""
  script := some markedScript

theorem extract_hides_markedFile :
    ∃ x, (extract {} {} markedFile "m.ts").outcome = .ok x ∧
      x.declarations.map (fun d => (d.name, d.members.map Declaration.name)) = [("A", ["b"])] ∧
      ∀ d ∈ x.declarations, ∃ st ∈ statements markedScript,
        ¬ (Reader.ofRoot "m.ts" markedScript).Hides st.before ∧
          ∃ n, Gives st n ∧ (Reader.ofRoot "m.ts" markedScript).PartsFrom n d := by
  have hrun : (extract {} {} markedFile "m.ts").outcome =
      .ok (analyzeCode "m.ts" "m.ts" (Program.targetPath? {} {} "m.ts") markedScript).value := rfl
  have hguarded : ∀ c ∈ candidates (surroundingsIn {} {} "m.ts" "m.ts" markedScript) markedScript,
      ¬ c.unguarded := by decide +kernel
  refine ⟨_, hrun, by decide +kernel, ?_⟩
  intro d hd
  obtain ⟨st, hst, ⟨hshown, n, hgives, _, hparts⟩ | ⟨c, hc, hu, _⟩⟩ := ((extract_hides hrun).1 _ rfl).1 d hd
  · exact ⟨st, hst, hshown, n, hgives, hparts⟩
  · exact absurd hu (hguarded c (List.mem_flatMap.mpr ⟨st, hst, hc⟩))

theorem marked_listed :
    let bound := parseScript "/** @nodocs */\nexport const \x7b a \x7d = o;"
    let whole := parseScript "/** @nodocs */\nexport * as ns from './b';"
    let enum := parseScript "export enum E \x7b\n/** @nodocs */\nA,\nB\n\x7d"
    let decorated := parseScript "export class A \x7b\n/** @nodocs */\n@d\nm() \x7b\x7d\n\x7d"
    let props := parseScript "interface P \x7b\n/** @nodocs */\na: 1;\nb: 2;\n\x7d\nlet \x7b a, b \x7d: P = $props();"
    ((∀ st ∈ statements bound, (Reader.ofRoot "m.ts" bound).Hides st.before) ∧
        (analyzeCode "m.ts" "m.ts" (fun _ => none) bound).value.declarations.map Declaration.name = ["a"]) ∧
      ((∀ st ∈ statements whole, (Reader.ofRoot "m.ts" whole).Hides st.before) ∧
        (analyzeCode "m.ts" "m.ts" (fun _ => some "b.ts") whole).value.declarations.map Declaration.name = ["ns"]) ∧
      ((∃ st ∈ statements enum, ∃ n ∈ declarationIn? st, ∃ p ∈ bodyOf n,
          p.node.text = "A" ∧ (Reader.ofRoot "m.ts" enum).Hides p.before) ∧
        (analyzeCode "m.ts" "m.ts" (fun _ => none) enum).value.declarations.map
          (fun d => d.members.map Declaration.name) = [["A", "B"]]) ∧
      ((∃ st ∈ statements decorated, ∃ n ∈ declarationIn? st, ∃ p ∈ bodyOf n,
          p.node.text = "@d" ∧ (Reader.ofRoot "m.ts" decorated).Hides p.before) ∧
        (analyzeCode "m.ts" "m.ts" (fun _ => none) decorated).value.declarations.map
          (fun d => d.members.map Declaration.name) = [["m"]]) ∧
      (∃ st ∈ statements props, ∃ p ∈ bodyOf st.node,
          p.node.textOf .name = "a" ∧ (Reader.ofRoot "C.svelte" props).Hides p.before) ∧
        (Component.describe { name := "C", kind := .component } "C.svelte" true props).value.props.map
          ComponentProp.name = ["b", "a"] := by
  refine ⟨⟨?_, ?_⟩, ⟨?_, ?_⟩, ⟨?_, ?_⟩, ⟨?_, ?_⟩, ?_, ?_⟩ <;> decide +kernel

end ApiCatalog
