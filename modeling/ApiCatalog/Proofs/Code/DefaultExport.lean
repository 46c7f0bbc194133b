import ApiCatalog.Proofs.Catalog.Order
import ApiCatalog.Proofs.Code.Keeping

namespace ApiCatalog.Code

open Syntax

/-! A node is read under the name that is asked for, and never as a component. -/

namespace Reader

variable (r : Reader)

def Hides (before : Option Node) : Prop :=
  (r.docBefore? before).any (·.hidden)

def CodeNamed (name : String) (d : Declaration) : Prop :=
  d.name = name ∧ d.kind ≠ .component

theorem asFunction_named (d : Declaration) (n : Node) (doc : Option DocComment) :
    CodeNamed d.name (r.asFunction d n doc).value :=
  ⟨rfl, nofun⟩

theorem asClass_named (d : Declaration) (n : Node) : CodeNamed d.name (r.asClass d n).value :=
  ⟨rfl, nofun⟩

theorem asValue_named (d : Declaration) (v : Option Node) : CodeNamed d.name (r.asValue d v).value := by
  rw [asValue]
  cases v.bind expressionType? <;> exact ⟨rfl, nofun⟩

theorem asInterface_named (d : Declaration) (n : Node) : CodeNamed d.name (r.asInterface d n).value := by
  rw [asInterface]
  cases n.child? .body <;> exact ⟨rfl, nofun⟩

theorem asVariable_named {d : Declaration} (hd : d.kind ≠ .component) (n : Node) (doc : Option DocComment) :
    CodeNamed d.name (r.asVariable d n doc).value := by
  simp only [asVariable]
  split
  · split
    · exact ⟨rfl, nofun⟩
    · exact ⟨rfl, hd⟩
  · split
    · split
      · exact r.asClass_named d _
      · split
        · exact ⟨rfl, nofun⟩
        · exact r.asValue_named d _
    · exact ⟨rfl, nofun⟩
    · exact r.asValue_named d none

theorem documented_shape (d : Declaration) (doc : Option DocComment) :
    (documented d doc).name = d.name ∧ (documented d doc).kind = d.kind := by
  cases doc <;> exact ⟨rfl, rfl⟩

theorem read_named {name : String} {n : Node} {before : Option Node} (h : ¬ r.Hides before) :
    ∃ d, (r.read name n before).value = some d ∧ CodeNamed name d := by
  obtain ⟨hname, hkind⟩ := documented_shape { name, kind := .value, sourceLine := some n.start.line }
    (r.docBefore? before)
  generalize hx : documented { name, kind := .value, sourceLine := some n.start.line }
    (r.docBefore? before) = d at hname hkind
  have hd : d.kind ≠ .component := by rw [hkind]; nofun
  subst hname
  simp only [read, hx]
  rw [if_neg (show ¬ (r.docBefore? before).any (·.hidden) = true from h)]
  split
  · exact ⟨_, rfl, r.asFunction_named d n _⟩
  split
  · exact ⟨_, rfl, r.asClass_named d n⟩
  split
  · exact ⟨_, rfl, rfl, nofun⟩
  · exact ⟨_, rfl, r.asInterface_named d n⟩
  · exact ⟨_, rfl, rfl, nofun⟩
  · exact ⟨_, rfl, r.asVariable_named hd n _⟩
  · exact ⟨_, rfl, r.asValue_named d _⟩

theorem read_of_hides {name : String} {n : Node} {before : Option Node} (h : r.Hides before) :
    (r.read name n before).value = none := by
  rw [read]
  exact congrArg Noted.value (if_pos h)

theorem read_not_component {name : String} {n : Node} {before : Option Node} {d : Declaration}
    (h : (r.read name n before).value = some d) : d.kind ≠ .component := by
  by_cases hh : r.Hides before
  · rw [r.read_of_hides hh] at h
    cases h
  · obtain ⟨d', hd', hnamed⟩ := @read_named r name n before hh
    rw [hd'] at h
    cases h
    exact hnamed.2

end Reader

/-! Imports -/

def importsOf (p : Placed) : List (String × Import) :=
  if p.node.kind = .importStatement then
    match p.node.child? .source, p.node.childOfKind? .importClause with
    | some source, some clause => importedNames (unquote source.text) clause
    | _, _ => []
  else []

def Imports (root : Node) (name : String) (i : Import) : Prop :=
  (name, i) ∈ (statements root).flatMap importsOf

theorem bindDeclarators_imports (vs : List Node) (ns : Names) (before : Option Node) :
    (vs.foldl (fun ns v =>
      match v.child? .name with
      | some name => if name.kind == .identifier then ns.bind name.text ⟨v, before⟩ else ns
      | none => ns) ns).imports = ns.imports := by
  induction vs generalizing ns with
  | nil => rfl
  | cons v vs ih =>
    rw [List.foldl_cons, ih]
    split
    · split <;> rfl
    · rfl

theorem indexDeclaration_imports (ns : Names) (n : Node) (before : Option Node) :
    (indexDeclaration ns n before).imports = ns.imports := by
  rw [indexDeclaration]
  split
  · rfl
  split
  · exact bindDeclarators_imports _ ns before
  split
  · split
    · split <;> rfl
    · rfl
  · rfl

theorem indexStatement_imports (ns : Names) (p : Placed) :
    (indexStatement ns p).imports = (importsOf p).reverse ++ ns.imports := by
  rw [indexStatement, importsOf]
  split
  · case h_1 hk =>
    rw [if_pos hk, indexImport]
    split <;> simp_all
  · case h_2 hk =>
    rw [if_neg (by rw [hk]; decide)]
    split
    · exact indexDeclaration_imports ..
    · rfl
  · case h_3 hk _ =>
    rw [if_neg hk]
    exact indexDeclaration_imports ..

theorem foldl_indexStatement_imports (ps : List Placed) (ns : Names) :
    (ps.foldl indexStatement ns).imports = (ps.flatMap importsOf).reverse ++ ns.imports := by
  induction ps generalizing ns with
  | nil => rfl
  | cons p ps ih =>
    rw [List.foldl_cons, ih, indexStatement_imports, List.flatMap_cons, List.reverse_append,
      List.append_assoc]

section Names

variable {file modulePath : String} {resolve : String → Option String} {root : Node} {x : String}

def namesAt (root : Node) : Names :=
  (statements root).foldl indexStatement {}

theorem imports_namesAt (root : Node) :
    (namesAt root).imports = ((statements root).flatMap importsOf).reverse := by
  rw [namesAt, foldl_indexStatement_imports, List.append_nil]

theorem import?_of_imports {i : Import} (h : Imports root x i) (hu : ∀ j, Imports root x j → j = i) :
    (namesAt root).import? x = some i := by
  rw [Names.import?, imports_namesAt]
  exact lookup_of_unique (List.mem_reverse.mpr h) fun j hj => hu j (List.mem_reverse.mp hj)

theorem import?_eq_none (h : ∀ i, ¬ Imports root x i) : (namesAt root).import? x = none := by
  rw [Names.import?, imports_namesAt, List.lookup_eq_none_iff]
  rintro ⟨y, i⟩ hmem
  have hne : x ≠ y := by
    rintro rfl
    exact h i (List.mem_reverse.mp hmem)
  exact bne_iff_ne.mpr hne

end Names

/-! Default exports -/

theorem isNamedDeclaration_plain {k : Kind} (h : isNamedDeclaration k) :
    k ≠ .ambientDeclaration ∧ isVariableStatement k = false := by
  constructor
  · rintro rfl
    exact absurd h (by decide)
  · cases k <;> first | rfl | exact absurd h (by decide)

/-- A module exports a default of its own, recorded under the given name. A named declaration keeps its
name. -/
inductive DefaultExport (file : String) (root : Node) : String → Prop
  | declaration {st : Placed} {d : Node} (hst : st ∈ statements root)
      (hkind : st.node.kind = .exportStatement)
      (hdefault : st.node.hasToken "default") (hd : st.node.child? .declaration = some d)
      (hnamed : isNamedDeclaration d.kind) (hshown : ¬ (Reader.ofRoot file root).Hides st.before) :
      DefaultExport file root (((d.child? .name).map Node.text).getD "default")
  | value {st : Placed} {v : Node} (hst : st ∈ statements root) (hkind : st.node.kind = .exportStatement)
      (hdefault : st.node.hasToken "default") (hd : st.node.child? .declaration = none)
      (hsource : st.node.child? .source = none) (hv : st.node.child? .value = some v)
      (hunknown : (unwrap v).kind = .identifier →
        (∀ i, ¬ Imports root (unwrap v).text i) ∧ (namesAt root).local? (unwrap v).text = none)
      (hshown : ¬ (Reader.ofRoot file root).Hides st.before) : DefaultExport file root "default"
  | localName {st : Placed} {v : Node} {b : Binding} (hst : st ∈ statements root)
      (hkind : st.node.kind = .exportStatement) (hdefault : st.node.hasToken "default")
      (hd : st.node.child? .declaration = none) (hsource : st.node.child? .source = none)
      (hv : st.node.child? .value = some v) (hname : (unwrap v).kind = .identifier)
      (himport : ∀ i, ¬ Imports root (unwrap v).text i)
      (hb : (namesAt root).local? (unwrap v).text = some b)
      (hshown : ¬ (Reader.ofRoot file root).Hides b.before) : DefaultExport file root "default"

inductive PassesDefault (root : Node) : String → String → Prop
  | clause {st : Placed} {source clause : Node} {n : String} (hst : st ∈ statements root)
      (hkind : st.node.kind = .exportStatement) (hd : st.node.child? .declaration = none)
      (hsource : st.node.child? .source = some source)
      (hclause : st.node.childOfKind? .exportClause = some clause)
      (hn : ("default", n) ∈ Surroundings.specifiers clause) : PassesDefault root (unquote source.text) n
  | imported {st : Placed} {clause : Node} {x n specifier : String} (hst : st ∈ statements root)
      (hkind : st.node.kind = .exportStatement) (hdefault : ¬ st.node.hasToken "default")
      (hd : st.node.child? .declaration = none) (hsource : st.node.child? .source = none)
      (hclause : st.node.childOfKind? .exportClause = some clause)
      (hn : (x, n) ∈ Surroundings.specifiers clause)
      (himport : Imports root x ⟨specifier, "default"⟩)
      (honce : ∀ i, Imports root x i → i = ⟨specifier, "default"⟩) : PassesDefault root specifier n
  | importedDefault {st : Placed} {v : Node} {specifier : String} (hst : st ∈ statements root)
      (hkind : st.node.kind = .exportStatement) (hdefault : st.node.hasToken "default")
      (hd : st.node.child? .declaration = none) (hsource : st.node.child? .source = none)
      (hv : st.node.child? .value = some v) (hname : (unwrap v).kind = .identifier)
      (himport : Imports root (unwrap v).text ⟨specifier, "default"⟩)
      (honce : ∀ i, Imports root (unwrap v).text i → i = ⟨specifier, "default"⟩) :
      PassesDefault root specifier "default"

section Offers

variable {file modulePath : String} {resolve : String → Option String} {root : Node}
  {s : Surroundings} {st : Placed}

theorem mem_offers {o : Offer} : o ∈ offers s root ↔
    ∃ st ∈ statements root, ∃ x ∈ s.offersOfStatement st, x.value = some o := by
  simp only [offers, List.mem_filterMap, List.mem_flatMap]
  constructor
  · rintro ⟨x, ⟨st, hst, hx⟩, ho⟩
    exact ⟨st, hst, x, hx, ho⟩
  · rintro ⟨st, hst, x, hx, ho⟩
    exact ⟨x, ⟨st, hst, hx⟩, ho⟩

theorem offerDeclaration_value {place : Position} {x : Noted (Option Declaration)} {d : Declaration}
    (h : x.value = some d) :
    (Surroundings.offerDeclaration place x).value = some ⟨.declaration d, place⟩ := by
  rw [Surroundings.offerDeclaration, Noted.value_bind, Noted.value_pure, h]
  rfl

theorem offerImported_value {i : Import} {target : String} (h : s.resolve i.specifier = some target)
    (x n : String) (place : Position) :
    (s.offerImported x n i place).value = some ⟨.reExport ⟨i.name, target, n⟩, place⟩ := by
  rw [Surroundings.offerImported, h]
  rfl

theorem offersOfDeclaration_named {d : Node} (hk : isNamedDeclaration d.kind) :
    s.offersOfDeclaration d st =
      [Surroundings.offerDeclaration st.node.start
        (s.reader.read (((d.child? .name).map Node.text).getD "default") d st.before)] := by
  obtain ⟨hamb, hvar⟩ := isNamedDeclaration_plain hk
  simp [Surroundings.offersOfDeclaration, declared?, hamb, hvar, hk]

theorem offersOfStatement_declaration {d : Node} (hkind : st.node.kind = .exportStatement)
    (hd : st.node.child? .declaration = some d) : s.offersOfStatement st = s.offersOfDeclaration d st := by
  simp [Surroundings.offersOfStatement, hkind, hd]

theorem offersOfStatement_default {v : Node} (hkind : st.node.kind = .exportStatement)
    (hdefault : st.node.hasToken "default") (hd : st.node.child? .declaration = none)
    (hsource : st.node.child? .source = none) (hv : st.node.child? .value = some v) :
    s.offersOfStatement st = [s.offerDefault v st] := by
  simp [Surroundings.offersOfStatement, hkind, hd, hsource, hdefault, hv]

theorem DefaultExport.offered {k : String} (h : DefaultExport file root k) :
    ∃ o ∈ offers (surroundingsOf file modulePath resolve root) root, ∃ d, o.entry = .declaration d ∧
      Reader.CodeNamed k d := by
  simp only [mem_offers]
  cases h with
  | @declaration st d hst hkind hdefault hd hnamed hshown =>
    obtain ⟨d', hread, hd'⟩ := (Reader.ofRoot file root).read_named (n := d) hshown
    refine ⟨⟨.declaration d', st.node.start⟩, ⟨st, hst, ?_⟩, d', rfl, hd'⟩
    rw [offersOfStatement_declaration hkind hd, offersOfDeclaration_named hnamed]
    exact ⟨_, List.mem_singleton_self _, offerDeclaration_value hread⟩
  | @value st v hst hkind hdefault hd hsource hv hunknown hshown =>
    obtain ⟨d', hread, hd'⟩ := (Reader.ofRoot file root).read_named (n := unwrap v) hshown
    refine ⟨⟨.declaration d', st.node.start⟩, ⟨st, hst, ?_⟩, d', rfl, hd'⟩
    rw [offersOfStatement_default hkind hdefault hd hsource hv]
    refine ⟨_, List.mem_singleton_self _, ?_⟩
    rw [Surroundings.offerDefault]
    by_cases hname : (unwrap v).kind = .identifier
    · obtain ⟨himport, hlocal⟩ := hunknown hname
      simp only [hname, beq_self_eq_true, if_true, surroundingsOf]
      rw [← namesAt, import?_eq_none himport, hlocal]
      exact offerDeclaration_value hread
    · simp only [beq_false_of_ne hname]
      exact offerDeclaration_value hread
  | @localName st v b hst hkind hdefault hd hsource hv hname himport hb hshown =>
    obtain ⟨d', hread, hd'⟩ := (Reader.ofRoot file root).read_named (n := b.node) hshown
    refine ⟨⟨.declaration { d' with aliasOf := some ⟨modulePath, (unwrap v).text⟩ }, st.node.start⟩,
      ⟨st, hst, ?_⟩, _, rfl, hd'⟩
    rw [offersOfStatement_default hkind hdefault hd hsource hv]
    refine ⟨_, List.mem_singleton_self _, ?_⟩
    rw [Surroundings.offerDefault]
    simp only [hname, beq_self_eq_true, if_true, surroundingsOf]
    rw [← namesAt, import?_eq_none himport, hb]
    apply offerDeclaration_value
    rw [Noted.value_bind, Noted.value_pure, hread]
    rfl

theorem PassesDefault.offered {specifier n target : String} (h : PassesDefault root specifier n)
    (ht : resolve specifier = some target) :
    ∃ o ∈ offers (surroundingsOf file modulePath resolve root) root,
      o.entry = .reExport ⟨"default", target, n⟩ := by
  simp only [mem_offers]
  cases h with
  | @clause st source clause n hst hkind hd hsource hclause hn =>
    refine ⟨⟨.reExport ⟨"default", target, n⟩, st.node.start⟩, ⟨st, hst, ?_⟩, rfl⟩
    simp only [Surroundings.offersOfStatement, hkind, hd, hsource, Surroundings.offersFrom, surroundingsOf, ht,
      hclause, bne_self_eq_false, Bool.false_eq_true, if_false]
    exact ⟨_, List.mem_map.mpr ⟨_, hn, rfl⟩, rfl⟩
  | @imported st clause x n specifier hst hkind hdefault hd hsource hclause hn himport honce =>
    refine ⟨⟨.reExport ⟨"default", target, n⟩, clause.start⟩, ⟨st, hst, ?_⟩, rfl⟩
    simp only [Surroundings.offersOfStatement, hkind, hd, hsource, hdefault, hclause, bne_self_eq_false,
      Bool.false_eq_true, if_false, Surroundings.offersOfClause]
    refine ⟨_, List.mem_map.mpr ⟨_, hn, rfl⟩, ?_⟩
    simp only [surroundingsOf]
    rw [← namesAt, import?_of_imports himport honce]
    exact offerImported_value ht ..
  | @importedDefault st v specifier hst hkind hdefault hd hsource hv hname himport honce =>
    refine ⟨⟨.reExport ⟨"default", target, "default"⟩, st.node.start⟩, ⟨st, hst, ?_⟩, rfl⟩
    rw [offersOfStatement_default hkind hdefault hd hsource hv]
    refine ⟨_, List.mem_singleton_self _, ?_⟩
    rw [Surroundings.offerDefault]
    simp only [hname, beq_self_eq_true, if_true, surroundingsOf]
    rw [← namesAt, import?_of_imports himport honce]
    exact offerImported_value ht ..

/-! No export of a code module is a component. -/

def NoComponent (x : Noted (Option Offer)) : Prop :=
  ∀ d place, x.value = some ⟨.declaration d, place⟩ → d.kind ≠ .component

theorem noComponent_offerDeclaration {place : Position} {x : Noted (Option Declaration)}
    (h : ∀ d, x.value = some d → d.kind ≠ .component) :
    NoComponent (Surroundings.offerDeclaration place x) := by
  intro d place' hd
  rw [Surroundings.offerDeclaration, Noted.value_bind, Noted.value_pure] at hd
  obtain ⟨d', hd', heq⟩ := Option.map_eq_some_iff.mp hd
  cases heq
  exact h d hd'

theorem noComponent_read (name : String) (n : Node) (before : Option Node) (place : Position) :
    NoComponent (Surroundings.offerDeclaration place (s.reader.read name n before)) :=
  noComponent_offerDeclaration fun _ hd => s.reader.read_not_component hd

theorem noComponent_offerLocal (name exported : String) (b : Binding) (place : Position) (renamed : Bool) :
    NoComponent (s.offerLocal name exported b place renamed) := by
  apply noComponent_offerDeclaration
  intro d hd
  rw [Noted.value_bind, Noted.value_pure] at hd
  obtain ⟨d', hd', rfl⟩ := Option.map_eq_some_iff.mp hd
  have hkind := s.reader.read_not_component hd'
  cases renamed <;> exact hkind

theorem noComponent_offerImported (name exported : String) (i : Import) (place : Position) :
    NoComponent (s.offerImported name exported i place) := by
  intro d place' hd
  rw [Surroundings.offerImported] at hd
  split at hd <;> cases hd

theorem noComponent_debug (message : String) : NoComponent (do s.debug message; pure none) :=
  nofun

theorem noComponent_offerDeclarator (n : Node) : ∀ x ∈ s.offerDeclarator st n, NoComponent x := by
  intro x hx
  simp only [Surroundings.offerDeclarator] at hx
  split at hx
  · cases hx
  · split at hx
    · rw [List.mem_singleton.mp hx]
      exact noComponent_read _ _ _ _
    · obtain ⟨i, _, rfl⟩ := List.mem_map.mp hx
      apply noComponent_offerDeclaration
      intro d hd
      cases hd
      exact (s.reader.asValue_named _ none).2

theorem noComponent_offersOfDeclaration (n : Node) : ∀ x ∈ s.offersOfDeclaration n st, NoComponent x := by
  intro x hx
  rw [Surroundings.offersOfDeclaration] at hx
  split at hx
  · cases hx
  split at hx
  · obtain ⟨v, _, hx⟩ := List.mem_flatMap.mp hx
    exact noComponent_offerDeclarator v x hx
  split at hx
  · rw [List.mem_singleton.mp hx]
    exact noComponent_debug _
  · rw [List.mem_singleton.mp hx]
    exact noComponent_read _ _ _ _

theorem noComponent_offersFrom (n : Node) (specifier : String) :
    ∀ x ∈ s.offersFrom n specifier, NoComponent x := by
  intro x hx
  rw [Surroundings.offersFrom] at hx
  split at hx
  · rw [List.mem_singleton.mp hx]
    exact noComponent_debug _
  split at hx
  · obtain ⟨_, _, rfl⟩ := List.mem_map.mp hx
    nofun
  · split at hx
    · cases hx
    · rw [List.mem_singleton.mp hx]
      intro d place hd
      cases hd
      nofun
  · rw [List.mem_singleton.mp hx]
    nofun

theorem noComponent_offersOfClause (clause : Node) : ∀ x ∈ s.offersOfClause clause, NoComponent x := by
  intro x hx
  obtain ⟨⟨name, exported⟩, _, rfl⟩ := List.mem_map.mp hx
  dsimp only
  split
  · exact noComponent_offerImported _ _ _ _
  · exact noComponent_offerLocal _ _ _ _ _
  · exact noComponent_debug _

theorem noComponent_offerDefault (v : Node) : NoComponent (s.offerDefault v st) := by
  simp only [Surroundings.offerDefault]
  split
  · split
    · exact noComponent_offerImported _ _ _ _
    · exact noComponent_offerLocal _ _ _ _ _
    · exact noComponent_read _ _ _ _
  · exact noComponent_read _ _ _ _

theorem noComponent_offersOfStatement : ∀ x ∈ s.offersOfStatement st, NoComponent x := by
  intro x hx
  simp only [Surroundings.offersOfStatement] at hx
  split at hx
  · cases hx
  split at hx
  · exact noComponent_offersOfDeclaration _ x hx
  · exact noComponent_offersFrom _ _ x hx
  split at hx
  · split at hx
    · rw [List.mem_singleton.mp hx]
      exact noComponent_offerDefault _
    · cases hx
  · split at hx
    · exact noComponent_offersOfClause _ x hx
    · cases hx

theorem not_component_of_extracted {d : Declaration}
    (hd : d ∈ (analyzeCode file modulePath resolve root).value.declarations) : d.kind ≠ .component := by
  obtain ⟨⟨_, place⟩, ho, rfl⟩ := exists_offer (e := .declaration d) hd
  obtain ⟨st, _, x, hx, hvalue⟩ := mem_offers.mp ho
  exact noComponent_offersOfStatement x hx d place hvalue

end Offers

end ApiCatalog.Code
