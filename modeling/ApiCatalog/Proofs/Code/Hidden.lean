import ApiCatalog.Proofs.Code.FirstExport

namespace ApiCatalog

def Declaration.Flat (d : Declaration) : Prop :=
  d.members = [] ∧ d.properties = []

theorem Noted.value_mapM {α β : Type} (f : α → Noted β) (as : List α) :
    (as.mapM f).value = as.map fun a => (f a).value := by
  induction as with
  | nil => rfl
  | cons a as ih =>
    rw [List.mapM_cons, Noted.value_bind, Noted.value_bind, Noted.value_pure, ih]
    rfl

namespace Code

open Syntax

/-! The parts of a declaration -/

def bodyOf (n : Node) : List Placed :=
  ((n.child? .body).map Node.placedChildren).getD []

def definition (n : Node) : Node :=
  if n.kind = .variableDeclarator then ((n.child? .value).map unwrap).getD n else n

namespace Reader

variable (r : Reader)

instance {before : Option Node} : Decidable (r.Hides before) :=
  inferInstanceAs (Decidable ((r.docBefore? before).any (·.hidden) = true))

def MemberFrom (owner : String) (body : List Placed) (m : Declaration) : Prop :=
  ∃ p ∈ body, ¬ r.Hides p.before ∧ m.Flat ∧ ∃ earlier, (r.classMember owner earlier p).value = earlier ++ [m]

def PropertyFrom (body : List Placed) (q : Declaration) : Prop :=
  ∃ p ∈ body, ¬ r.Hides p.before ∧ q.Flat ∧ (r.typeMember p).value = some q

/-- The parts of a declaration that is read from a node. Those of a class or an interface have no mark before them,
while all members of an enum are listed. -/
structure PartsFrom (n : Node) (d : Declaration) : Prop where
  members : n.kind ≠ .enumDeclaration → ∀ m ∈ d.members, r.MemberFrom d.name (bodyOf (definition n)) m
  enumMembers : n.kind = .enumDeclaration → d.members = (bodyOf n).filterMap r.enumMember?
  properties : ∀ q ∈ d.properties, r.PropertyFrom (bodyOf n) q

variable {r} {d : Declaration} {n : Node} {doc : Option DocComment} {owner : String} {p : Placed}

theorem not_hides_of_guard {other : Bool} {before : Option Node}
    (h : ¬ (other || (r.docBefore? before).any (·.hidden)) = true) : ¬ r.Hides before := by
  intro hhides
  rw [Hides] at hhides
  rw [hhides, Bool.or_true] at h
  exact h rfl

theorem PartsFrom.of_flat (hk : n.kind ≠ .enumDeclaration) (hd : d.Flat) : r.PartsFrom n d where
  members _ m hm := by rw [hd.1] at hm; cases hm
  enumMembers h := absurd h hk
  properties q hq := by rw [hd.2] at hq; cases hq

theorem flat_documented (hd : d.Flat) (doc : Option DocComment) : (documented d doc).Flat := by
  cases doc <;> exact hd

theorem flat_asFunction (hd : d.Flat) : (r.asFunction d n doc).value.Flat := hd

theorem flat_asValue (hd : d.Flat) {v : Option Node} : (r.asValue d v).value.Flat := by
  rw [asValue]
  cases v.bind expressionType? <;> exact hd

theorem flat_fieldMember (hd : d.Flat) {symbol : String} : (r.fieldMember d n doc symbol).value.Flat := by
  have htyped (t : Option String) : (fieldMember.typed r d n symbol t).value.Flat := by cases t <;> exact hd
  rw [fieldMember]
  split
  · exact hd
  · split
    · exact flat_asFunction hd
    · exact htyped _
  · exact htyped none

theorem classMember_cases (owner : String) (ms : List Declaration) (p : Placed) :
    (r.classMember owner ms p).value = ms ∨
      (¬ r.Hides p.before ∧ ∃ m, m.Flat ∧ (r.classMember owner ms p).value = ms ++ [m]) := by
  simp only [classMember]
  cases p.node.child? .name with
  | none => exact .inl rfl
  | some name =>
    dsimp only
    split
    · exact .inl rfl
    case isFalse hguard =>
    have hshown : ¬ r.Hides p.before := not_hides_of_guard hguard
    have hflat := flat_documented (d := { name := name.text, kind := .value, sourceLine := some p.node.start.line })
      ⟨rfl, rfl⟩ (r.docBefore? p.before)
    split
    · exact .inl rfl
    split
    · refine .inr ⟨hshown, _, ?_, rfl⟩
      apply flat_fieldMember
      exact hflat
    split
    · refine .inr ⟨hshown, _, ?_, rfl⟩
      exact hflat
    split
    · split
      · exact .inl rfl
      · refine .inr ⟨hshown, _, ?_, rfl⟩
        exact hflat
    · refine .inr ⟨hshown, _, ?_, rfl⟩
      apply flat_asFunction
      exact hflat

theorem mem_of_foldlM {body : List Placed} {ms : List Declaration} {m : Declaration}
    (h : m ∈ (body.foldlM (fun ms (p : Placed) => if p.node.isNamed then r.classMember owner ms p else pure ms)
      ms).value) :
    m ∈ ms ∨ r.MemberFrom owner body m := by
  induction body generalizing ms with
  | nil => exact .inl h
  | cons p body ih =>
    rw [List.foldlM_cons, Noted.value_bind] at h
    rcases ih h with h | ⟨p', hp', hfrom⟩
    · split at h
      · rcases classMember_cases owner ms p with heq | ⟨hshown, m', hflat, heq⟩
        · rw [heq] at h
          exact .inl h
        · rw [heq] at h
          rcases List.mem_append.mp h with h | h
          · exact .inl h
          · rw [List.mem_singleton] at h
            subst h
            exact .inr ⟨p, List.mem_cons_self, hshown, hflat, ms, heq⟩
      · exact .inl h
    · exact .inr ⟨p', List.mem_cons_of_mem _ hp', hfrom⟩

theorem members_asClass {m : Declaration} (hm : m ∈ (r.asClass d n).value.members) :
    r.MemberFrom d.name (bodyOf n) m := by
  rcases mem_of_foldlM hm with h | h
  · cases h
  · exact h

theorem typeMember_from {q : Declaration} (h : (r.typeMember p).value = some q) :
    ¬ r.Hides p.before ∧ q.Flat := by
  simp only [typeMember] at h
  cases hname : p.node.child? .name with
  | none => rw [hname] at h; cases h
  | some name =>
    rw [hname] at h
    dsimp only at h
    split at h
    · cases h
    case isFalse hguard =>
    have hshown : ¬ r.Hides p.before := not_hides_of_guard hguard
    have hflat : (documented { name := unquote name.text, kind := .value, sourceLine := some p.node.start.line }
      (r.docBefore? p.before)).Flat := flat_documented ⟨rfl, rfl⟩ _
    split at h
    · cases h
      exact ⟨hshown, flat_asFunction hflat⟩
    · cases h
      exact ⟨hshown, hflat⟩

theorem properties_asInterface {q : Declaration} (hq : q ∈ (r.asInterface d n).value.properties) :
    r.PropertyFrom (bodyOf n) q := by
  rw [bodyOf]
  simp only [asInterface] at hq
  cases hbody : n.child? .body with
  | none => rw [hbody] at hq; cases hq
  | some body =>
    rw [hbody] at hq
    simp only [typeMembers, Noted.value_bind, Noted.value_pure, Noted.value_mapM] at hq
    obtain ⟨x, hx, rfl⟩ := List.mem_filterMap.mp hq
    obtain ⟨p, hp, hvalue⟩ := List.mem_map.mp hx
    obtain ⟨hshown, hflat⟩ := typeMember_from hvalue
    exact ⟨p, hp, hshown, hflat, hvalue⟩

theorem asVariable_cases (hd : d.Flat) : (r.asVariable d n doc).value.Flat ∨
    ∃ v, (n.child? .value).map unwrap = some v ∧ (r.asVariable d n doc).value = (r.asClass d v).value := by
  simp only [asVariable]
  split
  · split
    · exact .inl hd
    · exact .inl hd
  · split
    · case h_1 v hv =>
      split
      · exact .inr ⟨v, hv, rfl⟩
      · split
        · exact .inl hd
        · exact .inl (flat_asValue hd)
    · exact .inl hd
    · exact .inl (flat_asValue hd)

theorem partsFrom_asClass (hk : n.kind ≠ .enumDeclaration) (hd : d.Flat) {c : Node} (hc : definition n = c) :
    r.PartsFrom n (r.asClass d c).value where
  members _ m hm := by
    rw [hc]
    exact members_asClass hm
  enumMembers h := absurd h hk
  properties q hq := by
    change q ∈ d.properties at hq
    rw [hd.2] at hq
    cases hq

theorem partsFrom_asInterface (hk : n.kind ≠ .enumDeclaration) (hd : d.Flat) :
    r.PartsFrom n (r.asInterface d n).value where
  members _ m hm := by
    have hkeep : (r.asInterface d n).value.members = d.members := by
      rw [asInterface]
      cases n.child? .body <;> rfl
    rw [hkeep, hd.1] at hm
    cases hm
  enumMembers h := absurd h hk
  properties _ hq := properties_asInterface hq

theorem partsFrom_asEnum (hk : n.kind = .enumDeclaration) (hd : d.Flat) : r.PartsFrom n (r.asEnum d n) where
  members h := absurd hk h
  enumMembers _ := rfl
  properties q hq := by
    change q ∈ d.properties at hq
    rw [hd.2] at hq
    cases hq

theorem partsFrom_asVariable (hk : n.kind = .variableDeclarator) (hd : d.Flat) :
    r.PartsFrom n (r.asVariable d n doc).value := by
  have hne : n.kind ≠ .enumDeclaration := by rw [hk]; nofun
  rcases @asVariable_cases r d n doc hd with hflat | ⟨v, hv, heq⟩
  · exact .of_flat hne hflat
  · rw [heq]
    refine partsFrom_asClass hne hd ?_
    rw [definition, if_pos hk, hv]
    rfl

theorem read_from {name : String} {before : Option Node} (h : (r.read name n before).value = some d) :
    ¬ r.Hides before ∧ r.PartsFrom n d := by
  by_cases hhides : r.Hides before
  · rw [r.read_of_hides hhides] at h
    cases h
  refine ⟨hhides, ?_⟩
  have hflat := flat_documented (d := { name, kind := .value, sourceLine := some n.start.line }) ⟨rfl, rfl⟩
    (r.docBefore? before)
  simp only [read] at h
  rw [if_neg (show ¬ (r.docBefore? before).any (·.hidden) = true from hhides)] at h
  generalize documented { name, kind := .value, sourceLine := some n.start.line } (r.docBefore? before) = d₀ at h hflat
  split at h
  · case isTrue hk =>
    cases h
    refine .of_flat ?_ hflat
    intro he
    rw [he] at hk
    exact absurd hk (by decide)
  split at h
  · case isTrue hk =>
    cases h
    refine partsFrom_asClass ?_ hflat (if_neg ?_)
    · intro he
      rw [he] at hk
      exact absurd hk (by decide)
    · intro he
      rw [he] at hk
      exact absurd hk (by decide)
  split at h
  · case h_1 hk =>
    cases h
    exact .of_flat (by rw [hk]; decide) hflat
  · case h_2 hk =>
    cases h
    exact partsFrom_asInterface (by rw [hk]; decide) hflat
  · case h_3 hk =>
    cases h
    exact partsFrom_asEnum hk hflat
  · case h_4 hk =>
    cases h
    exact partsFrom_asVariable hk hflat
  · case h_5 hk _ =>
    cases h
    exact .of_flat hk (flat_asValue hflat)

def ReadsAs (r : Reader) (n : Node) (before : Option Node) (d : Declaration) : Prop :=
  ∃ d', (r.read d.name n before).value = some d' ∧ d = { d' with aliasOf := d.aliasOf }

end Reader

/-! Statements -/

def declarationIn? (st : Placed) : Option Node :=
  match st.node.kind with
  | .importStatement => none
  | .exportStatement => st.node.child? .declaration
  | _ => some st.node

inductive Gives (st : Placed) : Node → Prop
  | variable {n d v name : Node} (hn : declarationIn? st = some n) (hd : declared? n = some d)
      (hkind : isVariableStatement d.kind) (hv : v ∈ declarators d) (hname : v.child? .name = some name)
      (hplain : name.kind = .identifier) : Gives st v
  | named {n d : Node} (hn : declarationIn? st = some n) (hd : declared? n = some d)
      (hkind : isNamedDeclaration d.kind) : Gives st d
  | default {v : Node} (hkind : st.node.kind = .exportStatement) (hdefault : st.node.hasToken "default")
      (hv : st.node.child? .value = some v) : Gives st (unwrap v)

def Binding.From (b : Binding) (st : Placed) : Prop :=
  b.before = st.before ∧ Gives st b.node

section Bindings

variable {ns : Names} {st : Placed} {e : String × Binding}

theorem mem_locals_bind {name : String} {b : Binding} (h : e ∈ (ns.bind name b).locals) :
    e ∈ ns.locals ∨ e.2 = b := by
  rcases List.mem_cons.mp h with rfl | h
  · exact .inr rfl
  · exact .inl h

theorem mem_locals_declarators {n d : Node} (hn : declarationIn? st = some n) (hd : declared? n = some d)
    (hkind : isVariableStatement d.kind) {vs : List Node} (hvs : ∀ v ∈ vs, v ∈ declarators d)
    (h : e ∈ (vs.foldl (fun ns v =>
      match v.child? .name with
      | some name => if name.kind == .identifier then ns.bind name.text ⟨v, st.before⟩ else ns
      | none => ns) ns).locals) : e ∈ ns.locals ∨ e.2.From st := by
  induction vs generalizing ns with
  | nil => exact .inl h
  | cons v vs ih =>
    obtain ⟨hv, hvs⟩ := List.forall_mem_cons.mp hvs
    rcases ih hvs h with h | h
    · dsimp only at h
      split at h
      · case h_1 name hname =>
        split at h
        · case isTrue hplain =>
          rcases mem_locals_bind h with h | h
          · exact .inl h
          · rw [h]
            exact .inr ⟨rfl, .variable hn hd hkind hv hname (by simpa using hplain)⟩
        · exact .inl h
      · exact .inl h
    · exact .inr h

theorem mem_locals_indexDeclaration {n : Node} (hn : declarationIn? st = some n)
    (h : e ∈ (indexDeclaration ns n st.before).locals) : e ∈ ns.locals ∨ e.2.From st := by
  rw [indexDeclaration] at h
  split at h
  · exact .inl h
  · case h_2 d hd =>
    split at h
    · case isTrue hkind => exact mem_locals_declarators hn hd hkind (fun _ hv => hv) h
    split at h
    · case isTrue hkind =>
      split at h
      · split at h
        · rcases mem_locals_bind h with h | h
          · exact .inl h
          · rw [h]
            exact .inr ⟨rfl, .named hn hd hkind⟩
        · exact .inl h
      · exact .inl h
    · exact .inl h

theorem mem_locals_indexStatement (h : e ∈ (indexStatement ns st).locals) : e ∈ ns.locals ∨ e.2.From st := by
  rw [indexStatement] at h
  split at h
  · rw [indexImport] at h
    split at h <;> exact .inl h
  · case h_2 hk =>
    split at h
    · case h_1 d hd =>
      refine mem_locals_indexDeclaration ?_ h
      rw [declarationIn?, hk]
      exact hd
    · exact .inl h
  · case h_3 himport hexport =>
    refine mem_locals_indexDeclaration ?_ h
    rw [declarationIn?]
    split
    · contradiction
    · contradiction
    · rfl

theorem mem_locals_foldl {ps : List Placed} (h : e ∈ (ps.foldl indexStatement ns).locals) :
    e ∈ ns.locals ∨ ∃ st ∈ ps, e.2.From st := by
  induction ps generalizing ns with
  | nil => exact .inl h
  | cons p ps ih =>
    rcases ih h with h | ⟨st, hst, hfrom⟩
    · rcases mem_locals_indexStatement h with h | h
      · exact .inl h
      · exact .inr ⟨p, List.mem_cons_self, h⟩
    · exact .inr ⟨st, List.mem_cons_of_mem _ hst, hfrom⟩

theorem exists_from_of_local? {root : Node} {x : String} {b : Binding} (h : (namesAt root).local? x = some b) :
    ∃ st ∈ statements root, b.From st := by
  obtain ⟨before, after, hlocals, _⟩ := List.lookup_eq_some_iff.mp h
  have hmem : (x, b) ∈ (namesAt root).locals := by
    rw [hlocals]
    exact List.mem_append_right _ List.mem_cons_self
  rcases mem_locals_foldl hmem with h | h
  · cases h
  · exact h

end Bindings

/-! Candidates -/

/-- A name that is bound by taking a value apart, or a whole module. No comment is looked at for these. -/
def Candidate.unguarded : Candidate → Bool
  | bound _ => true
  | whole _ _ _ => true
  | _ => false

section Candidates

variable {s : Surroundings} {st : Placed} {root : Node} {name : String} {n : Node} {before : Option Node}
  {aliasOf : Option AliasOf}

theorem from_of_declaration {d : Node} (hn : declarationIn? st = some d)
    (h : .declared name n before aliasOf ∈ candidatesOfDeclaration d st) : before = st.before ∧ Gives st n := by
  rw [candidatesOfDeclaration] at h
  split at h
  · cases h
  · case h_2 d' hd =>
    split at h
    · case isTrue hkind =>
      obtain ⟨v, hv, h⟩ := List.mem_flatMap.mp h
      rw [candidatesOfDeclarator] at h
      split at h
      · cases h
      · case h_2 nameNode hname =>
        split at h
        · case isTrue hplain =>
          cases List.mem_singleton.mp h
          exact ⟨rfl, .variable hn hd hkind hv hname hplain⟩
        · obtain ⟨_, _, h⟩ := List.mem_map.mp h
          cases h
    split at h
    · case isTrue hkind =>
      cases List.mem_singleton.mp h
      exact ⟨rfl, .named hn hd hkind⟩
    · cases h

theorem not_declared_from {specifier : String} : .declared name n before aliasOf ∉ candidatesFrom st.node specifier := by
  intro h
  rw [candidatesFrom] at h
  split at h
  · obtain ⟨_, _, h⟩ := List.mem_map.mp h
    cases h
  · obtain ⟨_, _, h⟩ := List.mem_map.mp h
    cases h
  · cases List.mem_singleton.mp h

theorem exists_gives (hnames : s.names = namesAt root) (hst : st ∈ statements root)
    (h : .declared name n before aliasOf ∈ candidatesOf s st) :
    ∃ st' ∈ statements root, before = st'.before ∧ Gives st' n := by
  have hlocal {x : String} {b : Binding} (hb : s.names.local? x = some b) :
      ∃ st' ∈ statements root, b.before = st'.before ∧ Gives st' b.node :=
    exists_from_of_local? (hnames ▸ hb)
  simp only [candidatesOf] at h
  split at h
  · cases h
  case isFalse hk =>
  rw [ne_eq, not_not] at hk
  split at h
  · case h_1 d hd =>
    refine ⟨st, hst, from_of_declaration ?_ h⟩
    rw [declarationIn?, hk]
    exact hd
  · exact absurd h not_declared_from
  split at h
  · case isTrue hdefault =>
    obtain ⟨v, hv, h⟩ := List.mem_map.mp h
    have hgives : Gives st (unwrap v) := .default hk hdefault (Option.mem_toList.mp hv)
    simp only [candidateOfDefault] at h
    split at h
    · split at h
      · cases h
      · case h_2 hb =>
        cases h
        exact hlocal hb
      · cases h
        exact ⟨st, hst, rfl, hgives⟩
    · cases h
      exact ⟨st, hst, rfl, hgives⟩
  · split at h
    · obtain ⟨_, _, h⟩ := List.mem_map.mp h
      rw [candidateOfItem] at h
      split at h
      · cases h
      · case h_2 hb =>
        cases h
        exact hlocal hb
      · cases h
    · cases h

end Candidates

section Declarations

variable {file modulePath : String} {resolve : String → Option String} {root : Node}

theorem mem_names_of_candidate {c : Candidate} {name : String}
    (hc : c ∈ candidates (surroundingsOf file modulePath resolve root) root) (hname : c.name? = some name)
    (hkeep : c.dropped (surroundingsOf file modulePath resolve root) = false) :
    name ∈ (analyzeCode file modulePath resolve root).value.names := by
  have hsome : ((candidates (surroundingsOf file modulePath resolve root) root).find? fun c =>
      c.name? == some name && !c.dropped (surroundingsOf file modulePath resolve root)).isSome :=
    List.find?_isSome.mpr ⟨c, hc, by simp [hname, hkeep]⟩
  obtain ⟨c', hc'⟩ := Option.isSome_iff_exists.mp hsome
  have htest := List.find?_some hc'
  rcases c'.result?_cases (surroundingsOf file modulePath resolve root) with ⟨hdrop, _⟩ | ⟨_, e, he, _⟩
  · simp [hdrop] at htest
  · have hunder : (analyzeCode file modulePath resolve root).value.under? name = some e := by
      rw [analyzeCode_under?, find?_entries, hc']
      exact he
    obtain ⟨hholds, hname'⟩ := Extracted.holds_of_under? hunder
    cases e with
    | declaration d =>
      cases hname'
      exact List.mem_append_left _ (List.mem_map_of_mem hholds)
    | reExport e =>
      cases hname'
      exact List.mem_append_right _ (List.mem_map_of_mem hholds)
    | star t => cases hname'

theorem declaration_from {d : Declaration}
    (hd : d ∈ (analyzeCode file modulePath resolve root).value.declarations) :
    let s := surroundingsOf file modulePath resolve root
    ∃ st ∈ statements root,
      (¬ s.reader.Hides st.before ∧ ∃ n, Gives st n ∧ s.reader.ReadsAs n st.before d ∧ s.reader.PartsFrom n d) ∨
        ∃ c ∈ candidatesOf s st, c.unguarded ∧ c.result? s = some (.declaration d) := by
  intro s
  obtain ⟨o, ho, hentry⟩ := exists_offer (e := .declaration d) hd
  have hmem : .declaration d ∈ (offers s root).map Offer.entry := hentry ▸ List.mem_map_of_mem ho
  rw [offers_entries] at hmem
  obtain ⟨c, hc, hresult⟩ := List.mem_filterMap.mp hmem
  obtain ⟨st, hst, hc⟩ := List.mem_flatMap.mp hc
  cases c with
  | declared name n before aliasOf =>
    obtain ⟨st', hst', rfl, hgives⟩ := exists_gives rfl hst hc
    obtain ⟨d', hread, heq⟩ := Option.map_eq_some_iff.mp hresult
    injection heq with heq
    obtain ⟨hshown, hparts⟩ := Reader.read_from hread
    obtain ⟨_, hread', hname, _⟩ := @Reader.read_named s.reader name n _ hshown
    cases hread.symm.trans hread'
    subst hname
    refine ⟨st', hst', .inl ⟨hshown, n, hgives, ?_⟩⟩
    cases aliasOf with
    | none =>
      obtain rfl : d' = d := heq
      exact ⟨⟨d', hread, by cases d'; rfl⟩, hparts⟩
    | some a =>
      cases heq
      exact ⟨⟨d', hread, rfl⟩, hparts.members, hparts.enumMembers, hparts.properties⟩
  | bound i => exact ⟨st, hst, .inr ⟨_, hc, rfl, hresult⟩⟩
  | whole specifier name line => exact ⟨st, hst, .inr ⟨_, hc, rfl, hresult⟩⟩
  | passed specifier localName name =>
    obtain ⟨_, _, heq⟩ := Option.map_eq_some_iff.mp hresult
    cases heq
  | unknown name => cases hresult
  | star specifier =>
    obtain ⟨_, _, heq⟩ := Option.map_eq_some_iff.mp hresult
    cases heq

end Declarations

end Code

end ApiCatalog
