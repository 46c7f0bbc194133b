import Mathlib
import ApiCatalog.Catalog.Encode
import ApiCatalog.Proofs.Json.RoundTrip

namespace ApiCatalog

/-! Reading fields -/

namespace Json

variable {α β : Type}

def string? : Json → Option String
  | .string s => some s
  | _ => none

def bool? : Json → Option Bool
  | .bool b => some b
  | _ => none

def nat? : Json → Option Nat
  | .number spelling =>
    if spelling.toList.all Char.isDigit then some (Nat.ofDigitChars 10 spelling.toList 0) else none
  | _ => none

def list? (read : Json → Option α) : Json → Option (List α)
  | .array items => items.mapM read
  | _ => none

def present? (read : Json → Option α) (j : Json) : Option (Option α) :=
  (read j).map some

def required? (j : Json) (key : String) (read : Json → Option α) : Option α :=
  (j.field? key).bind read

def optional? (j : Json) (key : String) (read : Json → Option α) (default : α) : Option α :=
  (j.field? key).elim (some default) read

def kept (j : Json) : Option Json :=
  if j.isVoid then none else some j

theorem lookup_eq_some_iff {fields : List (String × α)} (h : (fields.map Prod.fst).Nodup)
    {key : String} {a : α} :
    fields.lookup key = some a ↔ (key, a) ∈ fields := by
  induction fields with
  | nil => simp
  | cons f fs ih =>
    obtain ⟨hf, hfs⟩ := List.nodup_cons.mp h
    obtain ⟨k, b⟩ := f
    by_cases hk : key = k
    · subst hk
      have habsent : (key, a) ∉ fs := fun hmem => hf (List.mem_map.mpr ⟨_, hmem, rfl⟩)
      simp [habsent, eq_comm]
    · simp [List.lookup_cons, beq_false_of_ne hk, hk, ih hfs]

theorem field?_compact {fields : List (String × Json)} (h : (fields.map Prod.fst).Nodup) (key : String) :
    (compact fields).field? key = (fields.lookup key).bind kept := by
  have hsub : ((fields.filter fun f => !f.2.isVoid).reverse.map Prod.fst).Nodup := by
    rw [List.map_reverse, List.nodup_reverse]
    exact h.sublist (List.filter_sublist.map _)
  apply Option.ext
  intro j
  rw [compact, field?, lookup_eq_some_iff hsub, List.mem_reverse, List.mem_filter, Option.bind_eq_some_iff]
  constructor
  · rintro ⟨hmem, hkept⟩
    exact ⟨j, (lookup_eq_some_iff h).mpr hmem, if_neg (by simpa using hkept)⟩
  · rintro ⟨j', hlookup, hkept⟩
    rw [kept] at hkept
    split at hkept
    · cases hkept
    · case isFalse hvoid =>
      cases hkept
      exact ⟨(lookup_eq_some_iff h).mp hlookup, by simpa using hvoid⟩

theorem field?_append (fields : List (String × Json)) (k : String) (j : Json) (key : String) :
    (Json.object (fields ++ [(k, j)])).field? key =
      if key = k then some j else (Json.object fields).field? key := by
  by_cases h : key = k
  · simp [field?, h]
  · simp [field?, List.lookup_cons, beq_false_of_ne h, h]

/-! What is written for a value is read as that value, and what is left out stands for the default. -/

@[simp] theorem nat?_ofNat (n : Nat) : (ofNat n).nat? = some n := by
  have hdigits : (Nat.toDigits 10 n).all Char.isDigit = true :=
    List.all_eq_true.mpr fun c hc => Nat.isDigit_of_mem_toDigits (by omega) (by omega) hc
  simp only [ofNat, nat?, Nat.toString_eq_ofList_toDigits, String.toList_ofList, hdigits, if_true,
    Nat.ofDigitChars_ten_toDigits]

@[simp] theorem bind_string (s : String) (read : Json → Option α) :
    (kept (.string s)).bind read = read (.string s) :=
  rfl

@[simp] theorem elim_ofOption (o : Option String) :
    (kept (.ofOption o)).elim (some none) (present? string?) = some o := by
  cases o <;> rfl

@[simp] theorem elim_bool (b : Bool) : (kept (.bool b)).elim (some false) bool? = some b := by
  cases b <;> rfl

theorem elim_getD {write : α → Json} {read : Json → Option α} (hvoid : ∀ a, (write a).isVoid = false)
    (hread : ∀ a, read (write a) = some a) (o : Option α) :
    (kept ((o.map write).getD .null)).elim (some none) (present? read) = some o := by
  cases o with
  | none => rfl
  | some a => simp [kept, hvoid, present?, hread]

theorem mapM_map {write : α → Json} {read : Json → Option α} {as : List α}
    (h : ∀ a ∈ as, read (write a) = some a) : (as.map write).mapM read = some as := by
  induction as with
  | nil => rfl
  | cons a as ih =>
    obtain ⟨ha, has⟩ := List.forall_mem_cons.mp h
    rw [List.map_cons, List.mapM_cons, ha, ih has]
    rfl

theorem elim_array {write : α → Json} {read : Json → Option α} {as : List α}
    (h : ∀ a ∈ as, read (write a) = some a) :
    (kept (.array (as.map write))).elim (some []) (list? read) = some as := by
  cases as with
  | nil => rfl
  | cons a as => exact mapM_map h

@[simp] theorem elim_strings (ss : List String) :
    (kept (.strings ss)).elim (some []) (list? string?) = some ss :=
  elim_array fun _ _ => rfl

end Json

/-! Records without declarations -/

def Parameter.ofJson? (j : Json) : Option Parameter := do
  let name ← j.required? "name" Json.string?
  let type ← j.required? "type" Json.string?
  let blank : Parameter := { name, type }
  pure { blank with
    optional := ← j.optional? "optional" Json.bool? blank.optional
    defaultValue := ← j.optional? "default_value" (Json.present? Json.string?) blank.defaultValue
    description := ← j.optional? "description" (Json.present? Json.string?) blank.description }

theorem Parameter.ofJson?_toJson (p : Parameter) : ofJson? p.toJson = some p := by
  have hfield (key : String) : p.toJson.field? key = _ := Json.field?_compact (by simp) key
  simp only [ofJson?, Json.required?, Json.optional?, hfield, List.lookup, String.reduceBEq, Option.bind_some,
    Option.pure_def, Option.bind_eq_bind, Json.bind_string, Json.string?, Json.elim_ofOption, Json.elim_bool]

def GenericParam.ofJson? (j : Json) : Option GenericParam := do
  let name ← j.required? "name" Json.string?
  let blank : GenericParam := { name }
  pure { blank with
    constraint := ← j.optional? "constraint" (Json.present? Json.string?) blank.constraint
    defaultType := ← j.optional? "default_type" (Json.present? Json.string?) blank.defaultType }

theorem GenericParam.ofJson?_toJson (p : GenericParam) : ofJson? p.toJson = some p := by
  have hfield (key : String) : p.toJson.field? key = _ := Json.field?_compact (by simp) key
  simp only [ofJson?, Json.required?, Json.optional?, hfield, List.lookup, String.reduceBEq, Option.bind_some,
    Option.pure_def, Option.bind_eq_bind, Json.bind_string, Json.string?, Json.elim_ofOption]

def ComponentProp.ofJson? (j : Json) : Option ComponentProp := do
  let name ← j.required? "name" Json.string?
  let type ← j.required? "type" Json.string?
  let blank : ComponentProp := { name, type }
  pure { blank with
    optional := ← j.optional? "optional" Json.bool? blank.optional
    defaultValue := ← j.optional? "default_value" (Json.present? Json.string?) blank.defaultValue
    description := ← j.optional? "description" (Json.present? Json.string?) blank.description
    bindable := ← j.optional? "bindable" Json.bool? blank.bindable }

theorem ComponentProp.ofJson?_toJson (p : ComponentProp) : ofJson? p.toJson = some p := by
  have hfield (key : String) : p.toJson.field? key = _ := Json.field?_compact (by simp) key
  simp only [ofJson?, Json.required?, Json.optional?, hfield, List.lookup, String.reduceBEq, Option.bind_some,
    Option.pure_def, Option.bind_eq_bind, Json.bind_string, Json.string?, Json.elim_ofOption, Json.elim_bool]

def AliasOf.ofJson? (j : Json) : Option AliasOf := do
  pure ⟨← j.required? "module" Json.string?, ← j.required? "name" Json.string?⟩

theorem AliasOf.ofJson?_toJson (a : AliasOf) : ofJson? a.toJson = some a :=
  rfl

def ReExport.ofJson? (j : Json) : Option ReExport := do
  pure ⟨← j.required? "local_name" Json.string?, ← j.required? "source_module" Json.string?,
    ← j.required? "exported_name" Json.string?⟩

theorem ReExport.ofJson?_toJson (e : ReExport) : ofJson? e.toJson = some e :=
  rfl

/-! Declarations -/

namespace Declaration

def read? (j : Json) (parts : String → Option (List Declaration)) : Option Declaration := do
  let name ← j.required? "name" Json.string?
  let kind ← j.required? "kind" fun v => v.string?.bind DeclarationKind.ofName?
  let blank : Declaration := { name, kind }
  pure { blank with
    sourceLine := ← j.optional? "source_line" (Json.present? Json.nat?) blank.sourceLine
    comment := ← j.optional? "comment" (Json.present? Json.string?) blank.comment
    typeSignature := ← j.optional? "type_signature" (Json.present? Json.string?) blank.typeSignature
    returnType := ← j.optional? "return_type" (Json.present? Json.string?) blank.returnType
    returnDescription := ← j.optional? "return_description" (Json.present? Json.string?) blank.returnDescription
    parameters := ← j.optional? "parameters" (Json.list? Parameter.ofJson?) blank.parameters
    genericParams := ← j.optional? "generic_params" (Json.list? GenericParam.ofJson?) blank.genericParams
    extended := ← j.optional? "extends" (Json.list? Json.string?) blank.extended
    implemented := ← j.optional? "implements" (Json.list? Json.string?) blank.implemented
    members := ← parts "members"
    properties := ← parts "properties"
    props := ← j.optional? "props" (Json.list? ComponentProp.ofJson?) blank.props
    modifiers := ← j.optional? "modifiers" (Json.list? Json.string?) blank.modifiers
    throws := ← j.optional? "throws" (Json.list? Json.string?) blank.throws
    examples := ← j.optional? "examples" (Json.list? Json.string?) blank.examples
    seeAlso := ← j.optional? "see_also" (Json.list? Json.string?) blank.seeAlso
    since := ← j.optional? "since" (Json.present? Json.string?) blank.since
    deprecated := ← j.optional? "deprecated" (Json.present? Json.string?) blank.deprecated
    aliasOf := ← j.optional? "alias_of" (Json.present? AliasOf.ofJson?) blank.aliasOf
    alsoExportedFrom := ← j.optional? "also_exported_from" (Json.list? Json.string?) blank.alsoExportedFrom }

theorem read?_encode (d : Declaration) (members properties : List Json)
    {parts : String → Option (List Declaration)} (hmembers : parts "members" = some d.members)
    (hproperties : parts "properties" = some d.properties) :
    read? (d.encode members properties) parts = some d := by
  have hfield (key : String) : (d.encode members properties).field? key = _ :=
    Json.field?_compact (by simp) key
  have hparameters := Json.elim_array fun p (_ : p ∈ d.parameters) => p.ofJson?_toJson
  have hgenerics := Json.elim_array fun p (_ : p ∈ d.genericParams) => p.ofJson?_toJson
  have hprops := Json.elim_array fun p (_ : p ∈ d.props) => p.ofJson?_toJson
  have hline := Json.elim_getD (fun _ => rfl) Json.nat?_ofNat d.sourceLine
  have halias := Json.elim_getD (fun _ => rfl) AliasOf.ofJson?_toJson d.aliasOf
  simp only [read?, Json.required?, Json.optional?, hfield, List.lookup, String.reduceBEq,
    Option.bind_some, Option.pure_def, Option.bind_eq_bind, Json.bind_string, Json.string?,
    DeclarationKind.ofName?_name, Json.elim_ofOption, Json.elim_strings, hline, hparameters, hgenerics, hmembers,
    hproperties, hprops, halias]
  cases d
  rfl

mutual

def ofJson? : Json → Option Declaration
  | .object fields => read? (.object fields) fun key => ((parts fields).reverse.lookup key).elim (some []) id
  | _ => none

def parts : List (String × Json) → List (String × Option (List Declaration))
  | [] => []
  | (key, j) :: rest => (key, listOfJson? j) :: parts rest

def listOfJson? : Json → Option (List Declaration)
  | .array items => itemsOfJson? items
  | _ => none

def itemsOfJson? : List Json → Option (List Declaration)
  | [] => some []
  | j :: js => do pure ((← ofJson? j) :: (← itemsOfJson? js))

end

theorem itemsOfJson?_eq (items : List Json) : itemsOfJson? items = items.mapM ofJson? := by
  induction items with
  | nil => rfl
  | cons j js ih => rw [itemsOfJson?, ih, List.mapM_cons]

theorem listOfJson?_eq (j : Json) : listOfJson? j = j.list? ofJson? := by
  cases j with
  | array items => exact itemsOfJson?_eq items
  | _ => rfl

theorem lookup_parts (fields : List (String × Json)) (key : String) :
    (parts fields).reverse.lookup key = ((Json.object fields).field? key).map (Json.list? ofJson?) := by
  rw [Json.field?]
  have hparts : parts fields = fields.map fun f => (f.1, f.2.list? ofJson?) := by
    induction fields with
    | nil => rfl
    | cons f fs ih => rw [parts, ih, listOfJson?_eq, List.map_cons]
  rw [hparts, ← List.map_reverse]
  -- Of several fields with one key the last counts, for the parts as for the values.
  generalize fields.reverse = fs
  induction fs with
  | nil => rfl
  | cons f fs ih =>
    rw [List.map_cons, List.lookup_cons, List.lookup_cons, ih]
    cases key == f.1 <;> rfl

theorem ofJson?_object (fields : List (String × Json)) :
    ofJson? (.object fields) =
      read? (.object fields) fun key => (Json.object fields).optional? key (Json.list? ofJson?) [] := by
  rw [ofJson?]
  congr 1
  funext key
  rw [lookup_parts, Json.optional?]
  cases (Json.object fields).field? key <;> rfl

theorem induction {P : Declaration → Prop}
    (h : ∀ d : Declaration, (∀ m ∈ d.members, P m) → (∀ p ∈ d.properties, P p) → P d)
    (d : Declaration) : P d :=
  h d (fun m _ => induction h m) fun p _ => induction h p
termination_by sizeOf d
decreasing_by
  all_goals
    have hlt := List.sizeOf_lt_of_mem (by assumption)
    cases d
    simp only [mk.sizeOf_spec] at hlt ⊢
    omega

theorem listToJson_eq (ds : List Declaration) : listToJson ds = ds.map toJson := by
  induction ds with
  | nil => rfl
  | cons d ds ih => rw [listToJson, ih, List.map_cons]

theorem toJson_eq (d : Declaration) :
    d.toJson = d.encode (d.members.map toJson) (d.properties.map toJson) := by
  cases d
  rw [toJson, listToJson_eq, listToJson_eq]

theorem ofJson?_toJson (d : Declaration) : ofJson? d.toJson = some d := by
  induction d using Declaration.induction with
  | h d hmembers hproperties =>
    have hfield (key : String) :
        (d.encode (d.members.map toJson) (d.properties.map toJson)).field? key = _ :=
      Json.field?_compact (by simp) key
    have hread : ofJson? (d.encode (d.members.map toJson) (d.properties.map toJson)) = read? _ _ :=
      ofJson?_object _
    rw [toJson_eq, hread]
    refine read?_encode d _ _ ?_ ?_
    · change Json.optional? (d.encode _ _) "members" _ [] = _
      simp only [Json.optional?, hfield, List.lookup, String.reduceBEq, Option.bind_some]
      exact Json.elim_array hmembers
    · change Json.optional? (d.encode _ _) "properties" _ [] = _
      simp only [Json.optional?, hfield, List.lookup, String.reduceBEq, Option.bind_some]
      exact Json.elim_array hproperties

end Declaration

/-! Modules and libraries -/

def Module.ofJson? (j : Json) : Option Module := do
  let path ← j.required? "path" Json.string?
  let blank : Module := { path }
  pure { blank with
    declarations := ← j.optional? "declarations" (Json.list? Declaration.ofJson?) blank.declarations
    moduleComment := ← j.optional? "module_comment" (Json.present? Json.string?) blank.moduleComment
    dependencies := ← j.optional? "dependencies" (Json.list? Json.string?) blank.dependencies
    dependents := ← j.optional? "dependents" (Json.list? Json.string?) blank.dependents
    reExports := ← j.optional? "re_exports" (Json.list? ReExport.ofJson?) blank.reExports
    starExports := ← j.optional? "star_exports" (Json.list? Json.string?) blank.starExports }

theorem Module.ofJson?_toJson (m : Module) : ofJson? m.toJson = some m := by
  have hfield (key : String) : m.toJson.field? key = _ := Json.field?_compact (by simp) key
  have hdeclarations := Json.elim_array fun d (_ : d ∈ m.declarations) => d.ofJson?_toJson
  have hexports := Json.elim_array fun e (_ : e ∈ m.reExports) => e.ofJson?_toJson
  simp only [ofJson?, Json.required?, Json.optional?, hfield, List.lookup, String.reduceBEq, Option.bind_some,
    Option.pure_def, Option.bind_eq_bind, Json.bind_string, Json.string?, Json.elim_ofOption, Json.elim_strings,
    hdeclarations, hexports]

def Library.ofJson? (j : Json) : Option Library := do
  let name ← j.required? "name" Json.string?
  let version ← j.required? "version" Json.string?
  let blank : Library := { name, version }
  pure { blank with
    description := ← j.optional? "description" (Json.present? Json.string?) blank.description
    repository := ← j.optional? "repository" (Json.present? Json.string?) blank.repository
    homepage := ← j.optional? "homepage" (Json.present? Json.string?) blank.homepage
    modules := ← j.optional? "modules" (Json.list? Module.ofJson?) blank.modules }

theorem Library.ofJson?_toJson (l : Library) : ofJson? l.toJson = some l := by
  have hfield (key : String) : l.toJson.field? key = _ :=
    (Json.field?_append _ _ _ key).trans (congrArg (ite _ _) (Json.field?_compact (by simp) key))
  have hmodules : (l.modules.map Module.toJson).mapM Module.ofJson? = some l.modules :=
    Json.mapM_map fun m _ => m.ofJson?_toJson
  simp only [ofJson?, Json.required?, Json.optional?, hfield, List.lookup, String.reduceBEq, String.reduceEq,
    if_true, if_false, Option.bind_some, Option.pure_def, Option.bind_eq_bind, Json.bind_string, Json.string?,
    Json.elim_ofOption, Option.elim_some, Json.list?, hmodules]

def Library.deserialize? (text : String) : Option Library :=
  (Json.parse? text).bind ofJson?

/-! The numbers of a catalog are natural. -/

namespace Json

attribute [simp] Plain.null Plain.bool Plain.string Plain.ofNat

theorem plain_compact {fields : List (String × Json)} (h : ∀ f ∈ fields, Plain f.2) :
    Plain (compact fields) :=
  .object fun f hf => h f (List.mem_filter.mp hf).1

theorem plain_array {α : Type} {write : α → Json} {as : List α} (h : ∀ a ∈ as, Plain (write a)) :
    Plain (.array (as.map write)) := by
  refine .array fun j hj => ?_
  obtain ⟨a, ha, rfl⟩ := List.mem_map.mp hj
  exact h a ha

@[simp] theorem plain_ofOption (o : Option String) : Plain (ofOption o) := by
  cases o with
  | none => exact .null
  | some s => exact .string s

@[simp] theorem plain_strings (ss : List String) : Plain (strings ss) :=
  plain_array fun s _ => .string s

end Json

theorem Parameter.plain_toJson (p : Parameter) : p.toJson.Plain :=
  Json.plain_compact (by simp)

theorem GenericParam.plain_toJson (p : GenericParam) : p.toJson.Plain :=
  Json.plain_compact (by simp)

theorem ComponentProp.plain_toJson (p : ComponentProp) : p.toJson.Plain :=
  Json.plain_compact (by simp)

theorem AliasOf.plain_toJson (a : AliasOf) : a.toJson.Plain :=
  .object (by simp)

theorem ReExport.plain_toJson (e : ReExport) : e.toJson.Plain :=
  .object (by simp)

theorem Declaration.plain_toJson (d : Declaration) : d.toJson.Plain := by
  induction d using Declaration.induction with
  | h d hmembers hproperties =>
    have hline : ((d.sourceLine.map Json.ofNat).getD .null).Plain := by cases d.sourceLine <;> simp
    have halias : ((d.aliasOf.map AliasOf.toJson).getD .null).Plain := by
      cases d.aliasOf with
      | none => exact .null
      | some a => exact a.plain_toJson
    rw [toJson_eq]
    refine Json.plain_compact ?_
    simp [hline, halias, Json.plain_array hmembers, Json.plain_array hproperties,
      Json.plain_array fun p (_ : p ∈ d.parameters) => p.plain_toJson,
      Json.plain_array fun p (_ : p ∈ d.genericParams) => p.plain_toJson,
      Json.plain_array fun p (_ : p ∈ d.props) => p.plain_toJson]

theorem Module.plain_toJson (m : Module) : m.toJson.Plain := by
  refine Json.plain_compact ?_
  simp [Json.plain_array fun d (_ : d ∈ m.declarations) => d.plain_toJson,
    Json.plain_array fun e (_ : e ∈ m.reExports) => e.plain_toJson]

theorem Library.plain_toJson (l : Library) : l.toJson.Plain := by
  refine .object (List.forall_mem_append.mpr ⟨fun f hf => ?_, ?_⟩)
  · have hmem := (List.mem_filter.mp hf).1
    clear hf
    revert f
    simp
  · rw [List.forall_mem_singleton]
    exact Json.plain_array fun m _ => m.plain_toJson

theorem Library.deserialize?_serialize :
    (∀ l : Library, deserialize? l.serialize = some l) ∧ Function.Injective Library.serialize := by
  have hread (l : Library) : deserialize? l.serialize = some l := by
    rw [deserialize?, serialize, Json.parse?_render l.plain_toJson, Option.bind_some, ofJson?_toJson]
  refine ⟨hread, fun l l' h => ?_⟩
  have hsame : some l = some l' := by
    rw [← hread l, ← hread l', h]
  exact Option.some.inj hsame

end ApiCatalog
