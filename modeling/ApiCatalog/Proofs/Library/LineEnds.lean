import ApiCatalog.Proofs.Catalog.Decode
import ApiCatalog.Library.Generate

namespace ApiCatalog

namespace Text

theorem readLineEnds_eq_self {s : List Char} (h : '\r' ∉ s) : readLineEnds s = s := by
  fun_induction readLineEnds s with
  | case1 cs ih => simp at h
  | case2 cs hne ih => simp at h
  | case3 c cs h1 h2 ih =>
    rw [ih fun hmem => h (List.mem_cons_of_mem _ hmem)]
  | case4 => rfl

def HasNoReturn (s : String) : Prop :=
  '\r' ∉ s.toList

instance (s : String) : Decidable (HasNoReturn s) :=
  inferInstanceAs (Decidable (¬ _))

theorem HasNoReturn.ofList_readLineEnds {s : String} (h : HasNoReturn s) :
    String.ofList (readLineEnds s.toList) = s := by
  rw [readLineEnds_eq_self h, String.ofList_toList]

@[simp] theorem hasNoReturn_append {s t : String} : HasNoReturn (s ++ t) ↔ HasNoReturn s ∧ HasNoReturn t := by
  simp [HasNoReturn]

theorem hasNoReturn_intercalate {sep : String} {items : List String} (hsep : HasNoReturn sep)
    (h : ∀ s ∈ items, HasNoReturn s) : HasNoReturn (sep.intercalate items) := by
  induction items with
  | nil => simp [HasNoReturn]
  | cons s items ih =>
    obtain ⟨hs, hitems⟩ := List.forall_mem_cons.mp h
    cases items with
    | nil => simpa using hs
    | cons s' items =>
      rw [String.intercalate_cons_cons]
      simp only [hasNoReturn_append]
      exact ⟨⟨hs, hsep⟩, ih hitems⟩

theorem hasNoReturn_join {items : List String} (h : ∀ s ∈ items, HasNoReturn s) : HasNoReturn (String.join items) := by
  rw [HasNoReturn, String.toList_join, List.mem_flatMap]
  rintro ⟨s, hs, hmem⟩
  exact h s hs hmem

theorem hasNoReturn_toString (n : Nat) : HasNoReturn (toString n) := by
  intro hmem
  have hdigit := Nat.isDigit_of_mem_toDigits (by decide) (by decide) (show '\r' ∈ Nat.toDigits 10 n by simpa using hmem)
  exact absurd hdigit (by decide)

end Text

open Text

namespace Json

theorem not_mem_hexDigits (n value : Nat) : '\r' ∉ hexDigits n value := by
  have hdigit : ∀ d < 16, Nat.digitChar d ≠ '\r' := by decide
  intro hmem
  obtain ⟨i, _, hi⟩ := List.mem_map.mp hmem
  exact hdigit _ (Nat.mod_lt _ (by omega)) hi

theorem not_mem_escapedChar (c : Char) : '\r' ∉ escapedChar c := by
  by_cases hc : c = '\r'
  · subst hc
    decide
  · unfold escapedChar
    split_ifs
    all_goals simp [not_mem_hexDigits, Ne.symm hc]

theorem hasNoReturn_escaped (s : String) : HasNoReturn (escaped s) := by
  have hbody : HasNoReturn (String.ofList (s.toList.flatMap escapedChar)) := by
    rw [HasNoReturn, String.toList_ofList, List.mem_flatMap]
    rintro ⟨c, _, hc⟩
    exact not_mem_escapedChar c hc
  have hquote : HasNoReturn "\"" := by decide
  simp [escaped, hbody, hquote]

theorem hasNoReturn_lineBreak (depth : Nat) : HasNoReturn (lineBreak depth) := by
  simp [HasNoReturn, lineBreak]

theorem hasNoReturn_bracketed {opening closing : String} {items : List String} (hopening : HasNoReturn opening)
    (hclosing : HasNoReturn closing) (h : ∀ s ∈ items, HasNoReturn s) (depth : Nat) :
    HasNoReturn (bracketed opening closing depth items) := by
  unfold bracketed
  split
  · simp [hopening, hclosing]
  · have hcomma : HasNoReturn ("," ++ lineBreak (depth + 1)) :=
      hasNoReturn_append.mpr ⟨by decide, hasNoReturn_lineBreak _⟩
    simp [hopening, hclosing, hasNoReturn_lineBreak, hasNoReturn_intercalate hcomma h]

theorem hasNoReturn_renderAt {j : Json} (hj : Plain j) (depth : Nat) : HasNoReturn (renderAt depth j) := by
  induction hj generalizing depth with
  | null => exact (by decide : HasNoReturn "null")
  | bool b =>
    cases b with
    | true => exact (by decide : HasNoReturn "true")
    | false => exact (by decide : HasNoReturn "false")
  | ofNat n => exact hasNoReturn_toString n
  | string s => exact hasNoReturn_escaped s
  | array _ ih =>
    rw [renderAt, renderItems_eq]
    apply hasNoReturn_bracketed (by decide) (by decide)
    intro s hs
    obtain ⟨j, hj, rfl⟩ := List.mem_map.mp hs
    exact ih j hj (depth + 1)
  | object _ ih =>
    rw [renderAt, renderFields_eq]
    apply hasNoReturn_bracketed (by decide) (by decide)
    intro s hs
    obtain ⟨f, hf, rfl⟩ := List.mem_map.mp hs
    have hcolon : HasNoReturn ": " := by decide
    simp [hasNoReturn_escaped, hcolon, ih f hf (depth + 1)]

end Json

theorem Library.hasNoReturn_serialize (l : Library) : HasNoReturn l.serialize :=
  hasNoReturn_append.mpr ⟨Json.hasNoReturn_renderAt l.plain_toJson 0, by decide⟩

namespace Wrapper

theorem hasNoReturn_moduleCount (n : Nat) : HasNoReturn (moduleCount n) := by
  unfold moduleCount
  simp only [hasNoReturn_append]
  refine ⟨⟨hasNoReturn_toString n, by decide⟩, ?_⟩
  split <;> decide

theorem hasNoReturn_kindType : HasNoReturn kindType := by
  apply hasNoReturn_intercalate (by decide)
  intro s hs
  obtain ⟨k, _, rfl⟩ := List.mem_map.mp hs
  exact Json.hasNoReturn_escaped k.name

theorem hasNoReturn_recordTypes : HasNoReturn (String.join (recordTypes.map RecordType.text)) := by
  have hnames : ∀ t ∈ recordTypes, HasNoReturn t.name ∧ ∀ f ∈ t.fields, HasNoReturn f.name ∧ HasNoReturn f.type := by
    decide +kernel
  apply hasNoReturn_join
  intro s hs
  obtain ⟨t, ht, rfl⟩ := List.mem_map.mp hs
  have hfields : HasNoReturn (String.join (t.fields.map Field.text)) := by
    apply hasNoReturn_join
    intro s hs
    obtain ⟨f, hf, rfl⟩ := List.mem_map.mp hs
    obtain ⟨hname, htype⟩ := (hnames t ht).2 f hf
    unfold Field.text
    simp only [hasNoReturn_append, hname, htype, and_true]
    split <;> decide
  unfold RecordType.text
  simp only [hasNoReturn_append, (hnames t ht).1, hfields, and_true]
  decide

end Wrapper

theorem Library.hasNoReturn_wrapper {l : Library} {jsonFile : String} (hname : HasNoReturn l.name)
    (hversion : HasNoReturn l.version) (hfile : HasNoReturn jsonFile) : HasNoReturn (l.wrapper jsonFile) := by
  unfold wrapper
  simp only [hasNoReturn_append, hname, hversion, hfile, Wrapper.hasNoReturn_moduleCount,
    Wrapper.hasNoReturn_kindType, Wrapper.hasNoReturn_recordTypes, and_true]
  decide

end ApiCatalog
