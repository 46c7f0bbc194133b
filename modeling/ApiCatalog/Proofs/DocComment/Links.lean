import ApiCatalog.DocComment.Link
import ApiCatalog.Proofs.DocComment.Clean

namespace ApiCatalog

namespace Text

variable {c : Char} {a b s t w : List Char}

theorem dropPrefix?_eq_some_iff : dropPrefix? w s = some t ↔ s = w ++ t := by
  induction w generalizing s with
  | nil => simp [dropPrefix?]
  | cons c cs ih =>
    cases s with
    | nil => simp [dropPrefix?]
    | cons d ds =>
      rw [dropPrefix?, List.cons_append, List.cons.injEq]
      split
      · case isTrue h => simp [h, ih]
      · case isFalse h => simp [Ne.symm h]

theorem dropPrefix?_append (h : c ∉ w) (s t : List Char) :
    dropPrefix? w (s ++ c :: t) = (dropPrefix? w s).map (· ++ c :: t) := by
  induction w generalizing s with
  | nil => rfl
  | cons d ds ih =>
    obtain ⟨hd, hds⟩ : c ≠ d ∧ c ∉ ds := by simpa using h
    cases s with
    | nil => simp [dropPrefix?, hd.symm]
    | cons e es =>
      rw [List.cons_append, dropPrefix?, dropPrefix?]
      split
      · exact ih hds es
      · rfl

theorem cutAt?_of_not_mem (h : c ∉ s) : cutAt? c s = none := by
  induction s with
  | nil => rfl
  | cons d ds ih =>
    obtain ⟨hd, hds⟩ : c ≠ d ∧ c ∉ ds := by simpa using h
    rw [cutAt?, if_neg hd.symm, ih hds]
    rfl

theorem cutAt?_append (h : c ∉ a) (b : List Char) : cutAt? c (a ++ c :: b) = some (a, b) := by
  induction a with
  | nil => simp [cutAt?]
  | cons d ds ih =>
    obtain ⟨hd, hds⟩ : c ≠ d ∧ c ∉ ds := by simpa using h
    rw [List.cons_append, cutAt?, if_neg hd.symm, ih hds]
    rfl

theorem cutAt?_eq_some_iff : cutAt? c s = some (a, b) ↔ s = a ++ c :: b ∧ c ∉ a := by
  constructor
  · intro h
    induction s generalizing a with
    | nil => cases h
    | cons d ds ih =>
      rw [cutAt?] at h
      split at h
      · case isTrue hd =>
        cases h
        simp [hd]
      · case isFalse hd =>
        obtain ⟨⟨a', b'⟩, hcut, heq⟩ := Option.map_eq_some_iff.mp h
        cases heq
        obtain ⟨rfl, ha⟩ := ih hcut
        simp [ha, Ne.symm hd]
  · rintro ⟨rfl, ha⟩
    exact cutAt?_append ha b

theorem cutAt_of_not_mem (h : c ∉ s) : cutAt c s = (s, []) := by
  rw [cutAt, cutAt?_of_not_mem h]
  rfl

theorem cutAt_append (h : c ∉ a) (b : List Char) : cutAt c (a ++ c :: b) = (a, b) := by
  rw [cutAt, cutAt?_append h]
  rfl

theorem endsWord_append (h : isWordChar c = false) (s t : List Char) : endsWord (s ++ c :: t) = endsWord s := by
  cases s with
  | nil => simp [endsWord, h]
  | cons d ds => rfl

end Text

namespace DocComment

open Text

variable {d : Char} {s t : List Char}

def HasLinkTag (s : List Char) : Prop :=
  ∃ before w after, w ∈ linkWords ∧ s = before ++ '{' :: '@' :: (w ++ after) ∧ endsWord after

theorem HasLinkTag.append_left (h : HasLinkTag s) (t : List Char) : HasLinkTag (t ++ s) := by
  obtain ⟨before, w, after, hw, rfl, hends⟩ := h
  exact ⟨t ++ before, w, after, hw, by simp, hends⟩

theorem not_hasLinkTag (h : '{' ∉ s) : ¬ HasLinkTag s := by
  rintro ⟨before, w, after, _, rfl, _⟩
  simp at h

theorem linkTag?_eq_none (h : ¬ HasLinkTag s) : linkTag? s = none := by
  unfold linkTag?
  split
  · case h_1 s =>
    apply List.findSome?_eq_none_iff.mpr
    intro w hw
    cases hdrop : dropPrefix? w s with
    | none => rfl
    | some after =>
      have hends : ¬ endsWord after := by
        intro hends
        exact h ⟨[], w, after, hw, by rw [dropPrefix?_eq_some_iff.mp hdrop]; rfl, hends⟩
      exact if_neg hends
  · rfl

theorem isWordChar_linkWords {w : List Char} (hw : w ∈ linkWords) : ∀ c ∈ w, isWordChar c := by
  have hall : linkWords.all fun w => w.all isWordChar := by decide
  simp only [List.all_eq_true] at hall
  exact hall w hw

theorem findSome?_congr {α β : Type} {f g : α → Option β} {l : List α} (h : ∀ a ∈ l, f a = g a) :
    l.findSome? f = l.findSome? g := by
  induction l with
  | nil => rfl
  | cons a l ih =>
    obtain ⟨ha, hl⟩ := List.forall_mem_cons.mp h
    rw [List.findSome?_cons, List.findSome?_cons, ha, ih hl]

theorem linkTag?_of_ne (h : ∀ u, s ≠ '{' :: '@' :: u) : linkTag? s = none := by
  unfold linkTag?
  split
  · case h_1 u => exact absurd rfl (h u)
  · rfl

theorem linkTag?_append (hword : isWordChar d = false) (hat : d ≠ '@') (hne : s ≠ []) (t : List Char) :
    linkTag? (s ++ d :: t) = (linkTag? s).map fun found => (found.1, found.2 ++ d :: t) := by
  by_cases hs : ∃ u, s = '{' :: '@' :: u
  · obtain ⟨u, rfl⟩ := hs
    rw [List.cons_append, List.cons_append, linkTag?, linkTag?, List.map_findSome?]
    apply findSome?_congr
    intro w hw
    have hd : d ∉ w := by
      intro hd
      rw [isWordChar_linkWords hw d hd] at hword
      cases hword
    rw [dropPrefix?_append hd, Function.comp_apply]
    cases dropPrefix? w u with
    | none => rfl
    | some after =>
      simp only [Option.map_some, Option.bind_some, endsWord_append hword]
      split <;> rfl
  · have hnone : ∀ u, s ++ d :: t ≠ '{' :: '@' :: u := by
      rintro u hu
      obtain ⟨c, cs, rfl⟩ := List.exists_cons_of_ne_nil hne
      cases cs with
      | nil => simp_all
      | cons e es =>
        simp only [List.cons_append, List.cons.injEq] at hu
        exact hs ⟨es, by rw [hu.1, hu.2.1]⟩
    rw [linkTag?_of_ne hnone, linkTag?_of_ne fun u hu => hs ⟨u, hu⟩]
    rfl

theorem convertTags_nil : convertTags [] = [] := by
  rw [convertTags]
  rfl

theorem convertTags_of_none {c : Char} (h : linkTag? (c :: s) = none) : convertTags (c :: s) = c :: convertTags s := by
  rw [convertTags]
  split
  · case h_1 hsome =>
    rw [h] at hsome
    cases hsome
  · rfl

theorem convertTags_plain (h : ¬ HasLinkTag s) (ht : ∀ c ∈ t.head?, c = '{') : convertTags (s ++ t) = s ++ convertTags t := by
  induction s with
  | nil => rfl
  | cons c cs ih =>
    have hcs : ¬ HasLinkTag cs := fun hcs => h (hcs.append_left [c])
    have htag : linkTag? (c :: (cs ++ t)) = none := by
      cases t with
      | nil => rw [List.append_nil, linkTag?_eq_none h]
      | cons d ds =>
        obtain rfl : d = '{' := ht d rfl
        rw [← List.cons_append, linkTag?_append (by decide) (by decide) (List.cons_ne_nil c cs), linkTag?_eq_none h]
        rfl
    rw [List.cons_append, convertTags_of_none htag, ih hcs, List.cons_append]

theorem convertTags_eq_self (h : ¬ HasLinkTag s) : convertTags s = s := by
  have hplain := convertTags_plain h (t := []) (by simp)
  rwa [List.append_nil, convertTags_nil, List.append_nil] at hplain

theorem convertLinks_eq_self (h : ¬ HasLinkTag s) (htrim : trim s = s) : convertLinks s = s := by
  rw [convertLinks]
  split
  · case isTrue hblank =>
    rw [← htrim, trim_of_blank (by simpa [isAllBlank] using hblank)]
  · exact convertTags_eq_self h

theorem seeMarkup_eq (hne : s ≠ []) (htrim : trim s = s) (h : ¬ HasLinkTag s) : seeMarkup s =
    let rendered := if isUrl (cutAt ' ' s).1 then (cutAt ' ' s).1 else inCode (cutAt ' ' s).1
    if (cutAt ' ' s).2.isEmpty then rendered else rendered ++ ' ' :: convertLinks (cutAt ' ' s).2 := by
  rw [seeMarkup, htrim]
  split
  · exact absurd rfl hne
  · rw [linkTag?_eq_none h]
    rfl

theorem seeMarkup_eq_self (hne : s ≠ []) (htrim : trim s = s) (h : ¬ HasLinkTag s) (hurl : isUrl (cutAt ' ' s).1) :
    seeMarkup s = s := by
  rw [seeMarkup_eq hne htrim h]
  simp only [hurl, if_true]
  by_cases hspace : ' ' ∈ s
  · obtain ⟨reference, description, rfl, hreference⟩ := List.eq_append_cons_of_mem hspace
    rw [cutAt_append hreference]
    -- The text does not end with the space, so a description follows.
    have hdescription : isAllBlank description = false := by
      rw [← Bool.not_eq_true]
      intro hblank
      have hall : ∀ c ∈ ' ' :: description, isBlank c := by
        simpa [isAllBlank, show isBlank ' ' = true by decide] using hblank
      have hcut := trimRight_append reference hall
      rw [trimRight_eq_self htrim] at hcut
      have hlength := length_trimRight_le reference
      rw [← hcut, List.length_append, List.length_cons] at hlength
      omega
    have hne : description.isEmpty = false := by
      cases description with
      | nil => cases hdescription
      | cons c cs => rfl
    have hlinks : ¬ HasLinkTag description := fun hlinks => h (by simpa using hlinks.append_left (reference ++ [' ']))
    simp [hne, convertLinks, hdescription, convertTags_eq_self hlinks]
  · rw [cutAt_of_not_mem hspace]
    rfl

end DocComment

end ApiCatalog
