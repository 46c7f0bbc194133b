import ApiCatalog.Proofs.Component.Blanking
import ApiCatalog.Proofs.DocComment.Links

namespace ApiCatalog

namespace Text

variable {c : Char} {a b s t w : List Char}

theorem dropPrefix?_append_tag (h : c ∉ w.tail) (hs : s ≠ []) (t : List Char) :
    dropPrefix? w (s ++ c :: t) = (dropPrefix? w s).map (· ++ c :: t) := by
  obtain ⟨d, ds, rfl⟩ := List.exists_cons_of_ne_nil hs
  cases w with
  | nil => rfl
  | cons e es =>
    rw [List.cons_append, dropPrefix?, dropPrefix?]
    split
    · exact dropPrefix?_append h ds t
    · rfl

theorem cutAtText?_eq_some (h : cutAtText? w s = some (a, b)) : s = a ++ (w ++ b) := by
  induction s generalizing a with
  | nil =>
    obtain ⟨after, hafter, heq⟩ := Option.map_eq_some_iff.mp h
    cases heq
    rw [List.nil_append]
    exact dropPrefix?_eq_some_iff.mp hafter
  | cons c cs ih =>
    rw [cutAtText?] at h
    split at h
    · case h_1 hafter =>
      cases h
      rw [List.nil_append]
      exact dropPrefix?_eq_some_iff.mp hafter
    · obtain ⟨⟨a', b'⟩, hcut, heq⟩ := Option.map_eq_some_iff.mp h
      cases heq
      rw [List.cons_append, ← ih hcut]

theorem cutAtText?_isSome (h : w <:+: s) : (cutAtText? w s).isSome := by
  obtain ⟨before, after, rfl⟩ := h
  induction before with
  | nil =>
    have hdrop : dropPrefix? w (w ++ after) = some after := dropPrefix?_eq_some_iff.mpr rfl
    rw [List.nil_append]
    cases hs : w ++ after with
    | nil => rw [hs] at hdrop; simp [cutAtText?, hdrop]
    | cons c cs => rw [hs] at hdrop; simp [cutAtText?, hdrop]
  | cons c cs ih =>
    rw [List.cons_append, List.cons_append, cutAtText?]
    split
    · rfl
    · rw [Option.isSome_map]
      exact ih

theorem cutAtText?_append (hc : c ∉ w) (hw : w ≠ []) (s t : List Char) :
    cutAtText? w (s ++ c :: t) = ((cutAtText? w s).map fun cut => (cut.1, cut.2 ++ c :: t)).or
      ((cutAtText? w (c :: t)).map fun cut => (s ++ cut.1, cut.2)) := by
  induction s with
  | nil =>
    obtain ⟨d, ds, rfl⟩ := List.exists_cons_of_ne_nil hw
    simp [cutAtText?, dropPrefix?]
  | cons d ds ih =>
    rw [List.cons_append, cutAtText?, cutAtText?, ← List.cons_append, dropPrefix?_append hc]
    cases dropPrefix? w (d :: ds) with
    | some after => rfl
    | none =>
      rw [Option.map_none, ih]
      cases cutAtText? w ds with
      | some cut => rfl
      | none => simp [Function.comp_def]

end Text

namespace Component

open Text

variable {c : Char} {k m n : Nat} {s t u v w : List Char} {name : String}

/-! Words in any case -/

def HasWord (w s : List Char) : Prop :=
  w <:+: s.map foldCase

theorem dropFolded?_eq_some_iff : dropFolded? w s = some t ↔ ∃ start, s = start ++ t ∧ start.map foldCase = w := by
  constructor
  · intro h
    induction w generalizing s with
    | nil =>
      cases h
      exact ⟨[], rfl, rfl⟩
    | cons c cs ih =>
      cases s with
      | nil => cases h
      | cons d ds =>
        rw [dropFolded?] at h
        split at h
        · case isTrue hcd =>
          obtain ⟨start, rfl, rfl⟩ := ih h
          exact ⟨d :: start, rfl, by rw [List.map_cons, hcd]⟩
        · cases h
  · rintro ⟨start, rfl, rfl⟩
    induction start with
    | nil => rfl
    | cons c cs ih =>
      rw [List.map_cons, List.cons_append, dropFolded?, if_pos rfl]
      exact ih

theorem dropFolded?_isSome_iff : (dropFolded? w s).isSome ↔ w <+: s.map foldCase := by
  constructor
  · intro h
    obtain ⟨t, ht⟩ := Option.isSome_iff_exists.mp h
    obtain ⟨start, rfl, rfl⟩ := dropFolded?_eq_some_iff.mp ht
    exact ⟨t.map foldCase, List.map_append.symm⟩
  · rintro ⟨after, h⟩
    obtain ⟨start, t, rfl, hstart, -⟩ := List.map_eq_append_iff.mp h.symm
    rw [dropFolded?_eq_some_iff.mpr ⟨start, rfl, hstart⟩]
    rfl

theorem dropFolded?_eq_none (h : ¬ HasWord w s) (hu : u <:+ s) : dropFolded? w u = none := by
  rw [← Option.not_isSome_iff_eq_none, dropFolded?_isSome_iff]
  intro hstart
  exact h (hstart.isInfix.trans (hu.map foldCase).isInfix)

theorem dropFolded?_append (h : foldCase c ∉ w) (s t : List Char) :
    dropFolded? w (s ++ c :: t) = (dropFolded? w s).map (· ++ c :: t) := by
  induction w generalizing s with
  | nil => rfl
  | cons d ds ih =>
    obtain ⟨hd, hds⟩ : foldCase c ≠ d ∧ foldCase c ∉ ds := by simpa using h
    cases s with
    | nil => simp [dropFolded?, hd.symm]
    | cons e es =>
      rw [List.cons_append, dropFolded?, dropFolded?]
      split
      · exact ih hds es
      · rfl

theorem dropFolded?_append_tag (h : foldCase c ∉ w.tail) (hs : s ≠ []) (t : List Char) :
    dropFolded? w (s ++ c :: t) = (dropFolded? w s).map (· ++ c :: t) := by
  obtain ⟨d, ds, rfl⟩ := List.exists_cons_of_ne_nil hs
  cases w with
  | nil => rfl
  | cons e es =>
    rw [List.cons_append, dropFolded?, dropFolded?]
    split
    · exact dropFolded?_append h ds t
    · rfl

theorem not_hasWord_append (hc : foldCase c ∉ w) (hs : ¬ HasWord w s) (ht : ¬ HasWord w t) : ¬ HasWord w (s ++ c :: t) := by
  have hstart (s : List Char) (h : w <+: (s ++ c :: t).map foldCase) : HasWord w s := by
    rw [← dropFolded?_isSome_iff, dropFolded?_append hc, Option.isSome_map, dropFolded?_isSome_iff] at h
    exact h.isInfix
  intro h
  induction s with
  | nil =>
    rcases List.infix_cons_iff.mp h with h | h
    · exact hs (hstart [] h)
    · exact ht h
  | cons d ds ih =>
    rcases List.infix_cons_iff.mp h with h | h
    · exact hs (hstart (d :: ds) h)
    · exact ih (fun hds => hs (List.infix_cons_iff.mpr (.inr hds))) h

theorem foldCase_of_isFiller (c : Char) (h : isFiller c) : foldCase c = c := by
  obtain rfl | rfl : c = ' ' ∨ c = '\n' := by simpa [isFiller] using h
  · rfl
  · rfl

theorem foldCase_eq_open (h : foldCase c = '<') : c = '<' := by
  unfold foldCase Char.toLower at h
  split at h
  · exact absurd h (by decide)
  · split at h
    · exact absurd h (by decide)
    · split at h
      · case isTrue hupper =>
        have hval := congrArg (fun d : Char => d.val.toNat) h
        have hle : 'A'.val.toNat ≤ c.val.toNat := UInt32.le_iff_toNat_le.mp hupper.1
        have hge : c.val.toNat ≤ 'Z'.val.toNat := UInt32.le_iff_toNat_le.mp hupper.2
        simp at hval hle hge
        omega
      · exact h

theorem Masks.not_hasWord (h : Masks s t) (hw : w.all (!isFiller ·)) (hs : ¬ HasWord w s) : ¬ HasWord w t := by
  intro ht
  exact hs (h.infix_map foldCase_of_isFiller hw ht)

/-! Closing tags -/

theorem tagEnd?_close (s : List Char) : tagEnd? ('>' :: s) = some s := by
  simp [tagEnd?, trimLeft, show isBlank '>' = false by decide]

theorem tagEnd?_append (hc : isBlank c = false) (hend : c ≠ '>') (s t : List Char) :
    tagEnd? (s ++ c :: t) = (tagEnd? s).map (· ++ c :: t) := by
  induction s with
  | nil => simp [tagEnd?, trimLeft, hc, hend]
  | cons d ds ih =>
    by_cases hd : isBlank d
    · simpa [tagEnd?, trimLeft, hd] using ih
    · by_cases hgt : d = '>'
      · rw [hgt, List.cons_append, tagEnd?_close, tagEnd?_close]
        rfl
      · simp [tagEnd?, trimLeft, hd, hgt]

theorem closingTag?_append (hname : '<' ∉ name.toList) (hs : s ≠ []) (t : List Char) :
    closingTag? name (s ++ '<' :: t) = closingTag? name s := by
  have htail : foldCase '<' ∉ ('<' :: '/' :: name.toList).tail := by
    simpa [show foldCase '<' = '<' by decide] using hname
  rw [closingTag?, closingTag?, dropFolded?_append_tag htail hs]
  cases dropFolded? ('<' :: '/' :: name.toList) s with
  | none => rfl
  | some rest =>
    simp only [Option.map_some, Option.bind_eq_bind, Option.bind_some, tagEnd?_append (show isBlank '<' = false by decide)
      (show '<' ≠ '>' by decide)]
    cases tagEnd? rest with
    | none => rfl
    | some after =>
      simp only [Option.map_some, Option.bind_some, List.length_append, Nat.add_sub_add_right]

theorem closingTag?_of_ne (hc : c ≠ '<') (s : List Char) : closingTag? name (c :: s) = none := by
  have hfold : '<' ≠ foldCase c := fun h => hc (foldCase_eq_open h.symm)
  simp [closingTag?, dropFolded?, hfold]

theorem length_tagEnd?_le (h : tagEnd? s = some t) : t.length ≤ s.length := by
  rw [tagEnd?] at h
  split at h
  · case h_1 rest hrest =>
    cases h
    have hsuffix : '>' :: t <:+ s := hrest ▸ List.dropWhile_suffix isBlank
    exact ((List.suffix_cons '>' t).trans hsuffix).length_le
  · cases h

theorem closingTag?_bounds (h : closingTag? name s = some m) : 0 < m ∧ m ≤ s.length := by
  obtain ⟨rest, hrest, h⟩ := Option.bind_eq_some_iff.mp h
  obtain ⟨after, hafter, h⟩ := Option.bind_eq_some_iff.mp h
  cases h
  obtain ⟨start, rfl, hstart⟩ := dropFolded?_eq_some_iff.mp hrest
  have hle := length_tagEnd?_le hafter
  have hlength := congrArg List.length hstart
  simp only [List.length_map, List.length_cons] at hlength
  rw [List.length_append]
  omega

section Search

variable {α : Type} {a : α} {reader : List Char → Option α}

theorem findFrom_cons (h : reader (c :: s) = none) (k : Nat) : findFrom reader k (c :: s) = findFrom reader (k + 1) s := by
  rw [findFrom, h]

theorem findFrom_eq_none (h : ∀ u, u <:+ s → reader u = none) (k : Nat) : findFrom reader k s = none := by
  induction s generalizing k with
  | nil => rw [findFrom, h [] List.suffix_rfl]; rfl
  | cons c cs ih =>
    rw [findFrom_cons (h _ List.suffix_rfl)]
    exact ih (fun u hu => h u (hu.trans (List.suffix_cons c cs))) (k + 1)

theorem findFrom_eq_some (h : findFrom reader k s = some (n, a)) :
    ∃ before after, s = before ++ after ∧ n = k + before.length ∧ reader after = some a := by
  induction s generalizing k with
  | nil =>
    obtain ⟨a, ha, heq⟩ := Option.map_eq_some_iff.mp h
    cases heq
    exact ⟨[], [], rfl, rfl, ha⟩
  | cons c cs ih =>
    cases hread : reader (c :: cs) with
    | some b =>
      rw [findFrom, hread] at h
      cases h
      exact ⟨[], c :: cs, rfl, rfl, hread⟩
    | none =>
      rw [findFrom_cons hread] at h
      obtain ⟨before, after, rfl, rfl, hafter⟩ := ih h
      exact ⟨c :: before, after, rfl, by rw [List.length_cons]; omega, hafter⟩

theorem findFrom_isSome (h : reader u = some a) (hu : u <:+ s) (k : Nat) : (findFrom reader k s).isSome := by
  induction s generalizing k with
  | nil =>
    obtain rfl := List.suffix_nil.mp hu
    simp [findFrom, h]
  | cons c cs ih =>
    cases hread : reader (c :: cs) with
    | some b => simp [findFrom, hread]
    | none =>
      rw [findFrom_cons hread]
      rcases List.suffix_cons_iff.mp hu with rfl | hu
      · rw [h] at hread
        cases hread
      · exact ih hu (k + 1)

theorem findFrom_shift (j k : Nat) (s : List Char) :
    findFrom reader (j + k) s = (findFrom reader k s).map fun found => (j + found.1, found.2) := by
  induction s generalizing k with
  | nil => simp [findFrom, Function.comp_def]
  | cons c cs ih =>
    cases hread : reader (c :: cs) with
    | some b => simp [findFrom, hread]
    | none => rw [findFrom_cons hread, findFrom_cons hread, Nat.add_assoc, ih]

theorem findFrom_append (hnil : reader [] = none) (h : ∀ u, u ≠ [] → u <:+ s → reader (u ++ t) = reader u) (k : Nat) :
    findFrom reader k (s ++ t) = (findFrom reader k s).or (findFrom reader (k + s.length) t) := by
  induction s generalizing k with
  | nil => simp [findFrom, hnil]
  | cons c cs ih =>
    have hsame := h (c :: cs) (List.cons_ne_nil c cs) List.suffix_rfl
    cases hread : reader (c :: cs) with
    | some b =>
      rw [hread, List.cons_append] at hsame
      simp [findFrom, hsame, hread]
    | none =>
      rw [hread, List.cons_append] at hsame
      rw [List.cons_append, findFrom_cons hsame, findFrom_cons hread,
        ih (fun u hne hu => h u hne (hu.trans (List.suffix_cons c cs))), List.length_cons, Nat.add_assoc, Nat.add_comm 1]

end Search

theorem findFrom_closingTag?_append (h : '<' ∉ s) (k : Nat) (t : List Char) :
    findFrom (closingTag? name) k (s ++ t) = findFrom (closingTag? name) (k + s.length) t := by
  induction s generalizing k with
  | nil => rfl
  | cons c cs ih =>
    obtain ⟨hc, hcs⟩ : '<' ≠ c ∧ '<' ∉ cs := by simpa using h
    rw [List.cons_append, findFrom_cons (closingTag?_of_ne hc.symm _), ih hcs, List.length_cons, Nat.add_assoc, Nat.add_comm 1]

theorem findClosing?_append (hname : '<' ∉ name.toList) (s t : List Char) :
    findClosing? name (s ++ '<' :: t) = (findClosing? name s).or
      ((findClosing? name ('<' :: t)).map fun found => (s.length + found.1, s.length + found.2)) := by
  have hsame : ∀ u, u ≠ [] → u <:+ s → closingTag? name (u ++ '<' :: t) = closingTag? name u :=
    fun u hu _ => closingTag?_append hname hu t
  rw [findClosing?, findFrom_append rfl hsame, Nat.zero_add, ← Nat.add_zero s.length, findFrom_shift, findClosing?, findClosing?,
    Nat.add_zero]
  cases findFrom (closingTag? name) 0 s with
  | some found => rfl
  | none => simp [Function.comp_def, Nat.add_assoc]

theorem findClosing?_bounds (h : findClosing? name s = some (k, n)) : k < n ∧ n ≤ s.length := by
  obtain ⟨⟨start, length⟩, hfind, heq⟩ := Option.map_eq_some_iff.mp h
  cases heq
  obtain ⟨before, after, rfl, rfl, hafter⟩ := findFrom_eq_some hfind
  have hbounds := closingTag?_bounds hafter
  rw [List.length_append]
  omega

theorem findClosing?_isSome (hu : u <:+ s) (h : (findClosing? name u).isSome) : (findClosing? name s).isSome := by
  rw [findClosing?, Option.isSome_map] at h ⊢
  obtain ⟨⟨n, a⟩, hfind⟩ := Option.isSome_iff_exists.mp h
  obtain ⟨before, after, rfl, -, hafter⟩ := findFrom_eq_some hfind
  exact findFrom_isSome hafter ((List.suffix_append before after).trans hu) 0

/-! Comments -/

theorem comment?_of_ne (hc : c ≠ '<') (s : List Char) : comment? (c :: s) = none := by
  simp [comment?, dropPrefix?, hc.symm]

theorem comment?_eq_some_iff : comment? s = some m ↔ ∃ rest cut, s = "<!--".toList ++ rest ∧
    cutAtText? "-->".toList rest = some cut ∧ s.length - cut.2.length = m := by
  constructor
  · intro h
    obtain ⟨rest, hrest, h⟩ := Option.bind_eq_some_iff.mp h
    obtain ⟨cut, hcut, h⟩ := Option.bind_eq_some_iff.mp h
    exact ⟨rest, cut, dropPrefix?_eq_some_iff.mp hrest, hcut, Option.some.inj h⟩
  · rintro ⟨rest, cut, hs, hcut, hm⟩
    rw [comment?, dropPrefix?_eq_some_iff.mpr hs, Option.bind_eq_bind, Option.bind_some, hcut]
    exact congrArg some hm

theorem comment?_pos (h : comment? s = some m) : 0 < m := by
  obtain ⟨rest, cut, rfl, hcut, rfl⟩ := comment?_eq_some_iff.mp h
  have hrest := congrArg List.length (cutAtText?_eq_some hcut)
  have hopen : "<!--".toList.length = 4 := by decide
  simp only [List.length_append] at hrest ⊢
  omega

theorem cutAtText?_close (s t : List Char) : cutAtText? "-->".toList (s ++ '<' :: t) =
    ((cutAtText? "-->".toList s).map fun cut => (cut.1, cut.2 ++ '<' :: t)).or
      ((cutAtText? "-->".toList ('<' :: t)).map fun cut => (s ++ cut.1, cut.2)) :=
  cutAtText?_append (by decide) (by decide) s t

theorem keepsElements_comment (t : List Char) : KeepsElements comment? ('<' :: t) := by
  intro u m h
  obtain ⟨rest, cut, rfl, hcut, rfl⟩ := comment?_eq_some_iff.mp h
  refine ⟨comment?_eq_some_iff.mpr ⟨rest ++ '<' :: t, (cut.1, cut.2 ++ '<' :: t), ?_, ?_, ?_⟩, Nat.sub_le _ _⟩
  · rw [List.append_assoc]
  · rw [cutAtText?_close, hcut]
    rfl
  · simp only [List.length_append, Nat.add_sub_add_right]

theorem comment?_over (hs : s ≠ []) (hnone : comment? s = none) (h : comment? (s ++ '<' :: t) = some m) :
    "<!--".toList <+: s ∧ "-->".toList <:+: '<' :: t ∧ s.length < m := by
  obtain ⟨rest, cut, hrest, hcut, rfl⟩ := comment?_eq_some_iff.mp h
  have hdrop := dropPrefix?_append_tag (c := '<') (w := "<!--".toList) (by decide) hs t
  rw [dropPrefix?_eq_some_iff.mpr hrest] at hdrop
  obtain ⟨rest, hstart, rfl⟩ := Option.map_eq_some_iff.mp hdrop.symm
  obtain rfl := dropPrefix?_eq_some_iff.mp hstart
  have hopen : cutAtText? "-->".toList rest = none := by
    cases hclosed : cutAtText? "-->".toList rest with
    | none => rfl
    | some cut =>
      rw [comment?_eq_some_iff.mpr ⟨rest, cut, rfl, hclosed, rfl⟩] at hnone
      cases hnone
  rw [cutAtText?_close, hopen, Option.map_none, Option.none_or] at hcut
  obtain ⟨⟨before, after⟩, hafter, rfl⟩ := Option.map_eq_some_iff.mp hcut
  have hclose := cutAtText?_eq_some hafter
  refine ⟨List.prefix_append _ _, ⟨before, after, by rw [hclose, List.append_assoc]⟩, ?_⟩
  rw [hclose]
  simp only [List.length_append]
  have hlength : "-->".toList.length = 3 := by decide
  omega

theorem exists_comment?_over (hs : "<!--".toList <+: s) (ht : "-->".toList <:+: '<' :: t) :
    ∃ m, comment? (s ++ '<' :: t) = some m := by
  obtain ⟨rest, rfl⟩ := hs
  have hclose : "-->".toList <:+: rest ++ '<' :: t := ht.trans (List.suffix_append rest _).isInfix
  obtain ⟨cut, hcut⟩ := Option.isSome_iff_exists.mp (cutAtText?_isSome hclose)
  exact ⟨_, comment?_eq_some_iff.mpr ⟨_, cut, List.append_assoc _ _ _, hcut, rfl⟩⟩

def LeavesComment (s : List Char) : Prop :=
  "<!--".toList <:+: blankOut comment? s

theorem leavesComment_iff :
    LeavesComment s ↔ ∃ u, Visits comment? 0 s u ∧ "<!--".toList <+: u ∧ comment? u = none := by
  constructor
  · rintro ⟨before, after, h⟩
    have hfiller : ¬ isFiller '<' := by decide
    have hleft : blankAfter comment? 0 s = before ++ '<' :: ("!--".toList ++ after) := by
      rw [← blankOut, ← h, List.append_assoc]
      rfl
    obtain ⟨v, hvisit, hpass, hv⟩ := exists_visits hfiller hleft
    refine ⟨'<' :: v, hvisit, ?_, ?_⟩
    · have hstart : "!--".toList <+: (blankOut comment? v).map id := by
        rw [List.map_id, hv]
        exact List.prefix_append _ _
      have hstart := (masks_blankAfter comment? 0 v).prefix_map (f := id) (fun c _ => rfl) (by decide) hstart
      rw [List.map_id] at hstart
      exact List.cons_prefix_cons.mpr ⟨rfl, hstart⟩
    · cases hread : comment? ('<' :: v) with
      | none => rfl
      | some m =>
        have hpos := comment?_pos hread
        exact absurd hread (by rw [← Nat.sub_add_cancel hpos]; exact hpass (m - 1))
  · rintro ⟨u, hvisit, ⟨rest, rfl⟩, hnone⟩
    have hkept : blankOut comment? ("<!--".toList ++ rest) = "<!--".toList ++ blankOut comment? rest :=
      blankOut_keep (s := "!--".toList) (fun c s hc => comment?_of_ne hc s) hnone (by decide)
    have hsuffix := hvisit.blankOut_suffix
    rw [hkept] at hsuffix
    exact (List.prefix_append _ _).isInfix.trans hsuffix.isInfix

/-! Styles -/

def OpensStyle (s : List Char) : Prop :=
  ∃ c rest, dropFolded? "<style".toList s = some (c :: rest) ∧ (c = '>' ∨ isBlank c)

theorem styleTag?_eq_some_iff : styleTag? s = some t ↔ dropFolded? "<style".toList s = some ('>' :: t) ∨
    ∃ c rest attributes, dropFolded? "<style".toList s = some (c :: rest) ∧ isBlank c ∧
      cutAt? '>' rest = some (attributes, t) := by
  have hblank : isBlank '>' = false := by decide
  rw [styleTag?]
  cases dropFolded? "<style".toList s with
  | none => simp
  | some rest =>
    simp only [Option.bind_eq_bind, Option.bind_some]
    split
    · simp +contextual [hblank]
    · case h_2 c more hc =>
      replace hc : c ≠ '>' := hc
      by_cases hb : isBlank c
      · simp [hb, hc]
      · simp [hb, hc]
    · simp

theorem opensStyle_of_styleTag? (h : styleTag? s = some t) : OpensStyle s := by
  rcases styleTag?_eq_some_iff.mp h with hend | ⟨c, rest, attributes, hrest, hblank, -⟩
  · exact ⟨'>', t, hend, .inl rfl⟩
  · exact ⟨c, rest, hrest, .inr hblank⟩

theorem styleTag?_append (hs : s ≠ []) (h : styleTag? s = some u) (t : List Char) :
    styleTag? (s ++ '<' :: t) = some (u ++ '<' :: t) := by
  have hdrop := dropFolded?_append_tag (c := '<') (w := "<style".toList) (by decide) hs t
  apply styleTag?_eq_some_iff.mpr
  rcases styleTag?_eq_some_iff.mp h with hend | ⟨c, rest, attributes, hrest, hblank, hcut⟩
  · rw [hend] at hdrop
    exact .inl hdrop
  · rw [hrest] at hdrop
    obtain ⟨rfl, hattributes⟩ := cutAt?_eq_some_iff.mp hcut
    refine .inr ⟨c, _, attributes, hdrop, hblank, ?_⟩
    exact cutAt?_eq_some_iff.mpr ⟨List.append_assoc _ _ _, hattributes⟩

theorem styleTag?_over (hs : s ≠ []) (hnone : styleTag? s = none) (h : styleTag? (s ++ '<' :: t) = some u) :
    OpensStyle s ∧ u <:+ '<' :: t := by
  have hdrop := dropFolded?_append_tag (c := '<') (w := "<style".toList) (by decide) hs t
  rcases styleTag?_eq_some_iff.mp h with hend | ⟨c, rest, attributes, hrest, hblank, hcut⟩
  · rw [hend] at hdrop
    obtain ⟨rest, hrest, heq⟩ := Option.map_eq_some_iff.mp hdrop.symm
    cases rest with
    | nil => cases heq
    | cons c rest =>
      obtain ⟨rfl, -⟩ := List.cons.inj heq
      rw [styleTag?_eq_some_iff.mpr (.inl hrest)] at hnone
      cases hnone
  · rw [hrest] at hdrop
    obtain ⟨start, hstart, heq⟩ := Option.map_eq_some_iff.mp hdrop.symm
    cases start with
    | nil =>
      obtain ⟨rfl, -⟩ := List.cons.inj heq
      exact absurd hblank (by decide)
    | cons d more =>
      obtain ⟨rfl, rfl⟩ := List.cons.inj heq
      refine ⟨⟨d, more, hstart, .inr hblank⟩, ?_⟩
      have hmore : '>' ∉ more := by
        intro hmem
        obtain ⟨before, after, rfl, hbefore⟩ := List.eq_append_cons_of_mem hmem
        rw [styleTag?_eq_some_iff.mpr (.inr ⟨d, _, before, hstart, hblank, cutAt?_append hbefore after⟩)] at hnone
        cases hnone
      obtain ⟨hsplit, -⟩ := cutAt?_eq_some_iff.mp hcut
      rcases List.append_eq_append_iff.mp hsplit with ⟨before, -, hafter⟩ | ⟨before, rfl, hafter⟩
      · rw [hafter]
        exact (List.suffix_cons '>' u).trans (List.suffix_append before _)
      · cases before with
        | nil => exact absurd (List.cons.inj hafter).1 (by decide)
        | cons e es =>
          obtain ⟨rfl, -⟩ := List.cons.inj hafter
          simp at hmore

theorem styleElement?_of_ne (hc : c ≠ '<') (s : List Char) : styleElement? (c :: s) = none := by
  have hfold : '<' ≠ foldCase c := fun h => hc (foldCase_eq_open h.symm)
  simp [styleElement?, styleTag?, dropFolded?, hfold]

theorem styleElement?_eq_some_iff : styleElement? s = some m ↔ ∃ rest found, styleTag? s = some rest ∧
    findClosing? "style" rest = some found ∧ s.length - rest.length + found.2 = m := by
  constructor
  · intro h
    obtain ⟨rest, hrest, h⟩ := Option.bind_eq_some_iff.mp h
    obtain ⟨found, hfound, h⟩ := Option.bind_eq_some_iff.mp h
    exact ⟨rest, found, hrest, hfound, Option.some.inj h⟩
  · rintro ⟨rest, found, hrest, hfound, hm⟩
    rw [styleElement?, hrest, Option.bind_eq_bind, Option.bind_some, hfound]
    exact congrArg some hm

theorem length_styleTag?_le (h : styleTag? s = some t) : t.length ≤ s.length := by
  rcases styleTag?_eq_some_iff.mp h with hend | ⟨c, rest, attributes, hrest, -, hcut⟩
  · obtain ⟨start, rfl, -⟩ := dropFolded?_eq_some_iff.mp hend
    simp only [List.length_append, List.length_cons]
    omega
  · obtain ⟨start, rfl, -⟩ := dropFolded?_eq_some_iff.mp hrest
    obtain ⟨rfl, -⟩ := cutAt?_eq_some_iff.mp hcut
    simp only [List.length_append, List.length_cons]
    omega

theorem keepsElements_style (t : List Char) : KeepsElements styleElement? ('<' :: t) := by
  intro u m h
  obtain ⟨rest, found, hrest, hfound, rfl⟩ := styleElement?_eq_some_iff.mp h
  have hu : u ≠ [] := by
    rintro rfl
    cases hrest
  have hle := length_styleTag?_le hrest
  obtain ⟨-, hfinish⟩ := findClosing?_bounds hfound
  refine ⟨styleElement?_eq_some_iff.mpr ⟨rest ++ '<' :: t, found, styleTag?_append hu hrest t, ?_, ?_⟩, by omega⟩
  · rw [findClosing?_append (by decide), hfound, Option.some_or]
  · simp only [List.length_append, Nat.add_sub_add_right]

theorem styleElement?_over (hs : s ≠ []) (hnone : styleElement? s = none) (h : styleElement? (s ++ '<' :: t) = some m) :
    OpensStyle s ∧ (findClosing? "style" ('<' :: t)).isSome ∧ s.length < m := by
  obtain ⟨rest, found, hrest, hfound, rfl⟩ := styleElement?_eq_some_iff.mp h
  have hsome : (findClosing? "style" rest).isSome := by rw [hfound]; rfl
  cases htag : styleTag? s with
  | none =>
    obtain ⟨hopens, hsuffix⟩ := styleTag?_over hs htag hrest
    refine ⟨hopens, findClosing?_isSome hsuffix hsome, ?_⟩
    have hle := hsuffix.length_le
    have hbounds := findClosing?_bounds hfound
    rw [List.length_append]
    omega
  | some inside =>
    rw [styleTag?_append hs htag t] at hrest
    cases hrest
    have hopen : findClosing? "style" inside = none := by
      cases hclosed : findClosing? "style" inside with
      | none => rfl
      | some found =>
        rw [styleElement?_eq_some_iff.mpr ⟨inside, found, htag, hclosed, rfl⟩] at hnone
        cases hnone
    rw [findClosing?_append (by decide), hopen, Option.none_or] at hfound
    obtain ⟨⟨start, finish⟩, hafter, rfl⟩ := Option.map_eq_some_iff.mp hfound
    refine ⟨opensStyle_of_styleTag? htag, by rw [hafter]; rfl, ?_⟩
    have hle := length_styleTag?_le htag
    have hbounds := findClosing?_bounds hafter
    simp only [List.length_append]
    omega

theorem exists_styleElement?_over (hs : OpensStyle s) (hv : '>' ∉ v) (ht : (findClosing? "style" t).isSome) :
    ∃ m, styleElement? (s ++ '<' :: (v ++ '>' :: t)) = some m := by
  obtain ⟨c, rest, hrest, hc⟩ := hs
  have hne : s ≠ [] := by
    rintro rfl
    cases hrest
  have hdrop := dropFolded?_append_tag (c := '<') (w := "<style".toList) (by decide) hne (v ++ '>' :: t)
  rw [hrest, Option.map_some, List.cons_append] at hdrop
  have htail (before : List Char) : t <:+ before ++ '<' :: (v ++ '>' :: t) :=
    ⟨before ++ '<' :: (v ++ ['>']), by simp⟩
  obtain ⟨inside, htag, hinside⟩ : ∃ inside, styleTag? (s ++ '<' :: (v ++ '>' :: t)) = some inside ∧ t <:+ inside := by
    rcases hc with rfl | hblank
    · exact ⟨_, styleTag?_eq_some_iff.mpr (.inl hdrop), htail rest⟩
    · by_cases hmem : '>' ∈ rest
      · obtain ⟨attributes, after, rfl, hattributes⟩ := List.eq_append_cons_of_mem hmem
        refine ⟨after ++ '<' :: (v ++ '>' :: t), ?_, htail after⟩
        exact styleTag?_eq_some_iff.mpr (.inr ⟨c, _, attributes, hdrop, hblank,
          cutAt?_eq_some_iff.mpr ⟨List.append_assoc _ _ _, hattributes⟩⟩)
      · -- The tag ends only after the first part.
        refine ⟨t, ?_, List.suffix_rfl⟩
        exact styleTag?_eq_some_iff.mpr (.inr ⟨c, _, rest ++ '<' :: v, hdrop, hblank,
          cutAt?_eq_some_iff.mpr ⟨by simp, by simp [hmem, hv]⟩⟩)
  obtain ⟨found, hfound⟩ := Option.isSome_iff_exists.mp (findClosing?_isSome hinside ht)
  exact ⟨_, styleElement?_eq_some_iff.mpr ⟨inside, found, htag, hfound, rfl⟩⟩

/-- A style is opened in a text and not closed in it: its tag is one of the places where the scan for styles looks. -/
def LeavesStyle (s : List Char) : Prop :=
  ∃ u, Visits styleElement? 0 s u ∧ OpensStyle u ∧ styleElement? u = none

end Component

end ApiCatalog
