import Mathlib.Data.List.Chain
import Mathlib.Data.List.Infix
import ApiCatalog.Proofs.DocComment.Links

namespace ApiCatalog.DocComment

open Text

variable {s opening after inner rest line : List Char} {ls : List (List Char)}

/-! One step of the conversion -/

theorem linkTag?_eq_some (h : linkTag? s = some (opening, after)) : s = opening ++ after := by
  unfold linkTag? at h
  split at h
  · obtain ⟨w, _, hw⟩ := List.exists_of_findSome?_eq_some h
    obtain ⟨rest, hrest, hends⟩ := Option.bind_eq_some_iff.mp hw
    split at hends
    · cases hends
      rw [dropPrefix?_eq_some_iff.mp hrest]
      rfl
    · cases hends
  · cases h

/-! Lines -/

theorem linkTag?_break (t : List Char) : linkTag? ('\n' :: t) = none :=
  linkTag?_of_ne (by simp)

theorem closeTag?_eq_some_iff :
    closeTag? s = some (inner, rest) ↔ s = inner ++ '}' :: rest ∧ '}' ∉ inner ∧ '\n' ∉ inner := by
  constructor
  · intro h
    obtain ⟨⟨i, after⟩, hcut, heq⟩ := Option.map_eq_some_iff.mp h
    cases heq
    obtain ⟨hline, hinner⟩ := cutAt?_eq_some_iff.mp hcut
    have hbreak : '\n' ∉ s.takeWhile (· != '\n') := by
      intro hmem
      simpa using List.mem_takeWhile_imp hmem
    have hstart : s.takeWhile (· != '\n') <+: s := List.takeWhile_prefix _
    have hsplit := List.prefix_iff_eq_append.mp hstart
    rw [hline] at hbreak
    refine ⟨?_, hinner, fun hmem => hbreak (List.mem_append_left _ hmem)⟩
    nth_rewrite 1 [← hsplit]
    rw [hline, List.append_assoc, List.cons_append]
  · rintro ⟨rfl, hbrace, hbreak⟩
    have hline : (inner ++ '}' :: rest).takeWhile (· != '\n') = inner ++ '}' :: rest.takeWhile (· != '\n') := by
      rw [List.takeWhile_append_of_pos]
      · rfl
      · intro c hc
        simpa using fun heq : c = '\n' => hbreak (heq ▸ hc)
    have hstart : rest.takeWhile (· != '\n') <+: rest := List.takeWhile_prefix _
    have hrest := List.prefix_iff_eq_append.mp hstart
    simp [closeTag?, hline, cutAt?_append hbrace, List.drop_length_add_append, hrest]

theorem closeTag?_break (h : '\n' ∉ s) (t : List Char) :
    closeTag? (s ++ '\n' :: t) = (closeTag? s).map fun found => (found.1, found.2 ++ '\n' :: t) := by
  cases hs : closeTag? s with
  | some found =>
    obtain ⟨rfl, hbrace, hbreak⟩ := closeTag?_eq_some_iff.mp hs
    exact closeTag?_eq_some_iff.mpr ⟨by simp, hbrace, hbreak⟩
  | none =>
    apply Option.eq_none_iff_forall_ne_some.mpr
    rintro ⟨inner, rest⟩ hsome
    obtain ⟨heq, hbrace, hbreak⟩ := closeTag?_eq_some_iff.mp hsome
    rcases List.append_eq_append_iff.mp heq with ⟨u, rfl, hu⟩ | ⟨u, rfl, hu⟩
    · cases u <;> simp_all
    · cases u with
      | nil => simp at hu
      | cons c u =>
        obtain ⟨rfl, rfl⟩ : '}' = c ∧ rest = u ++ '\n' :: t := by simpa using hu
        rw [closeTag?_eq_some_iff.mpr ⟨rfl, hbrace, hbreak⟩] at hs
        cases hs

theorem convertTags_closed (h : linkTag? s = some (opening, after)) (hclose : closeTag? after = some (inner, rest)) :
    convertTags s = renderTag opening inner ++ convertTags rest := by
  rw [convertTags]
  split
  · case h_1 opening' after' hsome =>
    rw [h] at hsome
    cases hsome
    split
    · case h_1 hsome =>
      rw [hclose] at hsome
      cases hsome
      rfl
    · case h_2 hnone =>
      rw [hclose] at hnone
      cases hnone
  · case h_2 hnone =>
    rw [h] at hnone
    cases hnone

theorem convertTags_open (h : linkTag? s = some (opening, line ++ rest)) (hclose : closeTag? (line ++ rest) = none)
    (hline : '\n' ∉ line) (hrest : ∀ c ∈ rest.head?, c = '\n') :
    convertTags s = inCode (trimRight (opening ++ line)) ++ convertTags rest := by
  have hinside : ∀ c ∈ line, (c != '\n') = true := by
    intro c hc
    simpa using fun heq : c = '\n' => hline (heq ▸ hc)
  have htake : (line ++ rest).takeWhile (· != '\n') = line := by
    rw [List.takeWhile_append_of_pos hinside]
    cases rest with
    | nil => simp
    | cons c cs => simp [hrest c rfl]
  have hdrop : (line ++ rest).dropWhile (· != '\n') = rest := by
    rw [List.dropWhile_append_of_pos hinside]
    cases rest with
    | nil => rfl
    | cons c cs => simp [hrest c rfl]
  rw [convertTags]
  split
  · case h_1 opening' after' hsome =>
    rw [h] at hsome
    cases hsome
    split
    · case h_1 hsome =>
      rw [hclose] at hsome
      cases hsome
    · simp only [htake, hdrop]
  · case h_2 hnone =>
    rw [h] at hnone
    cases hnone

theorem convertTags_break (t : List Char) : convertTags ('\n' :: t) = '\n' :: convertTags t :=
  convertTags_of_none (linkTag?_break t)

theorem convertTags_lines (h : '\n' ∉ s) (t : List Char) :
    convertTags (s ++ '\n' :: t) = convertTags s ++ '\n' :: convertTags t := by
  induction hlength : s.length using Nat.strong_induction_on generalizing s with
  | _ n ih =>
    cases s with
    | nil => rw [List.nil_append, convertTags_break, convertTags_nil, List.nil_append]
    | cons c cs =>
      have happend := linkTag?_append (d := '\n') (by decide) (by decide) (List.cons_ne_nil c cs) t
      cases htag : linkTag? (c :: cs) with
      | none =>
        rw [htag, List.cons_append] at happend
        have hcs : '\n' ∉ cs := fun hmem => h (List.mem_cons_of_mem c hmem)
        rw [convertTags_of_none htag, List.cons_append, convertTags_of_none happend,
          ih cs.length (by simp [← hlength]) hcs rfl, List.cons_append]
      | some found =>
        obtain ⟨opening, after⟩ := found
        rw [htag] at happend
        have hafter : '\n' ∉ after := by
          rw [linkTag?_eq_some htag] at h
          exact fun hmem => h (List.mem_append_right opening hmem)
        have hclose := closeTag?_break hafter t
        cases hs : closeTag? after with
        | some found =>
          obtain ⟨inner, rest⟩ := found
          rw [hs] at hclose
          have hrest : '\n' ∉ rest := by
            rw [(closeTag?_eq_some_iff.mp hs).1] at hafter
            exact fun hmem => hafter (by simp [hmem])
          have hshorter : rest.length < n := by
            rw [← hlength]
            exact (length_of_closeTag? hs).trans (length_of_linkTag? htag)
          rw [convertTags_closed htag hs, convertTags_closed happend hclose, ih rest.length hshorter hrest rfl,
            List.append_assoc]
        | none =>
          rw [hs] at hclose
          have hline : convertTags (c :: cs) = inCode (trimRight (opening ++ after)) ++ convertTags [] :=
            convertTags_open (by simpa using htag) (by simpa using hs) hafter (by simp)
          rw [hline, convertTags_open happend hclose hafter (by simp), convertTags_break, convertTags_nil,
            List.append_nil]

theorem convertLinks_of_line (h : isAllBlank s → s = []) : convertLinks s = convertTags s := by
  rw [convertLinks]
  split
  · case isTrue hblank => rw [h hblank, convertTags_nil]
  · rfl

theorem convertTags_unlines (h : ∀ l ∈ ls, '\n' ∉ l) : convertTags (unlines ls) = unlines (ls.map convertTags) := by
  induction ls with
  | nil => exact convertTags_nil
  | cons l rest ih =>
    obtain ⟨hl, hrest⟩ := List.forall_mem_cons.mp h
    by_cases hnil : rest = []
    · simp [hnil, unlines]
    · rw [unlines_cons l hnil, convertTags_lines hl, ih hrest, List.map_cons, unlines_cons _ (by simpa using hnil)]

theorem convertLinks_by_line :
    (∀ ls, CleanLines ls → convertLinks (unlines ls) = unlines (ls.map convertLinks)) ∧
      ∀ raw s, clean? raw = some s → CleanLines (lines s) := by
  refine ⟨?_, fun raw s h => cleanLines_of_clean? h⟩
  intro ls h
  have hlines : ls.map convertLinks = ls.map convertTags :=
    List.map_congr_left fun l hl => convertLinks_of_line (h.empty l hl)
  have htext : ¬ isAllBlank (unlines ls) := by
    obtain ⟨l, hl, hblank⟩ := h.text
    intro hall
    apply hblank
    simp only [isAllBlank, List.all_eq_true] at hall ⊢
    exact fun c hc => hall c (mem_unlines hl hc)
  rw [hlines, convertLinks, if_neg htext, convertTags_unlines h.noBreak]

def brokenLines : List (List Char) :=
  ["a \x7b@link b".toList, [], "\x7b@see \x7d \x7b@link \x7b@link c|d\x7d e\x7d".toList]

theorem convertLinks_by_line_brokenLines :
    CleanLines brokenLines ∧ convertLinks (unlines brokenLines) = unlines (brokenLines.map convertLinks) := by
  have hclean : clean? "/** a \x7b@link b\n *\n * \x7b@see \x7d \x7b@link \x7b@link c|d\x7d e\x7d */".toList =
      some (unlines brokenLines) := by decide
  have hlines : CleanLines brokenLines := convertLinks_by_line.2 _ _ hclean
  exact ⟨hlines, convertLinks_by_line.1 _ hlines⟩

/-! Segments -/

inductive Label where
  | none
  | bar (s : List Char)
  | space (s : List Char)

namespace Label

def text? : Label → Option (List Char)
  | none => Option.none
  | bar s => some s
  | space s => some s

def written : Label → List Char
  | none => []
  | bar s => '|' :: s
  | space s => ' ' :: s

def Sound : Label → Prop
  | none => True
  | bar s => ¬ isAllBlank s ∧ '}' ∉ s ∧ '\n' ∉ s
  | space s => ¬ isAllBlank s ∧ '}' ∉ s ∧ '\n' ∉ s ∧ '|' ∉ s

end Label

inductive Segment where
  | plain (s : List Char)
  | tag (word target : List Char) (label : Label)

def IsTarget (s : List Char) : Prop :=
  s ≠ [] ∧ ∀ c ∈ s, ¬ isBlank c ∧ c ≠ '|' ∧ c ≠ '}'

def isWebAddress (s : List Char) : Bool :=
  ["http://".toList, "https://".toList].any fun scheme => scheme.isPrefixOf s && s != scheme

namespace Segment

def written : Segment → List Char
  | plain s => s
  | tag word target label => '{' :: '@' :: (word ++ ' ' :: (target ++ label.written ++ ['}']))

def Sound : Segment → Prop
  | plain s => ¬ HasLinkTag s
  | tag word target label => word ∈ linkWords ∧ IsTarget target ∧ label.Sound

def shown : Segment → List Char
  | plain s => s
  | tag _ target label =>
    if isWebAddress target then
      match label.text? with
      | some s => "[".toList ++ trim s ++ "](".toList ++ target ++ ")".toList
      | none => target
    else "`".toList ++ (label.text?.map trim).getD target ++ "`".toList

def isPlain : Segment → Bool
  | plain _ => true
  | tag _ _ _ => false

end Segment

theorem isUrl_eq (h : ∀ c ∈ s, ¬ isBlank c) : isUrl s = isWebAddress s := by
  have haddress {scheme address : List Char} (hs : s = scheme ++ address) :
      (!(if address.getLast? = some '\n' then address.dropLast else address).isEmpty &&
        (if address.getLast? = some '\n' then address.dropLast else address).all fun c => !isBlank c) =
          !address.isEmpty := by
    have hall : ∀ c ∈ address, ¬ isBlank c := fun c hc => h c (by simp [hs, hc])
    have hlast : address.getLast? ≠ some '\n' := fun hlast => hall _ (List.mem_of_getLast? hlast) (by decide)
    have hplain : (address.all fun c => !isBlank c) = true := by simpa using hall
    rw [if_neg hlast, hplain, Bool.and_true]
  unfold isUrl
  cases hhttp : dropPrefix? "http://".toList s with
  | some address =>
    have hs := dropPrefix?_eq_some_iff.mp hhttp
    change (!(if address.getLast? = some '\n' then address.dropLast else address).isEmpty && _) = _
    rw [haddress hs, hs]
    cases address <;> simp [isWebAddress]
  | none =>
    cases hhttps : dropPrefix? "https://".toList s with
    | some address =>
      have hs := dropPrefix?_eq_some_iff.mp hhttps
      change (!(if address.getLast? = some '\n' then address.dropLast else address).isEmpty && _) = _
      rw [haddress hs, hs]
      cases address <;> simp [isWebAddress]
    | none =>
      change false = _
      have hnot {scheme : List Char} (hscheme : dropPrefix? scheme s = none) : scheme.isPrefixOf s = false := by
        rw [← Bool.not_eq_true, List.isPrefixOf_iff_prefix, ← dropPrefix?_isSome_iff, hscheme]
        simp
      rw [isWebAddress, List.any_cons, List.any_cons, hnot hhttp, hnot hhttps]
      rfl

theorem linkTag?_word {w : List Char} (hw : w ∈ linkWords) (t : List Char) :
    linkTag? ('{' :: '@' :: (w ++ ' ' :: t)) = some ('{' :: '@' :: w, ' ' :: t) := by
  have hspace : isWordChar ' ' = false := by decide
  have hword : isWordChar 'c' = true ∧ isWordChar 'p' = true := by decide
  simp only [linkWords, List.mem_cons, List.not_mem_nil, or_false] at hw
  rcases hw with rfl | rfl | rfl | rfl
  · simp [linkTag?, linkWords, dropPrefix?, endsWord, hspace]
  · simp [linkTag?, linkWords, dropPrefix?, endsWord, hspace, hword]
  · simp [linkTag?, linkWords, dropPrefix?, endsWord, hspace, hword]
  · simp [linkTag?, linkWords, dropPrefix?, endsWord, hspace]

theorem nonempty?_trim (h : ¬ isAllBlank s) : nonempty? (trim s) = some (trim s) := by
  cases htrim : trim s with
  | nil =>
    obtain ⟨l, r, hs, hl, hr⟩ := trim_blank s
    rw [htrim, List.append_nil] at hs
    refine absurd ?_ h
    rw [hs, isAllBlank, List.all_append, List.all_eq_true.mpr hl, List.all_eq_true.mpr hr]
    rfl
  | cons c cs => rfl

section Tag

variable {word target : List Char} {label : Label}

theorem IsTarget.trim_eq (h : IsTarget target) : trim target = target := by
  obtain ⟨hne, hchars⟩ := h
  apply trim_eq_self
  · obtain ⟨c, cs, rfl⟩ := List.exists_cons_of_ne_nil hne
    simp [trimLeft, (hchars c List.mem_cons_self).1]
  · exact trimRight_of_getLast? fun c hc => (hchars c (List.mem_of_getLast? hc)).1

theorem trim_body (htarget : IsTarget target) (s : List Char) : trim (' ' :: (target ++ s)) = trimRight (target ++ s) := by
  have hspace : ∀ c ∈ [' '], isBlank c := List.forall_mem_singleton.mpr (by decide)
  have hleft := trimLeft_append_of_ne_nil (trimLeft_eq_self htarget.trim_eq) htarget.1 s
  rw [← List.singleton_append, trim, trimLeft_append hspace, hleft]

theorem splitTarget_bar (h : '|' ∉ target) (s : List Char) : splitTarget (target ++ '|' :: s) = (trim target, nonempty? (trim s)) := by
  rw [splitTarget, cutAt?_append h]

theorem splitTarget_blank (h : '|' ∉ target ++ s) (htarget : ∀ c ∈ target, ¬ isBlank c) (hs : ∀ c ∈ s.head?, isBlank c) :
    splitTarget (target ++ s) = (target, nonempty? (trim s)) := by
  have htake : (target ++ s).takeWhile (fun c => !isBlank c) = target := by
    rw [List.takeWhile_append_of_pos (by simpa using htarget)]
    cases s with
    | nil => simp
    | cons c cs => simp [hs c rfl]
  rw [splitTarget, cutAt?_of_not_mem h]
  simp [htake]

theorem splitTarget_written (htarget : IsTarget target) (hlabel : label.Sound) :
    splitTarget (trim (' ' :: (target ++ label.written))) = (target, label.text?.map trim) := by
  have hbar : '|' ∉ target := fun hmem => (htarget.2 _ hmem).2.1 rfl
  have hword : ∀ c ∈ target, ¬ isBlank c := fun c hc => (htarget.2 c hc).1
  rw [trim_body htarget]
  cases label with
  | none =>
    have hright : trimRight (target ++ Label.none.written) = target ++ [] := by
      simpa [Label.written] using trimRight_eq_self htarget.trim_eq
    rw [hright, splitTarget_blank (by simpa using hbar) hword (by simp)]
    rfl
  | bar s =>
    obtain ⟨htext, -⟩ := hlabel
    have hright : trimRight (target ++ (Label.bar s).written) = target ++ '|' :: trimRight s := by
      simpa [Label.written] using trimRight_append_text htext (target ++ ['|'])
    rw [hright, splitTarget_bar hbar, htarget.trim_eq, trim_trimRight, nonempty?_trim htext]
    rfl
  | space s =>
    obtain ⟨htext, -, -, hlabel⟩ := hlabel
    have hright : trimRight (target ++ (Label.space s).written) = target ++ ' ' :: trimRight s := by
      simpa [Label.written] using trimRight_append_text htext (target ++ [' '])
    have hnone : '|' ∉ target ++ ' ' :: trimRight s := by
      have hs : '|' ∉ trimRight s := fun hmem => hlabel ((trimRight_prefix_self s).subset hmem)
      simp [hbar, hs]
    have htrim : trim (' ' :: trimRight s) = trim s := by
      have hpad := trim_pad (l := [' ']) (List.forall_mem_singleton.mpr (by decide)) (trimRight s) (r := []) (by simp)
      rw [← trim_trimRight s, ← hpad, List.append_nil, List.singleton_append]
    rw [hright, splitTarget_blank hnone hword (by simp; decide), htrim, nonempty?_trim htext]
    rfl

theorem not_mem_body (htarget : IsTarget target) (hlabel : label.Sound) :
    '}' ∉ target ++ label.written ∧ '\n' ∉ target ++ label.written := by
  have hbrace : '}' ∉ target := fun hmem => (htarget.2 _ hmem).2.2 rfl
  have hbreak : '\n' ∉ target := fun hmem => (htarget.2 _ hmem).1 (by decide)
  cases label with
  | none => simpa [Label.written] using ⟨hbrace, hbreak⟩
  | bar s =>
    obtain ⟨-, hs⟩ := hlabel
    simp [Label.written, hbrace, hbreak, hs]
  | space s =>
    obtain ⟨-, hs⟩ := hlabel
    simp [Label.written, hbrace, hbreak, hs]

theorem convertTags_tag (h : (Segment.tag word target label).Sound) (t : List Char) :
    convertTags ((Segment.tag word target label).written ++ t) = (Segment.tag word target label).shown ++ convertTags t := by
  obtain ⟨hword, htarget, hlabel⟩ := h
  have hshape : (Segment.tag word target label).written ++ t =
      '{' :: '@' :: (word ++ ' ' :: (target ++ label.written ++ '}' :: t)) := by simp [Segment.written]
  have hclose : closeTag? (' ' :: (target ++ label.written ++ '}' :: t)) = some (' ' :: (target ++ label.written), t) := by
    obtain ⟨hbrace, hbreak⟩ := not_mem_body htarget hlabel
    exact closeTag?_eq_some_iff.mpr ⟨rfl, List.not_mem_cons_of_ne_of_not_mem (by decide) hbrace,
      List.not_mem_cons_of_ne_of_not_mem (by decide) hbreak⟩
  have hrender : renderTag ('{' :: '@' :: word) (' ' :: (target ++ label.written)) = (Segment.tag word target label).shown := by
    have hsplit := splitTarget_written htarget hlabel
    have hurl := isUrl_eq fun c hc => (htarget.2 c hc).1
    rw [renderTag]
    split
    · case h_1 hnil =>
      rw [hnil] at hsplit
      exact absurd (Prod.mk.inj hsplit).1.symm htarget.1
    · rw [hsplit]
      cases label <;> simp [renderReference, hurl, Segment.shown, Label.text?, inCode]
  rw [hshape, convertTags_closed (linkTag?_word hword _) hclose, hrender]

end Tag

theorem convertTags_segments {segments : List Segment} (h : ∀ segment ∈ segments, segment.Sound)
    (hplain : segments.IsChain fun a b => ¬ (a.isPlain ∧ b.isPlain)) :
    convertTags (segments.flatMap Segment.written) = segments.flatMap Segment.shown := by
  induction segments with
  | nil => exact convertTags_nil
  | cons segment rest ih =>
    obtain ⟨hsegment, hrest⟩ := List.forall_mem_cons.mp h
    have hrest := ih hrest hplain.tail
    rw [List.flatMap_cons, List.flatMap_cons, ← hrest]
    cases segment with
    | tag word target label => exact convertTags_tag hsegment _
    | plain s =>
      apply convertTags_plain hsegment
      -- What follows plain text is a tag.
      cases rest with
      | nil => simp
      | cons next others =>
        cases next with
        | plain t => exact absurd ⟨rfl, rfl⟩ hplain.rel
        | tag word target label => simp [Segment.written]

theorem convertLinks_segments {segments : List Segment} (h : ∀ segment ∈ segments, segment.Sound)
    (hplain : segments.IsChain fun a b => ¬ (a.isPlain ∧ b.isPlain))
    (htext : ¬ isAllBlank (segments.flatMap Segment.written)) :
    convertLinks (segments.flatMap Segment.written) = segments.flatMap Segment.shown := by
  rw [convertLinks, if_neg htext, convertTags_segments h hplain]

theorem hasLinkTag_iff : HasLinkTag s ↔ ∃ t ∈ s.tails, (linkTag? t).isSome := by
  constructor
  · rintro ⟨before, w, after, hw, rfl, hends⟩
    refine ⟨_, (List.mem_tails _ _).mpr ⟨before, rfl⟩, List.findSome?_isSome_iff.mpr ⟨w, hw, ?_⟩⟩
    rw [dropPrefix?_eq_some_iff.mpr rfl, Option.bind_some, if_pos hends]
    rfl
  · rintro ⟨t, ht, hsome⟩
    obtain ⟨before, rfl⟩ := (List.mem_tails _ _).mp ht
    by_contra hnot
    rw [linkTag?_eq_none fun h => hnot (h.append_left before)] at hsome
    cases hsome

instance (s : List Char) : Decidable (HasLinkTag s) :=
  decidable_of_iff _ hasLinkTag_iff.symm

-- Over the characters of the target, not over all there are.
instance (s : List Char) : Decidable (IsTarget s) :=
  @instDecidableAnd _ _ inferInstance (List.decidableBAll _ s)

instance : (label : Label) → Decidable label.Sound
  | .none => inferInstanceAs (Decidable True)
  | .bar s => inferInstanceAs (Decidable (¬ isAllBlank s ∧ '}' ∉ s ∧ '\n' ∉ s))
  | .space s => inferInstanceAs (Decidable (¬ isAllBlank s ∧ '}' ∉ s ∧ '\n' ∉ s ∧ '|' ∉ s))

instance : (segment : Segment) → Decidable segment.Sound
  | .plain s => inferInstanceAs (Decidable (¬ HasLinkTag s))
  | .tag word target label => inferInstanceAs (Decidable (word ∈ linkWords ∧ IsTarget target ∧ label.Sound))

def mixedSegments : List Segment :=
  [.plain "a ".toList, .tag "linkcode".toList "f".toList (.bar " b | c ".toList),
    .tag "see".toList "http://x".toList .none, .plain "\n\x7d \x7b@linked ".toList,
    .tag "link".toList "https://y".toList (.space "\x7b@link z ".toList)]

theorem convertLinks_segments_mixed :
    (∀ segment ∈ mixedSegments, segment.Sound) ∧ (mixedSegments.IsChain fun a b => ¬ (a.isPlain ∧ b.isPlain)) ∧
      convertLinks (mixedSegments.flatMap Segment.written) =
        "a `b | c`http://x\n\x7d \x7b@linked [\x7b@link z](https://y)".toList := by
  have hsound : ∀ segment ∈ mixedSegments, segment.Sound := by decide
  have hplain : mixedSegments.IsChain fun a b => ¬ (a.isPlain ∧ b.isPlain) := by decide
  have hshown : mixedSegments.flatMap Segment.shown =
      "a `b | c`http://x\n\x7d \x7b@linked [\x7b@link z](https://y)".toList := by decide
  refine ⟨hsound, hplain, ?_⟩
  rw [← hshown]
  exact convertLinks_segments hsound hplain (by decide)

def paddedReference : Segment :=
  .tag "link".toList "https://x.io".toList (.bar " a ".toList)

theorem padded_label_trimmed :
    paddedReference.Sound ∧ paddedReference.written = "\x7b@link https://x.io| a \x7d".toList ∧
      convertLinks paddedReference.written = "[a](https://x.io)".toList ∧
      convertLinks paddedReference.written ≠ "[ a ](https://x.io)".toList := by
  have hsound : paddedReference.Sound := by decide
  have hconverted : convertLinks paddedReference.written = "[a](https://x.io)".toList := by
    have htag := convertTags_tag hsound []
    rw [List.append_nil, convertTags_nil] at htag
    exact htag
  exact ⟨hsound, rfl, hconverted, by rw [hconverted]; decide⟩

end ApiCatalog.DocComment
