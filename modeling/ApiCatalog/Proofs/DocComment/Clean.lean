import Mathlib.Data.List.DropRight
import ApiCatalog.DocComment.Clean
import ApiCatalog.Proofs.Source.Segments

namespace ApiCatalog

namespace Text

variable {s t l r : List Char} {ls : List (List Char)}

/-! Lines -/

theorem unlines_lines (s : List Char) : unlines (lines s) = s := by
  rw [unlines, lines, splitOn_eq]
  exact List.intercalate_splitOn '\n'

theorem lines_unlines (h : ls ≠ []) (hls : ∀ l ∈ ls, '\n' ∉ l) : lines (unlines ls) = ls := by
  rw [unlines, lines, splitOn_eq]
  exact List.splitOn_intercalate '\n' hls h

theorem lines_append (s t : List Char) : lines (s ++ '\n' :: t) = lines s ++ lines t := by
  simp only [lines, splitOn_eq]
  rw [List.splitOn_append_cons_self]

theorem lines_ne_nil (s : List Char) : lines s ≠ [] := by
  rw [lines, splitOn_eq]
  exact List.splitOn_ne_nil '\n' s

theorem lines_of_not_mem (h : '\n' ∉ s) : lines s = [s] := by
  have hls : ∀ l ∈ [s], '\n' ∉ l := by simpa using h
  have hunlines : unlines [s] = s := by simp [unlines]
  rw [← lines_unlines (List.cons_ne_nil s []) hls, hunlines]

theorem lines_append_of_not_mem (h : '\n' ∉ s) (ht : lines t = l :: ls) : lines (s ++ t) = (s ++ l) :: ls := by
  induction s with
  | nil => exact ht
  | cons c cs ih =>
    obtain ⟨hc, hcs⟩ : '\n' ≠ c ∧ '\n' ∉ cs := by simpa using h
    have hrest := ih hcs
    rw [lines] at hrest
    rw [List.cons_append, lines, splitOn, if_neg hc.symm, hrest]
    rfl

theorem not_mem_lines (h : l ∈ lines s) : '\n' ∉ l :=
  not_mem_of_mem_splitOn h

theorem unlines_append {ls' : List (List Char)} (h : ls ≠ []) (h' : ls' ≠ []) :
    unlines (ls ++ ls') = unlines ls ++ '\n' :: unlines ls' :=
  intercalate_append h h'

theorem unlines_cons (s : List Char) (h : ls ≠ []) : unlines (s :: ls) = s ++ '\n' :: unlines ls := by
  rw [← List.singleton_append, unlines_append (List.cons_ne_nil s []) h]
  simp [unlines]

theorem head_prefix_unlines (h : l ∈ ls.head?) : l <+: unlines ls := by
  cases ls with
  | nil => cases h
  | cons first rest =>
    obtain rfl : first = l := by simpa using h
    by_cases hnil : rest = []
    · simp [hnil, unlines]
    · rw [unlines_cons first hnil]
      exact List.prefix_append first _

theorem last_suffix_unlines (h : l ∈ ls.getLast?) : l <:+ unlines ls := by
  rcases List.eq_nil_or_concat ls with rfl | ⟨init, last, rfl⟩
  · cases h
  · obtain rfl : last = l := by simpa using h
    by_cases hnil : init = []
    · simp [hnil, unlines]
    · rw [List.concat_eq_append, unlines_append hnil (by simp), show unlines [last] = last by simp [unlines]]
      exact ⟨unlines init ++ ['\n'], by simp⟩

theorem mem_unlines {c : Char} (hl : l ∈ ls) (hc : c ∈ l) : c ∈ unlines ls := by
  induction ls with
  | nil => cases hl
  | cons first rest ih =>
    by_cases hnil : rest = []
    · obtain rfl : l = first := by simpa [hnil] using hl
      simpa [hnil, unlines] using hc
    · rw [unlines_cons first hnil]
      rcases List.mem_cons.mp hl with rfl | hl
      · exact List.mem_append_left _ hc
      · exact List.mem_append_right first (List.mem_cons_of_mem _ (ih hl))

theorem mem_of_mem_lines {c : Char} (hl : l ∈ lines s) (hc : c ∈ l) : c ∈ s := by
  rw [← unlines_lines s]
  exact mem_unlines hl hc

theorem lines_unlines_texts {ss : List (List Char)} (h : ss ≠ []) : lines (unlines ss) = ss.flatMap lines := by
  induction ss with
  | nil => exact absurd rfl h
  | cons s rest ih =>
    by_cases hrest : rest = []
    · simp [hrest, unlines]
    · rw [unlines_cons s hrest, lines_append, ih hrest, List.flatMap_cons]

/-! Trimming -/

theorem trimLeft_append (h : ∀ c ∈ l, isBlank c) (s : List Char) : trimLeft (l ++ s) = trimLeft s :=
  List.dropWhile_append_of_pos h

theorem trimRight_append (s : List Char) (h : ∀ c ∈ r, isBlank c) : trimRight (s ++ r) = trimRight s := by
  rw [trimRight, trimRight, dropRightWhile, dropRightWhile, List.reverse_append, List.dropWhile_append_of_pos]
  intro c hc
  exact h c (List.mem_reverse.mp hc)

theorem trimRight_prefix_self (s : List Char) : trimRight s <+: s :=
  List.rdropWhile_prefix isBlank s

theorem length_trimRight_le (s : List Char) : (trimRight s).length ≤ s.length :=
  (trimRight_prefix_self s).length_le

theorem trimLeft_of_blank (h : ∀ c ∈ s, isBlank c) : trimLeft s = [] :=
  List.dropWhile_eq_nil_iff.mpr h

theorem trim_of_blank (h : ∀ c ∈ s, isBlank c) : trim s = [] := by
  rw [trim, trimLeft_of_blank h]
  rfl

theorem trim_pad (hl : ∀ c ∈ l, isBlank c) (s : List Char) (hr : ∀ c ∈ r, isBlank c) : trim (l ++ s ++ r) = trim s := by
  rw [trim, List.append_assoc, trimLeft_append hl]
  by_cases hs : ∀ c ∈ s, isBlank c
  · rw [trimLeft_append hs, trimLeft_of_blank hr, trim_of_blank hs]
    rfl
  · have hne : (trimLeft s).isEmpty = false := by
      simpa [trimLeft, List.isEmpty_eq_false_iff, List.dropWhile_eq_nil_iff] using hs
    have hkeep : trimLeft (s ++ r) = trimLeft s ++ r := by
      rw [trimLeft, List.dropWhile_append]
      exact if_neg (by simpa [trimLeft] using hne)
    rw [hkeep, trimRight_append _ hr, trim]

theorem trimLeft_eq_self (h : trim s = s) : trimLeft s = s := by
  have hsuffix : trimLeft s <:+ s := List.dropWhile_suffix _
  have hlength : (trim s).length ≤ (trimLeft s).length := length_trimRight_le (trimLeft s)
  rw [h] at hlength
  exact hsuffix.eq_of_length (Nat.le_antisymm hsuffix.length_le hlength)

theorem trimRight_eq_self (h : trim s = s) : trimRight s = s := by
  rw [trim, trimLeft_eq_self h] at h
  exact h

theorem trim_eq_self (hleft : trimLeft s = s) (hright : trimRight s = s) : trim s = s := by
  rw [trim, hleft, hright]

theorem trimLeft_append_of_ne_nil (h : trimLeft s = s) (hne : s ≠ []) (t : List Char) : trimLeft (s ++ t) = s ++ t := by
  have hs : (s.dropWhile isBlank).isEmpty = false := by
    rw [show s.dropWhile isBlank = s from h]
    simpa using hne
  rw [trimLeft, List.dropWhile_append, hs]
  exact congrArg (· ++ t) h

theorem trimRight_append_of_ne_nil (s : List Char) (h : trimRight t = t) (hne : t ≠ []) : trimRight (s ++ t) = s ++ t := by
  have hreverse : trimLeft t.reverse = t.reverse := by
    rw [← List.reverse_inj, List.reverse_reverse]
    exact h
  have happend := trimLeft_append_of_ne_nil hreverse (by simpa using hne) s.reverse
  rw [← List.reverse_append] at happend
  rw [← List.reverse_inj, ← happend]
  simp [trimRight, dropRightWhile, trimLeft]

theorem trimRight_of_getLast? (h : ∀ c ∈ l.getLast?, ¬ isBlank c) : trimRight l = l := by
  rcases List.eq_nil_or_concat l with rfl | ⟨cs, c, rfl⟩
  · rfl
  · have hc : ¬ isBlank c := h c (by simp)
    simp [trimRight, dropRightWhile, hc]

theorem first_line_ne_nil (h : trimLeft s = s) (hne : s ≠ []) (hlines : lines s = l :: ls) : l ≠ [] := by
  rintro rfl
  cases s with
  | nil => exact hne rfl
  | cons c cs =>
    have hc : c = '\n' := by
      by_contra hc
      obtain ⟨first, more, hrest⟩ := List.exists_cons_of_ne_nil (lines_ne_nil cs)
      have happend := lines_append_of_not_mem (List.mem_singleton.not.mpr (Ne.symm hc)) hrest
      rw [List.singleton_append, hlines] at happend
      simp at happend
    have hdrop : trimLeft cs = c :: cs := by
      rw [← h, hc]
      rfl
    have hsuffix : trimLeft cs <:+ cs := List.dropWhile_suffix _
    have hlength := hsuffix.length_le
    rw [hdrop, List.length_cons] at hlength
    omega

theorem trimRight_blank (s : List Char) : ∃ r, s = trimRight s ++ r ∧ ∀ c ∈ r, isBlank c := by
  refine ⟨s.rtakeWhile isBlank, List.rdropWhile_append_rtakeWhile.symm, ?_⟩
  exact fun c hc => List.mem_rtakeWhile_imp hc

theorem trimRight_append_text (h : ¬ isAllBlank s) (t : List Char) : trimRight (t ++ s) = t ++ trimRight s := by
  obtain ⟨r, hs, hr⟩ := trimRight_blank s
  have hne : trimRight s ≠ [] := by
    intro hnil
    apply h
    simpa [isAllBlank] using List.rdropWhile_eq_nil_iff.mp hnil
  have htwice : trimRight (trimRight s) = trimRight s := List.rdropWhile_idempotent isBlank s
  nth_rewrite 1 [hs]
  rw [← List.append_assoc, trimRight_append _ hr, trimRight_append_of_ne_nil t htwice hne]

theorem trim_trimRight (s : List Char) : trim (trimRight s) = trim s := by
  obtain ⟨r, hs, hr⟩ := trimRight_blank s
  have hpad := trim_pad (l := []) (by simp) (trimRight s) hr
  rw [← hpad, List.nil_append, ← hs]

theorem trim_blank (s : List Char) : ∃ l r, s = l ++ trim s ++ r ∧ (∀ c ∈ l, isBlank c) ∧ ∀ c ∈ r, isBlank c := by
  obtain ⟨r, hr, hblank⟩ := trimRight_blank (trimLeft s)
  refine ⟨s.takeWhile isBlank, r, ?_, fun c hc => List.mem_takeWhile_imp hc, hblank⟩
  rw [List.append_assoc, trim, ← hr]
  exact List.takeWhile_append_dropWhile.symm

theorem trim_trim (s : List Char) : trim (trim s) = trim s := by
  obtain ⟨l, r, hs, hl, hr⟩ := trim_blank s
  rw [← trim_pad hl (trim s) hr, ← hs]

theorem exists_of_mem_lines (h : l ∈ lines s) : ∃ before after, s = before ++ (l ++ after) ∧
    (before = [] ∨ ∃ a, before = a ++ ['\n']) ∧ (after = [] ∨ ∃ b, after = '\n' :: b) := by
  obtain ⟨ls, ls', hlines⟩ := List.append_of_mem h
  have hfirst : ∃ after, unlines (l :: ls') = l ++ after ∧ (after = [] ∨ ∃ b, after = '\n' :: b) := by
    by_cases hnil : ls' = []
    · exact ⟨[], by simp [hnil, unlines], .inl rfl⟩
    · exact ⟨'\n' :: unlines ls', unlines_cons l hnil, .inr ⟨_, rfl⟩⟩
  obtain ⟨after, hafter, hends⟩ := hfirst
  rw [← unlines_lines s, hlines]
  by_cases hnil : ls = []
  · exact ⟨[], after, by rw [hnil, List.nil_append, hafter, List.nil_append], .inl rfl, hends⟩
  · refine ⟨unlines ls ++ ['\n'], after, ?_, .inr ⟨_, rfl⟩, hends⟩
    rw [unlines_append hnil (List.cons_ne_nil l ls'), hafter, List.append_assoc, List.singleton_append]

theorem nil_of_trimLeft_eq (h : trimLeft (l ++ s) = l ++ s) (hl : ∀ c ∈ l, isBlank c) : l = [] := by
  have hsuffix : trimLeft s <:+ s := List.dropWhile_suffix _
  have hlength := hsuffix.length_le
  rw [← trimLeft_append hl, h, List.length_append] at hlength
  exact List.length_eq_zero_iff.mp (by omega)

theorem nil_of_trimRight_eq (h : trimRight (s ++ r) = s ++ r) (hr : ∀ c ∈ r, isBlank c) : r = [] := by
  have hlength := length_trimRight_le s
  rw [← trimRight_append s hr, h, List.length_append] at hlength
  exact List.length_eq_zero_iff.mp (by omega)

theorem mem_lines_of_blank (hl : l ∈ lines (trim s)) (hblank : ∀ c ∈ l, isBlank c) (hne : l ≠ []) : l ∈ lines s := by
  obtain ⟨before, after, htrim, hbefore, hafter⟩ := exists_of_mem_lines hl
  obtain ⟨u, v, hs, -, -⟩ := trim_blank s
  have hleft := trimLeft_eq_self (trim_trim s)
  have hright := trimRight_eq_self (trim_trim s)
  rw [htrim] at hleft hright
  -- A trimmed text neither starts nor ends with a blank line.
  rcases hbefore with rfl | ⟨a, rfl⟩
  · rw [List.nil_append] at hleft
    exact absurd (nil_of_trimLeft_eq hleft hblank) hne
  · rcases hafter with rfl | ⟨b, rfl⟩
    · rw [List.append_nil] at hright
      exact absurd (nil_of_trimRight_eq hright hblank) hne
    · have hshape : s = u ++ a ++ '\n' :: (l ++ '\n' :: (b ++ v)) := by
        rw [hs, htrim]
        simp
      rw [hshape, lines_append, lines_append, lines_of_not_mem (not_mem_lines hl)]
      simp

structure IsCleaned (s : List Char) : Prop where
  ne_nil : s ≠ []
  trimmed : trim s = s
  lineEnds : ∀ l ∈ lines s, trimRight l = l

namespace IsCleaned

theorem of_line (h : trim s = s) (hne : s ≠ []) (hbreak : '\n' ∉ s) : IsCleaned s := by
  refine ⟨hne, h, ?_⟩
  rw [lines_of_not_mem hbreak]
  simpa using trimRight_eq_self h

theorem break_append (h : IsCleaned s) (h' : IsCleaned t) : IsCleaned (s ++ '\n' :: t) := by
  have hright : trimRight (s ++ '\n' :: t) = s ++ '\n' :: t := by
    simpa using trimRight_append_of_ne_nil (s ++ ['\n']) (trimRight_eq_self h'.trimmed) h'.ne_nil
  refine ⟨by simp, trim_eq_self (trimLeft_append_of_ne_nil (trimLeft_eq_self h.trimmed) h.ne_nil _) hright, ?_⟩
  intro l hl
  rw [lines_append] at hl
  rcases List.mem_append.mp hl with hl | hl
  · exact h.lineEnds l hl
  · exact h'.lineEnds l hl

theorem append_left (h : IsCleaned t) (hs : trimLeft s = s) (hne : s ≠ []) (hbreak : '\n' ∉ s) : IsCleaned (s ++ t) := by
  have hright : trimRight (s ++ t) = s ++ t := trimRight_append_of_ne_nil s (trimRight_eq_self h.trimmed) h.ne_nil
  refine ⟨by simp [hne], trim_eq_self (trimLeft_append_of_ne_nil hs hne t) hright, ?_⟩
  intro l hl
  obtain ⟨first, more, hlines⟩ := List.exists_cons_of_ne_nil (lines_ne_nil t)
  rw [lines_append_of_not_mem hbreak hlines] at hl
  have hends : ∀ l ∈ first :: more, trimRight l = l := hlines ▸ h.lineEnds
  rcases List.mem_cons.mp hl with rfl | hl
  · apply trimRight_append_of_ne_nil s (hends first List.mem_cons_self)
    exact first_line_ne_nil (trimLeft_eq_self h.trimmed) h.ne_nil hlines
  · exact hends l (List.mem_cons_of_mem first hl)

theorem unlines {ss : List (List Char)} (hne : ss ≠ []) (h : ∀ s ∈ ss, IsCleaned s) : IsCleaned (Text.unlines ss) := by
  induction ss with
  | nil => exact absurd rfl hne
  | cons s rest ih =>
    obtain ⟨hs, hrest⟩ := List.forall_mem_cons.mp h
    by_cases hnil : rest = []
    · simpa [hnil, Text.unlines] using hs
    · rw [unlines_cons s hnil]
      exact hs.break_append (ih hnil hrest)

end IsCleaned

end Text

namespace DocComment

open Text

def writeBlock (ls : List (List Char)) : List Char :=
  "/**\n".toList ++ (ls.flatMap fun l => " * ".toList ++ l ++ ['\n']) ++ " */".toList

structure StarredLine where
  indent : List Char
  text : List Char

def StarredLine.written (line : StarredLine) : List Char :=
  line.indent ++ "* ".toList ++ line.text

def writeIndented (ls : List StarredLine) (closing : List Char) : List Char :=
  "/**".toList ++ '\n' :: ((ls.flatMap fun line => line.written ++ ['\n']) ++ closing) ++ "*/".toList

variable {s l closing : List Char} {ls : List StarredLine}

theorem dropClosing_append (s : List Char) : dropClosing (s ++ "*/".toList) = s := by
  simp [dropClosing]

theorem cleanText_delimited (body : List Char) :
    cleanText ("/**".toList ++ body ++ "*/".toList) = trim (unlines ((lines body).map cleanLine)) := by
  have htrim : trim ("/**".toList ++ body ++ "*/".toList) = "/**".toList ++ (body ++ "*/".toList) := by
    have hclosing : isBlank '/' = false := by decide
    simp [trim, trimLeft, trimRight, dropRightWhile, hclosing]
  have hopening : dropOpening ("/**".toList ++ (body ++ "*/".toList)) = body ++ "*/".toList := rfl
  rw [cleanText, htrim, hopening, dropClosing_append]

theorem cleanLine_written {line : StarredLine} (h : ∀ c ∈ line.indent, isBlank c) :
    cleanLine line.written = trimRight line.text := by
  rw [cleanLine, StarredLine.written, List.append_assoc, trimLeft_append h]
  rfl

theorem cleanLine_blank (h : ∀ c ∈ l, isBlank c) : cleanLine l = [] := by
  rw [cleanLine, trimLeft_of_blank h]
  exact trim_of_blank h

theorem lines_written (h : ∀ line ∈ ls, '\n' ∉ line.written) (t : List Char) :
    lines ((ls.flatMap fun line => line.written ++ ['\n']) ++ t) = ls.map StarredLine.written ++ lines t := by
  induction ls with
  | nil => rfl
  | cons line rest ih =>
    obtain ⟨hline, hrest⟩ := List.forall_mem_cons.mp h
    rw [List.flatMap_cons, List.append_assoc, List.append_assoc, List.singleton_append, lines_append, ih hrest,
      lines_of_not_mem hline]
    rfl

theorem unlines_blank {ls : List (List Char)} (h : ∀ l ∈ ls, l = []) : ∀ c ∈ unlines ls, isBlank c := by
  induction ls with
  | nil => simp [unlines]
  | cons l rest ih =>
    obtain ⟨rfl, hrest⟩ := List.forall_mem_cons.mp h
    by_cases hnil : rest = []
    · simp [hnil, unlines]
    · rw [unlines_cons [] hnil]
      exact List.forall_mem_cons.mpr ⟨by decide, ih hrest⟩

theorem trim_unlines_padded {ls after : List (List Char)} (hls : ls ≠ []) (hne : after ≠ []) (h : ∀ l ∈ after, l = []) :
    trim (unlines ([] :: (ls ++ after))) = trim (unlines ls) := by
  have hunlines : unlines ([] :: (ls ++ after)) = ['\n'] ++ unlines ls ++ '\n' :: unlines after := by
    rw [unlines_cons [] (by simp [hls]), unlines_append hls hne]
    simp
  rw [hunlines]
  exact trim_pad (List.forall_mem_singleton.mpr (by decide)) _
    (List.forall_mem_cons.mpr ⟨by decide, unlines_blank h⟩)

theorem cleanText_writeIndented (hne : ls ≠ []) (hindent : ∀ line ∈ ls, ∀ c ∈ line.indent, isBlank c)
    (hbreak : ∀ line ∈ ls, '\n' ∉ line.indent ∧ '\n' ∉ line.text) (hclosing : ∀ c ∈ closing, isBlank c) :
    cleanText (writeIndented ls closing) = trim (unlines (ls.map fun line => trimRight line.text)) := by
  have hwritten : ∀ line ∈ ls, '\n' ∉ line.written := by
    intro line hline
    simp [StarredLine.written, hbreak line hline]
  have hlines : lines ('\n' :: ((ls.flatMap fun line => line.written ++ ['\n']) ++ closing)) =
      [] :: (ls.map StarredLine.written ++ lines closing) := by
    rw [← List.nil_append ('\n' :: _), lines_append, lines_written hwritten]
    rfl
  have htexts : (ls.map StarredLine.written).map cleanLine = ls.map fun line => trimRight line.text := by
    rw [List.map_map]
    exact List.map_congr_left fun line hline => cleanLine_written (hindent line hline)
  -- What stands before the end may go over several lines, all blank.
  have hafter : ∀ l ∈ (lines closing).map cleanLine, l = [] := by
    simp only [List.forall_mem_map]
    intro l hl
    exact cleanLine_blank fun c hc => hclosing c (mem_of_mem_lines hl hc)
  change cleanText ("/**".toList ++ '\n' :: ((ls.flatMap fun line => line.written ++ ['\n']) ++ closing) ++ "*/".toList) = _
  rw [cleanText_delimited, hlines, List.map_cons, List.map_append, htexts,
    show cleanLine [] = [] from rfl, trim_unlines_padded (by simpa using hne) (by simpa using lines_ne_nil closing) hafter]

theorem clean?_writeIndented (h : IsCleaned s) (htexts : ls.map StarredLine.text = lines s)
    (hindent : ∀ line ∈ ls, ∀ c ∈ line.indent, isBlank c ∧ c ≠ '\n') (hclosing : ∀ c ∈ closing, isBlank c) :
    clean? (writeIndented ls closing) = some s := by
  have hmem : ∀ line ∈ ls, line.text ∈ lines s := by
    intro line hline
    rw [← htexts]
    exact List.mem_map_of_mem hline
  have hne : ls ≠ [] := by
    rintro rfl
    exact lines_ne_nil s htexts.symm
  have hlineEnds : (ls.map fun line => trimRight line.text) = lines s := by
    rw [← htexts]
    exact List.map_congr_left fun line hline => h.lineEnds line.text (hmem line hline)
  have htext : cleanText (writeIndented ls closing) = s := by
    rw [cleanText_writeIndented hne (fun line hline c hc => (hindent line hline c hc).1)
      (fun line hline => ⟨fun hc => (hindent line hline _ hc).2 rfl, not_mem_lines (hmem line hline)⟩) hclosing, hlineEnds,
      unlines_lines, h.trimmed]
  rw [clean?, htext]
  split
  · case h_1 hnil => exact absurd rfl h.ne_nil
  · rfl

theorem clean?_writeBlock (h : IsCleaned s) : clean? (writeBlock (lines s)) = some s := by
  have hblock : writeBlock (lines s) = writeIndented ((lines s).map fun l => ⟨[' '], l⟩) [' '] := by
    change "/**\n".toList ++ _ ++ " */".toList = "/**".toList ++ '\n' :: (List.flatMap _ _ ++ [' ']) ++ "*/".toList
    rw [List.flatMap_map, List.append_assoc, List.append_assoc, List.cons_append, List.append_assoc]
    rfl
  rw [hblock]
  apply clean?_writeIndented h
  · simp [Function.comp_def]
  · exact List.forall_mem_map.mpr fun l _ => List.forall_mem_singleton.mpr (by decide)
  · exact List.forall_mem_singleton.mpr (by decide)

/-! The lines of a cleaned text -/

structure CleanLines (ls : List (List Char)) : Prop where
  noBreak : ∀ l ∈ ls, '\n' ∉ l
  empty : ∀ l ∈ ls, isAllBlank l → l = []
  text : ∃ l ∈ ls, ¬ isAllBlank l

theorem trimRight_cleanLine (l : List Char) : trimRight (cleanLine l) = cleanLine l := by
  have htwice (s : List Char) : trimRight (trimRight s) = trimRight s := List.rdropWhile_idempotent isBlank s
  unfold cleanLine
  split
  · exact htwice _
  · exact htwice _
  · exact htwice _

theorem cleanLine_sublist (line : List Char) : (cleanLine line).Sublist line := by
  have hright (s : List Char) : (trimRight s).Sublist s := (trimRight_prefix_self s).sublist
  have hleft : (trimLeft line).Sublist line := List.dropWhile_sublist _
  unfold cleanLine
  split
  · case h_1 s heq =>
    rw [heq] at hleft
    exact ((hright s).trans ((List.sublist_cons_self _ s).cons _)).trans hleft
  · case h_2 s _ heq =>
    rw [heq] at hleft
    exact ((hright s).trans (List.sublist_cons_self _ s)).trans hleft
  · exact (hright _).trans hleft

theorem cleanLines_of_clean? {raw : List Char} (h : clean? raw = some s) : CleanLines (lines s) := by
  obtain ⟨hne, htext⟩ : s ≠ [] ∧ s = cleanText raw := by
    rw [clean?] at h
    split at h
    · cases h
    · case h_2 hne =>
      cases h
      exact ⟨hne, rfl⟩
  have hcleaned : lines (unlines ((lines (dropClosing (dropOpening (trim raw)))).map cleanLine)) =
      (lines (dropClosing (dropOpening (trim raw)))).map cleanLine := by
    apply lines_unlines (by simpa using lines_ne_nil _)
    simp only [List.forall_mem_map]
    exact fun l hl hmem => not_mem_lines hl ((cleanLine_sublist l).subset hmem)
  have hempty : ∀ l ∈ lines s, isAllBlank l → l = [] := by
    intro l hl hall
    have hblank : ∀ c ∈ l, isBlank c := by simpa [isAllBlank] using hall
    by_contra hne
    rw [htext] at hl
    have hmem := mem_lines_of_blank hl hblank hne
    rw [hcleaned] at hmem
    obtain ⟨l, _, rfl⟩ := List.mem_map.mp hmem
    exact hne (nil_of_trimRight_eq (s := []) (trimRight_cleanLine l) hblank)
  refine ⟨fun l hl => not_mem_lines hl, hempty, ?_⟩
  by_contra hnone
  apply hne
  have hblank : ∀ l ∈ lines s, l = [] := by
    intro l hl
    exact hempty l hl (by_contra fun htext => hnone ⟨l, hl, htext⟩)
  have htrim : trim s = s := by rw [htext, cleanText, trim_trim]
  rw [← htrim, trim_of_blank]
  rw [← unlines_lines s]
  exact unlines_blank hblank

/-! Lines that can be written -/

/-- Lines that survive in a comment block: no blanks at their ends, and text at the start and at the end of all. -/
structure WritableLines (ls : List (List Char)) : Prop where
  noBreak : ∀ l ∈ ls, '\n' ∉ l
  lineEnds : ∀ l ∈ ls, ∀ c ∈ l.getLast?, ¬ isBlank c
  start : ∃ l ∈ ls.head?, ∃ c ∈ l.head?, ¬ isBlank c
  finish : ∃ l ∈ ls.getLast?, l ≠ []

theorem WritableLines.isCleaned {ls : List (List Char)} (h : WritableLines ls) : IsCleaned (unlines ls) := by
  obtain ⟨first, hfirst, c, hc, hblank⟩ := h.start
  obtain ⟨last, hlast, hlastne⟩ := h.finish
  have hne : ls ≠ [] := by
    rintro rfl
    cases hfirst
  have hlines : lines (unlines ls) = ls := lines_unlines hne h.noBreak
  have hends : ∀ l ∈ ls, trimRight l = l := fun l hl => trimRight_of_getLast? (h.lineEnds l hl)
  obtain ⟨cs, rfl⟩ : ∃ cs, first = c :: cs := List.head?_eq_some_iff.mp hc
  obtain ⟨after, hafter⟩ := head_prefix_unlines hfirst
  obtain ⟨before, hbefore⟩ := last_suffix_unlines hlast
  have hleft : trimLeft (unlines ls) = unlines ls := by
    rw [← hafter]
    simp [trimLeft, hblank]
  have hright : trimRight (unlines ls) = unlines ls := by
    rw [← hbefore]
    exact trimRight_append_of_ne_nil before (hends last (List.mem_of_getLast? hlast)) hlastne
  refine ⟨?_, trim_eq_self hleft hright, by rwa [hlines]⟩
  rw [← hafter]
  exact List.cons_ne_nil c _

theorem clean?_indented (h : WritableLines (ls.map StarredLine.text))
    (hindent : ∀ line ∈ ls, ∀ c ∈ line.indent, isBlank c ∧ c ≠ '\n') (hclosing : ∀ c ∈ closing, isBlank c) :
    clean? (writeIndented ls closing) = some (unlines (ls.map StarredLine.text)) := by
  have hne : ls.map StarredLine.text ≠ [] := by
    obtain ⟨_, hfirst, _⟩ := h.start
    rintro hnil
    rw [hnil] at hfirst
    cases hfirst
  exact clean?_writeIndented h.isCleaned (lines_unlines hne h.noBreak).symm hindent hclosing

def bulletLines : List StarredLine :=
  [⟨"\t".toList, "* one */".toList⟩, ⟨[], []⟩, ⟨"\u3000 ".toList, "    two".toList⟩, ⟨" ".toList, "/** three".toList⟩]

theorem clean?_indented_bulletLines :
    WritableLines (bulletLines.map StarredLine.text) ∧
      (∀ line ∈ bulletLines, ∀ c ∈ line.indent, isBlank c ∧ c ≠ '\n') ∧
      clean? (writeIndented bulletLines "\n\t".toList) = some "* one */\n\n    two\n/** three".toList := by
  have hends : (bulletLines.map StarredLine.text).all fun l => l.getLast?.all fun c => !isBlank c := by decide
  have hwritable : WritableLines (bulletLines.map StarredLine.text) :=
    ⟨by decide, by simpa [Option.all_eq_true] using hends, ⟨_, rfl, '*', rfl, by decide⟩, ⟨_, rfl, by decide⟩⟩
  have hindents : bulletLines.all fun line => line.indent.all fun c => isBlank c && c != '\n' := by decide
  have hindent : ∀ line ∈ bulletLines, ∀ c ∈ line.indent, isBlank c ∧ c ≠ '\n' := by simpa using hindents
  have hclosing : "\n\t".toList.all isBlank := by decide
  exact ⟨hwritable, hindent, clean?_indented hwritable hindent (List.all_eq_true.mp hclosing)⟩

end DocComment

end ApiCatalog
