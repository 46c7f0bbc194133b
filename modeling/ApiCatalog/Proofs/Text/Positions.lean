import ApiCatalog.Proofs.DocComment.Clean

namespace ApiCatalog.Text

variable {s t l : List Char} {ls : List (List Char)} {c : Char} {line column : Nat}

def charAt? (s : List Char) (line column : Nat) : Option Char :=
  (lines s)[line - 1]?.bind fun l => l[column - 1]?

def contentBefore (s : List Char) (line column : Nat) : List Char :=
  unlines ((lines s).take (line - 1) ++ [((lines s)[line - 1]?.getD []).take (column - 1)])

def contentFrom (s : List Char) (line column : Nat) : List Char :=
  s.drop (contentBefore s line column).length

theorem exists_lines (s : List Char) :
    ∃ ls l, (∀ x ∈ ls, '\n' ∉ x) ∧ '\n' ∉ l ∧ s = unlines (ls ++ [l]) := by
  rcases List.eq_nil_or_concat (lines s) with hnil | ⟨ls, l, hlines⟩
  · exact absurd hnil (lines_ne_nil s)
  · rw [List.concat_eq_append] at hlines
    refine ⟨ls, l, fun x hx => not_mem_lines (s := s) ?_, not_mem_lines (s := s) ?_, ?_⟩
    · rw [hlines]
      exact List.mem_append_left _ hx
    · rw [hlines]
      exact List.mem_append_right ls (List.mem_singleton_self l)
    · rw [← hlines, unlines_lines]

theorem unlines_concat (ls : List (List Char)) (l : List Char) :
    unlines (ls ++ [l]) = ls.flatMap (· ++ ['\n']) ++ l := by
  induction ls with
  | nil => simp [unlines]
  | cons x xs ih => rw [List.cons_append, unlines_cons x (by simp), ih, List.flatMap_cons]; simp

theorem count_unlines (hls : ∀ x ∈ ls, '\n' ∉ x) (hl : '\n' ∉ l) : (unlines (ls ++ [l])).count '\n' = ls.length := by
  rw [unlines_concat, List.count_append, List.count_eq_zero_of_not_mem hl, Nat.add_zero]
  induction ls with
  | nil => rfl
  | cons x xs ih =>
    obtain ⟨hx, hxs⟩ := List.forall_mem_cons.mp hls
    rw [List.flatMap_cons, List.count_append, List.count_append, List.count_eq_zero_of_not_mem hx, ih hxs,
      List.count_singleton_self, List.length_cons]
    omega

theorem takeWhile_reverse_unlines (hl : '\n' ∉ l) :
    (unlines (ls ++ [l])).reverse.takeWhile (· != '\n') = l.reverse := by
  have hall : ∀ c ∈ l.reverse, (c != '\n') = true := by
    intro c hc
    refine bne_iff_ne.mpr ?_
    rintro rfl
    exact hl (List.mem_reverse.mp hc)
  rw [unlines_concat, List.reverse_append, List.takeWhile_append_of_pos hall]
  rcases List.eq_nil_or_concat ls with rfl | ⟨xs, x, rfl⟩
  · simp
  · simp

theorem positionAt_unlines (hls : ∀ x ∈ ls, '\n' ∉ x) (hl : '\n' ∉ l) (t : List Char) :
    positionAt (unlines (ls ++ [l]) ++ t) (unlines (ls ++ [l])).length = (ls.length + 1, l.length + 1) := by
  simp only [positionAt, List.take_left, count_unlines hls hl, takeWhile_reverse_unlines hl, List.length_reverse]

theorem lines_unlines_append (hls : ∀ x ∈ ls, '\n' ∉ x) (hl : '\n' ∉ l) (hc : c ≠ '\n') (t : List Char) :
    ∃ m rest, lines (unlines (ls ++ [l]) ++ c :: t) = ls ++ (l ++ c :: m) :: rest := by
  obtain ⟨m, rest, ht⟩ := List.exists_cons_of_ne_nil (lines_ne_nil t)
  have hfirst : lines (c :: t) = (c :: m) :: rest := by
    rw [lines] at ht
    rw [lines, splitOn, if_neg hc, ht]
  refine ⟨m, rest, ?_⟩
  induction ls with
  | nil =>
    rw [List.nil_append, List.nil_append, show unlines [l] = l by simp [unlines]]
    exact lines_append_of_not_mem hl hfirst
  | cons x xs ih =>
    obtain ⟨hx, hxs⟩ := List.forall_mem_cons.mp hls
    rw [List.cons_append, unlines_cons x (by simp), List.append_assoc, List.cons_append, lines_append, lines_of_not_mem hx,
      ih hxs]
    rfl

theorem at_positionAt (hc : c ≠ '\n') (h : positionAt (s ++ c :: t) s.length = (line, column)) :
    charAt? (s ++ c :: t) line column = some c ∧ contentBefore (s ++ c :: t) line column = s ∧
      contentFrom (s ++ c :: t) line column = c :: t := by
  obtain ⟨ls, l, hls, hl, rfl⟩ := exists_lines s
  rw [positionAt_unlines hls hl, Prod.mk.injEq] at h
  obtain ⟨rfl, rfl⟩ := h
  obtain ⟨m, rest, hlines⟩ := lines_unlines_append hls hl hc t
  have hbefore : contentBefore (unlines (ls ++ [l]) ++ c :: t) (ls.length + 1) (l.length + 1) = unlines (ls ++ [l]) := by
    simp [contentBefore, hlines]
  refine ⟨by simp [charAt?, hlines], hbefore, ?_⟩
  rw [contentFrom, hbefore, List.drop_left]

end ApiCatalog.Text
