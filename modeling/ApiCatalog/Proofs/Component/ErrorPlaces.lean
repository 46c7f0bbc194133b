import ApiCatalog.Component.Basic
import ApiCatalog.Proofs.Text.Positions

namespace ApiCatalog

open Text Syntax

variable {s t l : List Char} {ls : List (List Char)} {content : List Char} {k row column : Nat}

/-! Rows and columns -/

namespace Text

def byteLength : List Char → Nat
  | [] => 0
  | c :: cs => c.utf8Size + byteLength cs

/-- After `k` characters a text is in a row and a column, both counted from zero, the column in bytes. -/
def StandsAt (s : List Char) (k row column : Nat) : Prop :=
  ∃ ls l, s.take k = unlines (ls ++ [l]) ∧ (∀ x ∈ ls, '\n' ∉ x) ∧ '\n' ∉ l ∧ ls.length = row ∧ byteLength l = column

theorem byteLength_of_ascii (h : ∀ c ∈ s, c.toNat < 128) : byteLength s = s.length := by
  induction s with
  | nil => rfl
  | cons c cs ih =>
    obtain ⟨hc, hcs⟩ := List.forall_mem_cons.mp h
    have hsize : c.utf8Size = 1 := Char.utf8Size_eq_one_iff.mpr (by
      rw [UInt32.le_iff_toNat_le]
      exact Nat.le_of_lt_succ hc)
    rw [byteLength, ih hcs, hsize, List.length_cons, Nat.add_comm]

theorem unlines_append_unlines (ls : List (List Char)) (l m : List Char) (ms : List (List Char)) :
    unlines (ls ++ [l]) ++ unlines (m :: ms) = unlines (ls ++ (l ++ m) :: ms) := by
  have hgoes : l ++ unlines (m :: ms) = unlines ((l ++ m) :: ms) := by
    cases ms with
    | nil => simp [unlines]
    | cons x xs => rw [unlines_cons m (by simp), unlines_cons (l ++ m) (by simp), List.append_assoc]
  induction ls with
  | nil => simpa [unlines] using hgoes
  | cons x xs ih => rw [List.cons_append, List.cons_append, unlines_cons x (by simp), unlines_cons x (by simp),
      List.append_assoc, List.cons_append, ih]

theorem positionAt_take (s : List Char) (k : Nat) : positionAt (s.take k) (s.take k).length = positionAt s k := by
  simp only [positionAt, List.take_length]

theorem positionAt_of_take (h : s.take k = unlines (ls ++ [l])) (hls : ∀ x ∈ ls, '\n' ∉ x) (hl : '\n' ∉ l) :
    positionAt s k = (ls.length + 1, l.length + 1) := by
  rw [← positionAt_take, h]
  simpa using positionAt_unlines hls hl []

theorem charAt?_positionAt {c : Char} (h : s[k]? = some c) (hc : c ≠ '\n') :
    charAt? s (positionAt s k).1 (positionAt s k).2 = some c := by
  obtain ⟨hlt, rfl⟩ := List.getElem?_eq_some_iff.mp h
  have hsplit : s = s.take k ++ s[k] :: s.drop (k + 1) := by
    rw [← List.drop_eq_getElem_cons hlt, List.take_append_drop]
  have hplace : positionAt (s.take k ++ s[k] :: s.drop (k + 1)) (s.take k).length = positionAt s k := by
    rw [← hsplit, List.length_take_of_le hlt.le]
  have hchar := (at_positionAt hc hplace).1
  rw [← hsplit] at hchar
  exact hchar

theorem positionAt_within {offset : Nat} (hpart : t <+: s.drop offset) (hk : k ≤ t.length) (hascii : ∀ c ∈ t, c.toNat < 128)
    (h : StandsAt t k row column) :
    positionAt s (offset + k) =
      ((positionAt s offset).1 + row, if row = 0 then (positionAt s offset).2 + column else column + 1) := by
  obtain ⟨ls, l, htake, hls, hl, rfl, rfl⟩ := h
  obtain ⟨ls₀, l₀, hls₀, hl₀, hbefore⟩ := exists_lines (s.take offset)
  have hbytes : byteLength l = l.length := by
    refine byteLength_of_ascii fun c hc => hascii c (List.mem_of_mem_take (i := k) ?_)
    rw [htake]
    exact mem_unlines (List.mem_append_right ls (List.mem_singleton_self l)) hc
  have hall : s.take (offset + k) = unlines (ls₀ ++ [l₀]) ++ unlines (ls ++ [l]) := by
    obtain ⟨u, hu⟩ := hpart
    rw [List.take_add, hbefore, ← hu, List.take_append_of_le_length hk, htake]
  rw [positionAt_of_take hbefore hls₀ hl₀, hbytes]
  cases ls with
  | nil =>
    rw [List.nil_append, unlines_append_unlines] at hall
    have hline : '\n' ∉ l₀ ++ l := by simp [hl₀, hl]
    rw [positionAt_of_take hall hls₀ hline, List.length_append]
    simp only [List.length_nil, Nat.add_zero, if_true]
    congr 1
    omega
  | cons m ms =>
    obtain ⟨hm, hms⟩ := List.forall_mem_cons.mp hls
    rw [List.cons_append, unlines_append_unlines, ← List.cons_append, ← List.append_assoc] at hall
    have hlines : ∀ x ∈ ls₀ ++ (l₀ ++ m) :: ms, '\n' ∉ x := by
      simpa [or_imp, forall_and, hl₀, hm] using ⟨hls₀, hms⟩
    rw [positionAt_of_take hall hlines hl]
    simp only [List.length_append, List.length_cons, Nat.add_eq_zero_iff, Nat.one_ne_zero, and_false, if_false]
    congr 1
    omega

end Text

/-! Cursors -/

namespace Syntax.Cursor

theorem skip_add (m n : Nat) (c : Cursor) : skip (m + n) c = skip n (skip m c) := by
  induction m generalizing c with
  | zero => rw [Nat.zero_add]; rfl
  | succ m ih => rw [Nat.succ_add]; exact ih c.step

theorem step_newline (t : List Char) (offset line column : Nat) :
    step ⟨'\n' :: t, offset, line, column⟩ = ⟨t, offset + 1, line + 1, 1⟩ := rfl

theorem skip_line (hl : '\n' ∉ l) (t : List Char) (offset line column : Nat) :
    skip l.length ⟨l ++ t, offset, line, column⟩ = ⟨t, offset + l.length, line, column + byteLength l⟩ := by
  induction l generalizing offset column with
  | nil => rfl
  | cons c cs ih =>
    obtain ⟨hc, hcs⟩ : '\n' ≠ c ∧ '\n' ∉ cs := by simpa using hl
    have hstep : step ⟨c :: (cs ++ t), offset, line, column⟩ = ⟨cs ++ t, offset + 1, line, column + c.utf8Size⟩ :=
      if_neg hc.symm
    rw [List.length_cons, List.cons_append, skip, hstep, ih hcs, byteLength, Nat.add_assoc, Nat.add_assoc, Nat.add_comm 1]

theorem skip_unlines (hls : ∀ x ∈ ls, '\n' ∉ x) (hl : '\n' ∉ l) (t : List Char) (offset line : Nat) :
    skip (unlines (ls ++ [l])).length ⟨unlines (ls ++ [l]) ++ t, offset, line, 1⟩ =
      ⟨t, offset + (unlines (ls ++ [l])).length, line + ls.length, byteLength l + 1⟩ := by
  induction ls generalizing offset line with
  | nil =>
    rw [List.nil_append, show unlines [l] = l by simp [unlines], skip_line hl, Nat.add_comm 1]
    rfl
  | cons x xs ih =>
    obtain ⟨hx, hxs⟩ := List.forall_mem_cons.mp hls
    rw [List.cons_append, unlines_cons x (by simp), List.append_assoc, List.length_append, List.length_cons, skip_add,
      skip_line hx, List.cons_append, skip, step_newline, ih hxs, List.length_cons]
    congr 1 <;> omega

theorem position_skip (hk : k ≤ s.length) (h : StandsAt s k row column) :
    (skip k { rest := s }).position = ⟨row + 1, column + 1⟩ := by
  obtain ⟨ls, l, htake, hls, hl, rfl, rfl⟩ := h
  have hskip := skip_unlines hls hl (s.drop k) 0 1
  rw [← htake, List.take_append_drop, List.length_take_of_le hk] at hskip
  rw [hskip, position, Nat.add_comm 1]

end Syntax.Cursor

/-! Scripts -/

namespace Component

variable {blocks : List Script} {b : Script}

theorem scriptsFrom_part {masked : List Char} {offset skip : Nat} (h : scriptsFrom content offset skip masked = .ok blocks)
    (hb : b ∈ blocks) : b.content.toList <+: content.drop b.offset := by
  induction masked generalizing offset skip blocks with
  | nil =>
    rw [scriptsFrom] at h
    cases h
    cases hb
  | cons c cs ih =>
    cases skip with
    | succ n =>
      rw [scriptsFrom] at h
      exact ih h hb
    | zero =>
      rw [scriptsFrom] at h
      split at h
      · exact ih h hb
      · split at h
        · cases h
        · case h_2 tag _ _ start finish _ =>
          cases hrest : scriptsFrom content (offset + 1) (tag.length + finish - 1) cs with
          | error e =>
            rw [hrest] at h
            cases h
          | ok rest =>
            rw [hrest] at h
            cases h
            rcases List.mem_cons.mp hb with rfl | hmem
            · rw [String.toList_ofList]
              exact List.take_prefix _ _
            · exact ih hrest hmem

theorem scripts_part (h : scripts content = .ok blocks) (hb : b ∈ blocks) : b.content.toList <+: content.drop b.offset := by
  rw [scripts] at h
  exact scriptsFrom_part h hb

theorem parse_of_error {parser : ScriptParser} {e : Node} (file : String)
    (h : (parser b.content).firstError? = some e) :
    b.parse parser file content = .error
      ⟨file, .brokenScript (String.ofList (e.text.toList.take 40)), some (b.placeOf content e.start).1,
        some (b.placeOf content e.start).2⟩ := by
  simp only [Script.parse, h]

theorem script_error_place (hblocks : scripts content = .ok blocks) (hb : b ∈ blocks)
    (hascii : ∀ c ∈ b.content.toList, c.toNat < 128) (hk : k ≤ b.content.toList.length)
    (hplace : StandsAt b.content.toList k row column) :
    let place := positionAt content (b.offset + k)
    (Cursor.skip k { rest := b.content.toList }).position = ⟨row + 1, column + 1⟩ ∧
    b.placeOf content ⟨row + 1, column + 1⟩ = place ∧
    (∀ c, b.content.toList[k]? = some c →
      content[b.offset + k]? = some c ∧ (c ≠ '\n' → charAt? content place.1 place.2 = some c)) ∧
    ∀ (parser : ScriptParser) file e, (parser b.content).firstError? = some e → e.start = ⟨row + 1, column + 1⟩ →
      b.parse parser file content =
        .error ⟨file, .brokenScript (String.ofList (e.text.toList.take 40)), some place.1, some place.2⟩ := by
  have hpart := scripts_part hblocks hb
  have hfile : b.placeOf content ⟨row + 1, column + 1⟩ = positionAt content (b.offset + k) := by
    rw [positionAt_within hpart hk hascii hplace]
    simp [Script.placeOf]
  refine ⟨Cursor.position_skip hk hplace, hfile, fun c hc => ?_, fun parser file e he hstart => ?_⟩
  · have hchar : content[b.offset + k]? = some c := by
      obtain ⟨rest, hrest⟩ := hpart
      rw [← List.getElem?_drop, ← hrest, List.getElem?_append_left (List.getElem?_eq_some_iff.mp hc).1, hc]
    exact ⟨hchar, charAt?_positionAt hchar⟩
  · rw [parse_of_error file he, hstart, hfile]

def bracketTooMany : List Char :=
  "<!-- <script>\n-->\n<script module>\nlet a;\n</script>\n<p></p><script>let b = f(1));\nb();\n</script>".toList

def secondScript : Script :=
  ⟨"", "let b = f(1));\nb();\n", 66⟩

theorem script_error_place_bracketTooMany :
    secondScript.parse parseScript "C.svelte" bracketTooMany = .error ⟨"C.svelte", .brokenScript ")", some 6, some 28⟩ ∧
    charAt? bracketTooMany 6 28 = some ')' ∧
    secondScript.placeOf bracketTooMany ⟨2, 1⟩ = (7, 1) ∧ charAt? bracketTooMany 7 1 = some 'b' := by
  have hblocks : scripts bracketTooMany = .ok [⟨" module", "\nlet a;\n", 33⟩, secondScript] := by decide +kernel
  have hb : secondScript ∈ [⟨" module", "\nlet a;\n", 33⟩, secondScript] := by simp
  have hall : secondScript.content.toList.all (fun c => c.toNat < 128) = true := by decide
  have hascii : ∀ c ∈ secondScript.content.toList, c.toNat < 128 := by
    simpa only [List.all_eq_true, decide_eq_true_eq] using hall
  have herror : (parseScript secondScript.content).firstError?.map (fun e => (e.text, e.start)) = some (")", ⟨1, 13⟩) := by
    decide +kernel
  obtain ⟨e, he, hfound⟩ := Option.map_eq_some_iff.mp herror
  obtain ⟨htext, hstart⟩ := Prod.mk.inj hfound
  have hfirst : StandsAt secondScript.content.toList 12 0 12 :=
    ⟨[], "let b = f(1)".toList, by decide, by simp, by decide, rfl, by decide⟩
  have hnext : StandsAt secondScript.content.toList 15 1 0 :=
    ⟨["let b = f(1));".toList], [], by decide, by decide, by decide, rfl, rfl⟩
  obtain ⟨-, -, hchar, hparse⟩ := script_error_place hblocks hb hascii (by decide) hfirst
  obtain ⟨-, hplace, hchar', -⟩ := script_error_place hblocks hb hascii (by decide) hnext
  have hbracket : positionAt bracketTooMany (secondScript.offset + 12) = (6, 28) := by decide
  have hname : positionAt bracketTooMany (secondScript.offset + 15) = (7, 1) := by decide
  rw [hbracket] at hchar hparse
  rw [hname] at hchar' hplace
  refine ⟨?_, (hchar _ rfl).2 (by decide), hplace, (hchar' _ rfl).2 (by decide)⟩
  rw [hparse parseScript "C.svelte" e he hstart, htext]
  rfl

end Component

end ApiCatalog
