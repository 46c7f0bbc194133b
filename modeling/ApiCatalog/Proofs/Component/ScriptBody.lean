import ApiCatalog.Component.Script
import ApiCatalog.Component.Template
import ApiCatalog.Proofs.Component.Elements

namespace ApiCatalog.Component

open Text

variable {element? : List Char → Option Nat} {body tail s u : List Char} {k n : Nat}

def withScript (body tail : List Char) : List Char :=
  "<script>".toList ++ (body ++ ("</script>".toList ++ tail))

def CommentReaches (body tail : List Char) : Prop :=
  LeavesComment body ∧ "-->".toList <:+: tail

def StyleReaches (body tail : List Char) : Prop :=
  LeavesStyle (blankOut comment? body) ∧ (findClosing? "style" (blankOut comment? tail)).isSome

theorem scriptStart_append (s : List Char) : "<script>".toList ++ s = '<' :: ("script>".toList ++ s) := rfl

theorem scriptEnd_append (s : List Char) : "</script>".toList ++ s = '<' :: ("/script>".toList ++ s) := rfl

theorem length_withScript (body tail : List Char) : (withScript body tail).length = body.length + 17 + tail.length := by
  change ("<script>".toList ++ (body ++ ("</script>".toList ++ tail))).length = _
  rw [List.length_append, List.length_append, List.length_append, show "<script>".toList.length = 8 by decide,
    show "</script>".toList.length = 9 by decide]
  omega

/-! Blanking around a script -/

/-- What the readers of comments and of styles have in common: their elements start with a bracket, are not script tags, and
reach into a text after them only if they are incomplete without it. -/
structure PassesScripts (element? : List Char → Option Nat) : Prop where
  bracket : ∀ c s, c ≠ '<' → element? (c :: s) = none
  start : ∀ s, element? ('<' :: ("script>".toList ++ s)) = none
  finish : ∀ s, element? ('<' :: ("/script>".toList ++ s)) = none
  keeps : ∀ t, KeepsElements element? ('<' :: t)
  reaches : ∀ s t m, s ≠ [] → element? s = none → element? (s ++ '<' :: t) = some m → s.length < m

theorem passesScripts_comment : PassesScripts comment? where
  bracket := fun _ s hc => comment?_of_ne hc s
  start := fun s => by simp [comment?, dropPrefix?]
  finish := fun s => by simp [comment?, dropPrefix?]
  keeps := keepsElements_comment
  reaches := fun _ _ _ hs hnone hover => (comment?_over hs hnone hover).2.2

theorem passesScripts_style : PassesScripts styleElement? where
  bracket := fun _ s hc => styleElement?_of_ne hc s
  start := fun s => by simp [styleElement?, styleTag?, dropFolded?, foldCase]
  finish := fun s => by simp [styleElement?, styleTag?, dropFolded?, foldCase]
  keeps := keepsElements_style
  reaches := fun _ _ _ hs hnone hover => (styleElement?_over hs hnone hover).2.2

theorem PassesScripts.blankOut_start (h : PassesScripts element?) (s : List Char) :
    blankOut element? ("<script>".toList ++ s) = "<script>".toList ++ blankOut element? s := by
  rw [scriptStart_append, scriptStart_append]
  exact blankOut_keep h.bracket (h.start s) (by decide)

theorem PassesScripts.blankOut_withScript (h : PassesScripts element?)
    (hnone : ∀ u, u ≠ [] → Visits element? 0 body u → element? u = none →
      element? (u ++ '<' :: ("/script>".toList ++ tail)) = none) :
    blankOut element? (withScript body tail) = withScript (blankOut element? body) (blankOut element? tail) := by
  have hinside := blankAfter_append (h.keeps _) (Nat.zero_le _) hnone
  have hend := blankOut_keep h.bracket (h.finish tail) (by decide)
  have hstart := h.blankOut_start (body ++ '<' :: ("/script>".toList ++ tail))
  rw [blankOut.eq_def element? (body ++ _), hinside, hend] at hstart
  exact hstart

/-- An element that reaches out of the body hides the end of the script. -/
theorem PassesScripts.exists_blankOut_withScript (h : PassesScripts element?) (hvisit : Visits element? 0 body u) (hu : u ≠ [])
    (hnone : element? u = none) (hover : element? (u ++ '<' :: ("/script>".toList ++ tail)) = some n) :
    ∃ x s, Masks body x ∧ Masks ("/script>".toList ++ tail) s ∧
      blankOut element? (withScript body tail) = "<script>".toList ++ (x ++ ' ' :: s) := by
  obtain ⟨x, k, hx, hblank⟩ := exists_blankAfter_append (h.keeps _)
    (fun u m hu hnone hover => h.reaches u _ m hu hnone hover) hvisit hu (Nat.zero_le _) hnone hover
  refine ⟨x, blankAfter element? k ("/script>".toList ++ tail), hx, masks_blankAfter element? k _, ?_⟩
  have hstart := h.blankOut_start (body ++ '<' :: ("/script>".toList ++ tail))
  rw [blankOut.eq_def element? (body ++ _), hblank] at hstart
  exact hstart

theorem close_infix_iff : "-->".toList <:+: '<' :: ("/script>".toList ++ tail) ↔ "-->".toList <:+: tail := by
  simp [List.infix_cons_iff, List.cons_prefix_cons]

theorem blankOut_comment_withScript (h : ¬ CommentReaches body tail) : blankOut comment? (withScript body tail) =
    withScript (blankOut comment? body) (blankOut comment? tail) := by
  apply passesScripts_comment.blankOut_withScript
  intro u hu hvisit hnone
  cases hover : comment? (u ++ '<' :: ("/script>".toList ++ tail)) with
  | none => rfl
  | some m =>
    obtain ⟨hopened, hclosed, -⟩ := comment?_over hu hnone hover
    exact absurd ⟨leavesComment_iff.mpr ⟨u, hvisit, hopened, hnone⟩, close_infix_iff.mp hclosed⟩ h

theorem blankOut_of_commentReaches (h : CommentReaches body tail) : ∃ x s, Masks body x ∧
    Masks ("/script>".toList ++ tail) s ∧ blankOut comment? (withScript body tail) = "<script>".toList ++ (x ++ ' ' :: s) := by
  obtain ⟨hleaves, hclose⟩ := h
  obtain ⟨u, hvisit, hopened, hnone⟩ := leavesComment_iff.mp hleaves
  have hu : u ≠ [] := by
    rintro rfl
    exact absurd (List.prefix_nil.mp hopened) (by decide)
  obtain ⟨m, hover⟩ := exists_comment?_over hopened (close_infix_iff.mpr hclose)
  exact passesScripts_comment.exists_blankOut_withScript hvisit hu hnone hover

theorem findClosing?_style_isSome (h : (findClosing? "style" ('<' :: ("/script>".toList ++ tail))).isSome) :
    (findClosing? "style" tail).isSome := by
  have hother : closingTag? "style" ('<' :: ("/script>".toList ++ tail)) = none := by
    simp [closingTag?, dropFolded?, foldCase]
  rw [findClosing?, Option.isSome_map, findFrom_cons hother, findFrom_closingTag?_append (by decide),
    ← Nat.add_zero (0 + 1 + _), findFrom_shift, Option.isSome_map] at h
  rw [findClosing?, Option.isSome_map]
  exact h

theorem blankOut_style_withScript (h : ¬ (LeavesStyle body ∧ (findClosing? "style" tail).isSome)) :
    blankOut styleElement? (withScript body tail) = withScript (blankOut styleElement? body) (blankOut styleElement? tail) := by
  apply passesScripts_style.blankOut_withScript
  intro u hu hvisit hnone
  cases hover : styleElement? (u ++ '<' :: ("/script>".toList ++ tail)) with
  | none => rfl
  | some m =>
    obtain ⟨hopened, hclosed, -⟩ := styleElement?_over hu hnone hover
    exact absurd ⟨⟨u, hvisit, hopened, hnone⟩, findClosing?_style_isSome hclosed⟩ h

theorem blankOut_of_leavesStyle (hbody : LeavesStyle body) (htail : (findClosing? "style" tail).isSome) : ∃ x s, Masks body x ∧
    Masks ("/script>".toList ++ tail) s ∧ blankOut styleElement? (withScript body tail) = "<script>".toList ++ (x ++ ' ' :: s) := by
  obtain ⟨u, hvisit, hopened, hnone⟩ := hbody
  have hu : u ≠ [] := by
    rintro rfl
    obtain ⟨c, rest, hrest, -⟩ := hopened
    cases hrest
  have hv : '>' ∉ "/script".toList := by decide
  obtain ⟨m, hover⟩ := exists_styleElement?_over hopened hv htail
  exact passesScripts_style.exists_blankOut_withScript hvisit hu hnone hover

/-! The script -/

theorem readAttributes_close {α : Type} (accept : List Char → List Char → Option α) (n : Nat) (s : List Char) :
    readAttributes accept (n + 1) ('>' :: s) = accept ('>' :: s) s := by
  simp [readAttributes, tagEnd?_close, trimLeft, show isBlank '>' = false by decide]

theorem readScriptTag_plain {α : Type} (accept : OpeningTag → Option α) (s : List Char) :
    readScriptTag accept ("<script>".toList ++ s) = accept { attributes := [], length := 8 } := by
  have hdrop : dropFolded? "<script".toList ("<script>".toList ++ s) = some ('>' :: s) :=
    dropFolded?_eq_some_iff.mpr ⟨"<script".toList, rfl, by decide⟩
  have hlength : ("<script>".toList ++ s).length - s.length = 8 := by
    rw [List.length_append, Nat.add_sub_cancel]
    decide
  rw [readScriptTag, hdrop, Option.bind_eq_bind, Option.bind_some, readAttributes_close, hlength, Nat.sub_self]
  rfl

theorem closingTag?_eq_none (h : ¬ HasWord "</script".toList s) (hu : u <:+ s) : closingTag? "script" u = none := by
  rw [closingTag?, show '<' :: '/' :: "script".toList = "</script".toList from rfl, dropFolded?_eq_none h hu]
  rfl

theorem findClosing?_eq_none (h : ¬ HasWord "</script".toList s) : findClosing? "script" s = none := by
  rw [findClosing?, findFrom_eq_none fun u hu => closingTag?_eq_none h hu]
  rfl

theorem closingTag?_script (s : List Char) : closingTag? "script" ("</script>".toList ++ s) = some 9 := by
  have hdrop : dropFolded? ('<' :: '/' :: "script".toList) ("</script>".toList ++ s) = some ('>' :: s) :=
    dropFolded?_eq_some_iff.mpr ⟨"</script".toList, rfl, by decide⟩
  have hlength : ("</script>".toList ++ s).length - s.length = 9 := by
    rw [List.length_append, Nat.add_sub_cancel]
    decide
  rw [closingTag?, hdrop, Option.bind_eq_bind, Option.bind_some, tagEnd?_close, Option.bind_some, hlength]
  rfl

theorem findClosing?_body (h : ¬ HasWord "</script".toList body) (tail : List Char) :
    findClosing? "script" (body ++ ("</script>".toList ++ tail)) = some (body.length, body.length + 9) := by
  have hend := closingTag?_script tail
  rw [scriptEnd_append] at hend ⊢
  rw [findClosing?_append (by decide), findClosing?_eq_none h, Option.none_or, findClosing?, findFrom, hend]
  rfl

/-! Reading the scripts -/

theorem scriptsFrom_skip (content s t : List Char) (k : Nat) :
    scriptsFrom content k s.length (s ++ t) = scriptsFrom content (k + s.length) 0 t := by
  induction s generalizing k with
  | nil => rfl
  | cons c cs ih =>
    rw [List.cons_append, List.length_cons, scriptsFrom, ih, Nat.add_assoc, Nat.add_comm 1]

theorem scriptsFrom_eq_nil (h : ¬ HasWord "<script".toList s) (content : List Char) (k : Nat) :
    scriptsFrom content k 0 s = .ok [] := by
  induction s generalizing k with
  | nil => rfl
  | cons c cs ih =>
    have hnone : scriptTag? (c :: cs) = none := by
      rw [scriptTag?, readScriptTag, dropFolded?_eq_none h List.suffix_rfl]
      rfl
    have hcs : ¬ HasWord "<script".toList cs := fun hcs => h (List.infix_cons_iff.mpr (.inr hcs))
    rw [scriptsFrom, hnone]
    exact ih hcs (k + 1)

theorem scriptTag?_plain (s : List Char) :
    scriptTag? ('<' :: ("script>".toList ++ s)) = some { attributes := [], length := 8 } :=
  readScriptTag_plain some s

theorem scriptsFrom_unclosed (h : findClosing? "script" s = none) (content : List Char) :
    scriptsFrom content 0 0 ("<script>".toList ++ s) = .error 0 := by
  have hdrop : ('<' :: ("script>".toList ++ s)).drop 8 = s := rfl
  rw [scriptStart_append, scriptsFrom, scriptTag?_plain]
  simp only [hdrop, h]

theorem scriptsFrom_closed (h : findClosing? "script" s = some (k, n)) (content : List Char) :
    scriptsFrom content 0 0 ("<script>".toList ++ s) = (scriptsFrom content (8 + n) 0 (s.drop n)).map
      ({ attributes := "", content := String.ofList ((content.drop 8).take k), offset := 8 } :: ·) := by
  have hdrop : ('<' :: ("script>".toList ++ s)).drop 8 = s := rfl
  obtain ⟨-, hn⟩ := findClosing?_bounds h
  have hlength : ("script>".toList ++ s.take n).length = 8 + n - 1 := by
    rw [List.length_append, List.length_take_of_le hn, show "script>".toList.length = 7 by decide]
    omega
  have hskip := scriptsFrom_skip content ("script>".toList ++ s.take n) (s.drop n) 1
  rw [List.append_assoc, List.take_append_drop, hlength, show 1 + (8 + n - 1) = 8 + n by omega] at hskip
  rw [scriptStart_append, scriptsFrom, scriptTag?_plain]
  simp only [hdrop, h, Nat.zero_add, hskip]
  cases scriptsFrom content (8 + n) 0 (s.drop n) with
  | error e => rfl
  | ok rest => rfl

theorem drop_withScript (body tail : List Char) :
    (withScript body tail).drop 8 = body ++ ("</script>".toList ++ tail) :=
  rfl

theorem scripts_withScript (hbody : ¬ HasWord "</script".toList body) (htail : ¬ HasWord "<script".toList tail)
    (h : ¬ CommentReaches body tail) :
    scripts (withScript body tail) = .ok [{ attributes := "", content := String.ofList body, offset := 8 }] := by
  have hclosed : ¬ HasWord "</script".toList (blankOut comment? body) :=
    (masks_blankAfter comment? 0 body).not_hasWord (by decide) hbody
  have hnext : ¬ HasWord "<script".toList (blankOut comment? tail) :=
    (masks_blankAfter comment? 0 tail).not_hasWord (by decide) htail
  have hrest : (blankOut comment? body ++ ("</script>".toList ++ blankOut comment? tail)).drop
      ((blankOut comment? body).length + 9) = blankOut comment? tail := by
    rw [List.drop_append, Nat.add_sub_cancel_left, List.drop_eq_nil_of_le (Nat.le_add_right _ _)]
    rfl
  rw [scripts, blankOut_comment_withScript h]
  change scriptsFrom _ 0 0 ("<script>".toList ++ (blankOut comment? body ++ ("</script>".toList ++ blankOut comment? tail))) = _
  rw [scriptsFrom_closed (findClosing?_body hclosed _), hrest, scriptsFrom_eq_nil hnext, drop_withScript, blankOut,
    length_blankAfter, List.take_left]
  rfl

/-! A hidden end of the script -/

theorem not_hasWord_reached {x : List Char} (hbody : ¬ HasWord "</script".toList body)
    (htail : ¬ HasWord "</script".toList tail) (hx : Masks body x) (hs : Masks ("/script>".toList ++ tail) s) :
    ¬ HasWord "</script".toList (x ++ ' ' :: s) := by
  have hafter : ¬ HasWord "</script".toList ("/script>".toList ++ tail) := by
    simpa [HasWord, List.infix_cons_iff, List.cons_prefix_cons, foldCase] using htail
  exact not_hasWord_append (by decide) (hx.not_hasWord (by decide) hbody) (hs.not_hasWord (by decide) hafter)

theorem length_lt_of_findClosing? {t : List Char} (h : ¬ HasWord "</script".toList s)
    (hfind : findClosing? "script" (s ++ ' ' :: t) = some (k, n)) : s.length < k := by
  have hsame : ∀ u, u ≠ [] → u <:+ s → closingTag? "script" (u ++ ' ' :: t) = closingTag? "script" u := by
    intro u _ hu
    rw [closingTag?_eq_none h hu, closingTag?, show '<' :: '/' :: "script".toList = "</script".toList from rfl,
      dropFolded?_append (by decide), dropFolded?_eq_none h hu]
    rfl
  rw [findClosing?, findFrom_append rfl hsame, findFrom_eq_none fun u hu => closingTag?_eq_none h hu, Option.none_or,
    Nat.zero_add, findFrom_cons (closingTag?_of_ne (by decide) t)] at hfind
  obtain ⟨⟨start, length⟩, hfrom, heq⟩ := Option.map_eq_some_iff.mp hfind
  cases heq
  obtain ⟨before, after, -, rfl, -⟩ := findFrom_eq_some hfrom
  omega

theorem scripts_ne_of_commentReaches (hbody : ¬ HasWord "</script".toList body) (h : CommentReaches body tail) :
    scripts (withScript body tail) ≠ .ok [{ attributes := "", content := String.ofList body, offset := 8 }] := by
  obtain ⟨x, s, hx, hs, hblank⟩ := blankOut_of_commentReaches h
  rw [scripts, hblank]
  cases hfind : findClosing? "script" (x ++ ' ' :: s) with
  | none =>
    rw [scriptsFrom_unclosed hfind]
    intro heq
    cases heq
  | some found =>
    obtain ⟨start, finish⟩ := found
    -- The text up to the end that was found is longer than the body.
    have hlate : x.length < start := length_lt_of_findClosing? (hx.not_hasWord (by decide) hbody) hfind
    rw [← hx.length_eq] at hlate
    have hinside : start ≤ (body ++ ("</script>".toList ++ tail)).length := by
      obtain ⟨hle, hlength⟩ := findClosing?_bounds hfind
      rw [List.length_append, List.length_cons, ← hx.length_eq, ← hs.length_eq] at hlength
      rw [scriptEnd_append, List.length_append, List.length_cons]
      omega
    rw [scriptsFrom_closed hfind, drop_withScript]
    intro heq
    cases hrest : scriptsFrom (withScript body tail) (8 + finish) 0 ((x ++ ' ' :: s).drop finish) with
    | error e =>
      rw [hrest] at heq
      cases heq
    | ok rest =>
      rw [hrest] at heq
      have hcontent : String.ofList ((body ++ ("</script>".toList ++ tail)).take start) = String.ofList body :=
        congrArg Script.content (List.cons.inj (Except.ok.inj heq)).1
      have hlength := congrArg List.length (String.ofList_injective hcontent)
      rw [List.length_take_of_le hinside] at hlength
      omega

theorem scripts_eq_error (hbody : ¬ HasWord "</script".toList body) (htail : ¬ HasWord "</script".toList tail)
    (h : CommentReaches body tail) : scripts (withScript body tail) = .error 0 := by
  obtain ⟨x, s, hx, hs, hblank⟩ := blankOut_of_commentReaches h
  rw [scripts, hblank, scriptsFrom_unclosed (findClosing?_eq_none (not_hasWord_reached hbody htail hx hs))]

/-! The template -/

theorem scriptElement?_plain (s : List Char) :
    scriptElement? ("<script>".toList ++ s) = (findClosing? "script" s).map fun found => 8 + found.2 :=
  readScriptTag_plain _ s

theorem scriptElement?_withScript (h : ¬ HasWord "</script".toList body) (tail : List Char) :
    scriptElement? (withScript body tail) = some (body.length + 17) := by
  change scriptElement? ("<script>".toList ++ (body ++ ("</script>".toList ++ tail))) = _
  rw [scriptElement?_plain, findClosing?_body h, Option.map_some]
  congr 1
  omega

theorem blankOut_script_withScript (h : ¬ HasWord "</script".toList body) (tail : List Char) :
    blankOut scriptElement? (withScript body tail) = (withScript body []).map blankChar ++ blankOut scriptElement? tail := by
  have hread := scriptElement?_withScript h tail
  have hsplit : withScript body tail = '<' :: ("script>".toList ++ (body ++ "</script>".toList) ++ tail) := by
    rw [List.append_assoc, List.append_assoc]
    rfl
  have hlength : ("script>".toList ++ (body ++ "</script>".toList)).length + 1 = body.length + 17 := length_withScript body []
  rw [hsplit] at hread ⊢
  rw [blankOut, blankAfter_enter hread, blankAfter_over (by omega), Nat.sub_eq_zero_of_le (by omega)]
  rfl

theorem templateText_withScript (hbody : ¬ HasWord "</script".toList body) (hcomment : ¬ CommentReaches body tail)
    (hstyle : ¬ StyleReaches body tail) :
    templateText (withScript body tail) = (withScript body []).map blankChar ++ templateText tail := by
  have hmask : Masks body (blankOut styleElement? (blankOut comment? body)) :=
    (masks_blankAfter comment? 0 body).trans (masks_blankAfter styleElement? 0 _)
  rw [templateText, blankOut_comment_withScript hcomment, blankOut_style_withScript hstyle,
    blankOut_script_withScript (hmask.not_hasWord (by decide) hbody)]
  congr 1
  change ("<script>".toList ++ (_ ++ "</script>".toList)).map blankChar =
    ("<script>".toList ++ (body ++ "</script>".toList)).map blankChar
  rw [List.map_append, List.map_append, List.map_append, List.map_append, hmask.map_blankChar]

theorem start_prefix_blankOut (h : ¬ HasWord "</script".toList s) :
    "<script>".toList <+: blankOut scriptElement? ("<script>".toList ++ s) := by
  have hbracket : ∀ c s, c ≠ '<' → scriptElement? (c :: s) = none := by
    intro c s hc
    have hfold : '<' ≠ foldCase c := fun h => hc (foldCase_eq_open h.symm)
    simp [scriptElement?, readScriptTag, dropFolded?, hfold]
  have hnone : scriptElement? ('<' :: ("script>".toList ++ s)) = none := by
    rw [← scriptStart_append, scriptElement?_plain, findClosing?_eq_none h]
    rfl
  rw [scriptStart_append, blankOut_keep hbracket hnone (by decide)]
  exact ⟨_, rfl⟩

theorem start_prefix_templateText (hbody : ¬ HasWord "</script".toList body) (htail : ¬ HasWord "</script".toList tail)
    (h : CommentReaches body tail ∨ StyleReaches body tail) :
    "<script>".toList <+: templateText (withScript body tail) := by
  by_cases hcomment : CommentReaches body tail
  · obtain ⟨x, s, hx, hs, hblank⟩ := blankOut_of_commentReaches hcomment
    have hleft := not_hasWord_reached hbody htail hx hs
    rw [templateText, hblank, passesScripts_style.blankOut_start]
    exact start_prefix_blankOut ((masks_blankAfter styleElement? 0 _).not_hasWord (by decide) hleft)
  · obtain ⟨hopened, hclosed⟩ := h.resolve_left hcomment
    obtain ⟨x, s, hx, hs, hblank⟩ := blankOut_of_leavesStyle hopened hclosed
    have hleft := not_hasWord_reached ((masks_blankAfter comment? 0 body).not_hasWord (by decide) hbody)
      ((masks_blankAfter comment? 0 tail).not_hasWord (by decide) htail) hx hs
    rw [templateText, blankOut_comment_withScript hcomment, hblank]
    exact start_prefix_blankOut hleft

/-! Expressions after the script -/

def OpenExpression.shift (e : OpenExpression) (n : Nat) : OpenExpression :=
  { e with start := e.start + n }

theorem OpenExpression.step_shift (e : OpenExpression) (c : Char) (n : Nat) :
    (e.shift n).step c = (e.step c).map (·.shift n) := by
  obtain ⟨start, inner, quote, escaped⟩ := e
  cases escaped with
  | true => rfl
  | false =>
    cases quote with
    | some q =>
      simp only [step, shift]
      split_ifs <;> rfl
    | none =>
      cases inner <;> simp only [step, shift] <;> split_ifs <;> rfl

theorem openAtEnd_shift (e : Option OpenExpression) (k n : Nat) (s : List Char) :
    openAtEnd (e.map (·.shift n)) (k + n) s = (openAtEnd e k s).map (· + n) := by
  induction s generalizing e k with
  | nil => cases e <;> rfl
  | cons c cs ih =>
    cases e with
    | some e =>
      rw [Option.map_some, openAtEnd, openAtEnd, OpenExpression.step_shift, Nat.add_right_comm]
      exact ih (e.step c) (k + 1)
    | none =>
      rw [Option.map_none, openAtEnd, openAtEnd, Nat.add_right_comm, ← ih]
      split <;> rfl

theorem openAtEnd_append (h : '{' ∉ s) (k : Nat) (t : List Char) :
    openAtEnd none k (s ++ t) = openAtEnd none (k + s.length) t := by
  induction s generalizing k with
  | nil => rfl
  | cons c cs ih =>
    obtain ⟨hc, hcs⟩ : '{' ≠ c ∧ '{' ∉ cs := by simpa using h
    rw [List.cons_append, openAtEnd, if_neg hc.symm, ih hcs, List.length_cons, Nat.add_assoc, Nat.add_comm 1]

theorem not_mem_map_blankChar (s : List Char) : '{' ∉ s.map blankChar := by
  intro hmem
  obtain ⟨c, -, hc⟩ := List.mem_map.mp hmem
  have hfiller := isFiller_blankChar c
  rw [hc] at hfiller
  exact absurd hfiller (by decide)

theorem unclosedExpression?_withScript
    (h : templateText (withScript body tail) = (withScript body []).map blankChar ++ templateText tail) :
    unclosedExpression? (withScript body tail) = (unclosedExpression? tail).map (· + (body.length + 17)) := by
  have hlength : ((withScript body []).map blankChar).length = body.length + 17 := by
    rw [List.length_map, length_withScript]
    rfl
  rw [unclosedExpression?, h, openAtEnd_append (not_mem_map_blankChar _), hlength]
  exact openAtEnd_shift none 0 _ _

theorem script_body_hidden (hbody : ¬ HasWord "</script".toList body) (htail : ¬ HasWord "<script".toList tail) :
    (scripts (withScript body tail) = .ok [{ attributes := "", content := String.ofList body, offset := 8 }] ↔
      ¬ CommentReaches body tail) ∧
    (¬ CommentReaches body tail → ¬ StyleReaches body tail →
      templateText (withScript body tail) = (withScript body []).map blankChar ++ templateText tail ∧
      unclosedExpression? (withScript body tail) = (unclosedExpression? tail).map (· + (body.length + 17))) ∧
    (¬ HasWord "</script".toList tail →
      (CommentReaches body tail → scripts (withScript body tail) = .error 0) ∧
      (CommentReaches body tail ∨ StyleReaches body tail →
        "<script>".toList <+: templateText (withScript body tail))) := by
  refine ⟨⟨?_, scripts_withScript hbody htail⟩, ?_, ?_⟩
  · intro hread hreaches
    exact scripts_ne_of_commentReaches hbody hreaches hread
  · intro hcomment hstyle
    have htemplate := templateText_withScript hbody hcomment hstyle
    exact ⟨htemplate, unclosedExpression?_withScript htemplate⟩
  · intro hend
    exact ⟨scripts_eq_error hbody hend, start_prefix_templateText hbody hend⟩

instance (w s : List Char) : Decidable (HasWord w s) :=
  inferInstanceAs (Decidable (w <:+: s.map foldCase))

instance (body tail : List Char) : Decidable (CommentReaches body tail) :=
  inferInstanceAs (Decidable ("<!--".toList <:+: blankOut comment? body ∧ "-->".toList <:+: tail))

def markupBody : List Char :=
  "a = '<style>\x7b'\n<!-- \x7d --> b".toList

def openMarkup : List Char :=
  "<p>\x7ba</p>".toList

theorem script_body_hidden_markupBody :
    scripts (withScript markupBody openMarkup) =
      .ok [{ attributes := "", content := String.ofList markupBody, offset := 8 }] ∧
    templateText (withScript markupBody openMarkup) = (withScript markupBody []).map blankChar ++ templateText openMarkup ∧
    unclosedExpression? (withScript markupBody openMarkup) = some 47 := by
  obtain ⟨hscripts, htemplate, -⟩ := script_body_hidden (show ¬ HasWord "</script".toList markupBody by decide)
    (show ¬ HasWord "<script".toList openMarkup by decide)
  have hcomment : ¬ CommentReaches markupBody openMarkup := by decide
  have hstyle : ¬ StyleReaches markupBody openMarkup := fun h => absurd h.2 (by decide)
  obtain ⟨hblank, hopen⟩ := htemplate hcomment hstyle
  exact ⟨hscripts.mpr hcomment, hblank, hopen.trans (by decide)⟩

theorem script_body_reached :
    scripts (withScript "const open = '<!--';".toList "\n<!-- note -->".toList) = .error 0 ∧
    unclosedExpression? (withScript "let a = '\x7b<style>';".toList "<style></style>".toList) = some 17 := by
  decide

end ApiCatalog.Component
