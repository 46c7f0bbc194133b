import ApiCatalog.Component.Basic
import ApiCatalog.Proofs.Component.Blanking
import ApiCatalog.Proofs.Text.Positions

namespace ApiCatalog.Component

open Text

/-! The grammar -/

inductive StringRest (q : Char) : List Char → Prop
  | close : StringRest q [q]
  | escaped (c : Char) {s : List Char} (h : StringRest q s) : StringRest q ('\\' :: c :: s)
  | char {c : Char} {s : List Char} (hq : c ≠ q) (hb : c ≠ '\\') (h : StringRest q s) : StringRest q (c :: s)

inductive Inside : List Char → Prop
  | nil : Inside []
  | char {c : Char} {s : List Char} (hquote : ¬ isQuote c) (hopen : c ≠ '{') (hclose : c ≠ '}') (h : Inside s) :
      Inside (c :: s)
  | string {q : Char} {s t : List Char} (hquote : isQuote q) (hs : StringRest q s) (h : Inside t) : Inside (q :: (s ++ t))
  | braces {s t : List Char} (hs : Inside s) (h : Inside t) : Inside ('{' :: (s ++ '}' :: t))

def IsExpression (s : List Char) : Prop :=
  ∃ inside, Inside inside ∧ s = '{' :: (inside ++ ['}'])

inductive IsTemplate : List Char → Prop
  | nil : IsTemplate []
  | char {c : Char} {s : List Char} (hopen : c ≠ '{') (h : IsTemplate s) : IsTemplate (c :: s)
  | expression {s t : List Char} (hs : IsExpression s) (h : IsTemplate t) : IsTemplate (s ++ t)

/-- A text that closes so many braces, and at its end one more. -/
inductive Closes : Nat → List Char → Prop
  | last {s : List Char} (hs : Inside s) : Closes 0 (s ++ ['}'])
  | brace {n : Nat} {s t : List Char} (hs : Inside s) (h : Closes n t) : Closes (n + 1) (s ++ '}' :: t)

inductive Ends : OpenExpression → List Char → Prop
  | outside {start inner : Nat} {s : List Char} (h : Closes inner s) : Ends ⟨start, inner, none, false⟩ s
  | string {start inner : Nat} {q : Char} {s t : List Char} (hs : StringRest q s) (h : Closes inner t) :
      Ends ⟨start, inner, some q, false⟩ (s ++ t)
  | escaped {start inner : Nat} {quote : Option Char} {s : List Char} (c : Char) (h : Ends ⟨start, inner, quote, false⟩ s) :
      Ends ⟨start, inner, quote, true⟩ (c :: s)

variable {q c : Char} {s t u : List Char} {e : OpenExpression} {k n start offset : Nat}

/-! One character -/

inductive Steps : OpenExpression → Char → Option OpenExpression → Prop
  | escaped {start inner : Nat} {quote : Option Char} {c : Char} :
      Steps ⟨start, inner, quote, true⟩ c (some ⟨start, inner, quote, false⟩)
  | backslash {start inner : Nat} {q : Char} : Steps ⟨start, inner, some q, false⟩ '\\' (some ⟨start, inner, some q, true⟩)
  | stringEnd {start inner : Nat} {q : Char} (hq : q ≠ '\\') :
      Steps ⟨start, inner, some q, false⟩ q (some ⟨start, inner, none, false⟩)
  | stringChar {start inner : Nat} {q c : Char} (hq : c ≠ q) (hb : c ≠ '\\') :
      Steps ⟨start, inner, some q, false⟩ c (some ⟨start, inner, some q, false⟩)
  | quote {start inner : Nat} {q : Char} (hquote : isQuote q) :
      Steps ⟨start, inner, none, false⟩ q (some ⟨start, inner, some q, false⟩)
  | opening {start inner : Nat} : Steps ⟨start, inner, none, false⟩ '{' (some ⟨start, inner + 1, none, false⟩)
  | closing {start inner : Nat} : Steps ⟨start, inner + 1, none, false⟩ '}' (some ⟨start, inner, none, false⟩)
  | last {start : Nat} : Steps ⟨start, 0, none, false⟩ '}' none
  | char {start inner : Nat} {c : Char} (hquote : ¬ isQuote c) (hopen : c ≠ '{') (hclose : c ≠ '}') :
      Steps ⟨start, inner, none, false⟩ c (some ⟨start, inner, none, false⟩)

theorem OpenExpression.steps (e : OpenExpression) (c : Char) : Steps e c (e.step c) := by
  obtain ⟨start, inner, quote, escaped⟩ := e
  cases escaped with
  | true => exact .escaped
  | false =>
    simp only [step, Bool.false_eq_true, if_false]
    cases quote with
    | some q =>
      dsimp only
      split_ifs with hb hq
      · subst hb; exact .backslash
      · subst hq; exact .stringEnd hb
      · exact .stringChar hq hb
    | none =>
      dsimp only
      split_ifs with hquote hopen hclose
      · exact .quote hquote
      · subst hopen; exact .opening
      · subst hclose
        cases inner with
        | zero => exact .last
        | succ n => exact .closing
      · exact .char hquote hopen hclose

theorem Steps.step_eq {o : Option OpenExpression} (h : Steps e c o) : e.step c = o := by
  cases h with
  | escaped | backslash | opening | closing | last => rfl
  | stringEnd hq => simp [OpenExpression.step, hq]
  | stringChar hq hb => simp [OpenExpression.step, hq, hb]
  | quote hquote => simp [OpenExpression.step, hquote]
  | char hquote hopen hclose => simp [OpenExpression.step, hquote, hopen, hclose]

theorem Steps.openAtEnd_cons {o : Option OpenExpression} (h : Steps e c o) (k : Nat) (s : List Char) :
    openAtEnd (some e) k (c :: s) = openAtEnd o (k + 1) s := by
  rw [openAtEnd, h.step_eq]

/-! Reading what the grammar allows -/

theorem openAtEnd_stringRest (hq : isQuote q) (h : StringRest q s) (start inner k : Nat) (t : List Char) :
    openAtEnd (some ⟨start, inner, some q, false⟩) k (s ++ t) =
      openAtEnd (some ⟨start, inner, none, false⟩) (k + s.length) t := by
  have hback : q ≠ '\\' := by
    rintro rfl
    exact absurd hq (by decide)
  induction h generalizing k with
  | close => exact (Steps.stringEnd hback).openAtEnd_cons k t
  | escaped c h ih =>
    rw [List.cons_append, List.cons_append, Steps.backslash.openAtEnd_cons, Steps.escaped.openAtEnd_cons, ih,
      List.length_cons, List.length_cons]
    congr 1
    omega
  | char hne hb h ih =>
    rw [List.cons_append, (Steps.stringChar hne hb).openAtEnd_cons, ih, List.length_cons]
    congr 1
    omega

theorem openAtEnd_inside (h : Inside s) (start inner k : Nat) (t : List Char) :
    openAtEnd (some ⟨start, inner, none, false⟩) k (s ++ t) =
      openAtEnd (some ⟨start, inner, none, false⟩) (k + s.length) t := by
  induction h generalizing inner k t with
  | nil => rfl
  | char hquote hopen hclose h ih =>
    rw [List.cons_append, (Steps.char hquote hopen hclose).openAtEnd_cons, ih, List.length_cons]
    congr 1
    omega
  | string hquote hs h ih =>
    rw [List.cons_append, (Steps.quote hquote).openAtEnd_cons, List.append_assoc, openAtEnd_stringRest hquote hs, ih,
      List.length_cons, List.length_append]
    congr 1
    omega
  | braces hs h ihs ih =>
    rw [List.cons_append, Steps.opening.openAtEnd_cons, List.append_assoc, ihs, List.cons_append,
      Steps.closing.openAtEnd_cons, ih, List.length_cons, List.length_append, List.length_cons]
    congr 1
    omega

theorem openAtEnd_close (h : Inside s) (start k : Nat) (t : List Char) :
    openAtEnd (some ⟨start, 0, none, false⟩) k (s ++ '}' :: t) = openAtEnd none (k + s.length + 1) t := by
  rw [openAtEnd_inside h, Steps.last.openAtEnd_cons]

theorem openAtEnd_expression (h : IsExpression s) (k : Nat) (t : List Char) :
    openAtEnd none k (s ++ t) = openAtEnd none (k + s.length) t := by
  obtain ⟨inside, hinside, rfl⟩ := h
  rw [List.cons_append, List.append_assoc, openAtEnd, if_pos rfl]
  refine (openAtEnd_close hinside k (k + 1) t).trans ?_
  rw [List.length_cons, List.length_append, List.length_singleton]
  congr 1
  omega

theorem IsTemplate.openAtEnd (h : IsTemplate s) (k : Nat) : openAtEnd none k s = none := by
  induction h generalizing k with
  | nil => rfl
  | char hopen h ih => rw [Component.openAtEnd, if_neg hopen, ih]
  | expression hs h ih => rw [openAtEnd_expression hs, ih]

/-! Reading any text -/

theorem Inside.append (hs : Inside s) (ht : Inside t) : Inside (s ++ t) := by
  induction hs with
  | nil => exact ht
  | char hquote hopen hclose _ ih => exact .char hquote hopen hclose ih
  | string hquote hs _ ih =>
    rw [List.cons_append, List.append_assoc]
    exact .string hquote hs ih
  | braces hs _ _ ih =>
    rw [List.cons_append, List.append_assoc]
    exact .braces hs ih

theorem Closes.append (hs : Inside s) (ht : Closes n t) : Closes n (s ++ t) := by
  cases ht with
  | last ht =>
    rw [← List.append_assoc]
    exact .last (hs.append ht)
  | brace ht h =>
    rw [← List.append_assoc]
    exact .brace (hs.append ht) h

theorem Closes.string (hquote : isQuote q) (hs : StringRest q s) (h : Closes n t) : Closes n (q :: (s ++ t)) := by
  have hstring : Inside (q :: s) := by simpa using Inside.string hquote hs .nil
  exact h.append hstring

theorem Closes.braces (h : Closes (n + 1) s) : Closes n ('{' :: s) := by
  cases h with
  | @brace _ s t hs h => simpa using h.append (.braces hs .nil)

theorem Ends.of_steps {e' : OpenExpression} (hstep : Steps e c (some e')) (h : Ends e' s) : Ends e (c :: s) := by
  cases hstep with
  | escaped => exact .escaped _ h
  | backslash =>
    cases h with
    | escaped d h =>
      cases h with
      | string hs h => exact .string (.escaped d hs) h
  | stringEnd =>
    cases h with
    | outside h => exact .string .close h
  | stringChar hq hb =>
    cases h with
    | string hs h => exact .string (.char hq hb hs) h
  | quote hquote =>
    cases h with
    | string hs h => exact .outside (.string hquote hs h)
  | opening =>
    cases h with
    | outside h => exact .outside h.braces
  | closing =>
    cases h with
    | outside h => exact .outside (.brace .nil h)
  | char hquote hopen hclose =>
    cases h with
    | outside h => exact .outside (h.append (.char hquote hopen hclose .nil))

theorem Ends.of_last (hstep : Steps e c none) : Ends e [c] := by
  cases hstep with
  | last => exact .outside (.last .nil)

theorem Steps.start_eq {e' : OpenExpression} (h : Steps e c (some e')) : e'.start = e.start := by
  cases h <;> rfl

theorem openAtEnd_start (e : OpenExpression) (k : Nat) (s : List Char) :
    openAtEnd (some e) k s = some e.start ∨ ∃ t u, s = t ++ u ∧ Ends e t := by
  induction s generalizing e k with
  | nil => exact .inl rfl
  | cons c cs ih =>
    have hstep := e.steps c
    rw [openAtEnd]
    cases hnext : e.step c with
    | none =>
      rw [hnext] at hstep
      exact .inr ⟨[c], cs, rfl, .of_last hstep⟩
    | some e' =>
      rw [hnext] at hstep
      rcases ih e' (k + 1) with hopen | ⟨t, u, rfl, ht⟩
      · exact .inl (hopen.trans (congrArg some hstep.start_eq))
      · exact .inr ⟨c :: t, u, rfl, ht.of_steps hstep⟩

theorem openAtEnd_brace (k : Nat) (s : List Char) :
    openAtEnd none k ('{' :: s) = some k ∨ ∃ t u, '{' :: s = t ++ u ∧ IsExpression t := by
  rw [openAtEnd, if_pos rfl]
  rcases openAtEnd_start { start := k } (k + 1) s with hopen | ⟨t, u, rfl, ht⟩
  · exact .inl hopen
  · cases ht with
    | outside h =>
      cases h with
      | @last t ht => exact .inr ⟨'{' :: (t ++ ['}']), u, rfl, t, ht, rfl⟩

theorem template_or_unclosed (k : Nat) (s : List Char) :
    IsTemplate s ∨ ∃ before after, s = before ++ '{' :: after ∧ IsTemplate before ∧
      (∀ t, t <+: '{' :: after → ¬ IsExpression t) ∧ openAtEnd none k s = some (k + before.length) := by
  induction hlength : s.length using Nat.strongRecOn generalizing k s with
  | ind n ih =>
    subst hlength
    cases s with
    | nil => exact .inl .nil
    | cons c cs =>
      by_cases hopen : c = '{'
      · subst hopen
        by_cases hclosed : ∃ t u, '{' :: cs = t ++ u ∧ IsExpression t
        · -- The expression is read whole, and what comes after it is shorter.
          obtain ⟨t, u, hsplit, ht⟩ := hclosed
          have hpos : 0 < t.length := by
            obtain ⟨inside, -, rfl⟩ := ht
            exact Nat.succ_pos _
          have hlt : u.length < ('{' :: cs).length := by
            rw [hsplit, List.length_append]
            omega
          rw [hsplit, openAtEnd_expression ht]
          rcases ih _ hlt (k + t.length) u rfl with hu | ⟨before, after, rfl, hbefore, hnone, hat⟩
          · exact .inl (.expression ht hu)
          · refine .inr ⟨t ++ before, after, (List.append_assoc ..).symm, .expression ht hbefore, hnone, ?_⟩
            rw [hat, List.length_append, Nat.add_assoc]
        · refine .inr ⟨[], cs, rfl, .nil, ?_, ?_⟩
          · rintro t ⟨u, hu⟩ ht
            exact hclosed ⟨t, u, hu.symm, ht⟩
          · exact (openAtEnd_brace k cs).resolve_right hclosed
      · rw [openAtEnd, if_neg hopen]
        rcases ih _ (Nat.lt_succ_self _) (k + 1) cs rfl with hcs | ⟨before, after, rfl, hbefore, hnone, hat⟩
        · exact .inl (.char hopen hcs)
        · refine .inr ⟨c :: before, after, rfl, .char hopen hbefore, hnone, ?_⟩
          rw [hat, List.length_cons]
          congr 1
          omega

/-! Places in the component -/

theorem blankChar_eq_newline : blankChar c = '\n' ↔ c = '\n' := by
  unfold blankChar
  split <;> simp_all

theorem positionAt_map_blankChar (s : List Char) (offset : Nat) :
    positionAt (s.map blankChar) offset = positionAt s offset := by
  have hbeq : (fun c => blankChar c == '\n') = (· == '\n') := by
    funext c
    rw [Bool.eq_iff_iff, beq_iff_eq, beq_iff_eq, blankChar_eq_newline]
  have hbne : (· != '\n') ∘ blankChar = (· != '\n') := by
    funext c
    exact congrArg (!·) (congrFun hbeq c)
  simp only [positionAt, ← List.map_take, ← List.map_reverse, List.takeWhile_map, List.length_map, hbne, List.count,
    List.countP_map, Function.comp_def, hbeq]

theorem Masks.positionAt (h : Masks s t) (offset : Nat) : positionAt t offset = positionAt s offset := by
  rw [← positionAt_map_blankChar, h.map_blankChar, positionAt_map_blankChar]

theorem masks_templateText (content : List Char) : Masks content (templateText content) :=
  ((masks_blankAfter _ _ _).trans (masks_blankAfter _ _ _)).trans (masks_blankAfter _ _ _)

theorem Masks.split (h : Masks s (t ++ c :: u)) (hc : ¬ isFiller c) :
    ∃ t' u', s = t' ++ c :: u' ∧ t'.length = t.length := by
  induction t generalizing s with
  | nil =>
    cases h with
    | @cons d _ s _ hd _ =>
      rcases hd with rfl | rfl
      · exact ⟨[], s, rfl, rfl⟩
      · exact absurd (isFiller_blankChar d) hc
  | cons x xs ih =>
    cases h with
    | @cons d _ s _ _ h =>
      obtain ⟨t', u', rfl, hlength⟩ := ih h
      exact ⟨d :: t', u', rfl, congrArg Nat.succ hlength⟩

theorem checkExpressions_exact (file : String) (content : List Char) :
    (checkExpressions file content = .ok () ↔ IsTemplate (templateText content)) ∧
    ∀ e, checkExpressions file content = .error e →
      ∃ line column, e = ⟨file, .unclosedExpression, some line, some column⟩ ∧
        charAt? content line column = some '{' ∧ charAt? (templateText content) line column = some '{' ∧
        IsTemplate (contentBefore (templateText content) line column) ∧
        ∀ t, t <+: contentFrom (templateText content) line column → ¬ IsExpression t := by
  rcases template_or_unclosed 0 (templateText content) with htemplate | ⟨before, after, hsplit, hbefore, hnone, hat⟩
  · have hok : checkExpressions file content = .ok () := by
      rw [checkExpressions, unclosedExpression?, htemplate.openAtEnd]
    refine ⟨iff_of_true hok htemplate, fun e he => ?_⟩
    rw [hok] at he
    cases he
  · have herror : checkExpressions file content = .error (faultAt file content .unclosedExpression before.length) := by
      rw [checkExpressions, unclosedExpression?, hat, Nat.zero_add]
    constructor
    · refine iff_of_false (fun hok => ?_) (fun htemplate => ?_)
      · rw [herror] at hok
        cases hok
      · rw [htemplate.openAtEnd] at hat
        cases hat
    · intro e he
      obtain rfl := Except.error.inj (herror.symm.trans he)
      obtain ⟨line, column, hplace⟩ : ∃ line column, positionAt content before.length = (line, column) := ⟨_, _, rfl⟩
      -- The same line and column stand for the offset in the component and in the template.
      have hmasks := masks_templateText content
      have hplace' := (hmasks.positionAt before.length).trans hplace
      rw [hsplit] at hmasks hplace'
      obtain ⟨before', after', rfl, hlength⟩ := hmasks.split (by decide)
      rw [← hlength] at hplace
      obtain ⟨hchar, -, -⟩ := at_positionAt (by decide) hplace
      obtain ⟨hchar', htext, hfrom⟩ := at_positionAt (by decide) hplace'
      refine ⟨line, column, by rw [← hlength, faultAt, hplace], hchar, ?_⟩
      rw [hsplit, htext, hfrom]
      exact ⟨hchar', hbefore, hnone⟩

def openTemplate : List Char :=
  "<!-- \x7b -->\n<p>\x7ba\x7d\x7bf('\\'\x7d')</p>".toList

theorem checkExpressions_exact_openTemplate :
    checkExpressions "C.svelte" openTemplate = .error ⟨"C.svelte", .unclosedExpression, some 2, some 7⟩ ∧
    charAt? openTemplate 2 7 = some '{' ∧
    IsTemplate (contentBefore (templateText openTemplate) 2 7) ∧
    ¬ IsTemplate (templateText openTemplate) := by
  have herror : checkExpressions "C.svelte" openTemplate = .error ⟨"C.svelte", .unclosedExpression, some 2, some 7⟩ := by
    decide
  obtain ⟨haccepts, hrejects⟩ := checkExpressions_exact "C.svelte" openTemplate
  obtain ⟨line, column, he, hchar, -, hbefore, -⟩ := hrejects _ herror
  obtain ⟨rfl, rfl⟩ : 2 = line ∧ 7 = column := by simpa using he
  refine ⟨herror, hchar, hbefore, fun htemplate => ?_⟩
  have hok := haccepts.mpr htemplate
  rw [herror] at hok
  cases hok

end ApiCatalog.Component
