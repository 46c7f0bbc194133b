import ApiCatalog.Json.Reader
import ApiCatalog.Json.Writer

namespace ApiCatalog.Json

open Text

/-! Strings -/

theorem hexDigits_four (n : Nat) :
    hexDigits 4 n = [Nat.digitChar (n / 4096 % 16), Nat.digitChar (n / 256 % 16), Nat.digitChar (n / 16 % 16),
      Nat.digitChar (n / 1 % 16)] :=
  rfl

theorem codeUnit?_hexDigits {n : Nat} (hn : n < 0x20) (rest : List Char) :
    codeUnit? (hexDigits 4 n ++ rest) = some (n, rest) := by
  have hall : ∀ n < 0x20, (hexDigits 4 n).all (isDigitIn 16) = true ∧ numberIn 16 (hexDigits 4 n) = n := by
    decide
  obtain ⟨hdigits, hvalue⟩ := hall n hn
  rw [hexDigits_four] at hdigits hvalue ⊢
  simp only [List.cons_append, List.nil_append, codeUnit?, hdigits, hvalue, if_true]

theorem ofCodeUnit_of_lt {n : Nat} (hn : n < 0x20) : ofCodeUnit n = Char.ofNat n := by
  have hhigh : isHighSurrogate n = false := by simp [isHighSurrogate]; omega
  have hlow : isLowSurrogate n = false := by simp [isLowSurrogate]; omega
  simp [ofCodeUnit, hhigh, hlow]

theorem unicodeEscape?_hexDigits {n : Nat} (hn : n < 0x20) (rest : List Char) :
    unicodeEscape? (hexDigits 4 n ++ rest) = some (Char.ofNat n, rest) := by
  have hhigh : isHighSurrogate n = false := by simp [isHighSurrogate]; omega
  rw [unicodeEscape?, codeUnit?_hexDigits hn]
  simp only [Option.bind_eq_bind, Option.bind_some, ofCodeUnit_of_lt hn]
  split
  · split
    · rw [hhigh]
      rfl
    · rfl
  · rfl

theorem stringTail?_plain {c : Char} (fuel : Nat) (hquote : c ≠ '"') (hslash : c ≠ '\\')
    (hc : ¬ c.toNat < 0x20)
    (rest : List Char) :
    stringTail? (fuel + 1) (c :: rest) =
      (stringTail? fuel rest).bind fun (cs, after) => some (c :: cs, after) := by
  rw [stringTail?.eq_def]
  simp [hslash, hc]

theorem stringTail?_simple {e c : Char} (fuel : Nat) (he : simpleEscape? e = some c) (rest : List Char) :
    stringTail? (fuel + 1) ('\\' :: e :: rest) =
      (stringTail? fuel rest).bind fun (cs, after) => some (c :: cs, after) := by
  have hu : e ≠ 'u' := by
    rintro rfl
    cases he
  rw [stringTail?.eq_def]
  simp [he]

theorem stringTail?_unicode {n : Nat} (fuel : Nat) (hn : n < 0x20) (rest : List Char) :
    stringTail? (fuel + 1) ('\\' :: 'u' :: (hexDigits 4 n ++ rest)) =
      (stringTail? fuel rest).bind fun (cs, after) => some (Char.ofNat n :: cs, after) := by
  rw [stringTail?.eq_def]
  simp [unicodeEscape?_hexDigits hn]

theorem stringTail?_escapedChar (fuel : Nat) (c : Char) (rest : List Char) :
    stringTail? (fuel + 1) (escapedChar c ++ rest) =
      (stringTail? fuel rest).bind fun (cs, after) => some (c :: cs, after) := by
  have hcode {n : Nat} (h : c.toNat = n) : c = Char.ofNat n := by rw [← h, Char.ofNat_toNat]
  rw [escapedChar]
  split
  · case isTrue h => subst h; exact stringTail?_simple fuel rfl rest
  split
  · case isTrue h => subst h; exact stringTail?_simple fuel rfl rest
  split
  · case isTrue h => subst h; exact stringTail?_simple fuel rfl rest
  split
  · case isTrue h => subst h; exact stringTail?_simple fuel rfl rest
  split
  · case isTrue h => subst h; exact stringTail?_simple fuel rfl rest
  split
  · case isTrue h => rw [hcode h]; exact stringTail?_simple fuel rfl rest
  split
  · case isTrue h => rw [hcode h]; exact stringTail?_simple fuel rfl rest
  split
  · case isTrue h =>
    rw [List.cons_append, List.cons_append, stringTail?_unicode fuel h, Char.ofNat_toNat]
  · case isFalse hquote hslash _ _ _ _ _ hc => exact stringTail?_plain fuel hquote hslash hc rest

theorem stringTail?_escaped {s : List Char} {fuel : Nat} (h : s.length < fuel) (rest : List Char) :
    stringTail? fuel (s.flatMap escapedChar ++ '"' :: rest) = some (s, rest) := by
  induction s generalizing fuel with
  | nil =>
    obtain ⟨fuel, rfl⟩ := Nat.exists_eq_succ_of_ne_zero (Nat.ne_of_gt h)
    rfl
  | cons c s ih =>
    obtain ⟨fuel, rfl⟩ := Nat.exists_eq_succ_of_ne_zero (Nat.ne_of_gt (Nat.zero_lt_of_lt h))
    rw [List.flatMap_cons, List.append_assoc, Nat.succ_eq_add_one, stringTail?_escapedChar,
      ih (Nat.lt_of_succ_lt_succ h)]
    rfl

theorem length_le_escaped (s : List Char) : s.length ≤ (s.flatMap escapedChar).length := by
  induction s with
  | nil => exact Nat.le_refl _
  | cons c s ih =>
    have hc : 1 ≤ (escapedChar c).length := by
      rw [escapedChar]
      repeat' split
      all_goals exact Nat.succ_pos _
    rw [List.flatMap_cons, List.length_append, List.length_cons]
    omega

theorem escaped_toList (s : String) :
    (escaped s).toList = '"' :: (s.toList.flatMap escapedChar ++ ['"']) := by
  simp [escaped]

theorem token?_escaped (s : String) (rest : List Char) :
    token? '"' (s.toList.flatMap escapedChar ++ '"' :: rest) = some (.string s, rest) := by
  have hfuel : s.toList.length < (s.toList.flatMap escapedChar ++ '"' :: rest).length + 1 := by
    have hle := length_le_escaped s.toList
    rw [List.length_append]
    omega
  simp only [token?, stringTail?_escaped hfuel, Option.map_some, String.ofList_toList]

/-! Numbers -/

def Ends (rest : List Char) : Prop :=
  ∀ c ∈ rest.head?, c = '\n' ∨ c = ','

theorem takeWhile_digits {ds rest : List Char} (hds : ∀ c ∈ ds, c.isDigit) (hrest : Ends rest) :
    (ds ++ rest).takeWhile Char.isDigit = ds := by
  rw [List.takeWhile_append_of_pos hds]
  cases rest with
  | nil => simp
  | cons c rest =>
    have hc : c.isDigit = false := by
      rcases hrest c rfl with rfl | rfl <;> decide
    simp [hc]

theorem fractionLength_of_ends {rest : List Char} (h : Ends rest) : fractionLength rest = 0 := by
  rw [fractionLength.eq_def]
  split
  · rcases h '.' rfl with h | h <;> cases h
  · rfl

theorem exponentLength_of_ends {rest : List Char} (h : Ends rest) : exponentLength rest = 0 := by
  cases rest with
  | nil => rfl
  | cons c rest => rcases h c rfl with rfl | rfl <;> rfl

theorem head_toDigits {n : Nat} (hn : 0 < n) : ∃ c cs, Nat.toDigits 10 n = c :: cs ∧ c ≠ '0' := by
  induction n using Nat.strongRecOn with
  | ind n ih =>
    by_cases hlt : n < 10
    · refine ⟨n.digitChar, [], Nat.toDigits_of_lt_base hlt, ?_⟩
      have hall : ∀ n < 10, 0 < n → n.digitChar ≠ '0' := by decide
      exact hall n hlt hn
    · obtain ⟨c, cs, hcs, hc⟩ := ih (n / 10) (by omega) (by omega)
      have happend := Nat.toDigits_append_toDigits (b := 10) (n := n / 10) (d := n % 10) (by omega) (by omega)
        (by omega)
      rw [Nat.div_add_mod] at happend
      exact ⟨c, _, by rw [← happend, hcs]; rfl, hc⟩

theorem wholeLength_toDigits (n : Nat) {rest : List Char} (hrest : Ends rest) :
    wholeLength (Nat.toDigits 10 n ++ rest) = (Nat.toDigits 10 n).length := by
  have hdigits : ∀ c ∈ Nat.toDigits 10 n, c.isDigit := fun c hc =>
    Nat.isDigit_of_mem_toDigits (by omega) (by omega) hc
  rcases Nat.eq_zero_or_pos n with rfl | hn
  · rfl
  · obtain ⟨c, cs, hcs, hc⟩ := head_toDigits hn
    have hwhole : wholeLength (Nat.toDigits 10 n ++ rest) =
        ((Nat.toDigits 10 n ++ rest).takeWhile Char.isDigit).length := by
      rw [hcs, List.cons_append, wholeLength.eq_def]
      split
      · case h_1 heq => exact absurd (List.cons.inj heq).1 hc
      · rfl
    rw [hwhole, takeWhile_digits hdigits hrest]

theorem numberLength_toDigits (n : Nat) {rest : List Char} (hrest : Ends rest) :
    numberLength (Nat.toDigits 10 n ++ rest) = (Nat.toDigits 10 n).length := by
  obtain ⟨c, cs, hcs⟩ := List.exists_cons_of_ne_nil (@Nat.toDigits_ne_nil n 10)
  have hminus : (Nat.toDigits 10 n ++ rest).head? ≠ some '-' := by
    have hc : c.isDigit :=
      Nat.isDigit_of_mem_toDigits (b := 10) (n := n) (by omega) (by omega) (by simp [hcs])
    rw [hcs]
    rintro ⟨⟩
    exact absurd hc (by decide)
  have hlength : (Nat.toDigits 10 n).length = cs.length + 1 := by rw [hcs, List.length_cons]
  simp only [numberLength, hminus, if_false, List.drop_zero, wholeLength_toDigits n hrest, hlength]
  rw [Nat.zero_add, ← hlength, List.drop_left, fractionLength_of_ends hrest, Nat.add_zero, List.drop_left,
    exponentLength_of_ends hrest, Nat.add_zero]

theorem number?_toDigits (n : Nat) {rest : List Char} (hrest : Ends rest) :
    number? (Nat.toDigits 10 n ++ rest) = some (.ofNat n, rest) := by
  obtain ⟨k, hk⟩ := Nat.exists_eq_succ_of_ne_zero
    (fun h => Nat.toDigits_ne_nil (List.eq_nil_of_length_eq_zero h) : (Nat.toDigits 10 n).length ≠ 0)
  rw [number?, numberLength_toDigits n hrest, hk]
  simp only
  rw [← hk, List.take_left, List.drop_left, ofNat, Nat.toString_eq_ofList_toDigits]

theorem ne_of_isDigit {c x : Char} (hc : c.isDigit) (hx : x.isDigit = false) : x ≠ c := by
  rintro rfl
  rw [hc] at hx
  cases hx

theorem token?_digit {c : Char} (hc : c.isDigit) (s : List Char) :
    token? c s = (number? (c :: s)).map fun (j, rest) => (.atom j, rest) := by
  have hword : wordLiteral? (c :: s) = none := by
    simp [wordLiteral?, wordLiterals, dropPrefix?, ne_of_isDigit hc]
  rw [token?.eq_def]
  split <;> first | exact absurd rfl (ne_of_isDigit hc (by decide)) | rw [hword, Option.none_or]

/-! Cutting a text into tokens -/

inductive Cut : List Char → List Token → Prop
  | done {s : List Char} (hs : s.dropWhile isSpace = []) : Cut s []
  | step {s cs rest : List Char} {c : Char} {t : Token} {ts : List Token} (hs : s.dropWhile isSpace = c :: cs)
      (ht : token? c cs = some (t, rest)) (hle : rest.length ≤ cs.length) (hrest : Cut rest ts) :
      Cut s (t :: ts)

theorem tokens?_of_cut {s : List Char} {ts : List Token} (h : Cut s ts) {fuel : Nat}
    (hfuel : s.length < fuel) :
    tokens? fuel s = some ts := by
  induction h generalizing fuel with
  | done hs =>
    obtain ⟨fuel, rfl⟩ := Nat.exists_eq_succ_of_ne_zero (Nat.ne_of_gt (Nat.zero_lt_of_lt hfuel))
    rw [tokens?, hs]
  | @step s cs rest c t ts hs ht hle hrest ih =>
    obtain ⟨fuel, rfl⟩ := Nat.exists_eq_succ_of_ne_zero (Nat.ne_of_gt (Nat.zero_lt_of_lt hfuel))
    have hlength : (c :: cs).length ≤ s.length := hs ▸ (List.dropWhile_sublist isSpace).length_le
    rw [List.length_cons] at hlength
    have hih := @ih fuel (by omega)
    rw [tokens?, hs]
    simp only [ht, hih, Option.bind_eq_bind, Option.bind_some, Option.pure_def]

theorem Cut.space {c : Char} {s : List Char} {ts : List Token} (h : Cut s ts) (hc : isSpace c) :
    Cut (c :: s) ts := by
  have hdrop : (c :: s).dropWhile isSpace = s.dropWhile isSpace := List.dropWhile_cons_of_pos hc
  cases h with
  | done hs => exact .done (hdrop.trans hs)
  | step hs ht hle hrest => exact .step (hdrop.trans hs) ht hle hrest

theorem Cut.lineBreak {s : List Char} {ts : List Token} (h : Cut s ts) (depth : Nat) :
    Cut ((lineBreak depth).toList ++ s) ts := by
  have htabs : Cut (List.replicate depth '\t' ++ s) ts := by
    induction depth with
    | zero => exact h
    | succ depth ih => exact ih.space rfl
  rw [Json.lineBreak, String.toList_ofList]
  exact htabs.space rfl

theorem Cut.token {c : Char} {cs rest : List Char} {t : Token} {ts : List Token} (hc : isSpace c = false)
    (ht : token? c (cs ++ rest) = some (t, rest)) (h : Cut rest ts) : Cut (c :: cs ++ rest) (t :: ts) := by
  have hdrop : (c :: cs ++ rest).dropWhile isSpace = c :: (cs ++ rest) := by
    rw [List.cons_append, List.dropWhile_cons_of_neg (by simp [hc])]
  have hle : rest.length ≤ (cs ++ rest).length := by
    rw [List.length_append]
    omega
  exact .step hdrop ht hle h

theorem Cut.mark {c : Char} {rest : List Char} {t : Token} {ts : List Token} (hc : isSpace c = false)
    (ht : token? c rest = some (t, rest)) (h : Cut rest ts) : Cut (c :: rest) (t :: ts) :=
  @Cut.token c [] rest t ts hc ht h

theorem Cut.escaped {rest : List Char} {ts : List Token} (h : Cut rest ts) (s : String) :
    Cut ((escaped s).toList ++ rest) (.string s :: ts) := by
  rw [escaped_toList]
  refine .token rfl ?_ h
  rw [List.append_assoc, List.singleton_append]
  exact token?_escaped s rest

theorem Cut.number {rest : List Char} {ts : List Token} (h : Cut rest ts) (hrest : Ends rest) (n : Nat) :
    Cut ((toString n).toList ++ rest) (.atom (.ofNat n) :: ts) := by
  obtain ⟨c, cs, hcs⟩ := List.exists_cons_of_ne_nil (@Nat.toDigits_ne_nil n 10)
  have hc : c.isDigit := Nat.isDigit_of_mem_toDigits (b := 10) (n := n) (by omega) (by omega) (by simp [hcs])
  have hspace : isSpace c = false := by
    simp only [isSpace, Bool.or_eq_false_iff, decide_eq_false_iff_not]
    refine ⟨⟨⟨?_, ?_⟩, ?_⟩, ?_⟩ <;> exact (ne_of_isDigit hc rfl).symm
  have hnumber := number?_toDigits n hrest
  rw [Nat.toString_eq_ofList_toDigits, String.toList_ofList, hcs]
  rw [hcs, List.cons_append] at hnumber
  refine .token hspace ?_ h
  rw [token?_digit hc, hnumber]
  rfl

/-! Written values -/

inductive Plain : Json → Prop
  | null : Plain .null
  | bool (b : Bool) : Plain (.bool b)
  | ofNat (n : Nat) : Plain (.ofNat n)
  | string (s : String) : Plain (.string s)
  | array {items : List Json} (h : ∀ j ∈ items, Plain j) : Plain (.array items)
  | object {fields : List (String × Json)} (h : ∀ f ∈ fields, Plain f.2) : Plain (.object fields)

mutual

def spelled : Json → List Token
  | .string s => [.string s]
  | .array items => .openBracket :: ([Token.comma].intercalate (spelledItems items) ++ [.closeBracket])
  | .object fields => .openBrace :: ([Token.comma].intercalate (spelledFields fields) ++ [.closeBrace])
  | j => [.atom j]

def spelledItems : List Json → List (List Token)
  | [] => []
  | j :: js => spelled j :: spelledItems js

def spelledFields : List (String × Json) → List (List Token)
  | [] => []
  | (key, j) :: fs => (.string key :: .colon :: spelled j) :: spelledFields fs

end

theorem spelledItems_eq (items : List Json) : spelledItems items = items.map spelled := by
  induction items with
  | nil => rfl
  | cons j js ih => rw [spelledItems, ih, List.map_cons]

theorem spelledFields_eq (fields : List (String × Json)) :
    spelledFields fields = fields.map fun f => .string f.1 :: .colon :: spelled f.2 := by
  induction fields with
  | nil => rfl
  | cons f fs ih => rw [spelledFields, ih, List.map_cons]

theorem renderItems_eq (depth : Nat) (items : List Json) :
    renderItems depth items = items.map (renderAt depth) := by
  induction items with
  | nil => rfl
  | cons j js ih => rw [renderItems, ih, List.map_cons]

theorem renderFields_eq (depth : Nat) (fields : List (String × Json)) :
    renderFields depth fields = fields.map fun f => escaped f.1 ++ ": " ++ renderAt depth f.2 := by
  induction fields with
  | nil => rfl
  | cons f fs ih => rw [renderFields, ih, List.map_cons]

/-- Before whatever may follow it, a text is cut into the given tokens. -/
def Spells (text : String) (spelling : List Token) : Prop :=
  ∀ (rest : List Char) (ts : List Token), Cut rest ts → Ends rest → Cut (text.toList ++ rest) (spelling ++ ts)

theorem ends_lineBreak (depth : Nat) (rest : List Char) : Ends ((lineBreak depth).toList ++ rest) := by
  intro c hc
  rw [lineBreak, String.toList_ofList] at hc
  exact .inl (Option.some.inj hc).symm

theorem Spells.sequence {α : Type} {f : α → String} {g : α → List Token} {as : List α} (hne : as ≠ [])
    (h : ∀ a ∈ as, Spells (f a) (g a)) (depth : Nat) :
    Spells (("," ++ lineBreak depth).intercalate (as.map f)) ([Token.comma].intercalate (as.map g)) := by
  intro rest ts hrest hends
  induction as with
  | nil => exact absurd rfl hne
  | cons a as ih =>
    obtain ⟨ha, has⟩ := List.forall_mem_cons.mp h
    cases as with
    | nil => simpa using ha rest ts hrest hends
    | cons b as =>
      have hnext := (ih (List.cons_ne_nil b as) has).lineBreak depth
      have hfirst := ha _ _ (@Cut.mark ',' _ .comma _ rfl rfl hnext) (by rintro c ⟨⟩; exact .inr rfl)
      simpa using hfirst

theorem Spells.bracketed {α : Type} {f : α → String} {g : α → List Token} {as : List α}
    {opening closing : String} {o c : Char} {first last : Token} (ho : opening.toList = [o])
    (hc : closing.toList = [c]) (hospace : isSpace o = false) (hcspace : isSpace c = false)
    (hfirst : ∀ s, token? o s = some (first, s)) (hlast : ∀ s, token? c s = some (last, s))
    (h : ∀ a ∈ as, Spells (f a) (g a)) (depth : Nat) :
    Spells (bracketed opening closing depth (as.map f))
      (first :: ([Token.comma].intercalate (as.map g) ++ [last])) := by
  intro rest ts hrest hends
  have hclose : Cut (c :: rest) (last :: ts) := hrest.mark hcspace (hlast rest)
  cases as with
  | nil =>
    have hopen := hclose.mark hospace (hfirst _)
    simpa [Json.bracketed, ho, hc] using hopen
  | cons a as =>
    have hend := hclose.lineBreak depth
    have hitems := Spells.sequence (List.cons_ne_nil a as) h (depth + 1) _ _ hend (ends_lineBreak depth _)
    have hopen := (hitems.lineBreak (depth + 1)).mark hospace (hfirst _)
    simpa [Json.bracketed, ho, hc] using hopen

theorem Spells.field {text : String} {spelling : List Token} (h : Spells text spelling) (key : String) :
    Spells (Json.escaped key ++ ": " ++ text) (.string key :: .colon :: spelling) := by
  intro rest ts hrest hends
  have hvalue := (h rest ts hrest hends).space (c := ' ') rfl
  have hkey := (@Cut.mark ':' _ .colon _ rfl rfl hvalue).escaped key
  simpa using hkey

theorem spells_word {w : String} {c : Char} {cs : List Char} {j : Json} (hw : w.toList = c :: cs)
    (hc : isSpace c = false) (ht : ∀ rest, token? c (cs ++ rest) = some (.atom j, rest)) :
    Spells w [.atom j] := by
  intro rest ts hrest _
  rw [hw]
  exact hrest.token hc (ht rest)

theorem spells_renderAt {j : Json} (hj : Plain j) (depth : Nat) : Spells (renderAt depth j) (spelled j) := by
  induction hj generalizing depth with
  | null => exact spells_word (w := "null") rfl rfl fun rest => rfl
  | bool b =>
    cases b with
    | true => exact spells_word (w := "true") rfl rfl fun rest => rfl
    | false => exact spells_word (w := "false") rfl rfl fun rest => rfl
  | ofNat n => exact fun _ _ hrest hends => hrest.number hends n
  | string s => exact fun _ _ hrest _ => hrest.escaped s
  | array _ ih =>
    rw [renderAt, spelled, renderItems_eq, spelledItems_eq]
    exact Spells.bracketed rfl rfl rfl rfl (fun _ => rfl) (fun _ => rfl)
      (fun j hj => ih j hj (depth + 1)) depth
  | object _ ih =>
    rw [renderAt, spelled, renderFields_eq, spelledFields_eq]
    exact Spells.bracketed rfl rfl rfl rfl (fun _ => rfl) (fun _ => rfl)
      (fun f hf => (ih f hf (depth + 1)).field f.1) depth

/-! Reading tokens -/

def ReadsBack (j : Json) : Prop :=
  ∀ (fuel : Nat) (rest : List Token), 2 * (spelled j).length ≤ fuel →
    value? fuel (spelled j ++ rest) = some (j, rest)

theorem spelled_append_ne (j : Json) (ts rest : List Token) : spelled j ++ ts ≠ .closeBracket :: rest := by
  cases j <;> simp [spelled]

theorem items?_spelled {items : List Json} (hne : items ≠ []) (h : ∀ j ∈ items, ReadsBack j) {fuel : Nat}
    (rest : List Token) (hfuel : 2 * ([Token.comma].intercalate (items.map spelled)).length < fuel) :
    items? fuel ([Token.comma].intercalate (items.map spelled) ++ .closeBracket :: rest) =
      some (items, rest) := by
  induction items generalizing fuel with
  | nil => exact absurd rfl hne
  | cons j js ih =>
    obtain ⟨hj, hjs⟩ := List.forall_mem_cons.mp h
    obtain ⟨fuel, rfl⟩ := Nat.exists_eq_succ_of_ne_zero (Nat.ne_of_gt (Nat.zero_lt_of_lt hfuel))
    rw [items?]
    cases js with
    | nil =>
      simp only [List.map_cons, List.map_nil, List.intercalate_singleton] at hfuel ⊢
      rw [hj fuel _ (by omega)]
      rfl
    | cons k ks =>
      simp only [List.map_cons, List.intercalate_cons_cons, List.append_assoc, List.length_append,
        List.length_cons, List.length_nil] at hfuel ih ⊢
      have hnext := @ih (List.cons_ne_nil k ks) hjs fuel (by omega)
      rw [hj fuel _ (by omega)]
      simp only [Option.bind_eq_bind, Option.bind_some, List.singleton_append, hnext]
      rfl

theorem fields?_spelled {fields : List (String × Json)} (hne : fields ≠ []) (h : ∀ f ∈ fields, ReadsBack f.2)
    {fuel : Nat} (rest : List Token)
    (hfuel :
      2 * ([Token.comma].intercalate (fields.map fun f => .string f.1 :: .colon :: spelled f.2)).length < fuel) :
    fields? fuel ([Token.comma].intercalate (fields.map fun f => .string f.1 :: .colon :: spelled f.2) ++
      .closeBrace :: rest) = some (fields, rest) := by
  induction fields generalizing fuel with
  | nil => exact absurd rfl hne
  | cons f fs ih =>
    obtain ⟨hf, hfs⟩ := List.forall_mem_cons.mp h
    obtain ⟨fuel, rfl⟩ := Nat.exists_eq_succ_of_ne_zero (Nat.ne_of_gt (Nat.zero_lt_of_lt hfuel))
    cases fs with
    | nil =>
      simp only [List.map_cons, List.map_nil, List.intercalate_singleton, List.length_cons] at hfuel ⊢
      rw [List.cons_append, List.cons_append, fields?, hf fuel _ (by omega)]
      rfl
    | cons k ks =>
      simp only [List.map_cons, List.intercalate_cons_cons, List.append_assoc, List.length_append,
        List.length_cons, List.length_nil] at hfuel ih ⊢
      have hnext := @ih (List.cons_ne_nil k ks) hfs fuel (by omega)
      rw [List.cons_append, List.cons_append, fields?, hf fuel _ (by omega)]
      simp only [Option.bind_eq_bind, Option.bind_some, List.singleton_append, hnext]
      rfl

theorem value?_openBracket {fuel : Nat} {ts : List Token} (h : ∀ rest, ts ≠ .closeBracket :: rest) :
    value? (fuel + 1) (.openBracket :: ts) = (items? fuel ts).map fun (js, rest) => (.array js, rest) := by
  cases ts with
  | nil => rfl
  | cons t ts =>
    cases t with
    | closeBracket => exact absurd rfl (h ts)
    | _ => rfl

theorem value?_openBrace {fuel : Nat} {ts : List Token} (h : ∀ rest, ts ≠ .closeBrace :: rest) :
    value? (fuel + 1) (.openBrace :: ts) = (fields? fuel ts).map fun (fs, rest) => (.object fs, rest) := by
  cases ts with
  | nil => rfl
  | cons t ts =>
    cases t with
    | closeBrace => exact absurd rfl (h ts)
    | _ => rfl

theorem ReadsBack.array {items : List Json} (h : ∀ j ∈ items, ReadsBack j) : ReadsBack (.array items) := by
  intro fuel rest hfuel
  simp only [spelled, spelledItems_eq, List.cons_append, List.append_assoc, List.nil_append,
    List.length_cons, List.length_append, List.length_nil] at hfuel ⊢
  obtain ⟨fuel, rfl⟩ := Nat.exists_eq_succ_of_ne_zero (by omega : fuel ≠ 0)
  cases items with
  | nil => rfl
  | cons j js =>
    -- The reader takes a bracket right after the opening one for an empty array.
    have hopen (after : List Token) :
        [Token.comma].intercalate ((j :: js).map spelled) ++ .closeBracket :: rest ≠
          .closeBracket :: after := by
      cases js with
      | nil => simpa using spelled_append_ne j _ after
      | cons k ks => simpa using spelled_append_ne j _ after
    rw [value?_openBracket hopen, items?_spelled (List.cons_ne_nil j js) h rest (by omega)]
    rfl

theorem ReadsBack.object {fields : List (String × Json)} (h : ∀ f ∈ fields, ReadsBack f.2) :
    ReadsBack (.object fields) := by
  intro fuel rest hfuel
  simp only [spelled, spelledFields_eq, List.cons_append, List.append_assoc, List.nil_append,
    List.length_cons, List.length_append, List.length_nil] at hfuel ⊢
  obtain ⟨fuel, rfl⟩ := Nat.exists_eq_succ_of_ne_zero (by omega : fuel ≠ 0)
  cases fields with
  | nil => rfl
  | cons f fs =>
    have hopen (after : List Token) : [Token.comma].intercalate
        ((f :: fs).map fun f => .string f.1 :: .colon :: spelled f.2) ++ .closeBrace :: rest ≠
          .closeBrace :: after := by
      cases fs <;> simp
    rw [value?_openBrace hopen, fields?_spelled (List.cons_ne_nil f fs) h rest (by omega)]
    rfl

theorem readsBack {j : Json} (hj : Plain j) : ReadsBack j := by
  have hatom (j : Json) (fuel : Nat) (rest : List Token) (hfuel : 2 ≤ fuel) :
      value? fuel (.atom j :: rest) = some (j, rest) := by
    obtain ⟨fuel, rfl⟩ := Nat.exists_eq_succ_of_ne_zero (by omega : fuel ≠ 0)
    rfl
  induction hj with
  | null => exact hatom _
  | bool b => exact hatom _
  | ofNat n => exact hatom _
  | string s =>
    intro fuel rest hfuel
    obtain ⟨fuel, rfl⟩ := Nat.exists_eq_succ_of_ne_zero (Nat.ne_of_gt (Nat.zero_lt_of_lt hfuel))
    rfl
  | array _ ih => exact .array ih
  | object _ ih => exact .object ih

theorem parse?_render {j : Json} (hj : Plain j) : parse? (j.render ++ "\n") = some j := by
  have hcut : Cut (j.render ++ "\n").toList (spelled j) := by
    have hend : Cut ['\n'] [] := .done rfl
    have hends : Ends ['\n'] := by
      rintro c ⟨⟩
      exact .inl rfl
    have htext := spells_renderAt hj 0 ['\n'] [] hend hends
    rw [List.append_nil] at htext
    rw [String.toList_append]
    exact htext
  have htokens : tokens? ((j.render ++ "\n").length + 1) (j.render ++ "\n").toList = some (spelled j) :=
    tokens?_of_cut hcut (by rw [String.length_toList]; omega)
  have hvalue := readsBack hj (2 * (spelled j).length + 1) [] (by omega)
  rw [List.append_nil] at hvalue
  rw [parse?, htokens]
  simp only [Option.bind_eq_bind, Option.bind_some, hvalue]

end ApiCatalog.Json
