import Mathlib.Algebra.Group.Nat.Even
import ApiCatalog.DocComment.Basic

/-!
Code fences and block tags. A block starts at each line with a tag that has an even number of fence markers before it, where
a marker is a line that starts with three backticks after its indentation. So a fence that opens on a line of its
own and closes is part of the block it stands in, and what follows is read as if it stood alone.
-/

namespace ApiCatalog.DocComment

open Text

variable {fenced : Bool} {line opening closing tag content : List Char} {ls rest before inside : List (List Char)}

/-! The state of the fence -/

def fencedAfter (fenced : Bool) (ls : List (List Char)) : Bool :=
  ls.foldl (fun inFence line => inFence != isFence line) fenced

def Unfenced (ls : List (List Char)) : Prop :=
  Even (ls.countP isFence)

instance (ls : List (List Char)) : Decidable (Unfenced ls) :=
  inferInstanceAs (Decidable (Even (ls.countP isFence)))

theorem unfenced_cons : Unfenced (line :: ls) ↔ (isFence line = false ↔ Unfenced ls) := by
  by_cases hline : isFence line
  · simp [Unfenced, hline, Nat.even_add_one]
  · simp [Unfenced, hline]

theorem fencedAfter_iff : fencedAfter fenced ls = true ↔ (fenced = true ↔ Unfenced ls) := by
  induction ls generalizing fenced with
  | nil => simp [fencedAfter, Unfenced]
  | cons line rest ih =>
    have hstep : fencedAfter fenced (line :: rest) = fencedAfter (fenced != isFence line) rest := rfl
    rw [hstep, ih, unfenced_cons]
    cases fenced <;> cases isFence line <;> simp

theorem fencedAfter_of_unfenced (h : Unfenced ls) : fencedAfter false ls = false := by
  rw [← Bool.not_eq_true, fencedAfter_iff]
  simp [h]

theorem Unfenced.append_tagged (h : Unfenced before) (hline : isFence line = false) (hinside : ∀ l ∈ inside, ¬ isFence l) :
    Unfenced (before ++ line :: inside) := by
  have hnone : (line :: inside).countP isFence = 0 := by
    apply List.countP_eq_zero.mpr
    simpa [hline] using hinside
  rw [Unfenced, List.countP_append, hnone]
  exact h

/-- A fence that opens on a line of its own, up to the line that closes it. -/
structure IsFenced (opening : List Char) (inside : List (List Char)) (closing : List Char) : Prop where
  opens : isFence opening
  plain : ∀ l ∈ inside, ¬ isFence l
  closes : isFence closing

/-! Blocks and the lines after them -/

theorem isFence_of_blockTag? (h : blockTag? line = some (tag, content)) : isFence line = false := by
  unfold blockTag? at h
  split at h
  · rfl
  · cases h

theorem blockTag?_of_isFence (h : isFence line) : blockTag? line = none := by
  apply Option.eq_none_iff_forall_ne_some.mpr
  intro found htag
  rw [isFence_of_blockTag? htag] at h
  cases h

theorem splitBlocks_tag (h : blockTag? line = some (tag, content)) (rest : List (List Char)) :
    splitBlocks false (line :: rest) =
      ([], ⟨tag.map Char.toLower, content :: (splitBlocks false rest).1⟩ :: (splitBlocks false rest).2) := by
  simp [splitBlocks, isFence_of_blockTag? h, h]

theorem splitBlocks_plain (h : fenced = true ∨ blockTag? line = none) (rest : List (List Char)) :
    splitBlocks fenced (line :: rest) = (line :: (splitBlocks (fenced != isFence line) rest).1,
      (splitBlocks (fenced != isFence line) rest).2) := by
  have hnone : (if fenced then none else blockTag? line) = none := by
    rcases h with h | h
    · simp [h]
    · simp [h]
  simp [splitBlocks, hnone]

def extendLast (ls : List (List Char)) : List Block → List Block
  | [] => []
  | [b] => [⟨b.tag, b.lines ++ ls⟩]
  | b :: c :: bs => b :: extendLast ls (c :: bs)

def followedBy (s t : List (List Char) × List Block) : List (List Char) × List Block :=
  match s.2 with
  | [] => (s.1 ++ t.1, t.2)
  | b :: bs => (s.1, extendLast t.1 (b :: bs) ++ t.2)

theorem extendLast_nil (bs : List Block) : extendLast [] bs = bs := by
  induction bs with
  | nil => rfl
  | cons b bs ih =>
    cases bs with
    | nil => simp [extendLast]
    | cons c bs => rw [extendLast, ih]

theorem extendLast_concat (ls : List (List Char)) (bs : List Block) (b : Block) :
    extendLast ls (bs ++ [b]) = bs ++ [⟨b.tag, b.lines ++ ls⟩] := by
  induction bs with
  | nil => rfl
  | cons c bs ih =>
    obtain ⟨d, ds, hds⟩ := List.exists_cons_of_ne_nil (List.append_ne_nil_of_right_ne_nil bs (List.cons_ne_nil b []))
    rw [List.cons_append, hds, extendLast, ← hds, ih, List.cons_append]

theorem followedBy_concat {s : List (List Char) × List Block} {bs : List Block} {b : Block} (h : s.2 = bs ++ [b])
    (t : List (List Char) × List Block) : followedBy s t = (s.1, bs ++ ⟨b.tag, b.lines ++ t.1⟩ :: t.2) := by
  obtain ⟨c, cs, hcs⟩ := List.exists_cons_of_ne_nil (List.append_ne_nil_of_right_ne_nil bs (List.cons_ne_nil b []))
  rw [followedBy, h, hcs]
  change (s.1, extendLast t.1 (c :: cs) ++ t.2) = _
  rw [← hcs, extendLast_concat, List.append_assoc, List.singleton_append]

theorem splitBlocks_append (fenced : Bool) (ls rest : List (List Char)) : splitBlocks fenced (ls ++ rest) =
    followedBy (splitBlocks fenced ls) (splitBlocks (fencedAfter fenced ls) rest) := by
  induction ls generalizing fenced with
  | nil => rfl
  | cons line ls ih =>
    have hstep : fencedAfter fenced (line :: ls) = fencedAfter (fenced != isFence line) ls := rfl
    rw [hstep, List.cons_append]
    by_cases htag : fenced = false ∧ (blockTag? line).isSome
    · obtain ⟨rfl, hsome⟩ := htag
      obtain ⟨⟨tag, content⟩, hline⟩ := Option.isSome_iff_exists.mp hsome
      have hfence : (false != isFence line) = false := by rw [isFence_of_blockTag? hline]; rfl
      rw [splitBlocks_tag hline, splitBlocks_tag hline, ih, hfence]
      generalize splitBlocks (fencedAfter false ls) rest = after
      -- The lines after the tag are its own up to the next block.
      obtain ⟨d, bs⟩ := splitBlocks false ls
      cases bs <;> rfl
    · have hplain : fenced = true ∨ blockTag? line = none := by
        rcases Bool.eq_false_or_eq_true fenced with h | h
        · exact .inl h
        · exact .inr (Option.not_isSome_iff_eq_none.mp fun hsome => htag ⟨h, hsome⟩)
      rw [splitBlocks_plain hplain, splitBlocks_plain hplain, ih]
      obtain ⟨d, bs⟩ := splitBlocks (fenced != isFence line) ls
      cases bs <;> rfl

theorem splitBlocks_at_tag (hbefore : Unfenced before) (h : blockTag? line = some (tag, content))
    (rest : List (List Char)) :
    splitBlocks false (before ++ line :: rest) = ((splitBlocks false before).1,
      (splitBlocks false before).2 ++
        ⟨tag.map Char.toLower, content :: (splitBlocks false rest).1⟩ :: (splitBlocks false rest).2) := by
  rw [splitBlocks_append, fencedAfter_of_unfenced hbefore, splitBlocks_tag h]
  obtain ⟨d, bs⟩ := splitBlocks false before
  cases bs with
  | nil => simp [followedBy]
  | cons b bs => simp [followedBy, extendLast_nil]

theorem splitBlocks_inside (h : ∀ l ∈ inside, ¬ isFence l) (rest : List (List Char)) :
    splitBlocks true (inside ++ rest) = (inside ++ (splitBlocks true rest).1, (splitBlocks true rest).2) := by
  induction inside with
  | nil => rfl
  | cons line inside ih =>
    obtain ⟨hline, hinside⟩ := List.forall_mem_cons.mp h
    have hfenced : (true != isFence line) = true := by simp [hline]
    rw [List.cons_append, splitBlocks_plain (.inl rfl), hfenced, ih hinside, List.cons_append]

theorem IsFenced.splitBlocks_eq (h : IsFenced opening inside closing) (rest : List (List Char)) :
    splitBlocks false (opening :: (inside ++ closing :: rest)) =
      (opening :: (inside ++ closing :: (splitBlocks false rest).1), (splitBlocks false rest).2) := by
  rw [splitBlocks_plain (.inr (blockTag?_of_isFence h.opens)), h.opens]
  change (opening :: (splitBlocks true (inside ++ closing :: rest)).1, (splitBlocks true (inside ++ closing :: rest)).2) = _
  rw [splitBlocks_inside h.plain, splitBlocks_plain (.inl rfl), h.closes]
  rfl

/-! What the blocks say -/

theorem hidden_addBlock_of_tag (d : DocComment) {b : Block} (h : b.tag = "nodocs".toList) : (addBlock d b).hidden := by
  rw [addBlock, h]
  rfl

theorem hidden_addBlock {d : DocComment} (h : d.hidden) (b : Block) : (addBlock d b).hidden := by
  rw [addBlock]
  repeat' split
  all_goals simp [h]

theorem hidden_foldl {bs : List Block} {d : DocComment}
    (h : d.hidden = true ∨ ∃ b ∈ bs, b.tag = "nodocs".toList) : (bs.foldl addBlock d).hidden := by
  induction bs generalizing d with
  | nil => simpa using h
  | cons b bs ih =>
    apply ih
    rcases h with h | ⟨c, hc, htag⟩
    · exact .inl (hidden_addBlock h b)
    · rcases List.mem_cons.mp hc with rfl | hc
      · exact .inl (hidden_addBlock_of_tag d htag)
      · exact .inr ⟨c, hc, htag⟩

theorem parse?_of_clean? {raw text : List Char} (h : clean? raw = some text) : parse? raw =
    some ((splitBlocks false (lines text)).2.foldl addBlock
      { text := convertedText? (unlines (splitBlocks false (lines text)).1) }) := by
  rw [parse?, h]
  rfl

/-- A fence that opens on a line of its own in the content of a block, and closes, belongs to that block with all its
lines, and what follows is read as if it stood alone: each line with a tag after it, unless a later fence is open there,
starts a block of its own. A fence that opens after a tag, on the line of the tag, is not seen: tags inside it start
blocks, and its closing line opens a fence, so that nothing after it starts a block up to the next marker. -/
theorem parse?_fences {raw text : List Char} (h : clean? raw = some text) :
    (∀ before opening inside closing after bs b, lines text = before ++ opening :: (inside ++ closing :: after) →
      (splitBlocks false before).2 = bs ++ [b] → Unfenced before → IsFenced opening inside closing →
      parse? raw = some ((bs ++ ⟨b.tag, b.lines ++ opening :: (inside ++ closing :: (splitBlocks false after).1)⟩ ::
        (splitBlocks false after).2).foldl addBlock
          { text := convertedText? (unlines (splitBlocks false before).1) }) ∧
      ∀ between line rest tag content, after = between ++ line :: rest → Unfenced between →
        blockTag? line = some (tag, content) →
        (splitBlocks false after).2 = (splitBlocks false between).2 ++
          ⟨tag.map Char.toLower, content :: (splitBlocks false rest).1⟩ :: (splitBlocks false rest).2 ∧
        (tag.map Char.toLower = "nodocs".toList → ∃ d, parse? raw = some d ∧ d.hidden)) ∧
    (∀ before line tag content inside closing unseen rest,
      lines text = before ++ line :: (inside ++ closing :: (unseen ++ rest)) →
      Unfenced before → blockTag? line = some (tag, content) → IsFenced content inside closing →
      (∀ l ∈ unseen, ¬ isFence l) →
      splitBlocks false (lines text) = followedBy (splitBlocks false (before ++ line :: inside))
        (closing :: (unseen ++ (splitBlocks true rest).1), (splitBlocks true rest).2)) := by
  constructor
  · intro before opening inside closing after bs b hlines hbs hbefore hfence
    have hsplit : splitBlocks false (lines text) = ((splitBlocks false before).1, bs ++
        ⟨b.tag, b.lines ++ opening :: (inside ++ closing :: (splitBlocks false after).1)⟩ :: (splitBlocks false after).2) := by
      rw [hlines, splitBlocks_append, fencedAfter_of_unfenced hbefore, hfence.splitBlocks_eq, followedBy_concat hbs]
    have hparse := parse?_of_clean? h
    rw [hsplit] at hparse
    refine ⟨hparse, ?_⟩
    intro between line rest tag content hafter hbetween htag
    have hown : (splitBlocks false after).2 = (splitBlocks false between).2 ++
        ⟨tag.map Char.toLower, content :: (splitBlocks false rest).1⟩ :: (splitBlocks false rest).2 := by
      rw [hafter, splitBlocks_at_tag hbetween htag]
    refine ⟨hown, ?_⟩
    intro hnodocs
    refine ⟨_, hparse, hidden_foldl (.inr ?_)⟩
    exact ⟨⟨tag.map Char.toLower, content :: (splitBlocks false rest).1⟩, by simp [hown], hnodocs⟩
  · intro before line tag content inside closing unseen rest hlines hbefore htag hfence hunseen
    have hunfenced := hbefore.append_tagged (isFence_of_blockTag? htag) hfence.plain
    have hshape : before ++ line :: (inside ++ closing :: (unseen ++ rest)) =
        before ++ line :: inside ++ closing :: (unseen ++ rest) := by simp
    rw [hlines, hshape, splitBlocks_append, fencedAfter_of_unfenced hunfenced,
      splitBlocks_plain (.inr (blockTag?_of_isFence hfence.closes)), hfence.closes]
    change followedBy _ (closing :: (splitBlocks true (unseen ++ rest)).1, (splitBlocks true (unseen ++ rest)).2) = _
    rw [splitBlocks_inside hunseen]

theorem parse?_fences_example :
    clean? "/**\n * @example\n * ```ts\n * @param x\n * ```\n * @nodocs\n */".toList =
        some "@example\n```ts\n@param x\n```\n@nodocs".toList ∧
      ∃ d, parse? "/**\n * @example\n * ```ts\n * @param x\n * ```\n * @nodocs\n */".toList = some d ∧ d.hidden := by
  have hclean : clean? "/**\n * @example\n * ```ts\n * @param x\n * ```\n * @nodocs\n */".toList =
      some "@example\n```ts\n@param x\n```\n@nodocs".toList := by decide
  have hfence : IsFenced "```ts".toList ["@param x".toList] "```".toList := ⟨by decide, by decide, by decide⟩
  obtain ⟨_, hafter⟩ := (parse?_fences hclean).1 ["@example".toList] _ _ _ ["@nodocs".toList] [] ⟨"example".toList, [[]]⟩
    (by decide) rfl (by decide) hfence
  exact ⟨hclean, (hafter [] "@nodocs".toList [] "nodocs".toList [] rfl (by decide) rfl).2 (by decide)⟩

theorem fence_after_tag_not_seen :
    (parse? "/**\n * @example ```ts\n * f();\n * ```\n * @nodocs\n */".toList).map (fun d => (d.examples, d.hidden)) =
      some (["```ts\nf();\n```\n@nodocs"], false) := by
  decide

end ApiCatalog.DocComment
