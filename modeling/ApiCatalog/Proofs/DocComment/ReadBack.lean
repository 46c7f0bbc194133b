import ApiCatalog.Proofs.DocComment.Fences
import ApiCatalog.Proofs.DocComment.Links

namespace ApiCatalog.DocComment

open Text

/-! Written tags -/

inductive TextTag where
  | returns | throws | since | deprecated | examples | seeAlso | defaultValue
  deriving DecidableEq

def TextTag.word : TextTag → String
  | returns => "returns"
  | throws => "throws"
  | since => "since"
  | deprecated => "deprecated"
  | examples => "example"
  | seeAlso => "see"
  | defaultValue => "default"

def TextTag.repeats (kind : TextTag) : Bool :=
  kind ∈ [throws, examples, seeAlso]

inductive Tag where
  | param (name s : String)
  | text (kind : TextTag) (s : String)
  | hidden
  | ofModule
  deriving DecidableEq

namespace Tag

def word : Tag → String
  | param _ _ => "param"
  | text kind _ => kind.word
  | hidden => "nodocs"
  | ofModule => "module"

def spaced : List Char → List Char
  | [] => []
  | s => ' ' :: s

def body : Tag → List Char
  | param name s => ' ' :: (name.toList ++ " -".toList ++ spaced s.toList)
  | text .examples s => '\n' :: s.toList
  | text _ s => spaced s.toList
  | hidden => []
  | ofModule => []

def written (t : Tag) : List Char :=
  '@' :: (t.word.toList ++ t.body)

def param? : Tag → Option (String × String)
  | param name s => some (name, s)
  | _ => none

def text? (kind : TextTag) : Tag → Option String
  | text k s => if k = kind then some s else none
  | _ => none

end Tag

def write (text : Option String) (tags : List Tag) : List Char :=
  writeBlock ((text.toList.map String.toList ++ tags.map Tag.written).flatMap lines)

def texts (d : DocComment) : TextTag → List String
  | .returns => d.returns.toList
  | .throws => d.throws
  | .since => d.since.toList
  | .deprecated => d.deprecated.toList
  | .examples => d.examples
  | .seeAlso => d.seeAlso
  | .defaultValue => d.defaultValue.toList

structure Lists (tags : List Tag) (d : DocComment) : Prop where
  params : tags.filterMap Tag.param? = d.params
  texts : ∀ kind, tags.filterMap (Tag.text? kind) = d.texts kind
  hidden : tags.count .hidden = d.hidden.toNat
  ofModule : tags.count .ofModule = d.ofModule.toNat

/-! Texts that can be written -/

/-- Lines among which every fence closes, and in which no line looks like a tag, except within a fence. -/
inductive Fenced (isMarker : List Char → Bool) : List (List Char) → Prop
  | nil : Fenced isMarker []
  | line {l ls} : isMarker l = false → blockTag? l = none → Fenced isMarker ls → Fenced isMarker (l :: ls)
  | fence {opening inside closing ls} : isMarker opening → (∀ l ∈ inside, ¬ isMarker l) → isMarker closing →
      Fenced isMarker ls → Fenced isMarker (opening :: (inside ++ closing :: ls))

structure IsText (isMarker : List Char → Bool) (s : List Char) : Prop where
  trimmed : trim s = s
  lineEnds : ∀ l ∈ lines s, trimRight l = l
  noLinks : ¬ HasLinkTag s
  fenced : Fenced isMarker (lines s)

def IsParamName (s : List Char) : Prop :=
  s ≠ [] ∧ ∀ c ∈ s, ¬ isBlank c ∧ c ∉ ['=', '{', '}', '[', ']']

-- Over the characters of the name, not over all there are.
instance (s : List Char) : Decidable (IsParamName s) :=
  @instDecidableAnd _ _ inferInstance (List.decidableBAll _ s)

/-- A text on the line of its tag does not start with a marker, which would not be seen there. -/
def Tag.Sound (isMarker : List Char → Bool) : Tag → Prop
  | param name s => IsParamName name.toList ∧ IsText isMarker s.toList ∧ ∀ l ∈ (lines s.toList).head?, ¬ isMarker l
  | text kind s => IsText isMarker s.toList ∧ (kind ≠ .deprecated → s ≠ "") ∧
      (kind ≠ .examples → ∀ l ∈ (lines s.toList).head?, ¬ isMarker l) ∧ (kind = .seeAlso → isUrl (cutAt ' ' s.toList).1)
  | hidden => True
  | ofModule => True

variable {d : DocComment} {t : Tag} {tags : List Tag} {s word content : List Char} {ls rest more : List (List Char)}

theorem Fenced.tail {isMarker : List Char → Bool} {l : List Char} (h : Fenced isMarker (l :: ls)) (hl : ¬ isMarker l) :
    Fenced isMarker ls := by
  cases h with
  | line _ _ h => exact h
  | fence hopening => exact absurd hopening hl

theorem IsText.isCleaned {isMarker : List Char → Bool} (h : IsText isMarker s) (hne : s ≠ []) : IsCleaned s :=
  ⟨hne, h.trimmed, h.lineEnds⟩

theorem IsText.fenced_tail {isMarker : List Char → Bool} (h : IsText isMarker s)
    (hhead : ∀ l ∈ (lines s).head?, ¬ isMarker l) (hlines : lines s = content :: more) : Fenced isMarker more := by
  have hfenced := h.fenced
  rw [hlines] at hfenced hhead
  exact hfenced.tail (hhead content rfl)

theorem nonemptyString?_toList {s : String} (h : s ≠ "") : nonemptyString? s.toList = some s := by
  obtain ⟨c, cs, hs⟩ := List.exists_cons_of_ne_nil (String.toList_eq_nil_iff.not.mpr h)
  rw [nonemptyString?, hs, nonempty?, ← hs, Option.map_some, String.ofList_toList]
  exact List.cons_ne_nil c cs

theorem IsText.convertedText? {isMarker : List Char → Bool} {s : String} (h : IsText isMarker s.toList) (hne : s ≠ "") :
    DocComment.convertedText? s.toList = some s := by
  rw [DocComment.convertedText?, h.trimmed, convertLinks_eq_self h.noLinks h.trimmed, nonemptyString?_toList hne]

theorem IsParamName.not_mem_break (h : IsParamName s) : '\n' ∉ s := by
  intro hmem
  exact (h.2 _ hmem).1 (by decide)

/-! Reading the lines of a tag -/

theorem Fenced.splitBlocks_append (h : Fenced isFence ls) (rest : List (List Char)) :
    splitBlocks false (ls ++ rest) = (ls ++ (splitBlocks false rest).1, (splitBlocks false rest).2) := by
  induction h with
  | nil => rfl
  | line hmarker htag _ ih =>
    rw [List.cons_append, splitBlocks_plain (.inr htag), hmarker]
    change (_ :: (splitBlocks false _).1, (splitBlocks false _).2) = _
    rw [ih, List.cons_append]
  | fence hopening hinside hclosing _ ih =>
    rw [List.cons_append, List.append_assoc, List.cons_append, IsFenced.splitBlocks_eq ⟨hopening, hinside, hclosing⟩, ih]
    simp

def dropSpace : List Char → List Char
  | ' ' :: s => s
  | s => s

theorem blockTag?_word (hword : word ≠ []) (halpha : ∀ c ∈ word, c.isAlpha) :
    blockTag? ('@' :: word) = some (word, []) := by
  have htake : word.takeWhile Char.isAlpha = word := List.takeWhile_eq_self_iff.mpr halpha
  simp [blockTag?, htake, hword, endsWord]

theorem blockTag?_word_space (hword : word ≠ []) (halpha : ∀ c ∈ word, c.isAlpha) (s : List Char) :
    blockTag? ('@' :: (word ++ ' ' :: s)) = some (word, s) := by
  have htake : (word ++ ' ' :: s).takeWhile Char.isAlpha = word := by
    rw [List.takeWhile_append_of_pos halpha]
    simp
  have hends : endsWord (' ' :: s) = true := by
    have hspace : isWordChar ' ' = false := by decide
    simp [endsWord, hspace]
  have hblank : isBlank ' ' = true := by decide
  simp [blockTag?, htake, hword, hends, hblank]

theorem not_mem_break_of_alpha (h : ∀ c ∈ word, c.isAlpha) : '\n' ∉ '@' :: word := by
  intro hmem
  rcases List.mem_cons.mp hmem with heq | hmem
  · cases heq
  · exact absurd (h _ hmem) (by decide)

theorem lines_tag (hword : word ≠ []) (halpha : ∀ c ∈ word, c.isAlpha) {body : List Char}
    (hbody : body = [] ∨ (∃ s, body = ' ' :: s) ∨ ∃ s, body = '\n' :: s) :
    ∃ first content more, lines ('@' :: (word ++ body)) = first :: more ∧ blockTag? first = some (word, content) ∧
      lines (dropSpace body) = content :: more := by
  have hbreak := not_mem_break_of_alpha halpha
  rcases hbody with rfl | ⟨s, rfl⟩ | ⟨s, rfl⟩
  · refine ⟨'@' :: word, [], [], ?_, blockTag?_word hword halpha, rfl⟩
    rw [List.append_nil, lines_of_not_mem hbreak]
  · obtain ⟨content, more, hs⟩ := List.exists_cons_of_ne_nil (lines_ne_nil s)
    refine ⟨'@' :: (word ++ ' ' :: content), content, more, ?_, blockTag?_word_space hword halpha content, hs⟩
    have hspaced : '\n' ∉ '@' :: word ++ [' '] := by simpa using hbreak
    simpa using lines_append_of_not_mem hspaced hs
  · refine ⟨'@' :: word, [], lines s, ?_, blockTag?_word hword halpha, ?_⟩
    · rw [← List.cons_append, lines_append, lines_of_not_mem hbreak]
      rfl
    · exact lines_append [] s

namespace Tag

theorem spaced_of_ne_nil (h : s ≠ []) : spaced s = ' ' :: s := by
  cases s with
  | nil => exact absurd rfl h
  | cons c cs => rfl

def words : List String :=
  ["param", "returns", "throws", "since", "deprecated", "example", "see", "default", "nodocs", "module"]

theorem word_mem (t : Tag) : t.word ∈ words := by
  cases t with
  | text kind => cases kind <;> simp [word, TextTag.word, words]
  | _ => simp [word, words]

theorem word_plain (t : Tag) : t.word.toList ≠ [] ∧ (∀ c ∈ t.word.toList, c.isAlpha) ∧
    t.word.toList.map Char.toLower = t.word.toList := by
  have hall : ∀ w ∈ words, w.toList ≠ [] ∧ w.toList.all Char.isAlpha ∧ w.toList.map Char.toLower = w.toList := by decide
  obtain ⟨hne, halpha, hlower⟩ := hall t.word t.word_mem
  exact ⟨hne, List.all_eq_true.mp halpha, hlower⟩

theorem body_cases (t : Tag) : t.body = [] ∨ (∃ s, t.body = ' ' :: s) ∨ ∃ s, t.body = '\n' :: s := by
  have hspaced (s : List Char) : spaced s = [] ∨ (∃ s', spaced s = ' ' :: s') ∨ ∃ s', spaced s = '\n' :: s' := by
    cases s with
    | nil => exact .inl rfl
    | cons c cs => exact .inr (.inl ⟨c :: cs, rfl⟩)
  cases t with
  | param name s => exact .inr (.inl ⟨_, rfl⟩)
  | text kind s =>
    cases kind with
    | examples => exact .inr (.inr ⟨_, rfl⟩)
    | _ => exact hspaced s.toList
  | hidden => exact .inl rfl
  | ofModule => exact .inl rfl

def block (t : Tag) : Block :=
  ⟨t.word.toList, lines (dropSpace t.body)⟩

theorem splitBlocks_written (h : ∀ content more, lines (dropSpace t.body) = content :: more → Fenced isFence more)
    (rest : List (List Char)) (hrest : (splitBlocks false rest).1 = []) :
    splitBlocks false (lines t.written ++ rest) = ([], t.block :: (splitBlocks false rest).2) := by
  obtain ⟨hword, halpha, hlower⟩ := t.word_plain
  obtain ⟨first, content, more, hlines, htag, hbody⟩ := lines_tag hword halpha t.body_cases
  rw [written, hlines, List.cons_append, splitBlocks_tag htag, (h content more hbody).splitBlocks_append, hrest, hlower,
    List.append_nil, ← hbody]
  rfl

theorem body_text {kind : TextTag} (h : kind ≠ .examples) (s : String) : (text kind s).body = spaced s.toList := by
  cases kind with
  | examples => exact absurd rfl h
  | _ => rfl

theorem dropSpace_spaced (s : List Char) : dropSpace (spaced s) = s := by
  cases s <;> rfl

theorem Sound.fenced (h : t.Sound isFence) :
    ∀ content more, lines (dropSpace t.body) = content :: more → Fenced isFence more := by
  intro content more hlines
  cases t with
  | param name s =>
    obtain ⟨hname, htext, hhead⟩ := h
    have hbreak := hname.not_mem_break
    change lines (name.toList ++ " -".toList ++ spaced s.toList) = content :: more at hlines
    by_cases hs : s.toList = []
    · rw [hs, spaced, List.append_nil, lines_of_not_mem (by simp [hbreak])] at hlines
      cases hlines
      exact .nil
    · obtain ⟨first, others, hfirst⟩ := List.exists_cons_of_ne_nil (lines_ne_nil s.toList)
      have hspaced : '\n' ∉ name.toList ++ " - ".toList := by simp [hbreak]
      have hshape : name.toList ++ " -".toList ++ spaced s.toList = name.toList ++ " - ".toList ++ s.toList := by
        simp [spaced_of_ne_nil hs]
      rw [hshape, lines_append_of_not_mem hspaced hfirst] at hlines
      cases hlines
      exact htext.fenced_tail hhead hfirst
  | text kind s =>
    obtain ⟨htext, _, hhead, _⟩ := h
    by_cases hkind : kind = .examples
    · subst hkind
      change lines ([] ++ '\n' :: s.toList) = content :: more at hlines
      rw [lines_append] at hlines
      cases hlines
      exact htext.fenced
    · rw [body_text hkind, dropSpace_spaced] at hlines
      exact htext.fenced_tail (hhead hkind) hlines
  | hidden =>
    cases hlines
    exact .nil
  | ofModule =>
    cases hlines
    exact .nil

theorem isCleaned_word (t : Tag) : IsCleaned ('@' :: t.word.toList) := by
  have hall : ∀ w ∈ words, trim ('@' :: w.toList) = '@' :: w.toList := by decide
  exact .of_line (hall t.word t.word_mem) (List.cons_ne_nil _ _) (not_mem_break_of_alpha t.word_plain.2.1)

theorem Sound.isCleaned (h : t.Sound isFence) : IsCleaned t.written := by
  cases t with
  | param name s =>
    obtain ⟨hname, htext, _⟩ := h
    have hbreak := hname.not_mem_break
    by_cases hs : s.toList = []
    · have hshape : (param name s).written = "@param ".toList ++ name.toList ++ [' '] ++ ['-'] := by
        simp [written, word, body, hs, spaced]
      have hright := trimRight_append_of_ne_nil ("@param ".toList ++ name.toList ++ [' ']) (t := ['-']) (by decide) (by simp)
      rw [hshape]
      exact .of_line (trim_eq_self rfl hright) (by simp) (by simp [hbreak])
    · have hshape : (param name s).written = "@param ".toList ++ name.toList ++ " - ".toList ++ s.toList := by
        simp [written, word, body, spaced_of_ne_nil hs]
      rw [hshape]
      exact (htext.isCleaned hs).append_left rfl (by simp) (by simp [hbreak])
  | text kind s =>
    obtain ⟨htext, hne, _⟩ := h
    by_cases hs : s.toList = []
    · have hkind : kind = .deprecated := by
        by_contra hkind
        exact hne hkind (String.toList_eq_nil_iff.mp hs)
      subst hkind
      have hshape : (text .deprecated s).written = '@' :: (text .deprecated s).word.toList := by
        simp [written, body, hs, spaced]
      rw [hshape]
      exact isCleaned_word _
    · by_cases hkind : kind = .examples
      · subst hkind
        exact (isCleaned_word (text .examples s)).break_append (htext.isCleaned hs)
      · have hshape : (text kind s).written = '@' :: ((text kind s).word.toList ++ [' ']) ++ s.toList := by
          simp [written, body_text hkind, spaced_of_ne_nil hs]
        rw [hshape]
        have hbreak := not_mem_break_of_alpha (text kind s).word_plain.2.1
        exact (htext.isCleaned hs).append_left rfl (by simp) (by simpa using hbreak)
  | hidden => exact isCleaned_word .hidden
  | ofModule => exact isCleaned_word .ofModule

/-! What a tag adds -/

def add (d : DocComment) : Tag → DocComment
  | param name s => { d with params := setValue name s d.params }
  | text .returns s => { d with returns := some s }
  | text .throws s => { d with throws := d.throws ++ [s] }
  | text .since s => { d with since := some s }
  | text .deprecated s => { d with deprecated := some s }
  | text .examples s => { d with examples := d.examples ++ [s] }
  | text .seeAlso s => { d with seeAlso := d.seeAlso ++ [s] }
  | text .defaultValue s => { d with defaultValue := some s }
  | hidden => { d with hidden := true }
  | ofModule => { d with ofModule := true }

theorem content_block (t : Tag) : t.block.content = trim (dropSpace t.body) := by
  rw [Block.content, block, unlines_lines]

theorem content_text (kind : TextTag) {s : String} (h : trim s.toList = s.toList) :
    (text kind s).block.content = s.toList := by
  rw [content_block]
  by_cases hkind : kind = .examples
  · subst hkind
    have hpad := trim_pad (l := ['\n']) (List.forall_mem_singleton.mpr (by decide)) s.toList (r := []) (by simp)
    rw [List.append_nil, h] at hpad
    exact hpad
  · rw [body_text hkind, dropSpace_spaced, h]

theorem addBlock_text {kind : TextTag} {s : String} (h : (text kind s).Sound isFence) (d : DocComment) :
    addBlock d (text kind s).block = (text kind s).add d := by
  obtain ⟨htext, hne, _, hurl⟩ := h
  have hcontent := content_text kind htext.trimmed
  have hconverted := convertLinks_eq_self htext.noLinks htext.trimmed
  have hempty (hs : s ≠ "") : s.toList.isEmpty = false := by
    simpa using hs
  rw [addBlock, hcontent]
  cases kind with
  | returns =>
    have hs := hne (by decide)
    simp only [block, word, TextTag.word, String.ofList_toList, add, htext.convertedText? hs]
  | throws =>
    have hs := hne (by decide)
    simp only [block, word, TextTag.word, String.ofList_toList, add, hempty hs, hconverted]
    rfl
  | since =>
    have hs := hne (by decide)
    simp only [block, word, TextTag.word, String.ofList_toList, add, nonemptyString?_toList hs]
  | deprecated => simp only [block, word, TextTag.word, String.ofList_toList, add, hconverted]
  | examples =>
    have hs := hne (by decide)
    simp only [block, word, TextTag.word, String.ofList_toList, add, hempty hs]
    rfl
  | seeAlso =>
    have hs := String.toList_eq_nil_iff.not.mpr (hne (by decide))
    have hsee := seeMarkup_eq_self hs htext.trimmed htext.noLinks (hurl rfl)
    simp only [block, word, TextTag.word, String.ofList_toList, add, hsee]
  | defaultValue =>
    have hs := hne (by decide)
    simp only [block, word, TextTag.word, String.ofList_toList, add, nonemptyString?_toList hs]

theorem trim_spaced (h : trim s = s) : trim (spaced s) = s := by
  cases s with
  | nil => rfl
  | cons c cs =>
    have hpad := trim_pad (l := [' ']) (List.forall_mem_singleton.mpr (by decide)) (c :: cs) (r := []) (by simp)
    rw [List.append_nil, h] at hpad
    exact hpad

theorem trimRight_dashed (h : trim s = s) (name : List Char) :
    trimRight (name ++ '-' :: spaced s) = name ++ '-' :: spaced s := by
  apply trimRight_append_of_ne_nil name _ (List.cons_ne_nil _ _)
  by_cases hs : s = []
  · subst hs
    decide
  · rw [spaced_of_ne_nil hs]
    exact trimRight_append_of_ne_nil ['-', ' '] (trimRight_eq_self h) hs

theorem trim_param {name : List Char} (hname : IsParamName name) (htrim : trim s = s) :
    trim (name ++ " -".toList ++ spaced s) = name ++ " -".toList ++ spaced s := by
  obtain ⟨hne, hchars⟩ := hname
  obtain ⟨c, cs, rfl⟩ := List.exists_cons_of_ne_nil hne
  have hblank := (hchars c List.mem_cons_self).1
  apply trim_eq_self
  · simp [trimLeft, hblank]
  · simpa using trimRight_dashed htrim (c :: cs ++ [' '])

theorem paramName_eq_self (h : ∀ c ∈ s, c ∉ ['=', '{', '}', '[', ']']) : paramName s = s := by
  have hdrop {s : List Char} (h : ∀ c ∈ s, c ∉ ['=', '{', '}', '[', ']']) :
      s.dropWhile (fun c => c = '[' || c = ']') = s := by
    cases s with
    | nil => rfl
    | cons c cs =>
      have hc := h c List.mem_cons_self
      simp_all
  have htrim : trimOf (fun c => c = '[' || c = ']') s = s := by
    rw [trimOf, dropRightWhile, hdrop h, hdrop (by simpa using h), List.reverse_reverse]
  have hequals : '=' ∉ s := fun hmem => h '=' hmem (by decide)
  rw [paramName, htrim, cutAt_of_not_mem hequals]

theorem param?_written {name : List Char} (hname : IsParamName name) (htrim : trim s = s) (hlinks : ¬ HasLinkTag s) :
    DocComment.param? (name ++ " -".toList ++ spaced s) = some (String.ofList name, String.ofList s) := by
  have htrimmed := trim_param hname htrim
  obtain ⟨hne, hchars⟩ := hname
  obtain ⟨c, cs, rfl⟩ := List.exists_cons_of_ne_nil hne
  have hshape : c :: cs ++ " -".toList ++ spaced s = c :: (cs ++ ' ' :: '-' :: spaced s) := by simp
  have hspace : ' ' ∉ c :: cs := fun hmem => (hchars ' ' hmem).1 (by decide)
  have hbreak : '\n' ∉ c :: cs := fun hmem => (hchars '\n' hmem).1 (by decide)
  have htype : dropParamType (c :: (cs ++ ' ' :: '-' :: spaced s)) = c :: (cs ++ ' ' :: '-' :: spaced s) := by
    have hbrace := (hchars c List.mem_cons_self).2
    unfold dropParamType
    split
    · simp_all
    · rfl
  have hcut : cutAt ' ' (c :: (cs ++ ' ' :: '-' :: spaced s)) = (c :: cs, '-' :: spaced s) :=
    cutAt_append hspace ('-' :: spaced s)
  have hdash : trim ('-' :: spaced s) = '-' :: spaced s := trim_eq_self rfl (trimRight_dashed htrim [])
  rw [DocComment.param?, htrimmed, hshape, htype]
  simp only [hcut, cutAt?_of_not_mem hbreak, hdash, trim_spaced htrim, convertLinks_eq_self hlinks htrim,
    paramName_eq_self fun c hc => (hchars c hc).2]

theorem Sound.addBlock_eq (h : t.Sound isFence) (d : DocComment) : addBlock d t.block = t.add d := by
  cases t with
  | param name s =>
    obtain ⟨hname, htext, _⟩ := h
    have hcontent : (param name s).block.content = name.toList ++ " -".toList ++ spaced s.toList :=
      (content_block (param name s)).trans (trim_param hname htext.trimmed)
    rw [addBlock, hcontent, param?_written hname htext.trimmed htext.noLinks]
    simp only [block, word, String.ofList_toList, add]
  | text kind s => exact addBlock_text h d
  | hidden => rfl
  | ofModule => rfl

end Tag

/-! Reading all of a comment -/

theorem splitBlocks_tags (h : ∀ t ∈ tags, t.Sound isFence) :
    splitBlocks false ((tags.map Tag.written).flatMap lines) = ([], tags.map Tag.block) := by
  induction tags with
  | nil => rfl
  | cons t tags ih =>
    obtain ⟨ht, htags⟩ := List.forall_mem_cons.mp h
    have hrest := ih htags
    rw [List.map_cons, List.flatMap_cons, Tag.splitBlocks_written ht.fenced _ (by rw [hrest]), hrest, List.map_cons]

theorem foldl_block (h : ∀ t ∈ tags, t.Sound isFence) (d : DocComment) :
    (tags.map Tag.block).foldl addBlock d = tags.foldl Tag.add d := by
  induction tags generalizing d with
  | nil => rfl
  | cons t tags ih =>
    obtain ⟨ht, htags⟩ := List.forall_mem_cons.mp h
    rw [List.map_cons, List.foldl_cons, List.foldl_cons, ht.addBlock_eq, ih htags]

theorem ofLines_written {text : Option String} (htext : ∀ s ∈ text, s ≠ "" ∧ IsText isFence s.toList)
    (htags : ∀ t ∈ tags, t.Sound isFence) :
    ofLines ((text.toList.map String.toList ++ tags.map Tag.written).flatMap lines) =
      tags.foldl Tag.add { text := text } := by
  have hsplit := splitBlocks_tags htags
  rw [List.flatMap_append, ofLines]
  cases text with
  | none =>
    simp only [Option.toList_none, List.map_nil, List.flatMap_nil, List.nil_append, hsplit]
    exact foldl_block htags _
  | some s =>
    obtain ⟨hne, hs⟩ := htext s rfl
    simp only [Option.toList_some, List.map_cons, List.map_nil, List.flatMap_cons, List.flatMap_nil, List.append_nil,
      hs.fenced.splitBlocks_append, hsplit, unlines_lines, hs.convertedText? hne]
    exact foldl_block htags _

theorem parse?_written {text : Option String} (htext : ∀ s ∈ text, s ≠ "" ∧ IsText isFence s.toList)
    (htags : ∀ t ∈ tags, t.Sound isFence) (hne : text.isSome ∨ tags ≠ []) :
    parse? (write text tags) = some (tags.foldl Tag.add { text := text }) := by
  have hparts : text.toList.map String.toList ++ tags.map Tag.written ≠ [] := by
    rcases hne with h | h
    · obtain ⟨s, rfl⟩ := Option.isSome_iff_exists.mp h
      simp
    · simp [h]
  have hcleaned : IsCleaned (unlines (text.toList.map String.toList ++ tags.map Tag.written)) := by
    apply IsCleaned.unlines hparts
    intro part hpart
    rcases List.mem_append.mp hpart with h | h
    · obtain ⟨s, hs, rfl⟩ := List.mem_map.mp h
      obtain ⟨hne, hs⟩ := htext s (Option.mem_toList.mp hs)
      exact hs.isCleaned (String.toList_eq_nil_iff.not.mpr hne)
    · obtain ⟨t, ht, rfl⟩ := List.mem_map.mp h
      exact (htags t ht).isCleaned
  rw [write, ← lines_unlines_texts hparts, parse?, clean?_writeBlock hcleaned, Option.map_some,
    lines_unlines_texts hparts, ofLines_written htext htags]

/-! Adding up the tags -/

namespace Tag

theorem setValue_of_not_mem {name value : String} {entries : List (String × String)} (h : name ∉ entries.map Prod.fst) :
    setValue name value entries = entries ++ [(name, value)] := by
  induction entries with
  | nil => rfl
  | cons entry rest ih =>
    obtain ⟨hentry, hrest⟩ : name ≠ entry.1 ∧ name ∉ rest.map Prod.fst := by simpa using h
    rw [setValue, if_neg (by simpa using hentry.symm), ih hrest, List.cons_append]

theorem foldl_extends {α : Type} (part : DocComment → List α) (added? : Tag → Option α) (P : List α → Prop)
    (hinit : ∀ l r, P (l ++ r) → P l)
    (hadd : ∀ d t, P (part d ++ (added? t).toList) → part (t.add d) = part d ++ (added? t).toList) (tags : List Tag) :
    ∀ d, P (part d ++ tags.filterMap added?) → part (tags.foldl add d) = part d ++ tags.filterMap added? := by
  induction tags with
  | nil => simp
  | cons t tags ih =>
    intro d hP
    have hcons : (t :: tags).filterMap added? = (added? t).toList ++ tags.filterMap added? := by
      cases h : added? t <;> simp [h]
    rw [hcons, ← List.append_assoc] at hP ⊢
    have ht := hadd d t (hinit _ _ hP)
    rw [List.foldl_cons, ih _ (by rwa [ht]), ht]

theorem params_add (h : ((d.params ++ t.param?.toList).map Prod.fst).Nodup) :
    (t.add d).params = d.params ++ t.param?.toList := by
  cases t with
  | param name s =>
    have hname : name ∉ d.params.map Prod.fst := by
      simp only [param?, Option.toList_some, List.map_append, List.map_cons, List.map_nil] at h
      exact fun hmem => (List.nodup_append.mp h).2.2 name hmem name (by simp) rfl
    exact setValue_of_not_mem hname
  | text kind s => cases kind <;> simp [add, param?]
  | hidden => simp [add, param?]
  | ofModule => simp [add, param?]

theorem texts_add {kind : TextTag} (h : kind.repeats ∨ (d.texts kind ++ (t.text? kind).toList).length ≤ 1) :
    (t.add d).texts kind = d.texts kind ++ (t.text? kind).toList := by
  cases t with
  | text k s =>
    by_cases hk : k = kind
    · subst hk
      rw [text?, if_pos rfl, Option.toList_some] at h ⊢
      by_cases hrepeats : k.repeats
      · cases k <;> simp_all [TextTag.repeats, add, texts]
      · -- A tag that does not repeat replaces its text, so there must be none yet.
        have hnone : d.texts k = [] := by
          have hlength := h.resolve_left hrepeats
          rw [List.length_append, List.length_singleton] at hlength
          exact List.length_eq_zero_iff.mp (by omega)
        rw [hnone]
        cases k <;> simp_all [TextTag.repeats, add, texts]
    · rw [text?, if_neg hk, Option.toList_none, List.append_nil]
      cases k <;> cases kind <;> simp_all [add, texts]
  | param name s => cases kind <;> simp [add, text?, texts]
  | hidden => cases kind <;> simp [add, text?, texts]
  | ofModule => cases kind <;> simp [add, text?, texts]

theorem text_foldl (tags : List Tag) (d : DocComment) : (tags.foldl add d).text = d.text := by
  induction tags generalizing d with
  | nil => rfl
  | cons t tags ih =>
    rw [List.foldl_cons, ih]
    cases t with
    | text kind => cases kind <;> rfl
    | _ => rfl

theorem flag_foldl (flag : DocComment → Bool) {mark : Tag} (hadd : ∀ d t, flag (t.add d) = (flag d || t == mark))
    (tags : List Tag) (d : DocComment) : flag (tags.foldl add d) = (flag d || tags.contains mark) := by
  induction tags generalizing d with
  | nil => simp
  | cons t tags ih =>
    have hmark : (t == mark) = (mark == t) := BEq.comm
    rw [List.foldl_cons, ih, hadd, List.contains_cons, Bool.or_assoc, hmark]

theorem hidden_add (d : DocComment) (t : Tag) : (t.add d).hidden = (d.hidden || t == .hidden) := by
  cases t with
  | text kind => cases kind <;> simp [add]
  | _ => simp [add]

theorem ofModule_add (d : DocComment) (t : Tag) : (t.add d).ofModule = (d.ofModule || t == .ofModule) := by
  cases t with
  | text kind => cases kind <;> simp [add]
  | _ => simp [add]

end Tag

theorem length_texts_le {kind : TextTag} (h : ¬ kind.repeats) : (d.texts kind).length ≤ 1 := by
  cases kind <;> simp_all [TextTag.repeats, texts, Option.length_toList_le]

theorem eq_of_texts {e : DocComment} (htext : d.text = e.text) (hparams : d.params = e.params)
    (htexts : ∀ kind, d.texts kind = e.texts kind) (hhidden : d.hidden = e.hidden) (hofModule : d.ofModule = e.ofModule) :
    d = e := by
  have hoption {α : Type} {a b : Option α} (h : a.toList = b.toList) : a = b := by
    cases a <;> cases b <;> simp_all
  obtain ⟨⟩ := d
  obtain ⟨⟩ := e
  have hreturns := hoption (htexts .returns)
  have hthrows := htexts .throws
  have hsince := hoption (htexts .since)
  have hdeprecated := hoption (htexts .deprecated)
  have hexamples := htexts .examples
  have hseeAlso := htexts .seeAlso
  have hdefault := hoption (htexts .defaultValue)
  simp_all [texts]

theorem contains_of_count {t : Tag} {b : Bool} (h : tags.count t = b.toNat) : tags.contains t = b := by
  have hpos : 0 < tags.count t ↔ t ∈ tags := List.count_pos_iff
  rw [h] at hpos
  cases b <;> simp_all

theorem Lists.foldl_add (h : Lists tags d) (hnames : (d.params.map Prod.fst).Nodup) :
    tags.foldl Tag.add { text := d.text } = d := by
  apply eq_of_texts
  · exact Tag.text_foldl tags _
  · have hinit (l r : List (String × String)) (hP : ((l ++ r).map Prod.fst).Nodup) : (l.map Prod.fst).Nodup := by
      rw [List.map_append] at hP
      exact hP.of_append_left
    have hparams := Tag.foldl_extends DocComment.params Tag.param? (fun entries => (entries.map Prod.fst).Nodup) hinit
      (fun _ _ => Tag.params_add) tags { text := d.text }
    rw [h.params] at hparams
    exact hparams hnames
  · intro kind
    have hinit (l r : List String) (hP : kind.repeats ∨ (l ++ r).length ≤ 1) : kind.repeats ∨ l.length ≤ 1 := by
      rw [List.length_append] at hP
      exact hP.imp_right fun hle => by omega
    have htexts := Tag.foldl_extends (DocComment.texts · kind) (Tag.text? kind) (fun l => kind.repeats ∨ l.length ≤ 1) hinit
      (fun _ _ => Tag.texts_add) tags { text := d.text }
    have hempty : DocComment.texts { text := d.text } kind = [] := by cases kind <;> rfl
    rw [h.texts, hempty, List.nil_append] at htexts
    apply htexts
    by_cases hrepeats : kind.repeats
    · exact .inl hrepeats
    · exact .inr (length_texts_le hrepeats)
  · rw [Tag.flag_foldl DocComment.hidden Tag.hidden_add, contains_of_count h.hidden, Bool.false_or]
  · rw [Tag.flag_foldl DocComment.ofModule Tag.ofModule_add, contains_of_count h.ofModule, Bool.false_or]

theorem parse?_write (hlists : Lists tags d) (hnames : (d.params.map Prod.fst).Nodup)
    (htext : ∀ s ∈ d.text, s ≠ "" ∧ IsText isFence s.toList) (htags : ∀ t ∈ tags, t.Sound isFence) (hne : d ≠ {}) :
    parse? (write d.text tags) = some d := by
  have hfold := hlists.foldl_add hnames
  have hsays : d.text.isSome ∨ tags ≠ [] := by
    by_contra hnot
    obtain ⟨hnone, rfl⟩ : d.text = none ∧ tags = [] := by simpa using hnot
    rw [hnone] at hfold
    exact hne hfold.symm
  rw [parse?_written htext htags hsays, hfold]

def retryTags : List Tag :=
  [.text .deprecated "", .param "task" "What to do,\n  again and again", .text .examples "```ts\n@nodocs\n```\nor not",
    .ofModule, .param "n" "", .text .seeAlso "https://example.com more"]

def retryComment : DocComment where
  text := some "Tries.\n\nThen gives up."
  params := [("task", "What to do,\n  again and again"), ("n", "")]
  deprecated := some ""
  examples := ["```ts\n@nodocs\n```\nor not"]
  seeAlso := ["https://example.com more"]
  ofModule := true

theorem isText_of_plain {s : List Char} (htrimmed : trim s = s) (hbrace : '{' ∉ s)
    (hlines : ∀ l ∈ lines s, trimRight l = l ∧ isFence l = false ∧ blockTag? l = none) : IsText isFence s := by
  have hfenced {ls : List (List Char)} (h : ∀ l ∈ ls, isFence l = false ∧ blockTag? l = none) : Fenced isFence ls := by
    induction ls with
    | nil => exact .nil
    | cons l ls ih =>
      obtain ⟨⟨hmarker, htag⟩, hls⟩ := List.forall_mem_cons.mp h
      exact .line hmarker htag (ih hls)
  exact ⟨htrimmed, fun l hl => (hlines l hl).1, not_hasLinkTag hbrace, hfenced fun l hl => (hlines l hl).2⟩

theorem parse?_write_retryComment :
    Lists retryTags retryComment ∧ (∀ t ∈ retryTags, t.Sound isFence) ∧
      parse? (write retryComment.text retryTags) = some retryComment := by
  have hlists : Lists retryTags retryComment := ⟨by decide, fun kind => by cases kind <;> decide, by decide, by decide⟩
  have hfenced : Fenced isFence (lines "```ts\n@nodocs\n```\nor not".toList) :=
    @Fenced.fence isFence "```ts".toList ["@nodocs".toList] "```".toList ["or not".toList] (by decide) (by decide) (by decide)
      (.line (by decide) (by decide) .nil)
  have hplain : ∀ s ∈ ["", "What to do,\n  again and again", "https://example.com more", "Tries.\n\nThen gives up."],
      trim s.toList = s.toList ∧ '{' ∉ s.toList ∧
        ∀ l ∈ lines s.toList, trimRight l = l ∧ isFence l = false ∧ blockTag? l = none := by decide
  have htext (s : String) (hs : s ∈ ["", "What to do,\n  again and again", "https://example.com more",
      "Tries.\n\nThen gives up."]) : IsText isFence s.toList :=
    isText_of_plain (hplain s hs).1 (hplain s hs).2.1 (hplain s hs).2.2
  have htags : ∀ t ∈ retryTags, t.Sound isFence := by
    simp only [retryTags, List.forall_mem_cons, List.not_mem_nil, false_implies, implies_true, and_true]
    refine ⟨⟨htext "" (by simp), by decide, by decide, by decide⟩, ⟨by decide, htext _ (by simp), by decide⟩,
      ⟨⟨by decide, by decide, not_hasLinkTag (by decide), hfenced⟩, by decide, by decide, by decide⟩, trivial,
      ⟨by decide, htext "" (by simp), by decide⟩, ⟨htext _ (by simp), by decide, by decide, by decide⟩⟩
  refine ⟨hlists, htags, parse?_write hlists (by decide) ?_ htags (by decide)⟩
  intro s hs
  cases hs
  exact ⟨by decide, htext _ (by simp)⟩

theorem indented_marker_closes :
    Tag.Sound ("```".toList.isPrefixOf ·) (.text .examples "```\n    ```\n@nodocs\n```") ∧
      Lists [.text .examples "```\n    ```\n@nodocs\n```"] { examples := ["```\n    ```\n@nodocs\n```"] } ∧
      parse? (write none [.text .examples "```\n    ```\n@nodocs\n```"]) =
        some { examples := ["```\n    ```"], hidden := true } := by
  have hfenced : Fenced ("```".toList.isPrefixOf ·) (lines "```\n    ```\n@nodocs\n```".toList) :=
    @Fenced.fence _ "```".toList ["    ```".toList, "@nodocs".toList] "```".toList [] (by decide) (by decide) (by decide) .nil
  refine ⟨⟨⟨by decide, by decide, not_hasLinkTag (by decide), hfenced⟩, by decide, by decide, by decide⟩, ?_, by decide⟩
  exact ⟨by decide, fun kind => by cases kind <;> decide, by decide, by decide⟩

end ApiCatalog.DocComment
