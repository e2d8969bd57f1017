import AgUi.DocTemplate.ParamsTable

/-!
# Method documentation read from the source

The encoder page documents each public method of an encoder class.  YARD gives a comment to the
statement right below it, and in the Ruby SDK that statement is the Sorbet `sig` of a method, not its
`def`.  So when YARD has no tags for a method, the template reads them from the source
(`parse_method_doc_from_source`).  From the line above the `def` it walks up at most 80 lines.  It
steps over the lines of a signature and collects the comment and blank lines, up to any other line
(`collectMethodDoc`).  It then reads each comment line as a `@param` tag, a `@return` tag, another
tag, or a line of the description (`readDocLine`).

* `parseMethodDocFromSource_doc`: a comment made of description lines, `@param` lines and
  `@return` lines is read back as its description, its tags in order and its last return tag.  The
  lines may come in any order and with any indentation.  The comment may stand between lines the walk
  steps over: blank lines, the signature, the `end` of the method above.
* `parseMethodDocFromSource_eq`: on every file and line, the walk keeps the comment and blank lines
  it covers, and each is read on its own (`lineItem?`); so the text of a tag ends with its line, and
  an indented line that continues it, as YARD reads it, becomes a line of the description.
-/

namespace AgUi

namespace DocTemplate

/-! ## The template -/

/-- `s.include?(sub)`: `sub` occurs in `s`. -/
def includes (sub : List Char) : List Char → Bool
  | [] => sub.isEmpty
  | c :: s => sub.isPrefixOf (c :: s) || includes sub s

/-- `stripped.start_with?("sig") || stripped == "end" || stripped.include?("params(") ||
stripped.include?("returns(") || stripped.end_with?(".void") || stripped.include?("T.nilable")`:
a line of a Sorbet signature, which the walk steps over. -/
def isSigLine (stripped : List Char) : Bool :=
  "sig".toList.isPrefixOf stripped || stripped = "end".toList || includes "params(".toList stripped ||
    includes "returns(".toList stripped || ".void".toList.isSuffixOf stripped || includes "T.nilable".toList stripped

/-- The walk of `parse_method_doc_from_source`: from line `idx` up, at most `k` lines, the stripped
comment and blank lines, stepping over the lines of a signature, up to any other line. -/
def collectMethodDoc (lines : List (List Char)) : Nat → Nat → List (List Char) → List (List Char)
  | _, 0, collected => collected
  | idx, k + 1, collected =>
    let stripped := strip (lines.getD idx [])
    if isCommentOrBlank stripped then
      match idx with
      | 0 => collected ++ [stripped]
      | i + 1 => collectMethodDoc lines i k (collected ++ [stripped])
    else if isSigLine stripped then
      match idx with
      | 0 => collected
      | i + 1 => collectMethodDoc lines i k collected
    else collected

/-- `String#rstrip`. -/
def rstrip (s : List Char) : List Char := s.rdropWhile isStripped

/-- `str.sub(/^#\s?/, "").rstrip`: a comment line without its `#`, one whitespace character after it,
and the whitespace at its end. -/
def commentText (str : List Char) : List Char :=
  rstrip (if str.head? = some '#' then (if str.tail.head?.any isSpace then str.tail.tail else str.tail) else str)

/-- `s.match(/^@param\s+(\w+)\s*(\[[^\]]+\])?\s*(.*)$/)` and the tag built from it: the regular
expression of `paramTagMatch?` after its `#\s*`, so `s` must start with the `@`. -/
def methodParamMatch? (s : List Char) : Option ParamTag :=
  if s.head? = some '@' then paramTagMatch? ('#' :: s) else none

/-- A `@return` tag: its types and its text. -/
structure ReturnTag where
  types : List (List Char)
  text : List Char
  deriving DecidableEq, Repr

/-- `s.match(/^@return\s*(\[[^\]]+\])?\s*(.*)$/)` and the tag built from it.  `\s*` may match
nothing, so `@returns [String] x` is a tag without types whose text is `s [String] x`. -/
def returnTagMatch? (s : List Char) : Option ReturnTag :=
  if "@return".toList.isPrefixOf s then
    let g := bracketGroup ((s.drop 7).dropWhile isSpace)
    some ⟨splitTypes g.1, strip (g.2.dropWhile isSpace)⟩
  else none

/-- What the loop over the block gathers: the lines of the description, the `@param` tags and the
`@return` tag. -/
abbrev DocParts := List (List Char) × List ParamTag × Option ReturnTag

/-- One line of the block: a `@param` tag is appended, a `@return` tag replaces the one before, a
comment line that starts with another tag is dropped, and any other comment line is a line of the
description. -/
def readDocLine (doc : DocParts) (str : List Char) : DocParts :=
  if str.head? = some '#' then
    let s := commentText str
    match methodParamMatch? s with
    | some t => (doc.1, doc.2.1 ++ [t], doc.2.2)
    | none =>
      match returnTagMatch? s with
      | some r => (doc.1, doc.2.1, some r)
      | none => if s.head? = some '@' then doc else (doc.1 ++ [s], doc.2.1, doc.2.2)
  else doc

/-- What `parse_method_doc_from_source` returns: the description, the `@param` tags and the `@return`
tag. -/
structure MethodDoc where
  description : List Char
  params : List ParamTag
  returnTag : Option ReturnTag
  deriving DecidableEq, Repr

/-- `parse_method_doc_from_source(file, line)`, for the lines of the file. -/
def parseMethodDocFromSource (lines : List (List Char)) (line : Int) : MethodDoc :=
  match startIndex lines line with
  | none => ⟨[], [], none⟩
  | some idx =>
    let doc := (collectMethodDoc lines idx 80 []).reverse.foldl readDocLine ([], [], none)
    ⟨strip (joinLines doc.1), doc.2.1, doc.2.2⟩

/-! ## The walk -/

/-- A line the walk reads on: a comment, a blank line, or a line of a signature. -/
def scannedLine (l : List Char) : Bool := isCommentOrBlank (strip l) || isSigLine (strip l)

/-- What the walk keeps of a line it reads: the stripped line, if it is a comment or blank. -/
def keptLine (l : List Char) : Option (List Char) := if isCommentOrBlank (strip l) then some (strip l) else none

theorem collectMethodDoc_succ (lines : List (List Char)) (idx k : Nat) (acc : List (List Char)) :
    collectMethodDoc lines idx (k + 1) acc =
      let next := fun acc' => if idx = 0 then acc' else collectMethodDoc lines (idx - 1) k acc'
      if isCommentOrBlank (strip (lines.getD idx [])) then next (acc ++ [strip (lines.getD idx [])])
      else if isSigLine (strip (lines.getD idx [])) then next acc else acc := by
  cases idx <;> rfl

/-- The walk reads at most `k` lines from `idx` up, while they are comments, blank or a signature's,
and keeps the comments and blank lines. -/
theorem collectMethodDoc_eq (lines : List (List Char)) :
    ∀ (k idx : Nat) (acc : List (List Char)), idx < lines.length →
      collectMethodDoc lines idx k acc =
        acc ++ ((((lines.take (idx + 1)).reverse.take k).takeWhile scannedLine).filterMap keptLine)
  | 0, _, acc, _ => by simp [collectMethodDoc]
  | k + 1, idx, acc, h => by
    have hnext : ∀ acc', (if idx = 0 then acc' else collectMethodDoc lines (idx - 1) k acc') =
        acc' ++ ((((lines.take idx).reverse.take k).takeWhile scannedLine).filterMap keptLine) := by
      intro acc'
      cases idx with
      | zero => simp
      | succ i => exact collectMethodDoc_eq lines k i acc' (by omega)
    rw [collectMethodDoc_succ, take_succ_reverse h, List.take_succ_cons, List.getD_eq_getElem?_getD,
      List.getElem?_eq_getElem h, Option.getD_some]
    by_cases hc : isCommentOrBlank (strip lines[idx])
    · simp only [hc, if_true, hnext, scannedLine, Bool.true_or, List.takeWhile_cons_of_pos, List.filterMap_cons,
        keptLine, List.append_assoc, List.singleton_append]
    · by_cases hs : isSigLine (strip lines[idx])
      · simp only [hc, hs, if_true, hnext, scannedLine, Bool.false_or, List.takeWhile_cons_of_pos,
          List.filterMap_cons, keptLine, Bool.false_eq_true, if_false]
      · simp [hc, hs, scannedLine]

/-- From the line above a method, the walk reads the lines `mid` above it, if they are at most `k`,
up to a line of `pre` it does not read. -/
theorem collectMethodDoc_block {pre mid : List (List Char)} (rest : List (List Char))
    (hpre : ∀ l ∈ pre.getLast?, scannedLine l = false) (hmid : ∀ l ∈ mid, scannedLine l = true)
    (hne : pre ++ mid ≠ []) {k : Nat} (hk : mid.length ≤ k) :
    collectMethodDoc (pre ++ mid ++ rest) ((pre ++ mid).length - 1) k [] = (mid.filterMap keptLine).reverse := by
  have hlen : 0 < (pre ++ mid).length := List.length_pos.2 hne
  rw [collectMethodDoc_eq _ _ _ _ (by simp only [List.length_append] at hlen ⊢; omega),
    Nat.sub_add_cancel hlen, List.take_left' rfl, List.reverse_append, List.take_append_eq_append_take,
    List.take_of_length_le (by simpa using hk), List.takeWhile_append_of_pos (by simpa using hmid),
    takeWhile_eq_nil_of_head?, List.append_nil, List.nil_append, List.filterMap_reverse]
  intro x hx
  rw [List.head?_take] at hx
  split at hx
  · cases hx
  · exact hpre x (by simpa using hx)

/-! ## The comment -/

/-- A line of a method's comment: a line of the description, a `@param` tag or a `@return` tag. -/
inductive DocItem where
  | desc (text : List Char)
  | param (t : ParamTag)
  | ret (r : ReturnTag)
  deriving DecidableEq, Repr

/-- `# @return [A, B] text`, the `@return` line of a tag, without the brackets when the tag has no
types and without the text when it has none. -/
def returnLine (r : ReturnTag) : List Char :=
  "# @return".toList ++ (if r.types = [] then [] else ' ' :: '[' :: joinTypes r.types ++ [']']) ++
    (if r.text = [] then [] else ' ' :: r.text)

/-- The comment line of an item, stripped. -/
def DocItem.line : DocItem → List Char
  | .desc d => '#' :: (if d = [] then [] else ' ' :: d)
  | .param t => paramLine t
  | .ret r => returnLine r

/-- The line of the description an item is, if it is one. -/
def DocItem.desc? : DocItem → Option (List Char)
  | .desc d => some d
  | _ => none

/-- The `@param` tag an item is, if it is one. -/
def DocItem.param? : DocItem → Option ParamTag
  | .param t => some t
  | _ => none

/-- The `@return` tag an item is, if it is one. -/
def DocItem.ret? : DocItem → Option ReturnTag
  | .ret r => some r
  | _ => none

/-- What an item adds to what the loop has gathered. -/
def DocItem.addTo (doc : DocParts) : DocItem → DocParts
  | .desc d => (doc.1 ++ [d], doc.2.1, doc.2.2)
  | .param t => (doc.1, doc.2.1 ++ [t], doc.2.2)
  | .ret r => (doc.1, doc.2.1, some r)

/-- A `@return` tag its line gives back: types with no `]` and no separator, and a stripped text that
is not read as types. -/
structure ReturnTag.WellFormed (r : ReturnTag) : Prop where
  types_ne : ∀ ty ∈ r.types, ty ≠ []
  types_strip : ∀ ty ∈ r.types, strip ty = ty
  types_chars : ∀ ty ∈ r.types, ∀ c ∈ ty, c ≠ ']' ∧ isTypeSeparator c = false
  text_strip : strip r.text = r.text
  text_not_types : r.types = [] → r.text.head? ≠ some '['

instance (r : ReturnTag) : Decidable r.WellFormed :=
  decidable_of_iff ((∀ ty ∈ r.types, ty ≠ []) ∧ (∀ ty ∈ r.types, strip ty = ty) ∧
      (∀ ty ∈ r.types, ∀ c ∈ ty, c ≠ ']' ∧ isTypeSeparator c = false) ∧ strip r.text = r.text ∧
      (r.types = [] → r.text.head? ≠ some '['))
    ⟨fun ⟨h₁, h₂, h₃, h₄, h₅⟩ => ⟨h₁, h₂, h₃, h₄, h₅⟩,
      fun h => ⟨h.types_ne, h.types_strip, h.types_chars, h.text_strip, h.text_not_types⟩⟩

/-- An item its line gives back: a description line with no whitespace at its end that does not
start with a tag, or a well-formed tag. -/
def DocItem.WellFormed : DocItem → Prop
  | .desc d => rstrip d = d ∧ d.head? ≠ some '@'
  | .param t => t.WellFormed
  | .ret r => r.WellFormed

instance : ∀ i : DocItem, Decidable i.WellFormed
  | .desc d => inferInstanceAs (Decidable (rstrip d = d ∧ d.head? ≠ some '@'))
  | .param t => inferInstanceAs (Decidable t.WellFormed)
  | .ret r => inferInstanceAs (Decidable r.WellFormed)

/-! ## Reading the comment back -/

theorem rstrip_strip (s : List Char) : rstrip (strip s) = strip s := List.rdropWhile_idempotent _ _

/-- A line without whitespace at its end has none once its first characters are dropped. -/
theorem rstrip_drop {l : List Char} (h : rstrip l = l) (n : Nat) : rstrip (l.drop n) = l.drop n := by
  refine List.rdropWhile_eq_self_iff.2 fun hne => ?_
  rw [List.getLast_drop hne]
  exact List.rdropWhile_eq_self_iff.1 h _

theorem methodParamMatch?_param (X : List Char) :
    methodParamMatch? ("@param ".toList ++ X) = paramTagMatch? ("# @param ".toList ++ X) := rfl

theorem methodParamMatch?_return (X : List Char) : methodParamMatch? ("@return".toList ++ X) = none := rfl

theorem returnTagMatch?_return (X : List Char) : returnTagMatch? ("@return".toList ++ X) =
    some ⟨splitTypes (bracketGroup (X.dropWhile isSpace)).1,
      strip ((bracketGroup (X.dropWhile isSpace)).2.dropWhile isSpace)⟩ := by
  rw [returnTagMatch?, if_pos (by simp)]
  rfl

/-- The `@return` line of a well-formed tag is read back as the tag. -/
theorem returnTagMatch?_returnLine {r : ReturnTag} (hr : r.WellFormed) :
    returnTagMatch? ((returnLine r).drop 2) = some r := by
  obtain ⟨types, text⟩ := r
  by_cases htypes : types = []
  · subst htypes
    have hbr : bracketGroup text = ([], text) := by
      cases text with
      | nil => rfl
      | cons a text => exact if_neg (by simpa using hr.text_not_types rfl)
    have hline : (returnLine ⟨[], text⟩).drop 2 = "@return".toList ++ if text = [] then [] else ' ' :: text := by
      simp [returnLine]
    rw [hline, returnTagMatch?_return, dropWhile_textPart hr.text_strip, hbr, dropWhile_isSpace_of_strip_eq hr.text_strip,
      hr.text_strip]
    rfl
  · have hline : (returnLine ⟨types, text⟩).drop 2 = "@return".toList ++
        ' ' :: '[' :: (joinTypes types ++ ']' :: if text = [] then [] else ' ' :: text) := by
      simp [returnLine, htypes]
    rw [hline, returnTagMatch?_return, List.dropWhile_cons_of_pos (by decide), List.dropWhile_cons_of_neg (by decide),
      bracketGroup_joinTypes htypes hr.types_ne (fun ty h c hc => (hr.types_chars ty h c hc).1),
      splitTypes_bracket htypes hr.types_ne hr.types_strip (fun ty h c hc => (hr.types_chars ty h c hc).2),
      dropWhile_textPart hr.text_strip, hr.text_strip]

theorem DocItem.head?_line (i : DocItem) : i.line.head? = some '#' := by
  cases i <;> rfl

theorem readDocLine_of_param {str : List Char} (h : str.head? = some '#') {t : ParamTag}
    (hm : methodParamMatch? (commentText str) = some t) (doc : DocParts) :
    readDocLine doc str = (doc.1, doc.2.1 ++ [t], doc.2.2) := by
  simp only [readDocLine, if_pos h, hm]

theorem readDocLine_of_return {str : List Char} (h : str.head? = some '#') {r : ReturnTag}
    (hm : methodParamMatch? (commentText str) = none) (hr : returnTagMatch? (commentText str) = some r)
    (doc : DocParts) : readDocLine doc str = (doc.1, doc.2.1, some r) := by
  simp only [readDocLine, if_pos h, hm, hr]

theorem readDocLine_of_desc {str : List Char} (h : str.head? = some '#')
    (hm : methodParamMatch? (commentText str) = none) (hr : returnTagMatch? (commentText str) = none)
    (hs : (commentText str).head? ≠ some '@') (doc : DocParts) :
    readDocLine doc str = (doc.1 ++ [commentText str], doc.2.1, doc.2.2) := by
  simp only [readDocLine, if_pos h, hm, hr, if_neg hs]

/-- The comment line of a well-formed item, without whitespace at its end, is read as the item. -/
theorem readDocLine_line {i : DocItem} (hi : i.WellFormed) (hs : rstrip i.line = i.line) (doc : DocParts) :
    readDocLine doc i.line = i.addTo doc := by
  cases i with
  | desc d =>
    have hc : commentText (DocItem.line (.desc d)) = d := by
      by_cases hd : d = []
      · subst hd; rfl
      · simp [commentText, DocItem.line, hd, hi.1, isSpace]
    have hret : "@return".toList.isPrefixOf d = false := by
      cases d with
      | nil => rfl
      | cons c d =>
        have hc : '@' ≠ c := fun h => hi.2 (by rw [← h]; rfl)
        simp [List.isPrefixOf_cons₂, hc]
    rw [readDocLine_of_desc (DocItem.head?_line (.desc d)) (by rw [hc, methodParamMatch?, if_neg hi.2]) (by rw [hc, returnTagMatch?, hret]; rfl)
      (by rw [hc]; exact hi.2), hc]
    rfl
  | param t =>
    have hc : commentText (paramLine t) = (paramLine t).drop 2 := by
      rw [← rstrip_drop (show rstrip (paramLine t) = paramLine t from hs) 2]
      simp [commentText, paramLine, isSpace]
    have hm : methodParamMatch? ((paramLine t).drop 2) = some t := by
      rw [← paramTagMatch?_paramLine hi, paramLine, List.append_assoc, List.append_assoc]
      exact methodParamMatch?_param _
    exact readDocLine_of_param (DocItem.head?_line (.param t)) (hc ▸ hm) doc
  | ret r =>
    have hc : commentText (returnLine r) = (returnLine r).drop 2 := by
      rw [← rstrip_drop (show rstrip (returnLine r) = returnLine r from hs) 2]
      simp [commentText, returnLine, isSpace]
    have hm : methodParamMatch? ((returnLine r).drop 2) = none := by
      rw [returnLine, List.append_assoc]
      exact methodParamMatch?_return _
    exact readDocLine_of_return (DocItem.head?_line (.ret r)) (hc ▸ hm) (hc ▸ returnTagMatch?_returnLine hi) doc

/-- The loop gathers, item after item, the description lines, the `@param` tags and the last
`@return` tag. -/
theorem foldl_addTo (items : List DocItem) (doc : DocParts) :
    items.foldl DocItem.addTo doc = (doc.1 ++ items.filterMap DocItem.desc?, doc.2.1 ++ items.filterMap DocItem.param?,
      (items.filterMap DocItem.ret?).getLast?.or doc.2.2) := by
  induction items generalizing doc with
  | nil => simp
  | cons i items ih =>
    rw [List.foldl_cons, ih]
    cases i with
    | desc d => simp [DocItem.addTo, DocItem.desc?, DocItem.param?, DocItem.ret?]
    | param t => simp [DocItem.addTo, DocItem.desc?, DocItem.param?, DocItem.ret?]
    | ret r =>
      have e : (r :: items.filterMap DocItem.ret?).getLast?.or doc.2.2 =
          (items.filterMap DocItem.ret?).getLast?.or (some r) := by
        rw [List.getLast?_cons]
        cases (items.filterMap DocItem.ret?).getLast? <;> rfl
      simp only [DocItem.addTo, List.filterMap_cons, DocItem.desc?, DocItem.param?, DocItem.ret?, e]

theorem foldl_readDocLine_items {items : List DocItem} (hi : ∀ i ∈ items, i.WellFormed ∧ rstrip i.line = i.line)
    (doc : DocParts) : (items.map DocItem.line).foldl readDocLine doc = items.foldl DocItem.addTo doc := by
  induction items generalizing doc with
  | nil => rfl
  | cons i items ih =>
    have hi' := hi i (List.mem_cons_self _ _)
    rw [List.map_cons, List.foldl_cons, List.foldl_cons, readDocLine_line hi'.1 hi'.2,
      ih fun j hj => hi j (List.mem_cons_of_mem _ hj)]

/-- Lines that are not comments leave what the loop has gathered as it is. -/
theorem foldl_readDocLine_of_head? {block : List (List Char)} (h : ∀ s ∈ block, s.head? ≠ some '#') (doc : DocParts) :
    block.foldl readDocLine doc = doc := by
  induction block generalizing doc with
  | nil => rfl
  | cons s block ih =>
    rw [List.foldl_cons, readDocLine, if_neg (h s (List.mem_cons_self _ _)),
      ih fun s' hs' => h s' (List.mem_cons_of_mem _ hs')]

theorem head?_of_mem_filterMap_keptLine {gap : List (List Char)} (h : ∀ l ∈ gap, (strip l).head? ≠ some '#') :
    ∀ s ∈ gap.filterMap keptLine, s.head? ≠ some '#' := by
  intro s hs
  obtain ⟨l, hl, hk⟩ := List.mem_filterMap.1 hs
  unfold keptLine at hk
  split_ifs at hk
  cases hk
  exact h l hl

/-- The comment of `EventEncoder#encode`, as `event_encoder.rb` has it. -/
def encodeDocLines : List (List Char) :=
  ["      # Encodes an event into a string representation.".toList, "      #".toList,
    "      # @param event [Object] The event to encode".toList,
    "      # @return [String] A string representation of the event in SSE format.".toList]

/-- What the comment of `EventEncoder#encode` says. -/
def encodeDocItems : List DocItem :=
  [.desc "Encodes an event into a string representation.".toList, .desc [], .param encodeEventTag,
    .ret ⟨["String".toList], "A string representation of the event in SSE format.".toList⟩]

/-- A comment made of description lines, `@param` lines and `@return` lines, in any order and with
any indentation, is read back as its description, its `@param` tags in order and its last `@return`
tag.  Above the comment and between it and the method may stand lines the walk steps over: blank
lines, the lines of a signature, the `end` of the method above.  The walk stops at the line of `pre`
above them, or at the top of the file, and reads at most 80 lines. -/
theorem parseMethodDocFromSource_doc {pre above docLines below post : List (List Char)} {items : List DocItem}
    {defLine : List Char}
    (hpre : ∀ l ∈ pre.getLast?, isCommentOrBlank (strip l) = false ∧ isSigLine (strip l) = false)
    (hgap : ∀ l ∈ above ++ below, (strip l).head? ≠ some '#' ∧
      (isCommentOrBlank (strip l) || isSigLine (strip l)) = true)
    (hitems : ∀ i ∈ items, i.WellFormed) (hlines : docLines.map strip = items.map DocItem.line)
    (hscan : (above ++ docLines ++ below).length ≤ 80) :
    parseMethodDocFromSource (pre ++ above ++ docLines ++ below ++ defLine :: post)
        (((pre ++ above ++ docLines ++ below).length + 1 : Nat) : Int) =
      ⟨strip (joinLines (items.filterMap DocItem.desc?)), items.filterMap DocItem.param?,
        (items.filterMap DocItem.ret?).getLast?⟩ := by
  have hdocComment : ∀ l ∈ docLines, isCommentOrBlank (strip l) = true := by
    intro l hl
    obtain ⟨i, -, hi⟩ := List.mem_map.1 (hlines ▸ List.mem_map_of_mem strip hl)
    simp [isCommentOrBlank, ← hi, DocItem.head?_line]
  have hkept : docLines.filterMap keptLine = items.map DocItem.line := by
    rw [← hlines, List.filterMap_eq_map_iff_forall_eq_some]
    intro l hl
    simp [keptLine, hdocComment l hl]
  have hitems' : ∀ i ∈ items, i.WellFormed ∧ rstrip i.line = i.line := by
    intro i hi
    obtain ⟨l, -, hl⟩ := List.mem_map.1 (hlines.symm ▸ List.mem_map_of_mem DocItem.line hi)
    exact ⟨hitems i hi, hl ▸ rstrip_strip l⟩
  have hmid : ∀ l ∈ above ++ docLines ++ below, scannedLine l = true := by
    intro l hl
    simp only [List.mem_append] at hl
    rcases hl with (hl | hl) | hl
    · exact (hgap l (List.mem_append_left _ hl)).2
    · simp [scannedLine, hdocComment l hl]
    · exact (hgap l (List.mem_append_right _ hl)).2
  have hassoc : pre ++ above ++ docLines ++ below = pre ++ (above ++ docLines ++ below) := by simp
  rcases eq_or_ne (pre ++ (above ++ docLines ++ below)) [] with hnil | hne
  · simp only [List.append_eq_nil] at hnil
    obtain ⟨rfl, ⟨rfl, rfl⟩, rfl⟩ := hnil
    obtain rfl : items = [] := List.map_eq_nil_iff.1 hlines.symm
    have hstart : startIndex (defLine :: post) 1 = none := by
      rw [startIndex, if_pos (by omega)]
    show parseMethodDocFromSource (defLine :: post) 1 = ⟨strip [], [], none⟩
    simp only [parseMethodDocFromSource, hstart]
    rfl
  · have hl : pre ++ above ++ docLines ++ below ++ defLine :: post =
        pre ++ (above ++ docLines ++ below) ++ defLine :: post := by simp
    rw [hl, hassoc, parseMethodDocFromSource, startIndex_eq (by simp) (List.length_pos.2 hne)]
    dsimp only
    rw [collectMethodDoc_block _ (fun l hl => by simp [scannedLine, hpre l hl]) hmid hne hscan, List.reverse_reverse,
      List.filterMap_append, List.filterMap_append, hkept, List.foldl_append, List.foldl_append,
      foldl_readDocLine_of_head? (head?_of_mem_filterMap_keptLine fun l hl => (hgap l (List.mem_append_left _ hl)).1),
      foldl_readDocLine_items hitems',
      foldl_readDocLine_of_head? (head?_of_mem_filterMap_keptLine fun l hl => (hgap l (List.mem_append_right _ hl)).1),
      foldl_addTo]
    simp

theorem parseMethodDocFromSource_doc_encode :
    (∀ l ∈ ["        @accept || \"text/event-stream\"".toList].getLast?,
        isCommentOrBlank (strip l) = false ∧ isSigLine (strip l) = false) ∧
      (∀ l ∈ ["      end".toList, []] ++
          ["      sig \x7b params(event: AgUiProtocol::Core::Types::Model).returns(String) \x7d".toList],
        (strip l).head? ≠ some '#' ∧ (isCommentOrBlank (strip l) || isSigLine (strip l)) = true) ∧
      (∀ i ∈ encodeDocItems, i.WellFormed) ∧ encodeDocLines.map strip = encodeDocItems.map DocItem.line ∧
      (["      end".toList, []] ++ encodeDocLines ++
          ["      sig \x7b params(event: AgUiProtocol::Core::Types::Model).returns(String) \x7d".toList]).length ≤ 80 ∧
      parseMethodDocFromSource (["        @accept || \"text/event-stream\"".toList] ++ ["      end".toList, []] ++
          encodeDocLines ++ ["      sig \x7b params(event: AgUiProtocol::Core::Types::Model).returns(String) \x7d".toList] ++
          "      def encode(event)".toList :: ["        payload = event.as_json".toList])
        (((["        @accept || \"text/event-stream\"".toList] ++ ["      end".toList, []] ++ encodeDocLines ++
          ["      sig \x7b params(event: AgUiProtocol::Core::Types::Model).returns(String) \x7d".toList]).length + 1 : Nat) : Int) =
        ⟨strip (joinLines (encodeDocItems.filterMap DocItem.desc?)), encodeDocItems.filterMap DocItem.param?,
          (encodeDocItems.filterMap DocItem.ret?).getLast?⟩ :=
  ⟨by decide, by decide, by decide, by decide, by decide,
    parseMethodDocFromSource_doc (by decide) (by decide) (by decide) (by decide) (by decide)⟩

/-! ## Every comment, line by line -/

/-- The item a line of the block is read as: a `@param` tag, a `@return` tag, a line of the
description, or nothing (a line that is not a comment, or a comment that starts with another tag). -/
def lineItem? (str : List Char) : Option DocItem :=
  if str.head? = some '#' then
    match methodParamMatch? (commentText str) with
    | some t => some (.param t)
    | none =>
      match returnTagMatch? (commentText str) with
      | some r => some (.ret r)
      | none => if (commentText str).head? = some '@' then none else some (.desc (commentText str))
  else none

/-- One turn of the loop adds the item of its line, whatever the loop gathered before. -/
theorem readDocLine_eq_lineItem? (doc : DocParts) (str : List Char) :
    readDocLine doc str = (lineItem? str).elim doc (DocItem.addTo doc) := by
  by_cases h : str.head? = some '#'
  · simp only [readDocLine, lineItem?, if_pos h]
    cases methodParamMatch? (commentText str) with
    | some t => rfl
    | none =>
      cases returnTagMatch? (commentText str) with
      | some r => rfl
      | none => by_cases h' : (commentText str).head? = some '@' <;> simp [h', DocItem.addTo]
  · simp [readDocLine, lineItem?, h]

theorem foldl_readDocLine (block : List (List Char)) (doc : DocParts) :
    block.foldl readDocLine doc = (block.filterMap lineItem?).foldl DocItem.addTo doc := by
  induction block generalizing doc with
  | nil => rfl
  | cons str block ih =>
    rw [List.foldl_cons, ih, readDocLine_eq_lineItem?, List.filterMap_cons]
    cases lineItem? str <;> rfl

theorem startIndex_lt {lines : List (List Char)} {line : Int} {idx : Nat} (h : startIndex lines line = some idx) :
    idx < lines.length := by
  simp only [startIndex] at h
  split_ifs at h
  cases h
  omega

/-- What `parse_method_doc_from_source` returns, for every file and line: the walk covers the lines
from the one above the `def` up, at most 80, while they are comments, blank lines or a signature's,
and keeps the comments and blank lines in file order; each of them is then read on its own
(`lineItem?`), so that the text of a tag ends with its line. -/
theorem parseMethodDocFromSource_eq (lines : List (List Char)) (line : Int) :
    parseMethodDocFromSource lines line =
      match startIndex lines line with
      | none => ⟨[], [], none⟩
      | some idx =>
        let items := ((((lines.take (idx + 1)).reverse.take 80).takeWhile scannedLine).filterMap keptLine).reverse.filterMap
          lineItem?
        ⟨strip (joinLines (items.filterMap DocItem.desc?)), items.filterMap DocItem.param?,
          (items.filterMap DocItem.ret?).getLast?⟩ := by
  unfold parseMethodDocFromSource
  cases h : startIndex lines line with
  | none => rfl
  | some idx =>
    dsimp only
    rw [collectMethodDoc_eq _ _ _ _ (startIndex_lt h), List.nil_append, foldl_readDocLine, foldl_addTo]
    simp

/-- A continuation line of a `@param` text, indented as YARD writes it, is a line of the description. -/
example :
    parseMethodDocFromSource ["# Encodes an event.".toList, "# @param event [Object] The event".toList,
        "#   to encode".toList, "sig \x7b params(event: Object).returns(String) \x7d".toList, "def encode(event)".toList] 5 =
      ⟨"Encodes an event.\n  to encode".toList, [⟨"event".toList, ["Object".toList], "The event".toList⟩], none⟩ := by
  decide

end DocTemplate

end AgUi
