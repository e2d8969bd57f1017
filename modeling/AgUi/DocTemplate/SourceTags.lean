import AgUi.DocTemplate.TypesPage

/-!
# Tags read from the source

When YARD gives an `initialize` no `@param` tags, the template reads them from the source file
itself (`parse_param_tags_from_source`); it reads an object's `@category` the same way
(`parse_category_from_source`), and turns the types the tags name into the paths of referenced
types (`type_reference_paths_from_param_types`). A file is its lines (`File.readlines`), each
without its line feed, which every use strips. Each regular expression is a function on the
characters of one line; its docstring says how the backtracking resolves.

* `parseParamTagsFromSource_doc`: `@param` lines rendered from tags, above the line of a method,
  are read back as those tags, even when other code stands between them and the method, as long as
  it holds no `@param` line and spans at most 120 lines.
* `parseCategoryFromSource_doc`: the category read from the source is the value of the first
  `@category` line of the comment block right above the object.
* `typeReferencePathsFromParamTypes_array`: a parameter of type `Array<T>` references the path of
  `T>`: the closing `>` stays on the name.
-/

namespace AgUi

namespace DocTemplate

/-! ### Regular expressions on a line -/

/-- `\w`: an ASCII letter or digit, or `_`. -/
def isWordChar (c : Char) : Bool := c.isAlphanum || c = '_'

/-- `stripped.start_with?("#") || stripped.empty?`. -/
def isCommentOrBlank (stripped : List Char) : Bool := stripped.head? = some '#' || stripped.isEmpty

/-- `/^#\s*@param\b/`: `@param` after `#` and any whitespace, not followed by a word character. -/
def isParamLine : List Char → Bool
  | '#' :: rest =>
    let r := rest.dropWhile isSpace
    "@param".toList.isPrefixOf r && !((r.drop 6).head?.any isWordChar)
  | _ => false

/-- A `@param` tag: its name, its types and its text. -/
structure ParamTag where
  name : List Char
  types : List (List Char)
  text : List Char
  deriving DecidableEq, Repr

def isTypeSeparator (c : Char) : Bool := c = '|' || c = ','

/-- The whitespace a separator of `split(/\s*\|\s*|\s*,\s*/)` takes from the piece before it
(`last` false) and from the piece after it (`first` false). -/
def trimField (first last : Bool) (field : List Char) : List Char :=
  let field := if first then field else field.dropWhile isSpace
  if last then field else field.rdropWhile isSpace

def trimFields : Bool → List (List Char) → List (List Char)
  | _, [] => []
  | first, [field] => [trimField first true field]
  | first, field :: fields => trimField first false field :: trimFields false fields

/-- `s.split(/\s*\|\s*|\s*,\s*/)` before the empty pieces are rejected: the pieces between the `|`s
and `,`s, without the whitespace next to a separator (the leftmost match starts at the first of the
whitespace before a separator, and its `\s*` after the separator takes all the whitespace there). -/
def splitTypeList (s : List Char) : List (List Char) := trimFields true (s.splitOnP isTypeSeparator)

/-- `s.gsub(/\Ap₁|\Ap₂|...|c₁\z|.../, "")` for prefixes `pᵢ` and one-character suffixes `cⱼ`: the
first prefix that starts the text is removed (`\A` matches only there), then a suffix that ends what
is left (`\z` matches once). No prefix of the template starts a text that is one of its suffixes, so
the order of the alternatives does not matter. -/
def gsubEnds (prefixes : List (List Char)) (suffixes : List Char) (s : List Char) : List Char :=
  let s := match prefixes.find? (·.isPrefixOf s) with
    | some p => s.drop p.length
    | none => s
  if s.getLast?.any (· ∈ suffixes) then s.dropLast else s

/-- `type_part.gsub(/\A\[|\]\z/, "").split(/\s*\|\s*|\s*,\s*/).reject(&:empty?)`. -/
def splitTypes (typePart : List Char) : List (List Char) :=
  (splitTypeList (gsubEnds ["[".toList] [']'] typePart)).filter (· ≠ [])

/-- `(\[[^\]]+\])?` at the start of `s`: the group and what follows it, or no group when `s` does
not start with `[`, at least one character other than `]`, and a `]`. `[^\]]+` takes all it can, up
to the first `]` (what is left after it, if anything, starts with that `]`). -/
def bracketGroup (s : List Char) : List Char × List Char :=
  match s with
  | c :: t =>
    if c = '[' then
      match t.dropWhile (· ≠ ']') with
      | _ :: after => if t.takeWhile (· ≠ ']') = [] then ([], s) else ('[' :: t.takeWhile (· ≠ ']') ++ [']'], after)
      | [] => ([], s)
    else ([], s)
  | [] => ([], s)

/-- `/^#\s*@param\s+(\w+)\s*(\[[^\]]+\])?\s*(.*)$/` on a line, and the tag the template builds from
the match. `\s+` and `(\w+)` take all they can (giving any back cannot help the next part), so the
name is the whole word after the whitespace, and `(.*)` takes the rest of the line. -/
def paramTagMatch? : List Char → Option ParamTag
  | '#' :: rest =>
    let r := rest.dropWhile isSpace
    if "@param".toList.isPrefixOf r && (r.drop 6).head?.any isSpace then
      let r := (r.drop 6).dropWhile isSpace
      let name := r.takeWhile isWordChar
      if name = [] then none
      else
        let g := bracketGroup ((r.dropWhile isWordChar).dropWhile isSpace)
        some ⟨name, splitTypes g.1, strip (g.2.dropWhile isSpace)⟩
    else none
  | _ => none

/-- `/^#\s*@category\s+(.+)$/` on a line: the capture. `\s+` takes all the whitespace unless nothing
would be left for `(.+)`; it then gives back its last character. -/
def categoryMatch? : List Char → Option (List Char)
  | '#' :: rest =>
    let r := rest.dropWhile isSpace
    if "@category".toList.isPrefixOf r then
      let spaces := (r.drop 9).takeWhile isSpace
      let after := (r.drop 9).dropWhile isSpace
      if spaces = [] then none
      else if after ≠ [] then some after
      else if 2 ≤ spaces.length then some (spaces.drop (spaces.length - 1))
      else none
    else none
  | _ => none

/-! ### Reading a file -/

/-- `[line.to_i - 2, lines.size - 1].min`, the line above the method's, unless it is negative. -/
def startIndex (lines : List (List Char)) (line : Int) : Option Nat :=
  let idx := min (line - 2) ((lines.length : Int) - 1)
  if idx < 0 then none else some idx.toNat

/-- The first loop of `parse_param_tags_from_source`: from line `idx` up, `k` more lines after this
one, the first `@param` line. -/
def findParamLine (lines : List (List Char)) (idx k : Nat) : Option Nat :=
  if isParamLine (strip (lines.getD idx [])) then some idx
  else match k with
    | 0 => none
    | k + 1 => findParamLine lines (idx - 1) k

/-- The loop `while idx >= 0` over the comment block ending at line `idx`: each stripped line that is
a comment or blank is passed to `f`, and what `f` keeps is appended, until a line that is neither. -/
def collectUp {α : Type} (f : List Char → Option α) (lines : List (List Char)) : Nat → List α → List α
  | idx, acc =>
    let stripped := strip (lines.getD idx [])
    if isCommentOrBlank stripped then
      match idx with
      | 0 => acc ++ (f stripped).toList
      | i + 1 => collectUp f lines i (acc ++ (f stripped).toList)
    else acc

/-- `parse_param_tags_from_source(file, line)`: the tags of the comment block around the nearest
`@param` line within 120 lines above the method. -/
def parseParamTagsFromSource (lines : List (List Char)) (line : Int) : List ParamTag :=
  match startIndex lines line with
  | none => []
  | some start =>
    match findParamLine lines start (min start 120) with
    | none => []
    | some first => (collectUp paramTagMatch? lines first []).reverse

/-- `doc_comment_block_for_line(file, line)`: the stripped comment and blank lines right above the
method. -/
def docCommentBlockForLine (lines : List (List Char)) (line : Int) : List (List Char) :=
  match startIndex lines line with
  | none => []
  | some idx => (collectUp some lines idx []).reverse

/-- `parse_category_from_source(file, line)`: the first `@category` line of the block decides. -/
def parseCategoryFromSource (lines : List (List Char)) (line : Int) : Option (List Char) :=
  match (docCommentBlockForLine lines line).findSome? categoryMatch? with
  | some m => if strip m = [] then none else some (strip m)
  | none => none

/-! ### Referenced types -/

/-- `clean.include?("::")`. -/
def includesScope : List Char → Bool
  | ':' :: ':' :: _ => true
  | _ :: rest => includesScope rest
  | [] => false

/-- `Array#uniq`: the first occurrence of each element, in order. -/
def uniq (l : List (List Char)) : List (List Char) :=
  l.foldl (fun acc x => if x ∈ acc then acc else acc ++ [x]) []

/-- One type of `type_reference_paths_from_param_types`, split off and stripped: the path it names,
if any. -/
def typeReferencePath (ns t : List Char) : Option (List Char) :=
  if t = "nil".toList ∨ t = "NilClass".toList then none
  else
    let clean := gsubEnds ["Array<".toList, "Hash<".toList, "\x7b".toList, "[".toList] ['\x7d', ']'] t
    let clean := gsubEnds ["Array(".toList] [')'] clean
    let clean := clean.takeWhile (! isSpace ·)
    if clean = [] then none
    else if includesScope clean then some clean
    else some (ns ++ "::".toList ++ clean)

/-- `type_reference_paths_from_param_types(type_values, types_namespace_path)`. -/
def typeReferencePathsFromParamTypes (typeValues : List (List Char)) (ns : List Char) : List (List Char) :=
  uniq (typeValues.flatMap fun raw =>
    (((raw.splitOnP isTypeSeparator).map strip).filter (· ≠ [])).filterMap (typeReferencePath ns))

/-! ### Lines -/

theorem isStripped_eq_false_of_isWordChar {c : Char} (h : isWordChar c) : isStripped c = false := by
  cases hs : isStripped c
  · rfl
  · simp only [isStripped, isSpace, Bool.or_eq_true, decide_eq_true_eq] at hs
    rcases hs with rfl | (((((rfl | rfl) | rfl) | rfl) | rfl) | rfl) <;> exact absurd h (by decide)

theorem isSpace_eq_false_of_isWordChar {c : Char} (h : isWordChar c) : isSpace c = false :=
  Bool.eq_false_iff.2 fun hs => by simpa [isStripped_of_isSpace hs] using isStripped_eq_false_of_isWordChar h

/-- A stripped text starts with no whitespace. -/
theorem dropWhile_isSpace_of_strip_eq {s : List Char} (h : strip s = s) : s.dropWhile isSpace = s := by
  cases s with
  | nil => rfl
  | cons c s =>
    have hc := not_isStripped_head_of_strip_eq h
    simp only [isStripped, Bool.or_eq_false_iff] at hc
    simp [List.dropWhile_cons, hc.2]

/-- A stripped text ends with no whitespace. -/
theorem rdropWhile_isSpace_of_strip_eq {s : List Char} (h : strip s = s) : s.rdropWhile isSpace = s := by
  rw [← h, strip]
  refine List.rdropWhile_eq_self_iff.2 fun hne hsp => ?_
  exact (List.rdropWhile_eq_self_iff.1 (List.rdropWhile_idempotent isStripped _) hne) (isStripped_of_isSpace hsp)

theorem rdropWhile_eq_self_of_getLast? {p : Char → Bool} {l : List Char} (h : ∀ c ∈ l.getLast?, p c = false) :
    l.rdropWhile p = l :=
  List.rdropWhile_eq_self_iff.2 fun hl => by simp [h _ (List.getLast?_eq_getLast l hl)]

/-! ### The `@param` line of a tag -/

/-- The types of a tag as its `@param` line writes them, `A, B`. -/
def joinTypes : List (List Char) → List Char
  | [] => []
  | [ty] => ty
  | ty :: ty' :: tys => ty ++ ',' :: ' ' :: joinTypes (ty' :: tys)

/-- `# @param name [A, B] text`, the `@param` line of a tag, without the brackets when the tag has no
types and without the text when it has none. -/
def paramLine (t : ParamTag) : List Char :=
  "# @param ".toList ++ t.name ++ (if t.types = [] then [] else ' ' :: '[' :: joinTypes t.types ++ [']']) ++
    (if t.text = [] then [] else ' ' :: t.text)

/-- A tag its `@param` line gives back: a word for a name, types with no `]` and no separator, and a
stripped text that is not read as types. -/
structure ParamTag.WellFormed (t : ParamTag) : Prop where
  name_ne : t.name ≠ []
  name_word : ∀ c ∈ t.name, isWordChar c
  types_ne : ∀ ty ∈ t.types, ty ≠ []
  types_strip : ∀ ty ∈ t.types, strip ty = ty
  types_chars : ∀ ty ∈ t.types, ∀ c ∈ ty, c ≠ ']' ∧ isTypeSeparator c = false
  text_strip : strip t.text = t.text
  text_not_types : t.types = [] → t.text.head? ≠ some '['

instance (t : ParamTag) : Decidable t.WellFormed :=
  decidable_of_iff (t.name ≠ [] ∧ (∀ c ∈ t.name, isWordChar c) ∧ (∀ ty ∈ t.types, ty ≠ []) ∧
      (∀ ty ∈ t.types, strip ty = ty) ∧ (∀ ty ∈ t.types, ∀ c ∈ ty, c ≠ ']' ∧ isTypeSeparator c = false) ∧
      strip t.text = t.text ∧ (t.types = [] → t.text.head? ≠ some '['))
    ⟨fun ⟨h₁, h₂, h₃, h₄, h₅, h₆, h₇⟩ => ⟨h₁, h₂, h₃, h₄, h₅, h₆, h₇⟩,
      fun h => ⟨h.name_ne, h.name_word, h.types_ne, h.types_strip, h.types_chars, h.text_strip, h.text_not_types⟩⟩

theorem paramTagMatch?_param (r : List Char) : paramTagMatch? ("# @param ".toList ++ r) =
    let r := r.dropWhile isSpace
    if r.takeWhile isWordChar = [] then none
    else
      let g := bracketGroup ((r.dropWhile isWordChar).dropWhile isSpace)
      some ⟨r.takeWhile isWordChar, splitTypes g.1, strip (g.2.dropWhile isSpace)⟩ := rfl

theorem isParamLine_param (r : List Char) : isParamLine ("# @param ".toList ++ r) = true := rfl

theorem splitOnP_joinTypes : ∀ (ty : List Char) (tys : List (List Char)),
    (∀ t ∈ ty :: tys, ∀ c ∈ t, isTypeSeparator c = false) →
      (joinTypes (ty :: tys)).splitOnP isTypeSeparator = ty :: tys.map (' ' :: ·)
  | ty, [], h => List.splitOnP_eq_single _ _ fun c hc => by simp [h ty (List.mem_cons_self _ _) c hc]
  | ty, ty' :: tys, h => by
    rw [joinTypes, List.splitOnP_first _ _ (fun c hc => by simp [h ty (List.mem_cons_self _ _) c hc]) ',' rfl,
      List.splitOnP_cons, if_neg (by decide),
      splitOnP_joinTypes ty' tys fun t ht => h t (List.mem_cons_of_mem _ ht)]
    rfl

theorem trimField_strip_eq (first last : Bool) {f : List Char} (hf : strip f = f) : trimField first last f = f := by
  cases first <;> cases last <;>
    simp [trimField, dropWhile_isSpace_of_strip_eq hf, rdropWhile_isSpace_of_strip_eq hf]

theorem trimFields_spaced {tys : List (List Char)} (hs : ∀ ty ∈ tys, strip ty = ty) :
    ∀ (first : Bool) (f : List Char), trimFields first (f :: tys.map (' ' :: ·)) = trimField first tys.isEmpty f :: tys := by
  induction tys with
  | nil => intro first f; rfl
  | cons ty tys ih =>
    intro first f
    have hty : trimField false tys.isEmpty (' ' :: ty) = ty :=
      trimField_strip_eq false _ (hs ty (List.mem_cons_self _ _))
    show trimField first false f :: trimFields false ((' ' :: ty) :: tys.map (' ' :: ·)) = _
    rw [ih (fun t ht => hs t (List.mem_cons_of_mem _ ht)), hty]
    rfl

theorem splitTypes_bracket {types : List (List Char)} (hne : types ≠ []) (ht : ∀ ty ∈ types, ty ≠ [])
    (hs : ∀ ty ∈ types, strip ty = ty) (hc : ∀ ty ∈ types, ∀ c ∈ ty, isTypeSeparator c = false) :
    splitTypes ('[' :: joinTypes types ++ [']']) = types := by
  obtain ⟨ty, tys, rfl⟩ := List.exists_cons_of_ne_nil hne
  have hgsub : gsubEnds ["[".toList] [']'] ('[' :: joinTypes (ty :: tys) ++ [']']) = joinTypes (ty :: tys) := by
    simp [gsubEnds]
  rw [splitTypes, hgsub, splitTypeList, splitOnP_joinTypes ty tys hc,
    trimFields_spaced (fun t h => hs t (List.mem_cons_of_mem _ h)),
    trimField_strip_eq _ _ (hs ty (List.mem_cons_self _ _))]
  exact List.filter_eq_self.2 fun t h => by simpa using ht t h

theorem mem_joinTypes {c : Char} : ∀ {tys : List (List Char)}, c ∈ joinTypes tys → (∃ ty ∈ tys, c ∈ ty) ∨ c = ',' ∨ c = ' '
  | [], h => absurd h (List.not_mem_nil c)
  | [ty], h => .inl ⟨ty, List.mem_singleton_self _, h⟩
  | ty :: ty' :: tys, h => by
    rw [joinTypes, List.mem_append, List.mem_cons, List.mem_cons] at h
    rcases h with h | h | h | h
    · exact .inl ⟨ty, List.mem_cons_self _ _, h⟩
    · exact .inr (.inl h)
    · exact .inr (.inr h)
    · rcases mem_joinTypes h with ⟨t, ht, hc⟩ | h
      · exact .inl ⟨t, List.mem_cons_of_mem _ ht, hc⟩
      · exact .inr h

theorem bracketGroup_joinTypes {types : List (List Char)} (hne : types ≠ []) (ht : ∀ ty ∈ types, ty ≠ [])
    (hc : ∀ ty ∈ types, ∀ c ∈ ty, c ≠ ']') (after : List Char) :
    bracketGroup ('[' :: (joinTypes types ++ ']' :: after)) = ('[' :: joinTypes types ++ [']'], after) := by
  have hno : ∀ c ∈ joinTypes types, decide (c ≠ ']') = true := fun c h => by
    rcases mem_joinTypes h with ⟨ty, hty, hc'⟩ | rfl | rfl
    · simpa using hc ty hty c hc'
    all_goals decide
  have hjne : joinTypes types ≠ [] := by
    obtain ⟨ty, tys, rfl⟩ := List.exists_cons_of_ne_nil hne
    cases tys <;> simp [joinTypes, ht ty (List.mem_cons_self _ _)]
  simp only [bracketGroup, if_pos]
  rw [List.dropWhile_append_of_pos hno, List.takeWhile_append_of_pos hno]
  simp [hjne]

/-- The text after the name or the types, as the template reads it back. -/
theorem dropWhile_textPart {text : List Char} (h : strip text = text) :
    (if text = [] then [] else ' ' :: text).dropWhile isSpace = text := by
  split_ifs with ht
  · exact ht.symm
  · rw [List.dropWhile_cons_of_pos (by decide), dropWhile_isSpace_of_strip_eq h]

/-- A `@param` line whose name is followed by something that is not a word character. -/
theorem paramTagMatch?_name {name X : List Char} (hne : name ≠ []) (hword : ∀ c ∈ name, isWordChar c)
    (hX : X.takeWhile isWordChar = []) :
    paramTagMatch? ("# @param ".toList ++ (name ++ X)) =
      some ⟨name, splitTypes (bracketGroup (X.dropWhile isSpace)).1,
        strip ((bracketGroup (X.dropWhile isSpace)).2.dropWhile isSpace)⟩ := by
  obtain ⟨c, cs, rfl⟩ := List.exists_cons_of_ne_nil hne
  have hsp : (c :: cs ++ X).dropWhile isSpace = c :: cs ++ X := by
    rw [List.cons_append, List.dropWhile_cons_of_neg]
    simp [isSpace_eq_false_of_isWordChar (hword c (List.mem_cons_self _ _))]
  rw [paramTagMatch?_param]
  simp only [hsp, List.takeWhile_append_of_pos hword, List.dropWhile_append_of_pos hword, hX, List.append_nil,
    if_neg hne, List.dropWhile_eq_self_iff.2 (List.takeWhile_eq_nil_iff.1 hX)]

/-- The `@param` line of a well-formed tag is read back as the tag. -/
theorem paramTagMatch?_paramLine {t : ParamTag} (ht : t.WellFormed) : paramTagMatch? (paramLine t) = some t := by
  obtain ⟨name, types, text⟩ := t
  have hsp : isWordChar ' ' = false := by decide
  by_cases htypes : types = []
  · subst htypes
    have hline : paramLine ⟨name, [], text⟩ = "# @param ".toList ++ (name ++ if text = [] then [] else ' ' :: text) := by
      simp [paramLine]
    have hbr : bracketGroup text = ([], text) := by
      cases text with
      | nil => rfl
      | cons a text => exact if_neg (by simpa using ht.text_not_types rfl)
    rw [hline, paramTagMatch?_name ht.name_ne ht.name_word (by split_ifs <;> simp [hsp]),
      dropWhile_textPart ht.text_strip, hbr, dropWhile_isSpace_of_strip_eq ht.text_strip, ht.text_strip]
    rfl
  · have hline : paramLine ⟨name, types, text⟩ = "# @param ".toList ++
        (name ++ ' ' :: '[' :: (joinTypes types ++ ']' :: if text = [] then [] else ' ' :: text)) := by
      simp [paramLine, htypes]
    rw [hline, paramTagMatch?_name ht.name_ne ht.name_word (by simp [hsp]),
      List.dropWhile_cons_of_pos (by decide), List.dropWhile_cons_of_neg (by decide),
      bracketGroup_joinTypes htypes ht.types_ne (fun ty h c hc => (ht.types_chars ty h c hc).1),
      splitTypes_bracket htypes ht.types_ne ht.types_strip (fun ty h c hc => (ht.types_chars ty h c hc).2),
      dropWhile_textPart ht.text_strip, ht.text_strip]

/-! ### Reading a file back -/

/-- The comment loop reads the lines from `idx` up, while they are comments or blank. -/
theorem collectUp_eq {α : Type} (f : List Char → Option α) (lines : List (List Char)) :
    ∀ (idx : Nat) (acc : List α), idx < lines.length → collectUp f lines idx acc =
      acc ++ (((lines.take (idx + 1)).reverse.takeWhile fun l => isCommentOrBlank (strip l)).filterMap
        fun l => f (strip l))
  | 0, acc, h => by
    rw [collectUp, take_succ_reverse h, List.getD_eq_getElem?_getD, List.getElem?_eq_getElem h, Option.getD_some]
    by_cases hc : isCommentOrBlank (strip lines[0])
    · simp only [hc, if_true, List.take_zero, List.reverse_nil, List.takeWhile_cons_of_pos, List.takeWhile_nil,
        List.filterMap_cons, List.filterMap_nil]
      cases f (strip lines[0]) <;> rfl
    · simp [hc]
  | i + 1, acc, h => by
    rw [collectUp, take_succ_reverse h, List.getD_eq_getElem?_getD, List.getElem?_eq_getElem h, Option.getD_some]
    by_cases hc : isCommentOrBlank (strip lines[i + 1])
    · simp only [hc, if_true, List.takeWhile_cons_of_pos, List.filterMap_cons,
        collectUp_eq f lines i _ (by omega), List.append_assoc]
      cases f (strip lines[i + 1]) <;> rfl
    · simp [hc]

/-- The first loop stops at the first `@param` line from the bottom, if it is close enough. -/
theorem findParamLine_of_param {front : List (List Char)} {x : List Char} (hx : isParamLine (strip x)) :
    ∀ (rb rest : List (List Char)) (k : Nat), (∀ l ∈ rb, isParamLine (strip l) = false) → rb.length ≤ k →
      findParamLine (front ++ x :: (rb.reverse ++ rest)) (front.length + rb.length) k = some front.length
  | [], rest, k, _, _ => by
    unfold findParamLine
    rw [List.length_nil, Nat.add_zero, List.reverse_nil, List.nil_append, getD_append_cons, if_pos hx]
  | b :: rb, rest, k + 1, h, hk => by
    have hlines : front ++ x :: ((b :: rb).reverse ++ rest) = (front ++ x :: rb.reverse) ++ b :: rest := by simp
    have hidx : front.length + (b :: rb).length = (front ++ x :: rb.reverse).length := by simp
    rw [findParamLine, hlines, hidx, getD_append_cons, if_neg (by simp [h b (List.mem_cons_self _ _)]), ← hlines]
    have := @findParamLine_of_param front x hx rb (b :: rest) k (fun l hl => h l (List.mem_cons_of_mem _ hl))
      (by simpa using hk)
    simpa using this

theorem startIndex_eq {lines : List (List Char)} {n : Nat} (h : n < lines.length) (hn : 0 < n) :
    startIndex lines ((n + 1 : Nat) : Int) = some (n - 1) := by
  simp only [startIndex]
  split_ifs with h'
  · omega
  · congr 1
    omega

/-- The comment loop from the last line of a comment block reads the block, up to the line above it
that is neither a comment nor blank. -/
theorem collectUp_block {α : Type} (f : List Char → Option α) {pre block : List (List Char)}
    (rest : List (List Char)) (hpre : ∀ l ∈ pre.getLast?, isCommentOrBlank (strip l) = false)
    (hblock : ∀ l ∈ block, isCommentOrBlank (strip l) = true) (hne : block ≠ []) :
    collectUp f (pre ++ block ++ rest) ((pre ++ block).length - 1) [] =
      (block.filterMap fun l => f (strip l)).reverse := by
  have hlen : 0 < block.length := List.length_pos.2 hne
  rw [collectUp_eq _ _ _ _ (by simp; omega), Nat.sub_add_cancel (by simp; omega), List.take_left' rfl,
    List.reverse_append, List.takeWhile_append_of_pos (by simpa using hblock),
    takeWhile_eq_nil_of_head? (by simpa using hpre), List.append_nil, List.nil_append, List.filterMap_reverse]

theorem filterMap_paramLine : ∀ {tags : List ParamTag}, (∀ t ∈ tags, t.WellFormed) →
    (tags.map paramLine).filterMap paramTagMatch? = tags
  | [], _ => rfl
  | t :: tags, h => by
    rw [List.map_cons, List.filterMap_cons, paramTagMatch?_paramLine (h t (List.mem_cons_self _ _)),
      filterMap_paramLine fun t' ht' => h t' (List.mem_cons_of_mem _ ht')]

/-- `@param` lines rendered from tags, indented or not, are read back as those tags from the line of
the method below them. Between the comment and the method may stand any lines without a `@param`
line, at most 120 of them, code of another method included: the `initialize` below then gets these
tags. The comment reaches up to a line that is neither a comment nor blank, and its other lines
(`desc`) hold no tag. -/
theorem parseParamTagsFromSource_doc {pre desc tagLines tail post : List (List Char)} {tags : List ParamTag}
    {defLine : List Char} (hpre : ∀ l ∈ pre.getLast?, isCommentOrBlank (strip l) = false)
    (hdesc : ∀ l ∈ desc, isCommentOrBlank (strip l) = true ∧ paramTagMatch? (strip l) = none)
    (htags : ∀ t ∈ tags, t.WellFormed) (hne : tags ≠ []) (hlines : tagLines.map strip = tags.map paramLine)
    (htail : ∀ l ∈ tail, isParamLine (strip l) = false) (hwindow : tail.length ≤ 120) :
    parseParamTagsFromSource (pre ++ desc ++ tagLines ++ tail ++ defLine :: post)
      (((pre ++ desc ++ tagLines ++ tail).length + 1 : Nat) : Int) = tags := by
  have hparam : ∀ l ∈ tagLines, ∃ t ∈ tags, strip l = paramLine t := fun l hl => by
    obtain ⟨t, ht, h⟩ := List.mem_map.1 (hlines ▸ List.mem_map_of_mem strip hl : strip l ∈ tags.map paramLine)
    exact ⟨t, ht, h.symm⟩
  obtain ⟨ls, x, rfl⟩ := (List.eq_nil_or_concat tagLines).resolve_left fun h => hne (by simpa [h] using hlines.symm)
  obtain ⟨t, -, hx⟩ := hparam x (by simp)
  set front := pre ++ desc ++ ls with hfront
  have hsplit : pre ++ desc ++ ls.concat x ++ tail ++ defLine :: post =
      front ++ x :: (tail.reverse.reverse ++ defLine :: post) := by simp [hfront]
  have hlen : (pre ++ desc ++ ls.concat x ++ tail).length = front.length + tail.reverse.length + 1 := by
    simp [hfront]; omega
  rw [hlen, hsplit, parseParamTagsFromSource, startIndex_eq (by simp; omega) (by omega), Nat.add_sub_cancel]
  dsimp only
  rw [findParamLine_of_param (hx ▸ isParamLine_param _) _ _ _ (by simpa using htail) (by simp; omega)]
  dsimp only
  have hfirst : front.length = (pre ++ (desc ++ ls.concat x)).length - 1 := by simp [hfront]; omega
  have hsplit' : front ++ x :: (tail.reverse.reverse ++ defLine :: post) =
      pre ++ (desc ++ ls.concat x) ++ (tail ++ defLine :: post) := by simp [hfront]
  have hcomment : ∀ l ∈ desc ++ ls.concat x, isCommentOrBlank (strip l) = true := by
    intro l hl
    rcases List.mem_append.1 hl with hl | hl
    · exact (hdesc l hl).1
    · obtain ⟨t', -, h⟩ := hparam l hl
      rw [h]
      rfl
  rw [hfirst, hsplit', collectUp_block _ _ hpre hcomment (by simp), List.reverse_reverse, List.filterMap_append,
    List.filterMap_eq_nil_iff.2 fun l hl => (hdesc l hl).2, ← Function.comp_def paramTagMatch? strip,
    ← List.filterMap_map, hlines, filterMap_paramLine htags, List.nil_append]

theorem parseParamTagsFromSource_doc_setter :
    let pre := ["class Foo".toList]
    let desc := ["  # Sets the name.".toList]
    let tagLines := ["  # @param value [String] the name".toList]
    let tags : List ParamTag := [⟨"value".toList, ["String".toList], "the name".toList⟩]
    let tail := ["  def name=(value)".toList, "    @name = value".toList, "  end".toList, []]
    (∀ l ∈ pre.getLast?, isCommentOrBlank (strip l) = false) ∧
      (∀ l ∈ desc, isCommentOrBlank (strip l) = true ∧ paramTagMatch? (strip l) = none) ∧
      (∀ t ∈ tags, t.WellFormed) ∧ tags ≠ [] ∧ tagLines.map strip = tags.map paramLine ∧
      (∀ l ∈ tail, isParamLine (strip l) = false) ∧ tail.length ≤ 120 ∧
      parseParamTagsFromSource (pre ++ desc ++ tagLines ++ tail ++ "  def initialize".toList :: ["end".toList])
        (((pre ++ desc ++ tagLines ++ tail).length + 1 : Nat) : Int) = tags := by
  intro pre desc tagLines tags tail
  have hpre : ∀ l ∈ pre.getLast?, isCommentOrBlank (strip l) = false := by decide
  have hdesc : ∀ l ∈ desc, isCommentOrBlank (strip l) = true ∧ paramTagMatch? (strip l) = none := by decide
  have htags : ∀ t ∈ tags, t.WellFormed := by decide
  have hne : tags ≠ [] := by decide
  have hlines : tagLines.map strip = tags.map paramLine := by decide
  have htail : ∀ l ∈ tail, isParamLine (strip l) = false := by decide
  have hwindow : tail.length ≤ 120 := by decide
  exact ⟨hpre, hdesc, htags, hne, hlines, htail, hwindow,
    parseParamTagsFromSource_doc hpre hdesc htags hne hlines htail hwindow⟩

/-! ### The category read from the source -/

/-- `doc_comment_block_for_line` gives the comment block right above the object's line, stripped. -/
theorem docCommentBlockForLine_block {pre block : List (List Char)} (defLine : List Char) (post : List (List Char))
    (hpre : ∀ l ∈ pre.getLast?, isCommentOrBlank (strip l) = false)
    (hblock : ∀ l ∈ block, isCommentOrBlank (strip l) = true) (hne : block ≠ []) :
    docCommentBlockForLine (pre ++ block ++ defLine :: post) (((pre ++ block).length + 1 : Nat) : Int) =
      block.map strip := by
  have hlen : 0 < block.length := List.length_pos.2 hne
  rw [docCommentBlockForLine, startIndex_eq (by simp) (by simp; omega)]
  dsimp only
  rw [collectUp_block _ _ hpre hblock hne, List.reverse_reverse]
  exact congrFun (List.filterMap_eq_map strip) block

theorem categoryMatch?_category {r : List Char} (hr : r ≠ []) (hs : strip r = r) :
    categoryMatch? ("# @category ".toList ++ r) = some r := by
  obtain ⟨c, r', rfl⟩ := List.exists_cons_of_ne_nil hr
  have hc : isSpace c = false := by
    have := not_isStripped_head_of_strip_eq hs
    simp only [isStripped, Bool.or_eq_false_iff] at this
    exact this.2
  have : categoryMatch? ("# @category ".toList ++ c :: r') =
      if (' ' :: c :: r').takeWhile isSpace = [] then none
      else if (' ' :: c :: r').dropWhile isSpace ≠ [] then some ((' ' :: c :: r').dropWhile isSpace)
      else if 2 ≤ ((' ' :: c :: r').takeWhile isSpace).length then
        some (((' ' :: c :: r').takeWhile isSpace).drop (((' ' :: c :: r').takeWhile isSpace).length - 1))
      else none := rfl
  rw [this, List.takeWhile_cons_of_pos (by decide), List.dropWhile_cons_of_pos (by decide),
    List.dropWhile_cons_of_neg (by simp [hc]), if_neg (List.cons_ne_nil _ _), if_pos (List.cons_ne_nil _ _)]

/-- The category read from the source is the value of the first `@category` line of the comment block
right above the object: the lines above it in the block are no `@category` lines, those below it may
be. -/
theorem parseCategoryFromSource_doc {pre above below post : List (List Char)} {catLine category defLine : List Char}
    (hpre : ∀ l ∈ pre.getLast?, isCommentOrBlank (strip l) = false)
    (habove : ∀ l ∈ above, isCommentOrBlank (strip l) = true ∧ categoryMatch? (strip l) = none)
    (hcat : strip catLine = "# @category ".toList ++ category) (hne : category ≠ []) (hs : strip category = category)
    (hbelow : ∀ l ∈ below, isCommentOrBlank (strip l) = true) :
    parseCategoryFromSource (pre ++ (above ++ catLine :: below) ++ defLine :: post)
      (((pre ++ (above ++ catLine :: below)).length + 1 : Nat) : Int) = some category := by
  have hblock : ∀ l ∈ above ++ catLine :: below, isCommentOrBlank (strip l) = true := by
    intro l hl
    rcases List.mem_append.1 hl with hl | hl
    · exact (habove l hl).1
    · rcases List.mem_cons.1 hl with rfl | hl
      · rw [hcat]; rfl
      · exact hbelow l hl
  rw [parseCategoryFromSource, docCommentBlockForLine_block _ _ hpre hblock (by simp), List.map_append,
    List.map_cons, List.findSome?_append, List.findSome?_eq_none_iff.2 fun l hl => by
      obtain ⟨l', hl', rfl⟩ := List.mem_map.1 hl; exact (habove l' hl').2,
    Option.none_or, List.findSome?_cons, hcat, categoryMatch?_category hne hs]
  dsimp only
  rw [hs, if_neg hne]

theorem parseCategoryFromSource_doc_userMessage :
    let pre := ["    end".toList]
    let above := ["".toList, "    # A message sent by the user.".toList]
    let below := ["    # @category Other".toList]
    (∀ l ∈ pre.getLast?, isCommentOrBlank (strip l) = false) ∧
      (∀ l ∈ above, isCommentOrBlank (strip l) = true ∧ categoryMatch? (strip l) = none) ∧
      strip "    # @category Message Types".toList = "# @category ".toList ++ "Message Types".toList ∧
      "Message Types".toList ≠ [] ∧ strip "Message Types".toList = "Message Types".toList ∧
      (∀ l ∈ below, isCommentOrBlank (strip l) = true) ∧
      parseCategoryFromSource
        (pre ++ (above ++ "    # @category Message Types".toList :: below) ++
          "    class UserMessage < BaseMessage".toList :: ["end".toList])
        (((pre ++ (above ++ "    # @category Message Types".toList :: below)).length + 1 : Nat) : Int) =
        some "Message Types".toList := by
  intro pre above below
  have hpre : ∀ l ∈ pre.getLast?, isCommentOrBlank (strip l) = false := by decide
  have habove : ∀ l ∈ above, isCommentOrBlank (strip l) = true ∧ categoryMatch? (strip l) = none := by decide
  have hcat : strip "    # @category Message Types".toList = "# @category ".toList ++ "Message Types".toList := by
    decide
  have hne : "Message Types".toList ≠ [] := by decide
  have hs : strip "Message Types".toList = "Message Types".toList := by decide
  have hbelow : ∀ l ∈ below, isCommentOrBlank (strip l) = true := by decide
  exact ⟨hpre, habove, hcat, hne, hs, hbelow, parseCategoryFromSource_doc hpre habove hcat hne hs hbelow⟩

/-! ### Referenced types of a generic -/

/-- A type written as one word, such as `Tool`, which the template qualifies with the module's path. -/
def IsTypeName (name : List Char) : Prop :=
  name ≠ [] ∧ (∀ c ∈ name, isWordChar c) ∧ name ≠ "nil".toList ∧ name ≠ "NilClass".toList

instance : DecidablePred IsTypeName := fun _ => inferInstanceAs (Decidable (_ ∧ _ ∧ _ ∧ _))

theorem mem_of_includesScope : ∀ {s : List Char}, includesScope s = true → ':' ∈ s
  | ':' :: ':' :: _, _ => List.mem_cons_self _ _
  | [], h => absurd h (by decide)
  | c :: rest, h => by
    by_cases hc : c = ':'
    · exact hc ▸ List.mem_cons_self _ _
    · have : includesScope rest = true := by
        match rest, h with
        | r :: rest', h => simpa [includesScope, hc] using h
        | [], h => simp [includesScope] at h
      exact List.mem_cons_of_mem _ (mem_of_includesScope this)

theorem not_mem_of_isWordChar {a : List Char} (ha : ∀ c ∈ a, isWordChar c) {c : Char} (hc : isWordChar c = false) :
    c ∉ a := fun h => by simp [ha c h] at hc

/-- `Array<T>` is read as the path of `T>`: the closing `>` is not removed. -/
theorem typeReferencePath_array (ns : List Char) {a : List Char} (ha : IsTypeName a) :
    typeReferencePath ns ("Array<".toList ++ a ++ ['>']) = some (ns ++ "::".toList ++ (a ++ ['>'])) := by
  obtain ⟨hne, hword, -, -⟩ := ha
  have harr : "Array<".toList = ['A', 'r', 'r', 'a', 'y', '<'] := rfl
  have hlast : (a ++ ['>']).getLast? = some '>' := by simp
  have hparen : ("Array(".toList.isPrefixOf (a ++ ['>'])) = false := by
    refine Bool.eq_false_iff.2 fun h => ?_
    have := (List.isPrefixOf_iff_prefix.1 h).subset (by decide : '(' ∈ "Array(".toList)
    rcases List.mem_append.1 this with h | h
    · exact not_mem_of_isWordChar hword (by decide) h
    · simp at h
  have hspace : ∀ c ∈ a ++ ['>'], (! isSpace c) = true := by
    intro c hc
    rcases List.mem_append.1 hc with h | h
    · simp [isSpace_eq_false_of_isWordChar (hword c h)]
    · simp at h; subst h; decide
  have hscope : includesScope (a ++ ['>']) = false := Bool.eq_false_iff.2 fun h => by
    rcases List.mem_append.1 (mem_of_includesScope h) with h | h
    · exact not_mem_of_isWordChar hword (by decide) h
    · simp at h
  have hnil : ¬ ("Array<".toList ++ a ++ ['>'] = "nil".toList ∨ "Array<".toList ++ a ++ ['>'] = "NilClass".toList) := by
    rintro (h | h) <;> simpa [harr] using congrArg List.head? h
  have hg1 : gsubEnds ["Array<".toList, "Hash<".toList, "\x7b".toList, "[".toList] ['\x7d', ']']
      ("Array<".toList ++ a ++ ['>']) = a ++ ['>'] := by
    have hfind : (["Array<".toList, "Hash<".toList, "\x7b".toList, "[".toList].find?
        (·.isPrefixOf ("Array<".toList ++ (a ++ ['>'])))) = some "Array<".toList :=
      List.find?_cons_of_pos _ (List.isPrefixOf_iff_prefix.2 (List.prefix_append _ _))
    simp only [gsubEnds, hfind, List.append_assoc, List.drop_left, hlast]
    rfl
  have hg2 : gsubEnds ["Array(".toList] [')'] (a ++ ['>']) = a ++ ['>'] := by
    have hfind : (["Array(".toList].find? (·.isPrefixOf (a ++ ['>']))) = none := by
      rw [List.find?_cons_of_neg _ (by simp only [hparen, Bool.false_eq_true, not_false_eq_true]), List.find?_nil]
    simp only [gsubEnds, hfind, hlast]
    rfl
  rw [typeReferencePath, if_neg hnil]
  simp only [hg1, hg2, List.takeWhile_eq_self_iff.2 hspace, hscope, List.append_ne_nil_of_right_ne_nil a
    (List.cons_ne_nil '>' []), Bool.false_eq_true, if_false]

/-- A parameter of type `Array<T>` references the path of `T>`, where no object is: the closing `>`
stays on the name, and `Registry.at` finds nothing there. -/
theorem typeReferencePathsFromParamTypes_array (ns : List Char) {a : List Char} (ha : IsTypeName a) :
    typeReferencePathsFromParamTypes ["Array<".toList ++ a ++ ['>']] ns = [ns ++ "::".toList ++ (a ++ ['>'])] := by
  have harr : ∀ c ∈ "Array<".toList, isStripped c = false ∧ isTypeSeparator c = false := by decide
  have hchars : ∀ c ∈ "Array<".toList ++ a ++ ['>'], isStripped c = false ∧ isTypeSeparator c = false := by
    intro c hc
    rcases List.mem_append.1 hc with hc | hc
    · rcases List.mem_append.1 hc with hc | hc
      · exact harr c hc
      · have hw := ha.2.1 c hc
        refine ⟨isStripped_eq_false_of_isWordChar hw, Bool.eq_false_iff.2 fun hs => ?_⟩
        simp only [isTypeSeparator, Bool.or_eq_true, decide_eq_true_eq] at hs
        rcases hs with rfl | rfl <;> exact absurd hw (by decide)
    · simp at hc; subst hc; decide
  have hsplit : ("Array<".toList ++ a ++ ['>']).splitOnP isTypeSeparator = ["Array<".toList ++ a ++ ['>']] :=
    List.splitOnP_eq_single _ _ fun c hc => by simp [(hchars c hc).2]
  have hstrip : strip ("Array<".toList ++ a ++ ['>']) = "Array<".toList ++ a ++ ['>'] := by
    rw [strip, List.dropWhile_eq_self_iff.2 fun hl => by simp [(by decide : isStripped 'A' = false)]]
    exact rdropWhile_eq_self_of_getLast? fun c hc => (hchars c (List.mem_of_getLast?_eq_some hc)).1
  simp only [typeReferencePathsFromParamTypes, List.flatMap_cons, List.flatMap_nil, hsplit, List.map_cons,
    List.map_nil, hstrip, List.append_nil, List.filter_singleton,
    (by simp : decide ("Array<".toList ++ a ++ ['>'] ≠ []) = true), cond_true, List.filterMap_cons,
    typeReferencePath_array ns ha, List.filterMap_nil]
  rfl

theorem typeReferencePathsFromParamTypes_array_tool :
    IsTypeName "Tool".toList ∧
      typeReferencePathsFromParamTypes ["Array<".toList ++ "Tool".toList ++ ['>']] typesPath =
        [typesPath ++ "::".toList ++ ("Tool".toList ++ ['>'])] :=
  ⟨by decide, typeReferencePathsFromParamTypes_array typesPath (by decide)⟩

end DocTemplate

end AgUi
