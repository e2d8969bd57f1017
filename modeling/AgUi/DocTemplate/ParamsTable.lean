import AgUi.DocTemplate.SourceTags

/-!
# Parameter tables

`render_params_table_for` writes the table of a type's properties on the types page, and
`render_params_table_for_method` the table of a method's parameters on the encoder page.  Both make
one row of three cells for each `@param` tag (`paramCells`), pad every cell to the width of its
column and write the lines `| a | b | c |` (`renderTable`).  The first also looks up the default of
each property in the initializer and escapes what the table syntax reads: a pipe becomes `\|` and a
line feed `<br />`.  The second writes its cells as they are.

The table is read as GitHub-flavoured Markdown reads it (`tableRows`): line by line up to a blank
line, each line split at the pipes that no backslash stands before, each cell trimmed.

* `length_of_mem_splitNewline_renderParamsTableFor`: every line of a types table has the same
  length, the widths of the columns and the ten characters of the frame.
* `tableRows_renderParamsTableFor`: a types table reads back as its header, its delimiter row and,
  for each tag, exactly the three cells the template made.
* `tableRows_renderParamsTableForMethod`: so does a method table, when no tag holds a pipe or a line
  feed.
* `length_tableRows_renderParamsTableForMethod`: the method table does not escape: each pipe of a tag
  adds a cell to its row, which a table of three columns drops, where the types table keeps the
  escaped pipe in its cell.
-/

namespace AgUi

namespace DocTemplate

/-! ## The template -/

/-- `name.to_s.strip.sub(/:\z/, "").sub(/\A\*\*?/, "")`: a keyword argument's colon and the stars of
a splat go. -/
def normalizeParamName (name : List Char) : List Char :=
  let s := strip name
  let s := if s.getLast? = some ':' then s.dropLast else s
  s.drop (min 2 (s.takeWhile (· = '*')).length)

/-- An entry of YARD's `method_object.parameters`: a pair `[name, default]`, or a text
`name = default`. -/
inductive MethodParameter where
  | pair (rawName : List Char) (default : Option (List Char))
  | text (str : List Char)
  deriving DecidableEq, Repr

/-- `initializer_param_defaults(object)`: the default of each parameter of the initializer that has
one, under its normalised name, a later parameter of the same name overwriting an earlier one. -/
def initializerParamDefaults (params : List MethodParameter) : Dict (List Char) (List Char) :=
  params.foldl (fun defaults param =>
    match param with
    | .pair rawName (some default) => defaults.set (normalizeParamName rawName) default
    | .pair _ none => defaults
    | .text str =>
      if '=' ∈ str then
        defaults.set (normalizeParamName (str.takeWhile (· ≠ '='))) (strip (str.dropWhile (· ≠ '=')).tail)
      else defaults) []

/-- `optional_param?(types:, default:)`: a parameter with a default, or with a type that is `nil`. -/
def optionalParam (types : List (List Char)) (default : Option (List Char)) : Bool :=
  default.isSome || types.any fun t =>
    let v := strip t
    v = "nil".toList || v = "NilClass".toList || "nil".toList.isSuffixOf v

/-- A row of a table: the parameter's cell, its `Type` cell and its `Description` cell. -/
structure Row (α : Type) where
  name : α
  type : α
  desc : α
  deriving DecidableEq, Repr

/-- The cells of a row, in order. -/
def Row.cells {α : Type} (r : Row α) : List α := [r.name, r.type, r.desc]

/-- Each cell of a row changed by `f`. -/
def Row.map {α β : Type} (f : α → β) (r : Row α) : Row β := ⟨f r.name, f r.type, f r.desc⟩

@[simp] theorem Row.cells_map {α β : Type} (f : α → β) (r : Row α) : (r.map f).cells = r.cells.map f := rfl

/-- `display_types`: the types that are not `nil`, or all of them when there are only `nil`s. -/
def displayTypes (typeValues : List (List Char)) : List (List Char) :=
  let nonNilTypes := typeValues.filter fun v => !(v = "nil".toList || v = "NilClass".toList)
  if nonNilTypes = [] then typeValues else nonNilTypes

/-- The `Type` cell: the types to display in backticks, and ` (optional)` after them for an optional
parameter. -/
def typeCell (typeValues : List (List Char)) (isOptional : Bool) : List Char :=
  let type := if displayTypes typeValues ≠ [] then
    "`".toList ++ " , ".toList.intercalate (displayTypes typeValues) ++ "`".toList else []
  if isOptional then type ++ " (optional)".toList else type

/-- The cells of the row of a tag, before any escaping: the name in backticks, the types, and the
text, with `, Default: ...` after it when the initializer gives the parameter a default that is not
empty.  `render_params_table_for_method` passes no default. -/
def paramCells (default : Option (List Char)) (t : ParamTag) : Row (List Char) :=
  let typeValues := t.types.map strip
  let desc := strip t.text
  let desc := match default with
    | some d =>
      if d ≠ [] then
        let suffix := ", Default: `".toList ++ d ++ "`.".toList
        if desc = [] then suffix else strip (desc ++ ' ' :: suffix)
      else desc
    | none => desc
  ⟨"`".toList ++ normalizeParamName t.name ++ "`".toList, typeCell typeValues (optionalParam typeValues default), desc⟩

/-- `v.gsub("|", "\\|").gsub("\n", "<br />")`. -/
def escapeCell (v : List Char) : List Char :=
  (v.flatMap fun c => if c = '|' then ['\\', '|'] else [c]).flatMap fun c =>
    if c = '\n' then "<br />".toList else [c]

/-- `s.ljust(width)`: `s` with spaces after it up to `width` characters. -/
def ljust (width : Nat) (s : List Char) : List Char := s ++ List.replicate (width - s.length) ' '

/-- The width of a column: its longest cell, header included, and at least 3. -/
def columnWidth (headers : Row (List Char)) (rows : List (Row (List Char))) (cell : Row (List Char) → List Char) :
    Nat :=
  max (((headers :: rows).map fun r => (cell r).length).foldr max 0) 3

/-- The widths of the three columns. -/
def tableWidths (headers : Row (List Char)) (rows : List (Row (List Char))) : Row Nat :=
  ⟨columnWidth headers rows Row.name, columnWidth headers rows Row.type, columnWidth headers rows Row.desc⟩

/-- `"| #{r[0].ljust(widths[0])} | #{r[1].ljust(widths[1])} | #{r[2].ljust(widths[2])} |"`. -/
def rowLine (w : Row Nat) (r : Row (List Char)) : List Char :=
  "| ".toList ++ ljust w.name r.name ++ " | ".toList ++ ljust w.type r.type ++ " | ".toList ++ ljust w.desc r.desc ++
    " |".toList

/-- `"| #{("-" * widths[0])} | #{("-" * widths[1])} | #{("-" * widths[2])} |"`. -/
def delimiterLine (w : Row Nat) : List Char :=
  "| ".toList ++ List.replicate w.name '-' ++ " | ".toList ++ List.replicate w.type '-' ++ " | ".toList ++
    List.replicate w.desc '-' ++ " |".toList

/-- The lines of a table: the header, the delimiter row, and a line for each row. -/
def tableLines (headers : Row (List Char)) (rows : List (Row (List Char))) : List (List Char) :=
  let w := tableWidths headers rows
  rowLine w headers :: delimiterLine w :: rows.map (rowLine w)

/-- The text both renderers append: the lines of the table, each ended by a line feed, and a blank
line. -/
def renderTable (headers : Row (List Char)) (rows : List (Row (List Char))) : List Char :=
  joinLines (tableLines headers rows) ++ "\n\n".toList

/-- The headers of a types table. -/
def propertyHeaders : Row (List Char) := ⟨"Property".toList, "Type".toList, "Description".toList⟩

/-- The headers of a method's table. -/
def parameterHeaders : Row (List Char) := ⟨"Parameter".toList, "Type".toList, "Description".toList⟩

/-- The rows of `render_params_table_for`: for each tag its cells, with the default the initializer
gives the parameter, escaped. -/
def propertyRows (params : List MethodParameter) (tags : List ParamTag) : List (Row (List Char)) :=
  let defaults := initializerParamDefaults params
  tags.map fun t => (paramCells (defaults.get (normalizeParamName t.name)) t).map escapeCell

/-- `render_params_table_for(object)`, for an object whose initializer has the parameters `params`
and the tags `tags`. -/
def renderParamsTableFor (params : List MethodParameter) (tags : List ParamTag) : List Char :=
  if tags = [] then [] else renderTable propertyHeaders (propertyRows params tags)

/-- `render_params_table_for_method(method_object, owner:)`, for a method with the tags `tags`. -/
def renderParamsTableForMethod (tags : List ParamTag) : List Char :=
  if tags = [] then [] else renderTable parameterHeaders (tags.map (paramCells none))

/-! ## Reading a table -/

/-- GitHub-flavoured Markdown splits a table line at its pipes, but for a pipe right after a
backslash, which stays in its cell; `escaped` says that the character before was a backslash. -/
def splitCells (escaped : Bool) (cell : List Char) : List Char → List (List Char)
  | [] => [cell]
  | c :: s => if c = '|' ∧ escaped = false then cell :: splitCells false [] s else splitCells (c = '\\') (cell ++ [c]) s

/-- A cell's content: the cell without the whitespace around it. -/
def trimCell (s : List Char) : List Char := (s.dropWhile isSpace).rdropWhile isSpace

/-- The cells of a line `| a | b | c |`: the pieces between its first and its last pipe, trimmed. -/
def rowCells (line : List Char) : List (List Char) := ((splitCells false [] line).tail.dropLast).map trimCell

/-- The rows of a table, as cells: its lines up to the first blank one. -/
def tableRows (text : List Char) : List (List (List Char)) := ((text.splitOn '\n').takeWhile (· ≠ [])).map rowCells

/-- A text the reader keeps in one cell whatever stands before it, when a character other than a
pipe follows it. -/
def CellText (s : List Char) : Prop :=
  ∀ (escaped : Bool) (cell : List Char) (c : Char) (rest : List Char), c ≠ '|' →
    splitCells escaped cell (s ++ c :: rest) = splitCells (c = '\\') (cell ++ s ++ [c]) rest

theorem splitCells_cons_of_ne {e : Bool} {cell : List Char} {c : Char} (hc : c ≠ '|') (s : List Char) :
    splitCells e cell (c :: s) = splitCells (c = '\\') (cell ++ [c]) s := by
  simp [splitCells, hc]

theorem cellText_of_not_mem {s : List Char} (h : '|' ∉ s) : CellText s := by
  induction s with
  | nil => intro e cell c rest hc; simp [splitCells_cons_of_ne hc]
  | cons a s ih =>
    intro e cell c rest hc
    rw [List.mem_cons, not_or] at h
    rw [List.cons_append, splitCells_cons_of_ne (Ne.symm h.1), ih h.2 _ _ _ _ hc]
    simp

theorem escapeCell_cons (a : Char) (v : List Char) :
    escapeCell (a :: v) =
      (if a = '|' then ['\\', '|'] else if a = '\n' then "<br />".toList else [a]) ++ escapeCell v := by
  by_cases ha : a = '|'
  · simp [escapeCell, ha]
  · by_cases hn : a = '\n' <;> simp [escapeCell, ha, hn]

/-- Escaping keeps every pipe of a text in its cell. -/
theorem cellText_escapeCell (v : List Char) : CellText (escapeCell v) := by
  induction v with
  | nil => exact cellText_of_not_mem (List.not_mem_nil _)
  | cons a v ih =>
    intro e cell c rest hc
    have hchunk : ∀ s, splitCells e cell
        ((if a = '|' then ['\\', '|'] else if a = '\n' then "<br />".toList else [a]) ++ s) =
        splitCells (a = '\\') (cell ++ (if a = '|' then ['\\', '|'] else if a = '\n' then "<br />".toList else [a])) s := by
      intro s
      by_cases ha : a = '|'
      · subst ha; simp [splitCells]
      · by_cases hn : a = '\n'
        · subst hn; simp [splitCells]
        · simp [ha, hn, splitCells_cons_of_ne ha]
    rw [escapeCell_cons, List.append_assoc, hchunk, ih _ _ _ _ hc]
    simp

theorem cellText_ljust {s : List Char} (hs : CellText s) (w : Nat) : CellText (ljust w s) := by
  intro e cell c rest hc
  cases h : w - s.length with
  | zero => simp [ljust, h, hs e cell c rest hc]
  | succ k =>
    have hsp : CellText (List.replicate k ' ') := cellText_of_not_mem (by simp)
    rw [ljust, h, List.replicate_succ, List.append_assoc, List.cons_append, hs e cell ' ' _ (by decide),
      hsp _ _ c rest hc]
    simp

/-- Spaces around a cell are not part of it. -/
theorem trimCell_pad (s : List Char) (k : Nat) :
    trimCell (' ' :: (s ++ (List.replicate k ' ' ++ [' ']))) = trimCell s := by
  have hrep : ∀ (l : List Char) (n : Nat), (l ++ List.replicate n ' ').rdropWhile isSpace = l.rdropWhile isSpace := by
    intro l n
    induction n with
    | zero => simp
    | succ n ih => rw [List.replicate_succ', ← List.append_assoc, List.rdropWhile_concat_pos _ _ _ (by decide), ih]
  rw [trimCell, trimCell, List.dropWhile_cons_of_pos (by decide), ← List.replicate_succ',
    List.dropWhile_append]
  split
  · rename_i hd
    rw [List.isEmpty_iff.1 hd, List.dropWhile_replicate]
    simp [isSpace]
  · exact hrep _ _

/-- A line of cells that stay whole reads back as its cells. -/
theorem rowCells_rowLine (w : Row Nat) {r : Row (List Char)} (hr : ∀ s ∈ r.cells, CellText s) :
    rowCells (rowLine w r) = (r.map trimCell).cells := by
  simp only [Row.cells, List.mem_cons, List.mem_singleton, List.not_mem_nil, or_false, forall_eq_or_imp,
    forall_eq] at hr
  have hcell : ∀ {s : List Char} (n : Nat), CellText s → ∀ rest,
      splitCells false [] (' ' :: (ljust n s ++ ' ' :: '|' :: rest)) =
        (' ' :: (ljust n s ++ [' '])) :: splitCells false [] rest := by
    intro s n hs rest
    rw [splitCells_cons_of_ne (by decide), cellText_ljust hs n _ _ ' ' _ (by decide)]
    simp [splitCells]
  have hline : rowLine w r = '|' :: ' ' :: (ljust w.name r.name ++ ' ' :: '|' :: ' ' :: (ljust w.type r.type ++
      ' ' :: '|' :: ' ' :: (ljust w.desc r.desc ++ ' ' :: '|' :: []))) := by
    simp [rowLine]
  rw [rowCells, hline, splitCells, if_pos ⟨rfl, rfl⟩, List.tail_cons, hcell _ hr.1, hcell _ hr.2.1, hcell _ hr.2.2]
  simp [splitCells, ljust, Row.map, Row.cells, trimCell_pad]

/-- The reader cuts a text with no backslash at each of its pipes. -/
theorem length_splitCells {cell s : List Char} (h : '\\' ∉ s) :
    (splitCells false cell s).length = s.count '|' + 1 := by
  induction s generalizing cell with
  | nil => rfl
  | cons c s ih =>
    rw [List.mem_cons, not_or] at h
    by_cases hp : c = '|'
    · subst hp; simp [splitCells, ih h.2]
    · simp [splitCells, hp, Ne.symm h.1, ih h.2, List.count_cons]

theorem count_rowLine (w : Row Nat) (r : Row (List Char)) :
    (rowLine w r).count '|' = 4 + r.name.count '|' + r.type.count '|' + r.desc.count '|' := by
  simp [rowLine, ljust, List.count_replicate]
  omega

/-! ## The lines of a table -/

/-- The length of each line of a table whose columns have the widths `w`: the cells, `| `, the two
` | ` and ` |`. -/
def lineLength (w : Row Nat) : Nat := w.name + w.type + w.desc + 10

theorem le_columnWidth {headers r : Row (List Char)} {rows : List (Row (List Char))} (hr : r ∈ headers :: rows)
    (cell : Row (List Char) → List Char) : (cell r).length ≤ columnWidth headers rows cell :=
  (le_foldr_max (List.mem_map_of_mem (fun r => (cell r).length) hr)).trans (le_max_left _ _)

theorem length_rowLine {w : Row Nat} {r : Row (List Char)} (hname : r.name.length ≤ w.name)
    (htype : r.type.length ≤ w.type) (hdesc : r.desc.length ≤ w.desc) : (rowLine w r).length = lineLength w := by
  simp only [rowLine, ljust, lineLength, List.length_append, List.length_replicate]
  simp
  omega

theorem length_of_mem_tableLines {headers : Row (List Char)} {rows : List (Row (List Char))} {l : List Char}
    (hl : l ∈ tableLines headers rows) : l.length = lineLength (tableWidths headers rows) := by
  have hfit : ∀ r ∈ headers :: rows, (rowLine (tableWidths headers rows) r).length = lineLength (tableWidths headers rows) :=
    fun r hr => length_rowLine (le_columnWidth hr _) (le_columnWidth hr _) (le_columnWidth hr _)
  simp only [tableLines, List.mem_cons, List.mem_map] at hl
  rcases hl with rfl | rfl | ⟨r, hr, rfl⟩
  · exact hfit _ (List.mem_cons_self _ _)
  · simp [delimiterLine, lineLength]
    omega
  · exact hfit _ (List.mem_cons_of_mem _ hr)

/-- The delimiter row is a row of dashes that fill their columns. -/
theorem delimiterLine_eq (w : Row Nat) : delimiterLine w = rowLine w (w.map fun n => List.replicate n '-') := by
  simp [delimiterLine, rowLine, ljust, Row.map]

/-- A character other than the frame's is in a line only when it is in one of its cells. -/
theorem not_mem_rowLine {w : Row Nat} {r : Row (List Char)} {c : Char} (hc : c ≠ '|' ∧ c ≠ ' ')
    (h : ∀ s ∈ r.cells, c ∉ s) : c ∉ rowLine w r := by
  simp only [Row.cells, List.mem_cons, List.mem_singleton, List.not_mem_nil, or_false, forall_eq_or_imp,
    forall_eq] at h
  simp [rowLine, ljust, h, hc.1, hc.2]

/-- A line with no backslash reads as one cell fewer than it has pipes, one more than its cells
hold. -/
theorem length_rowCells_rowLine (w : Row Nat) {r : Row (List Char)} (h : ∀ s ∈ r.cells, '\\' ∉ s) :
    (rowCells (rowLine w r)).length = 3 + r.name.count '|' + r.type.count '|' + r.desc.count '|' := by
  have hl := @length_splitCells [] _ (@not_mem_rowLine w _ _ (by decide) h)
  simp only [rowCells, List.length_map, List.length_dropLast, List.length_tail, hl, count_rowLine]
  omega

theorem not_mem_tableLines {headers : Row (List Char)} {rows : List (Row (List Char))}
    (h : ∀ r ∈ headers :: rows, ∀ s ∈ r.cells, '\n' ∉ s) : ∀ l ∈ tableLines headers rows, '\n' ∉ l := by
  simp only [tableLines, List.mem_cons, List.mem_map]
  rintro l (rfl | rfl | ⟨r, hr, rfl⟩)
  · exact not_mem_rowLine (by decide) (h _ (List.mem_cons_self _ _))
  · simp [delimiterLine]
  · exact not_mem_rowLine (by decide) (h _ (List.mem_cons_of_mem _ hr))

/-- A table whose cells hold no line feed is read line by line as its lines. -/
theorem splitOn_renderTable {headers : Row (List Char)} {rows : List (Row (List Char))}
    (h : ∀ l ∈ tableLines headers rows, '\n' ∉ l) :
    (renderTable headers rows).splitOn '\n' = tableLines headers rows ++ [[], []] := by
  have hjoin : renderTable headers rows = joinLines (tableLines headers rows ++ [[]] ++ [[]]) := by
    rw [joinLines_append_nil (by simp), joinLines_append_nil (by simp [tableLines])]
    simp [renderTable]
  have hnl : ∀ l ∈ tableLines headers rows ++ [[]] ++ [[]], '\n' ∉ l := by
    simp only [List.append_assoc, List.singleton_append, List.mem_append, List.mem_cons, List.mem_singleton,
      List.not_mem_nil, or_false]
    rintro l (hl | rfl | rfl)
    exacts [h l hl, List.not_mem_nil _, List.not_mem_nil _]
  rw [hjoin, joinLines_eq_intercalate, List.splitOn_intercalate _ _ hnl (by simp)]
  simp

theorem ne_nil_of_mem_tableLines {headers : Row (List Char)} {rows : List (Row (List Char))} {l : List Char}
    (hl : l ∈ tableLines headers rows) : l ≠ [] := by
  intro h
  have := length_of_mem_tableLines hl
  simp only [h, List.length_nil, lineLength] at this
  omega

theorem splitNewline_renderTable {headers : Row (List Char)} {rows : List (Row (List Char))}
    (h : ∀ l ∈ tableLines headers rows, '\n' ∉ l) : splitNewline (renderTable headers rows) = tableLines headers rows := by
  rw [splitNewline, splitOn_renderTable h, show tableLines headers rows ++ [[], []] = tableLines headers rows ++ [[]] ++ [[]]
    by simp, List.rdropWhile_concat_pos _ _ _ rfl, List.rdropWhile_concat_pos _ _ _ rfl, List.rdropWhile_eq_self_iff]
  intro hne
  simpa using ne_nil_of_mem_tableLines (List.getLast_mem hne)

/-- A table whose lines hold no line feed is read line by line, each line as its cells. -/
theorem tableRows_renderTable_eq_map {headers : Row (List Char)} {rows : List (Row (List Char))}
    (h : ∀ l ∈ tableLines headers rows, '\n' ∉ l) : tableRows (renderTable headers rows) = (tableLines headers rows).map rowCells := by
  rw [tableRows, splitOn_renderTable h, List.takeWhile_append_of_pos (by simpa using fun l hl => ne_nil_of_mem_tableLines hl)]
  simp

/-- A table whose cells stay whole and hold no line feed reads back as its header, a row of dashes for
each column and its rows, each cell trimmed. -/
theorem tableRows_renderTable {headers : Row (List Char)} {rows : List (Row (List Char))}
    (hcells : ∀ r ∈ headers :: rows, ∀ s ∈ r.cells, CellText s ∧ '\n' ∉ s) :
    tableRows (renderTable headers rows) =
      (headers :: (tableWidths headers rows).map (fun n => List.replicate n '-') :: rows).map
        fun r => (r.map trimCell).cells := by
  have hdash : ∀ s ∈ ((tableWidths headers rows).map fun n => List.replicate n '-').cells, CellText s ∧ '\n' ∉ s := by
    simp only [Row.cells_map, List.mem_map]
    rintro _ ⟨n, -, rfl⟩
    exact ⟨cellText_of_not_mem (by simp), by simp⟩
  rw [tableRows_renderTable_eq_map (not_mem_tableLines fun r hr s hs => (hcells r hr s hs).2)]
  simp only [tableLines, List.map_cons, List.map_map, Function.comp_def, delimiterLine_eq]
  rw [rowCells_rowLine _ fun s hs => (hcells _ (List.mem_cons_self _ _) s hs).1, rowCells_rowLine _ fun s hs => (hdash s hs).1]
  simp only [List.cons.injEq, true_and]
  exact List.map_congr_left fun r hr => rowCells_rowLine _ fun s hs => (hcells _ (List.mem_cons_of_mem _ hr) s hs).1

/-! ## The types table -/

/-- The tag of `event` in `EventEncoder#encode`. -/
def encodeEventTag : ParamTag := ⟨"event".toList, ["Object".toList], "The event to encode".toList⟩

/-- The tag of `content` in `UserMessage#initialize` as YARD reads it, a pipe in one of its types. -/
def userMessageContentTag : ParamTag :=
  ⟨"content".toList, ["String".toList, "Array<TextInputContent | BinaryInputContent>".toList],
    "Either a plain text string or an ordered list of multimodal fragments".toList⟩

theorem not_mem_escapeCell (v : List Char) : '\n' ∉ escapeCell v := by
  induction v with
  | nil => simp [escapeCell]
  | cons a v ih =>
    rw [escapeCell_cons, List.mem_append, not_or]
    refine ⟨?_, ih⟩
    split_ifs with h₁ h₂
    · decide
    · decide
    · simpa using Ne.symm h₂

theorem propertyRows_cells (params : List MethodParameter) (tags : List ParamTag) :
    ∀ r ∈ propertyHeaders :: propertyRows params tags, ∀ s ∈ r.cells, CellText s ∧ '\n' ∉ s := by
  simp only [propertyRows, List.mem_cons, List.mem_map]
  rintro r (rfl | ⟨t, -, rfl⟩) s hs
  · simp only [propertyHeaders, Row.cells, List.mem_cons, List.mem_singleton, List.not_mem_nil, or_false] at hs
    rcases hs with rfl | rfl | rfl <;> exact ⟨cellText_of_not_mem (by decide), by decide⟩
  · rw [Row.cells_map, List.mem_map] at hs
    obtain ⟨v, -, rfl⟩ := hs
    exact ⟨cellText_escapeCell v, not_mem_escapeCell v⟩

/-- A types table has a line for its header, one for the delimiter row and one for each tag, all of
the same length. -/
theorem length_splitNewline_renderParamsTableFor (params : List MethodParameter) {tags : List ParamTag}
    (hne : tags ≠ []) :
    (splitNewline (renderParamsTableFor params tags)).map List.length =
      List.replicate (tags.length + 2) (lineLength (tableWidths propertyHeaders (propertyRows params tags))) := by
  have hlines := not_mem_tableLines fun r hr s hs => (propertyRows_cells params tags r hr s hs).2
  rw [renderParamsTableFor, if_neg hne, splitNewline_renderTable hlines, List.eq_replicate_iff]
  refine ⟨by simp [tableLines, propertyRows], ?_⟩
  simp only [List.mem_map]
  rintro _ ⟨l, hl, rfl⟩
  exact length_of_mem_tableLines hl

theorem length_splitNewline_renderParamsTableFor_userMessage :
    [userMessageContentTag] ≠ [] ∧
      (splitNewline (renderParamsTableFor [] [userMessageContentTag])).map List.length =
        List.replicate ([userMessageContentTag].length + 2)
          (lineLength (tableWidths propertyHeaders (propertyRows [] [userMessageContentTag]))) :=
  ⟨by decide, length_splitNewline_renderParamsTableFor [] (by decide)⟩

/-- A types table reads back as its header, its delimiter row and, for each tag, exactly the three
cells the template made for it: escaping keeps every pipe and line feed of a tag in its cell. -/
theorem tableRows_renderParamsTableFor (params : List MethodParameter) {tags : List ParamTag} (hne : tags ≠ []) :
    tableRows (renderParamsTableFor params tags) =
      (propertyHeaders :: (tableWidths propertyHeaders (propertyRows params tags)).map (fun n => List.replicate n '-') ::
        propertyRows params tags).map fun r => (r.map trimCell).cells := by
  rw [renderParamsTableFor, if_neg hne, tableRows_renderTable (propertyRows_cells params tags)]

theorem tableRows_renderParamsTableFor_userMessage :
    [userMessageContentTag] ≠ [] ∧
      tableRows (renderParamsTableFor [] [userMessageContentTag]) =
        (propertyHeaders :: (tableWidths propertyHeaders (propertyRows [] [userMessageContentTag])).map
          (fun n => List.replicate n '-') :: propertyRows [] [userMessageContentTag]).map fun r => (r.map trimCell).cells :=
  ⟨by decide, tableRows_renderParamsTableFor [] (by decide)⟩

/-! ## The method table -/

theorem mem_of_mem_strip {c : Char} {s : List Char} (h : c ∈ strip s) : c ∈ s :=
  (List.dropWhile_suffix _).subset ((List.rdropWhile_prefix _ _).subset h)

theorem mem_of_mem_normalizeParamName {c : Char} {s : List Char} (h : c ∈ normalizeParamName s) : c ∈ s := by
  dsimp only [normalizeParamName] at h
  split_ifs at h
  · exact mem_of_mem_strip (List.dropLast_subset _ (List.mem_of_mem_drop h))
  · exact mem_of_mem_strip (List.mem_of_mem_drop h)

theorem mem_of_mem_displayTypes {v : List Char} {tv : List (List Char)} (h : v ∈ displayTypes tv) : v ∈ tv := by
  dsimp only [displayTypes] at h
  split_ifs at h
  exacts [h, List.mem_of_mem_filter h]

/-- The `Type` cell is made of the types and of the template's own characters. -/
theorem mem_typeCell {tv : List (List Char)} {o : Bool} :
    ∀ c ∈ typeCell tv o, (∃ v ∈ tv, c ∈ v) ∨ c ∈ "` ,(optional)".toList := by
  have hlit : ∀ {l : List Char}, (∀ c ∈ l, c ∈ "` ,(optional)".toList) →
      ∀ c ∈ l, (∃ v ∈ tv, c ∈ v) ∨ c ∈ "` ,(optional)".toList :=
    fun h c hc => .inr (h c hc)
  have hjoin : ∀ c ∈ " , ".toList.intercalate (displayTypes tv), (∃ v ∈ tv, c ∈ v) ∨ c ∈ "` ,(optional)".toList := by
    intro c hc
    obtain ⟨l, hl, hcl⟩ := List.mem_flatten.1 hc
    rcases mem_intersperse_of_mem hl with rfl | hl
    · exact hlit (by decide) c hcl
    · exact .inl ⟨l, mem_of_mem_displayTypes hl, hcl⟩
  have hq := @hlit "`".toList (by decide)
  have ho := @hlit " (optional)".toList (by decide)
  unfold typeCell
  split_ifs
  · simp only [List.forall_mem_append]; exact ⟨⟨⟨hq, hjoin⟩, hq⟩, ho⟩
  · simp only [List.forall_mem_append]; exact ⟨⟨hq, hjoin⟩, hq⟩
  · simp only [List.forall_mem_append]; exact ⟨fun _ h => absurd h (List.not_mem_nil _), ho⟩
  · exact fun _ h => absurd h (List.not_mem_nil _)


/-- The characters of a method table's row come from its tag or from the template's own text. -/
theorem mem_paramCells_none {t : ParamTag} {s : List Char} (hs : s ∈ (paramCells none t).cells) :
    ∀ c ∈ s, c ∈ t.name ++ t.types.flatten ++ t.text ∨ c ∈ "` ,(optional)".toList := by
  simp only [paramCells, Row.cells, List.mem_cons, List.mem_singleton, List.not_mem_nil, or_false] at hs
  rcases hs with rfl | rfl | rfl
  · intro c hc
    rw [List.mem_append, List.mem_append] at hc
    rcases hc with (hc | hc) | hc
    · exact .inr (by simp_all)
    · exact .inl (List.mem_append_left _ (List.mem_append_left _ (mem_of_mem_normalizeParamName hc)))
    · exact .inr (by simp_all)
  · intro c hc
    rcases mem_typeCell c hc with ⟨v, hv, hcv⟩ | hc
    · obtain ⟨ty, hty, rfl⟩ := List.mem_map.1 hv
      exact .inl (List.mem_append_left _ (List.mem_append_right _ (List.mem_flatten.2 ⟨ty, hty, mem_of_mem_strip hcv⟩)))
    · exact .inr hc
  · intro c hc
    exact .inl (List.mem_append_right _ (mem_of_mem_strip hc))

/-- Every character of a method table's header and rows comes from a tag or from the template's own
text. -/
theorem mem_methodRows {tags : List ParamTag} {r : Row (List Char)}
    (hr : r ∈ parameterHeaders :: tags.map (paramCells none)) {s : List Char} (hs : s ∈ r.cells) {c : Char}
    (hc : c ∈ s) :
    (∃ t ∈ tags, c ∈ t.name ++ t.types.flatten ++ t.text) ∨ c ∈ "` ,(optional)".toList ++ "ParameterTypeDescription".toList := by
  simp only [List.mem_cons, List.mem_map] at hr
  rcases hr with rfl | ⟨t, ht, rfl⟩
  · simp only [parameterHeaders, Row.cells, List.mem_cons, List.mem_singleton, List.not_mem_nil, or_false] at hs
    right
    rcases hs with rfl | rfl | rfl <;> revert c <;> decide
  · exact (mem_paramCells_none hs c hc).imp (fun h => ⟨t, ht, h⟩) fun h => List.mem_append_left _ h

/-- The cells of a method table hold only characters its tags or its template hold. -/
theorem methodRows_chars {tags : List ParamTag} {P : Char → Prop}
    (hlit : ∀ c ∈ "` ,(optional)".toList ++ "ParameterTypeDescription".toList, P c)
    (hsafe : ∀ t ∈ tags, ∀ c ∈ t.name ++ t.types.flatten ++ t.text, P c) :
    ∀ r ∈ parameterHeaders :: tags.map (paramCells none), ∀ s ∈ r.cells, ∀ c ∈ s, P c :=
  fun _ hr _ hs c hc => (mem_methodRows hr hs hc).elim (fun ⟨t, ht, h⟩ => hsafe t ht c h) (hlit c)

theorem methodRows_cells {tags : List ParamTag}
    (hsafe : ∀ t ∈ tags, ∀ c ∈ t.name ++ t.types.flatten ++ t.text, c ≠ '|' ∧ c ≠ '\n') :
    ∀ r ∈ parameterHeaders :: tags.map (paramCells none), ∀ s ∈ r.cells, CellText s ∧ '\n' ∉ s := fun r hr s hs =>
  have hc := methodRows_chars (by decide) hsafe r hr s hs
  ⟨cellText_of_not_mem fun h => (hc _ h).1 rfl, fun h => (hc _ h).2 rfl⟩

/-- A method table whose tags hold no pipe and no line feed reads back as its header, its delimiter
row and, for each tag, exactly the three cells the template made for it. -/
theorem tableRows_renderParamsTableForMethod {tags : List ParamTag} (hne : tags ≠ [])
    (hsafe : ∀ t ∈ tags, ∀ c ∈ t.name ++ t.types.flatten ++ t.text, c ≠ '|' ∧ c ≠ '\n') :
    tableRows (renderParamsTableForMethod tags) =
      (parameterHeaders :: (tableWidths parameterHeaders (tags.map (paramCells none))).map
        (fun n => List.replicate n '-') :: tags.map (paramCells none)).map fun r => (r.map trimCell).cells := by
  rw [renderParamsTableForMethod, if_neg hne, tableRows_renderTable (methodRows_cells hsafe)]

theorem tableRows_renderParamsTableForMethod_encode :
    [encodeEventTag] ≠ [] ∧ (∀ t ∈ [encodeEventTag], ∀ c ∈ t.name ++ t.types.flatten ++ t.text, c ≠ '|' ∧ c ≠ '\n') ∧
      tableRows (renderParamsTableForMethod [encodeEventTag]) =
        (parameterHeaders :: (tableWidths parameterHeaders ([encodeEventTag].map (paramCells none))).map
          (fun n => List.replicate n '-') :: [encodeEventTag].map (paramCells none)).map fun r => (r.map trimCell).cells :=
  ⟨by decide, by decide, tableRows_renderParamsTableForMethod (by decide) (by decide)⟩

/-! ### Pipes in a method table -/

theorem count_strip (s : List Char) : (strip s).count '|' = s.count '|' := by
  rw [strip, count_rdropWhile (by decide), count_dropWhile (by decide)]

/-- Normalising a name drops whitespace, a colon and stars, never a pipe. -/
theorem count_normalizeParamName (name : List Char) : (normalizeParamName name).count '|' = name.count '|' := by
  dsimp only [normalizeParamName]
  generalize hs : (if (strip name).getLast? = some ':' then (strip name).dropLast else strip name) = s
  have hstars : '|' ∉ s.take (min 2 (s.takeWhile (· = '*')).length) := fun hm => by
    have := List.mem_takeWhile_imp ((List.prefix_of_prefix_length_le (List.take_prefix _ _)
      (List.takeWhile_prefix (· = '*')) (by simp only [List.length_take]; omega)).subset hm)
    exact absurd this (by decide)
  rw [count_drop_of_not_mem_take hstars, ← hs, ← count_strip name]
  split_ifs with h
  · exact count_dropLast_of_getLast? h (by decide)
  · rfl

theorem count_displayTypes (tv : List (List Char)) : (displayTypes tv).flatten.count '|' = tv.flatten.count '|' := by
  dsimp only [displayTypes]
  split_ifs
  · rfl
  · exact count_flatten_filter fun v _ hv => by
      simp only [Bool.not_eq_false', Bool.or_eq_true, decide_eq_true_eq] at hv
      rcases hv with rfl | rfl <;> decide

theorem count_typeCell (tv : List (List Char)) (o : Bool) : (typeCell tv o).count '|' = tv.flatten.count '|' := by
  have hsep : (" , ".toList.intercalate (displayTypes tv)).count '|' = tv.flatten.count '|' := by
    rw [count_intercalate (by decide), count_displayTypes]
  have hq : "`".toList.count '|' = 0 := by decide
  have ho : " (optional)".toList.count '|' = 0 := by decide
  unfold typeCell
  by_cases h : displayTypes tv = []
  · rw [← hsep, h, if_neg (not_not.2 rfl)]
    cases o <;> simp only [Bool.false_eq_true, ↓reduceIte, List.nil_append, ho] <;> rfl
  · rw [if_pos h]
    cases o <;> simp only [Bool.false_eq_true, ↓reduceIte, List.count_append, hsep, hq, ho, Nat.zero_add, Nat.add_zero]

/-- The row of a tag in a method table holds the pipes of the tag, and no other. -/
theorem count_paramCells_none (t : ParamTag) :
    (paramCells none t).name.count '|' + (paramCells none t).type.count '|' + (paramCells none t).desc.count '|' =
      (t.name ++ t.types.flatten ++ t.text).count '|' := by
  simp [paramCells, count_normalizeParamName, count_typeCell, count_strip, List.count_flatten,
    Function.comp_def, Nat.add_assoc]

/-- `render_params_table_for_method` does not escape pipes: in a method table whose tags hold no
backslash and no line feed, the header and the delimiter row read as three cells, and the row of
each tag as three cells and one more for each pipe of the tag. -/
theorem length_tableRows_renderParamsTableForMethod {tags : List ParamTag} (hne : tags ≠ [])
    (hsafe : ∀ t ∈ tags, ∀ c ∈ t.name ++ t.types.flatten ++ t.text, c ≠ '\\' ∧ c ≠ '\n') :
    (tableRows (renderParamsTableForMethod tags)).map List.length =
      3 :: 3 :: tags.map fun t => 3 + (t.name ++ t.types.flatten ++ t.text).count '|' := by
  have hc : ∀ r ∈ parameterHeaders :: tags.map (paramCells none), ∀ s ∈ r.cells, '\\' ∉ s ∧ '\n' ∉ s :=
    fun r hr s hs => have h := methodRows_chars (by decide) hsafe r hr s hs
      ⟨fun hm => (h _ hm).1 rfl, fun hm => (h _ hm).2 rfl⟩
  have hdash : ∀ n : Nat, '\\' ∉ List.replicate n '-' := fun n h => absurd (List.eq_of_mem_replicate h) (by decide)
  rw [renderParamsTableForMethod, if_neg hne, tableRows_renderTable_eq_map (not_mem_tableLines fun r hr s hs => (hc r hr s hs).2)]
  simp only [tableLines, List.map_cons, List.map_map, Function.comp_def, delimiterLine_eq]
  rw [length_rowCells_rowLine _ fun s hs => (hc _ (List.mem_cons_self _ _) s hs).1,
    length_rowCells_rowLine _ (by simp [Row.map, Row.cells, hdash])]
  refine List.cons_eq_cons.2 ⟨rfl, List.cons_eq_cons.2 ⟨by simp [Row.map, Row.cells, List.count_replicate], ?_⟩⟩
  exact List.map_congr_left fun t ht => by
    rw [length_rowCells_rowLine _ fun s hs => (hc _ (List.mem_cons_of_mem _ (List.mem_map_of_mem _ ht)) s hs).1,
      Nat.add_assoc, Nat.add_assoc, ← Nat.add_assoc (List.count _ _), count_paramCells_none]

set_option maxRecDepth 4000 in
theorem length_tableRows_renderParamsTableForMethod_userMessage :
    [userMessageContentTag] ≠ [] ∧
      (∀ t ∈ [userMessageContentTag], ∀ c ∈ t.name ++ t.types.flatten ++ t.text, c ≠ '\\' ∧ c ≠ '\n') ∧
      (tableRows (renderParamsTableForMethod [userMessageContentTag])).map List.length =
        3 :: 3 :: [userMessageContentTag].map fun t => 3 + (t.name ++ t.types.flatten ++ t.text).count '|' :=
  have hsafe : ∀ t ∈ [userMessageContentTag], ∀ c ∈ t.name ++ t.types.flatten ++ t.text, c ≠ '\\' ∧ c ≠ '\n' := by
    decide
  ⟨List.cons_ne_nil _ _, hsafe, length_tableRows_renderParamsTableForMethod (List.cons_ne_nil _ _) hsafe⟩

set_option maxRecDepth 20000 in
/-- The tag of `content` of `UserMessage#initialize`: the method table cuts its `Type` cell at the pipe
of `Array<TextInputContent | BinaryInputContent>`, and the description becomes a fourth cell. -/
example :
    (tableRows (renderParamsTableForMethod [userMessageContentTag])).getLast? =
      some ["`content`".toList, "`String , Array<TextInputContent".toList, "BinaryInputContent>`".toList,
        "Either a plain text string or an ordered list of multimodal fragments".toList] := by
  decide

end DocTemplate

end AgUi
