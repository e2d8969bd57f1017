import AgUi.Dict
import AgUi.ListLemmas
import AgUi.DocTemplate.Markdown

/-!
# The sections of a module's documentation

`extract_virtual_sections` cuts a module's documentation, as Markdown, at its level-two headings
(`## Title`): the text before the first heading is the preamble, and each heading's title keys the
text that follows it, up to the next heading.  The events page then writes the event groups in the
order of these sections, and the types page its categories.

* `extractVirtualSections_document`: a document made of a preamble and sections with distinct titles
  is cut back into them, each text stripped, the titles in order.
* `orderedGroupTitles_perm_iff`: the events page goes through every event group exactly once if and
  only if no group's title heads two sections of the module's documentation.
* `orderedKeys_perm`: the types page goes through every category exactly once.
-/

namespace AgUi

namespace DocTemplate

/-! ### Cutting the documentation at its headings -/

/-- The capture of `/^##\s+(.+)\s*$/` in a line, which holds no line feed: `\s+` takes the whitespace
after `##`, and gives its last character back to `(.+)` when nothing else follows. -/
def headingCapture : List Char → Option (List Char)
  | '#' :: '#' :: c :: rest =>
    if isSpace c then
      match rest.dropWhile isSpace with
      | [] => rest.getLast?.map ([·])
      | r => some r
    else none
  | _ => none

/-- The locals of `extract_virtual_sections`. -/
structure Extract where
  preamble : List (List Char) := []
  sections : Dict (List Char) (List Char) := []
  order : List (List Char) := []
  currentTitle : Option (List Char) := none
  currentLines : List (List Char) := []

/-- The `flush` lambda: the lines gathered so far become the current section's text, or join the
preamble before the first heading. -/
def Extract.flush (st : Extract) : Extract :=
  match st.currentTitle with
  | some title =>
    { st with sections := st.sections.set title (strip (joinLines st.currentLines)),
              order := st.order ++ [title], currentLines := [] }
  | none => { st with preamble := st.preamble ++ st.currentLines, currentLines := [] }

/-- One pass of `lines.each`: a heading flushes and opens a section, any other line is gathered. -/
def Extract.line (st : Extract) (line : List Char) : Extract :=
  match headingCapture line with
  | some m => { st.flush with currentTitle := some (strip m) }
  | none => { st with currentLines := st.currentLines ++ [line] }

/-- `extract_virtual_sections` after the split: the stripped preamble, the sections by title, and the
titles in the order of their headings. -/
def sectionsOf (lines : List (List Char)) : List Char × Dict (List Char) (List Char) × List (List Char) :=
  let st := (lines.foldl Extract.line {}).flush
  (strip (joinLines st.preamble), st.sections, st.order)

/-- `extract_virtual_sections(markdown)`. -/
def extractVirtualSections (markdown : List Char) : List Char × Dict (List Char) (List Char) × List (List Char) :=
  sectionsOf (splitNewline markdown)

/-! ### Documents made of sections -/

/-- The line `## title`. -/
def headingLine (title : List Char) : List Char := '#' :: '#' :: ' ' :: title

/-- A document: the preamble's lines, then each section's heading and lines. -/
def document (preamble : List (List Char)) (sections : List (List Char × List (List Char))) : List Char :=
  joinLines (preamble ++ sections.flatMap fun s => headingLine s.1 :: s.2)

/-- A title `## title` gives back: one line, not empty, kept by `strip`. -/
def IsTitle (title : List Char) : Prop := title ≠ [] ∧ strip title = title ∧ '\n' ∉ title

instance : DecidablePred IsTitle := fun _ => inferInstanceAs (Decidable (_ ∧ _ ∧ _))

theorem headingCapture_headingLine {title : List Char} (h : IsTitle title) :
    headingCapture (headingLine title) = some title := by
  obtain ⟨hne, hs, -⟩ := h
  obtain ⟨c, s, rfl⟩ := List.exists_cons_of_ne_nil hne
  have hc : isSpace c = false := by
    have := not_isStripped_head_of_strip_eq hs
    simp only [isStripped, Bool.or_eq_false_iff] at this
    exact this.2
  have hd : (c :: s).dropWhile isSpace = c :: s := List.dropWhile_cons_of_neg (by simp [hc])
  simp only [headingCapture, headingLine, hd]
  rfl

@[simp] theorem Extract.flush_currentLines (st : Extract) : st.flush.currentLines = [] := by
  unfold Extract.flush
  split <;> rfl

theorem foldl_line_of_headingCapture {lines : List (List Char)} (h : ∀ l ∈ lines, headingCapture l = none)
    (st : Extract) : lines.foldl Extract.line st = { st with currentLines := st.currentLines ++ lines } := by
  induction lines generalizing st with
  | nil => simp
  | cons l lines ih =>
    rw [List.foldl_cons, Extract.line, h l (List.mem_cons_self _ _),
      ih fun l' hl' => h l' (List.mem_cons_of_mem _ hl')]
    simp

/-- Opening a section: flush, then gather the section's lines under its title. -/
def Extract.section (st : Extract) (s : List Char × List (List Char)) : Extract :=
  { st.flush with currentTitle := some s.1, currentLines := s.2 }

theorem foldl_line_section {title : List Char} {body : List (List Char)} (ht : IsTitle title)
    (hb : ∀ l ∈ body, headingCapture l = none) (st : Extract) :
    (headingLine title :: body).foldl Extract.line st = st.section (title, body) := by
  rw [List.foldl_cons, foldl_line_of_headingCapture hb]
  simp only [Extract.line, headingCapture_headingLine ht, ht.2.1, Extract.flush_currentLines, List.nil_append]
  rfl

theorem foldl_line_sections {secs : List (List Char × List (List Char))} (ht : ∀ s ∈ secs, IsTitle s.1)
    (hb : ∀ s ∈ secs, ∀ l ∈ s.2, headingCapture l = none) (st : Extract) :
    (secs.flatMap fun s => headingLine s.1 :: s.2).foldl Extract.line st = secs.foldl Extract.section st := by
  induction secs generalizing st with
  | nil => rfl
  | cons s secs ih =>
    rw [List.flatMap_cons, List.foldl_append, foldl_line_section (ht s (List.mem_cons_self _ _))
      (hb s (List.mem_cons_self _ _)), ih (fun s hs => ht s (List.mem_cons_of_mem _ hs))
      (fun s hs => hb s (List.mem_cons_of_mem _ hs))]
    rfl

/-- What the sections opened after a state leave once flushed: the state's own flush, then each
section's title in order and its stripped text under it. -/
theorem flush_foldl_section (secs : List (List Char × List (List Char))) (st : Extract) :
    (secs.foldl Extract.section st).flush.preamble = st.flush.preamble ∧
      (secs.foldl Extract.section st).flush.order = st.flush.order ++ secs.map Prod.fst ∧
      (secs.foldl Extract.section st).flush.sections =
        st.flush.sections.merge (secs.map fun s => (s.1, strip (joinLines s.2))) := by
  induction secs generalizing st with
  | nil => simp [Dict.merge]
  | cons s secs ih =>
    obtain ⟨hp, ho, hs⟩ := ih (st.section s)
    refine ⟨hp, ?_, hs⟩
    rw [List.foldl_cons, ho, List.map_cons]
    exact List.append_assoc _ [s.1] _

/-- Blank lines at the end change nothing: `split` drops them, and they would only be stripped. -/
theorem sectionsOf_append_nil (lines : List (List Char)) : sectionsOf (lines ++ [[]]) = sectionsOf lines := by
  simp only [sectionsOf, List.foldl_append, List.foldl_cons, List.foldl_nil]
  generalize lines.foldl Extract.line {} = st
  obtain ⟨pre, secs, order, title, cur⟩ := st
  cases title with
  | none =>
    simp only [Extract.line, headingCapture, Extract.flush]
    rw [← List.append_assoc, strip_joinLines_append_nil]
  | some t => simp [Extract.line, headingCapture, Extract.flush, strip_joinLines_append_nil]

theorem sectionsOf_rdropWhile_isEmpty (lines : List (List Char)) :
    sectionsOf (lines.rdropWhile List.isEmpty) = sectionsOf lines := by
  induction lines using List.reverseRecOn with
  | nil => rfl
  | append_singleton lines l ih =>
    by_cases hl : l.isEmpty
    · rw [List.rdropWhile_concat_pos _ _ _ hl, ih, List.isEmpty_iff.1 hl, sectionsOf_append_nil]
    · rw [List.rdropWhile_concat_neg _ _ _ hl]

/-- `extract_virtual_sections` cuts a document made of a preamble and sections with distinct titles
back into them: the stripped preamble, each title with its stripped text, the titles in order. -/
theorem extractVirtualSections_document {pre : List (List Char)} {secs : List (List Char × List (List Char))}
    (hpre : ∀ l ∈ pre, '\n' ∉ l ∧ headingCapture l = none) (htitle : ∀ s ∈ secs, IsTitle s.1)
    (hbody : ∀ s ∈ secs, ∀ l ∈ s.2, '\n' ∉ l ∧ headingCapture l = none) (hnodup : (secs.map Prod.fst).Nodup) :
    extractVirtualSections (document pre secs) =
      (strip (joinLines pre), secs.map (fun s => (s.1, strip (joinLines s.2))), secs.map Prod.fst) := by
  have hlines : ∀ l ∈ pre ++ secs.flatMap (fun s => headingLine s.1 :: s.2), '\n' ∉ l := by
    simp only [List.mem_append, List.mem_flatMap, List.mem_cons]
    rintro l (hl | ⟨s, hs, rfl | hl⟩)
    · exact (hpre l hl).1
    · simp [headingLine, (htitle s hs).2.2]
    · exact (hbody s hs l hl).1
  rw [extractVirtualSections, document, splitNewline_joinLines hlines, sectionsOf_rdropWhile_isEmpty, sectionsOf,
    List.foldl_append, foldl_line_of_headingCapture fun l hl => (hpre l hl).2,
    foldl_line_sections htitle fun s hs l hl => (hbody s hs l hl).2]
  obtain ⟨hp, ho, hs⟩ := flush_foldl_section secs { currentLines := [] ++ pre }
  rw [hp, ho, hs]
  simp only [Extract.flush, List.nil_append]
  rw [Dict.merge_of_nodup (by simpa [Dict.keys, Function.comp_def] using hnodup)]
  rfl

theorem extractVirtualSections_document_events :
    let pre := ["Events of the protocol.".toList]
    let secs := [("Lifecycle Events".toList, ["Runs and steps.".toList, []]), ("Special Events".toList, [])]
    (∀ l ∈ pre, '\n' ∉ l ∧ headingCapture l = none) ∧ (∀ s ∈ secs, IsTitle s.1) ∧
      (∀ s ∈ secs, ∀ l ∈ s.2, '\n' ∉ l ∧ headingCapture l = none) ∧ (secs.map Prod.fst).Nodup ∧
      extractVirtualSections (document pre secs) =
        (strip (joinLines pre), secs.map (fun s => (s.1, strip (joinLines s.2))), secs.map Prod.fst) := by
  intro pre secs
  have hpre : ∀ l ∈ pre, '\n' ∉ l ∧ headingCapture l = none := by decide
  have htitle : ∀ s ∈ secs, IsTitle s.1 := by decide
  have hbody : ∀ s ∈ secs, ∀ l ∈ s.2, '\n' ∉ l ∧ headingCapture l = none := by decide
  have hnodup : (secs.map Prod.fst).Nodup := by decide
  exact ⟨hpre, htitle, hbody, hnodup, extractVirtualSections_document hpre htitle hbody hnodup⟩

/-! ### The order of the pages' sections -/

/-- `ordered_group_titles` of the events page: the group titles in the order of the module's sections,
then the other groups in their own order (`groups_by_title.keys - ordered_group_titles`). -/
def orderedGroupTitles (sectionOrder groupTitles : List (List Char)) : List (List Char) :=
  let ordered := sectionOrder.filter (· ∈ groupTitles)
  ordered ++ groupTitles.filter (· ∉ ordered)

/-- The titles the events page goes through are the group titles, each once, if and only if no
group's title heads two sections of the module's documentation. -/
theorem orderedGroupTitles_perm_iff (sectionOrder : List (List Char)) {groupTitles : List (List Char)}
    (hg : groupTitles.Nodup) :
    (orderedGroupTitles sectionOrder groupTitles).Perm groupTitles ↔ (sectionOrder.filter (· ∈ groupTitles)).Nodup := by
  constructor
  · intro h
    exact (h.nodup_iff.2 hg).of_append_left
  · intro h
    refine perm_append_filter_not_mem (fun k hk => ?_) h hg
    simpa using (List.mem_filter.1 hk).2

/-- The bucket of the types page for objects with no category of their own. -/
def rootBucket : List Char := "__root__".toList

/-- `ordered_keys << root_bucket if grouped.key?(root_bucket) && grouped[root_bucket].any?`. -/
def rootKeys {α : Type} (grouped : Dict (List Char) (List α)) : List (List Char) :=
  if ((grouped.get rootBucket).getD []).isEmpty then [] else [rootBucket]

/-- `section_order.each`: each title that is a category and not yet listed is appended. -/
def appendSectionKeys (categories keys sectionOrder : List (List Char)) : List (List Char) :=
  sectionOrder.foldl (fun keys title => if title ∈ categories ∧ title ∉ keys then keys ++ [title] else keys) keys

/-- `ordered_keys` of the types page: the root bucket when it holds an object, then the categories in
the order of the module's sections, then the other categories sorted (`(grouped.keys - ordered_keys).sort`). -/
def orderedKeys {α : Type} (grouped : Dict (List Char) (List α)) (sectionOrder : List (List Char)) :
    List (List Char) :=
  let keys := appendSectionKeys (Dict.keys grouped) (rootKeys grouped) sectionOrder
  keys ++ ((Dict.keys grouped).filter (· ∉ keys)).mergeSort strLe

theorem rootKeys_sub {α : Type} (grouped : Dict (List Char) (List α)) :
    (∀ k ∈ rootKeys grouped, k ∈ Dict.keys grouped) ∧ (rootKeys grouped).Nodup := by
  unfold rootKeys
  split
  · simp
  · rename_i h
    refine ⟨fun k hk => ?_, List.nodup_singleton _⟩
    rw [List.mem_singleton.1 hk]
    cases hg : grouped.get rootBucket with
    | none => simp [hg] at h
    | some v => exact List.mem_map_of_mem Prod.fst (Dict.mem_of_get_eq_some hg)

theorem appendSectionKeys_sub {categories keys : List (List Char)} (hsub : ∀ k ∈ keys, k ∈ categories)
    (hnd : keys.Nodup) (sectionOrder : List (List Char)) :
    (∀ k ∈ appendSectionKeys categories keys sectionOrder, k ∈ categories) ∧
      (appendSectionKeys categories keys sectionOrder).Nodup := by
  induction sectionOrder generalizing keys with
  | nil => exact ⟨hsub, hnd⟩
  | cons t so ih =>
    rw [appendSectionKeys, List.foldl_cons]
    split
    · rename_i h
      refine ih (fun k hk => ?_) (List.nodup_append.2 ⟨hnd, List.nodup_singleton t, ?_⟩)
      · rcases List.mem_append.1 hk with hk | hk
        · exact hsub k hk
        · rw [List.mem_singleton.1 hk]; exact h.1
      · simpa using h.2
    · exact ih hsub hnd

/-- The types page writes every category exactly once, whatever the sections of the module's
documentation. -/
theorem orderedKeys_perm {α : Type} (grouped : Dict (List Char) (List α)) (hnd : (Dict.keys grouped).Nodup)
    (sectionOrder : List (List Char)) : (orderedKeys grouped sectionOrder).Perm (Dict.keys grouped) := by
  obtain ⟨hsub, hknd⟩ := appendSectionKeys_sub (rootKeys_sub grouped).1 (rootKeys_sub grouped).2 sectionOrder
  exact ((List.perm_append_left_iff _).2 (List.mergeSort_perm _ _)).trans (perm_append_filter_not_mem hsub hknd hnd)

end DocTemplate

end AgUi
