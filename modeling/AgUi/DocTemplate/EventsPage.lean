import AgUi.DocTemplate.TypesPage
import Mathlib.Data.List.Perm.Basic

/-!
# The events page

`serialize_events_page` writes the reference page of `AgUiProtocol::Core::Events`: `EventType` and
`BaseEvent`, then the event classes in five groups chosen by how their names start (`Run` or `Step`,
`TextMessage` or `Thinking`, ...), each group under its own heading, in the order of the sections of
the module's documentation.

* `startsWithAny_eventGroups_unique`: a name starts with the prefixes of at most one group, so the
  groups do not overlap.
* `codePaths_eventsPage_perm`: when no group's title heads two sections of the module's
  documentation, the page writes `EventType`, `BaseEvent`, and every event class whose name starts
  with a group's prefix, each exactly once, and no other object.
* `not_nodup_codePaths_eventsPage`: when a group's title heads two sections, the group is written
  twice, and so is each of its classes.

The page is modelled for a registry that has the `Events` module; without it the template writes
only the page's header.
-/

namespace AgUi

namespace DocTemplate

/-- What the template reads from YARD's registry for the events page. -/
structure EventsRegistry where
  /-- `events_module.children.grep(CodeObjects::ClassObject)`. -/
  classes : List CodeObject
  /-- `Registry.at("AgUiProtocol::Core::Events::EventType")`: the text written under its path, and the
  names of its constants. -/
  eventType : Option (List (List Char) × List (List Char))
  /-- `Registry.at("AgUiProtocol::Core::Events::BaseEvent")`: the text written under its path. -/
  baseEvent : Option (List (List Char))
  /-- What is written under an event class's heading and path: its documentation, tags and table. -/
  body : CodeObject → List (List Char)
  /-- `rdoc_to_md(events_module.docstring)`. -/
  moduleDoc : List Char

def eventTypePath : List Char := "AgUiProtocol::Core::Events::EventType".toList

def baseEventPath : List Char := "AgUiProtocol::Core::Events::BaseEvent".toList

/-- `c.name.to_s.start_with?(*prefixes)`. -/
def startsWithAny (prefixes : List (List Char)) (name : List Char) : Bool := prefixes.any (·.isPrefixOf name)

/-- The groups of `serialize_events_page`: each title, and the prefixes of its classes' names. -/
def eventGroups : List (List Char × List (List Char)) :=
  [("Lifecycle Events".toList, ["Run".toList, "Step".toList]),
    ("Text Message Events".toList, ["TextMessage".toList, "Thinking".toList]),
    ("Tool Call Events".toList, ["ToolCall".toList]),
    ("State Management Events".toList, ["State".toList, "Messages".toList, "Activity".toList]),
    ("Special Events".toList, ["Raw".toList, "Custom".toList])]

/-! ### The groups -/

/-- No prefix of one group is comparable with a prefix of another. -/
theorem eventGroups_prefixes_disjoint :
    ∀ g ∈ eventGroups, ∀ g' ∈ eventGroups, ∀ p ∈ g.2, ∀ p' ∈ g'.2, p <+: p' ∨ p' <+: p → g = g' := by
  decide

theorem nodup_eventGroups_titles : (eventGroups.map Prod.fst).Nodup := by decide

/-- A name starts with the prefixes of at most one group. -/
theorem startsWithAny_eventGroups_unique {g g' : List Char × List (List Char)} (hg : g ∈ eventGroups)
    (hg' : g' ∈ eventGroups) {name : List Char} (h : startsWithAny g.2 name) (h' : startsWithAny g'.2 name) :
    g = g' := by
  obtain ⟨p, hp, hpn⟩ := List.any_eq_true.1 h
  obtain ⟨p', hp', hpn'⟩ := List.any_eq_true.1 h'
  exact eventGroups_prefixes_disjoint g hg g' hg' p hp p' hp'
    (List.prefix_or_prefix_of_prefix (List.isPrefixOf_iff_prefix.1 hpn) (List.isPrefixOf_iff_prefix.1 hpn'))

/-- Filters by two predicates that never hold together are, together, the filter by either. -/
theorem filter_append_perm_of_disjoint {α : Type} {p q : α → Bool} :
    ∀ {l : List α}, (∀ x ∈ l, p x → q x = false) → (l.filter p ++ l.filter q).Perm (l.filter fun x => p x || q x)
  | [], _ => .nil
  | x :: l, h => by
    have ih := filter_append_perm_of_disjoint fun y hy => h y (List.mem_cons_of_mem _ hy)
    by_cases hp : p x
    · simpa [List.filter_cons, hp, h x (List.mem_cons_self _ _) hp] using ih
    · by_cases hq : q x
      · simpa [List.filter_cons, hp, hq] using List.perm_middle.trans (ih.cons x)
      · simpa [List.filter_cons, hp, hq] using ih

/-- The classes of each group, group after group, are the classes of any group. -/
theorem flatMap_filter_perm (l : List CodeObject) :
    ∀ gs : List (List Char × List (List Char)), (∀ g ∈ gs, g ∈ eventGroups) → gs.Nodup →
      (gs.flatMap fun g => l.filter fun c => startsWithAny g.2 c.name).Perm
        (l.filter fun c => gs.any fun g => startsWithAny g.2 c.name)
  | [], _, _ => by simp
  | g :: gs, hgs, hnd => by
    rw [List.flatMap_cons]
    refine ((flatMap_filter_perm l gs (fun g hg => hgs g (List.mem_cons_of_mem _ hg)) hnd.of_cons).append_left _).trans ?_
    refine (filter_append_perm_of_disjoint fun c _ hc => ?_).trans (by simp)
    refine Bool.eq_false_iff.2 fun hany => ?_
    obtain ⟨g', hg', hc'⟩ := List.any_eq_true.1 hany
    have := startsWithAny_eventGroups_unique (hgs g (List.mem_cons_self _ _))
      (hgs g' (List.mem_cons_of_mem _ hg')) hc hc'
    exact (List.nodup_cons.1 hnd).1 (this ▸ hg')

/-- The groups the page goes through include a group twice when its title heads two sections. -/
theorem sublist_orderedGroupTitles {title : List Char} (ht : title ∈ eventGroups.map Prod.fst)
    {sectionOrder : List (List Char)} (h : List.Sublist [title, title] sectionOrder) :
    List.Sublist [title, title] (orderedGroupTitles sectionOrder (eventGroups.map Prod.fst)) := by
  have := h.filter (· ∈ eventGroups.map Prod.fst)
  rw [List.filter_cons_of_pos (by simpa using ht), List.filter_cons_of_pos (by simpa using ht),
    List.filter_nil] at this
  exact this.trans (List.sublist_append_left _ _)

namespace EventsRegistry

variable (reg : EventsRegistry)

/-- `classes.reject { |c| c.path == "AgUiProtocol::Core::Events::BaseEvent" }`. -/
def eventClasses : List CodeObject := reg.classes.filter (·.path ≠ baseEventPath)

/-- `groups.to_h`: each group's title, with the event classes whose names start with its prefixes. -/
def groupsByTitle : Dict (List Char) (List CodeObject) :=
  eventGroups.map fun g => (g.1, reg.eventClasses.filter fun c => startsWithAny g.2 c.name)

/-- The `EventType` section: its heading and path, its documentation, and its constants in a code block. -/
def eventTypeSection : List Block :=
  match reg.eventType with
  | none => []
  | some (doc, constants) =>
    [.heading 2 "EventType".toList, .code eventTypePath] ++ doc.map .text ++
      if constants = [] then []
      else [.text ("```ruby\n".toList ++
        ((constants.mergeSort strLe).flatMap fun c =>
          eventTypePath ++ "::".toList ++ c ++ ['\n']) ++ "```\n\n".toList)]

/-- The `BaseEvent` section: its heading and path, its documentation, tags and table. -/
def baseEventSection : List Block :=
  match reg.baseEvent with
  | none => []
  | some doc => [.heading 2 "BaseEvent".toList, .code baseEventPath] ++ doc.map .text

/-- One pass of `ordered_group_titles.each`: the group's heading and text, then each class's heading,
path and body, in the order of their names. -/
def renderGroup (sectionDocs : Dict (List Char) (List Char)) (title : List Char) : List Block :=
  let list := (reg.groupsByTitle.get title).getD []
  if list = [] then []
  else
    let doc := strip ((sectionDocs.get title).getD [])
    .heading 2 title :: (if doc = [] then [] else [.text (doc ++ ['\n', '\n'])]) ++
      (sortByName list).flatMap fun klass => [.heading 3 klass.name, .code klass.path] ++ (reg.body klass).map .text

/-- `serialize_events_page`. -/
def eventsPage : List Block :=
  let sections := extractVirtualSections (strip reg.moduleDoc)
  pageHeader "Events".toList "Documentation for the events used in the Agent User Interaction Protocol (Ruby SDK)".toList
      "Events".toList ++ (if sections.1 = [] then [] else [.text (sections.1 ++ ['\n', '\n'])]) ++
    reg.eventTypeSection ++ reg.baseEventSection ++
    (orderedGroupTitles sections.2.2 (eventGroups.map Prod.fst)).flatMap (reg.renderGroup sections.2.1)

/-! ### What the page writes -/

/-- A group's entry in `groups_by_title` is the group's classes. -/
theorem groupsByTitle_get {g : List Char × List (List Char)} (hg : g ∈ eventGroups) :
    reg.groupsByTitle.get g.1 = some (reg.eventClasses.filter fun c => startsWithAny g.2 c.name) := by
  refine Dict.get_of_mem ?_ (List.mem_map_of_mem _ hg)
  rw [Dict.keys, groupsByTitle, List.map_map]
  exact nodup_eventGroups_titles

theorem codePaths_renderGroup (sectionDocs : Dict (List Char) (List Char)) (title : List Char) :
    (codePaths (reg.renderGroup sectionDocs title)).Perm (((reg.groupsByTitle.get title).getD []).map (·.path)) := by
  unfold renderGroup
  dsimp only
  split_ifs with hl hd <;> simp only [hl, codePaths_nil, List.map_nil, List.Perm.refl, codePaths_heading,
    codePaths_append, codePaths_flatMap, codePaths_code, codePaths_map_text, codePaths_text, List.nil_append,
    List.append_nil, List.singleton_append]
  all_goals
    rw [← List.map_eq_flatMap]
    exact ((List.mergeSort_perm _ _).map _)

theorem codePaths_eventTypeSection : codePaths reg.eventTypeSection = (reg.eventType.map fun _ => eventTypePath).toList := by
  unfold eventTypeSection
  cases reg.eventType with
  | none => rfl
  | some p => simp [apply_ite codePaths]

theorem codePaths_baseEventSection : codePaths reg.baseEventSection = (reg.baseEvent.map fun _ => baseEventPath).toList := by
  unfold baseEventSection
  cases reg.baseEvent <;> simp

/-- What the events page writes: `EventType` and `BaseEvent` when the registry has them, and every
event class whose name starts with a group's prefix, each once, as long as no group's title heads two
sections of the module's documentation. -/
theorem codePaths_eventsPage_perm
    (h : ((extractVirtualSections (strip reg.moduleDoc)).2.2.filter (· ∈ eventGroups.map Prod.fst)).Nodup) :
    (codePaths reg.eventsPage).Perm ((reg.eventType.map fun _ => eventTypePath).toList ++
      (reg.baseEvent.map fun _ => baseEventPath).toList ++
      (reg.eventClasses.filter fun c => eventGroups.any fun g => startsWithAny g.2 c.name).map (·.path)) := by
  have hnodup : eventGroups.Nodup := nodup_eventGroups_titles.of_map _
  set sections := extractVirtualSections (strip reg.moduleDoc)
  have hgroups : ((orderedGroupTitles sections.2.2 (eventGroups.map Prod.fst)).flatMap
      fun t => codePaths (reg.renderGroup sections.2.1 t)).Perm
      ((reg.eventClasses.filter fun c => eventGroups.any fun g => startsWithAny g.2 c.name).map (·.path)) :=
    calc List.Perm _ ((eventGroups.map Prod.fst).flatMap fun t => codePaths (reg.renderGroup sections.2.1 t)) :=
          List.Perm.flatMap_right _ ((orderedGroupTitles_perm_iff _ nodup_eventGroups_titles).2 h)
      _ = eventGroups.flatMap fun g => codePaths (reg.renderGroup sections.2.1 g.1) := List.flatMap_map _ _ _
      List.Perm _ (eventGroups.flatMap fun g => (reg.eventClasses.filter fun c => startsWithAny g.2 c.name).map (·.path)) :=
          List.Perm.flatMap_left _ fun g hg => by
            simpa only [reg.groupsByTitle_get hg, Option.getD_some] using reg.codePaths_renderGroup sections.2.1 g.1
      _ = (eventGroups.flatMap fun g => reg.eventClasses.filter fun c => startsWithAny g.2 c.name).map (·.path) :=
          (List.map_flatMap _ _ _).symm
      List.Perm _ _ := (flatMap_filter_perm _ _ (fun _ hg => hg) hnodup).map _
  simp only [eventsPage, pageHeader, codePaths_append, codePaths_text, codePaths_heading, codePaths_nil,
    apply_ite codePaths, ite_self, codePaths_eventTypeSection, codePaths_baseEventSection, codePaths_flatMap,
    List.nil_append]
  exact hgroups.append_left _

/-- A registry with `EventType`, `BaseEvent`, a lifecycle event and a class of no group, documented
under a `## Lifecycle Events` heading. -/
def runRegistry : EventsRegistry where
  classes := [⟨"AgUiProtocol::Core::Events::RunStarted".toList, "RunStarted".toList,
      "AgUiProtocol::Core::Events".toList⟩,
    ⟨baseEventPath, "BaseEvent".toList, "AgUiProtocol::Core::Events".toList⟩,
    ⟨"AgUiProtocol::Core::Events::Helper".toList, "Helper".toList, "AgUiProtocol::Core::Events".toList⟩]
  eventType := some ([], ["RUN_STARTED".toList])
  baseEvent := some []
  body _ := []
  moduleDoc := "## Lifecycle Events\nRuns and steps.".toList

theorem codePaths_eventsPage_perm_run :
    ((extractVirtualSections (strip runRegistry.moduleDoc)).2.2.filter (· ∈ eventGroups.map Prod.fst)).Nodup ∧
      (codePaths runRegistry.eventsPage).Perm ((runRegistry.eventType.map fun _ => eventTypePath).toList ++
        (runRegistry.baseEvent.map fun _ => baseEventPath).toList ++
        (runRegistry.eventClasses.filter fun c => eventGroups.any fun g => startsWithAny g.2 c.name).map (·.path)) :=
  ⟨by decide, codePaths_eventsPage_perm runRegistry (by decide)⟩

/-- A group whose title heads two sections of the module's documentation is written twice: the page
then writes each of its classes twice. -/
theorem not_nodup_codePaths_eventsPage {g : List Char × List (List Char)} (hg : g ∈ eventGroups)
    {c : CodeObject} (hc : c ∈ reg.eventClasses) (hcg : startsWithAny g.2 c.name)
    (htwice : List.Sublist [g.1, g.1] (extractVirtualSections (strip reg.moduleDoc)).2.2) :
    ¬ (codePaths reg.eventsPage).Nodup := by
  intro hnd
  set sections := extractVirtualSections (strip reg.moduleDoc)
  have hpage : ((orderedGroupTitles sections.2.2 (eventGroups.map Prod.fst)).flatMap
      fun t => codePaths (reg.renderGroup sections.2.1 t)).Nodup := by
    simp only [eventsPage, codePaths_append, codePaths_flatMap] at hnd
    exact hnd.sublist (List.sublist_append_right _ _)
  have hgroup := (hpage.sublist (sublist_flatMap (fun t => codePaths (reg.renderGroup sections.2.1 t))
    (sublist_orderedGroupTitles (List.mem_map_of_mem _ hg) htwice)))
  have hmem : c.path ∈ codePaths (reg.renderGroup sections.2.1 g.1) := by
    refine (reg.codePaths_renderGroup sections.2.1 g.1).mem_iff.2 ?_
    rw [reg.groupsByTitle_get hg, Option.getD_some]
    exact List.mem_map_of_mem _ (List.mem_filter.2 ⟨hc, hcg⟩)
  simp only [List.flatMap_cons, List.flatMap_nil, List.append_nil] at hgroup
  exact List.disjoint_of_nodup_append hgroup hmem hmem

/-- `runRegistry` with its documentation repeating the `## Lifecycle Events` heading. -/
def repeatedRegistry : EventsRegistry :=
  { runRegistry with moduleDoc := "## Lifecycle Events\nRuns.\n## Lifecycle Events\nSteps.".toList }

theorem not_nodup_codePaths_eventsPage_repeated :
    let g := ("Lifecycle Events".toList, ["Run".toList, "Step".toList])
    let c : CodeObject := ⟨"AgUiProtocol::Core::Events::RunStarted".toList, "RunStarted".toList,
      "AgUiProtocol::Core::Events".toList⟩
    g ∈ eventGroups ∧ c ∈ repeatedRegistry.eventClasses ∧ startsWithAny g.2 c.name = true ∧
      List.Sublist [g.1, g.1] (extractVirtualSections (strip repeatedRegistry.moduleDoc)).2.2 ∧
      ¬ (codePaths repeatedRegistry.eventsPage).Nodup := by
  intro g c
  have hg : g ∈ eventGroups := by decide
  have hc : c ∈ repeatedRegistry.eventClasses := by decide
  have hcg : startsWithAny g.2 c.name = true := by decide
  have htwice : List.Sublist [g.1, g.1] (extractVirtualSections (strip repeatedRegistry.moduleDoc)).2.2 := by decide
  exact ⟨hg, hc, hcg, htwice, repeatedRegistry.not_nodup_codePaths_eventsPage hg hc hcg htwice⟩

end EventsRegistry

end DocTemplate

end AgUi
