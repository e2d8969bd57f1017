import AgUi.DocTemplate.Sections

/-!
# The types page

`serialize_types_page` writes the reference page of `AgUiProtocol::Core::Types`.  It sorts the
module's classes by their `@category`: a class whose category is the name of another class of the
module is nested under that class (`category_children`), and every other class is listed under its
category, or at the top when it has none (`grouped`).  `render_type_object` then writes a class,
the classes nested under it and the types its parameters name that are not listed themselves,
depth first, and never writes a class twice: all calls share the set `rendered`.

The recursion of `render_type_object` is bounded here by fuel; the page gives it one more unit than
the registry has objects, and every call that renders draws a new object, so the fuel never runs
out (`renderTypeObject_add_fuel`).

* `nodup_codePaths_typesPage`: no object is written twice on the page.
* `mem_codePaths_typesPage_iff`: a class of the module is written if and only if it is `Placed`:
  listed under a category, or nested under a class that is written.
* `not_mem_codePaths_typesPage_of_cycle`: two classes whose categories name each other are both
  missing from the page.
-/

namespace AgUi

namespace DocTemplate

/-- A YARD code object, by what the template reads of it. -/
structure CodeObject where
  path : List Char
  name : List Char
  /-- The path of its namespace. -/
  owner : List Char
  deriving DecidableEq, Repr

/-- What the template reads from YARD's registry for the types page. -/
structure TypesRegistry where
  objects : List CodeObject
  /-- `category_for(object)`: the `@category` of the object, of a namespace around it or of an
  ancestor. -/
  category : CodeObject → Option (List Char)
  /-- `type_reference_paths_from_param_types` of the types of the object's `@param` tags. -/
  referencePaths : CodeObject → List (List Char)
  /-- What `render_type_object` writes under an object's heading and path: its documentation, its
  tags and its parameters table. -/
  body : CodeObject → List (List Char)
  /-- `rdoc_to_md(types_module.docstring)`. -/
  moduleDoc : List Char

/-- `TARGET_PAGES["AgUiProtocol::Core::Types"]`. -/
def typesPath : List Char := "AgUiProtocol::Core::Types".toList

/-- The classes `render_type_object` never writes as children. -/
def hiddenNames : List (List Char) := ["Model".toList, "BaseMessage".toList]

/-- `sort_by { |o| o.name.to_s }`. -/
def sortByName (os : List CodeObject) : List CodeObject :=
  os.mergeSort fun a b => strLe a.name b.name

/-- `[heading_level + 1, 4].min`. -/
def nextLevel (level : Nat) : Nat := min (level + 1) 4

namespace TypesRegistry

variable (reg : TypesRegistry)

/-- `all`: the module's children but `Model` and `BaseMessage`. -/
def all : List CodeObject := reg.objects.filter fun o => o.owner = typesPath ∧ o.name ∉ hiddenNames

/-- `category_parent_path_by_title`: the path of each class of the module, under its stripped name. -/
def categoryParentPathByTitle : Dict (List Char) (List Char) :=
  reg.all.foldl (fun d o => if strip o.name = [] then d else d.set (strip o.name) o.path) []

/-- The stripped category of an object. -/
def categoryStr (o : CodeObject) : List Char := strip ((reg.category o).getD [])

/-- The class an object is nested under: the class named by its category. -/
def nestingParent (o : CodeObject) : Option (List Char) :=
  if reg.categoryStr o = [] then none else reg.categoryParentPathByTitle.get (reg.categoryStr o)

/-- The key a class that is not nested is listed under. -/
def groupKey (o : CodeObject) : List Char :=
  if reg.categoryStr o = [] ∨ reg.categoryStr o = "Core Types".toList then rootBucket else reg.categoryStr o

/-- `Hash.new { |h, k| h[k] = [] }` followed by `h[k] << o`. -/
def push (d : Dict (List Char) (List CodeObject)) (k : List Char) (o : CodeObject) : Dict (List Char) (List CodeObject) :=
  d.set k ((d.get k).getD [] ++ [o])

/-- `category_children` and `grouped`, after `all.each`. -/
structure Layout where
  categoryChildren : Dict (List Char) (List CodeObject) := []
  grouped : Dict (List Char) (List CodeObject) := []

/-- One pass of `all.each`: nest the class under the class its category names, or list it under its key. -/
def place (l : Layout) (o : CodeObject) : Layout :=
  match reg.nestingParent o with
  | some parent => { l with categoryChildren := push l.categoryChildren parent o }
  | none => { l with grouped := push l.grouped (reg.groupKey o) o }

def layout : Layout := reg.all.foldl reg.place {}

/-- `referenced_types_for(object, types_namespace_path)`: the objects at the paths its parameters'
types name, inside the module. -/
def referencedTypesFor (o : CodeObject) : List CodeObject :=
  ((reg.referencePaths o).filterMap fun p => reg.objects.find? (·.path = p)).filter
    fun c => (typesPath ++ "::".toList).isPrefixOf c.path

/-- The referenced types `render_type_object` does not write under an object: itself, the hidden
classes, the classes of the module, a type nested under another class (by its category) or whose
category differs from the object's. -/
def skipReference (object child : CodeObject) : Bool :=
  child.path = object.path || child.name ∈ hiddenNames || child.path ∈ reg.all.map (·.path) ||
    (match reg.category child with
     | some c =>
       if strip c = [] then false
       else match reg.categoryParentPathByTitle.get (strip c) with
         | some p => p ≠ object.path
         | none => true
     | none => false) ||
    (match reg.category object, reg.category child with
     | some pc, some cc => pc ≠ cc
     | _, _ => false)

end TypesRegistry

/-- The page so far, and the paths of the objects it has written (`rendered`). -/
structure Render where
  rendered : List (List Char) := []
  out : List Block := []

namespace TypesRegistry

variable (reg : TypesRegistry)

/-- `rendered << object.path`, then the object's heading, path, documentation, tags and table. -/
def enter (level : Nat) (object : CodeObject) (r : Render) : Render :=
  ⟨r.rendered ++ [object.path], r.out ++ [.heading level object.name, .code object.path] ++ (reg.body object).map .text⟩

/-- The two loops that end `render_type_object`: over the classes nested under the object, then over
the types its parameters name, each child written by `render`. -/
def renderChildren (render : CodeObject → Render → Render) (object : CodeObject) (r : Render) : Render :=
  let r := (sortByName ((reg.layout.categoryChildren.get object.path).getD [])).foldl
    (fun r child => if child.path = object.path ∨ child.name ∈ hiddenNames then r else render child r) r
  (reg.referencedTypesFor object).foldl
    (fun r child => if reg.skipReference object child then r else render child r) r

/-- `render_type_object(out, object, heading_level:, ...)`, with `fuel` bounding the depth of its
recursion. -/
def renderTypeObject : Nat → Nat → CodeObject → Render → Render
  | 0, _, _, r => r
  | fuel + 1, level, object, r =>
    if object.path ∈ r.rendered then r
    else reg.renderChildren (renderTypeObject fuel (nextLevel level)) object (reg.enter level object r)

/-- One pass of `ordered_keys.each`: the category's heading and text, then its classes. -/
def renderCategory (sectionDocs : Dict (List Char) (List Char)) (r : Render) (key : List Char) : Render :=
  let list := (reg.layout.grouped.get key).getD []
  if list = [] then r
  else
    let doc := strip ((sectionDocs.get key).getD [])
    let r : Render := { r with out := r.out ++
      (if key = rootBucket then [] else .heading 2 key :: if doc = [] then [] else [.text (doc ++ ['\n', '\n'])]) }
    (sortByName list).foldl
      (fun r obj => reg.renderTypeObject (reg.objects.length + 1) (if key = rootBucket then 2 else 3) obj r) r

/-- The closing section on `State`. -/
def stateSection : List Block :=
  [.heading 2 "State".toList, .text "`State` is represented as `Any`.\n\n".toList,
    .text "The state type is flexible and can hold any data structure needed by the agent implementation.\n".toList]

/-- `serialize_types_page` up to its closing section: the header and the module's preamble, then
every category. -/
def renderCategories : Render :=
  let sections := extractVirtualSections (strip reg.moduleDoc)
  (orderedKeys reg.layout.grouped sections.2.2).foldl (reg.renderCategory sections.2.1)
    { out := pageHeader "Types".toList
        "Documentation for the core types used in the Agent User Interaction Protocol (Ruby SDK)".toList
        "Core Types".toList ++ if sections.1 = [] then [] else [.text (sections.1 ++ ['\n', '\n'])] }

/-- `serialize_types_page`. -/
def typesPage : List Block := reg.renderCategories.out ++ stateSection

/-! ### Where the classes go -/

theorem mem_push {d : Dict (List Char) (List CodeObject)} {k k' : List Char} {o c : CodeObject} :
    c ∈ ((push d k o).get k').getD [] ↔ c ∈ (d.get k').getD [] ∨ k = k' ∧ c = o := by
  unfold push
  by_cases h : k = k'
  · subst h; simp
  · simp [Dict.get_set_ne _ _ h, h]

theorem mem_foldl_place (L : List CodeObject) (l : Layout) (c : CodeObject) (k : List Char) :
    (c ∈ ((L.foldl reg.place l).categoryChildren.get k).getD [] ↔
      c ∈ (l.categoryChildren.get k).getD [] ∨ c ∈ L ∧ reg.nestingParent c = some k) ∧
    (c ∈ ((L.foldl reg.place l).grouped.get k).getD [] ↔
      c ∈ (l.grouped.get k).getD [] ∨ c ∈ L ∧ reg.nestingParent c = none ∧ reg.groupKey c = k) := by
  induction L generalizing l with
  | nil => simp
  | cons o L ih =>
    rw [List.foldl_cons, (ih (reg.place l o)).1, (ih (reg.place l o)).2]
    unfold place
    by_cases hc : c = o
    · subst hc
      split <;> rename_i hnp <;>
        simp only [mem_push, hnp, List.mem_cons, true_or, true_and, and_true, Option.some.injEq, reduceCtorEq] <;>
        tauto
    · split <;> simp [mem_push, hc]

/-- The classes nested under a path are the classes of the module whose category names the class at
that path. -/
theorem mem_categoryChildren {c : CodeObject} {p : List Char} :
    c ∈ (reg.layout.categoryChildren.get p).getD [] ↔ c ∈ reg.all ∧ reg.nestingParent c = some p := by
  simpa [layout] using (reg.mem_foldl_place reg.all {} c p).1

/-- The classes listed under a key are the classes of the module nested under no class, whose key it is. -/
theorem mem_grouped {c : CodeObject} {k : List Char} :
    c ∈ (reg.layout.grouped.get k).getD [] ↔ c ∈ reg.all ∧ reg.nestingParent c = none ∧ reg.groupKey c = k := by
  simpa [layout] using (reg.mem_foldl_place reg.all {} c k).2

theorem mem_paths_of_categoryParentPathByTitle {t p : List Char} (h : reg.categoryParentPathByTitle.get t = some p) :
    p ∈ reg.all.map (·.path) := by
  have : ∀ e ∈ reg.categoryParentPathByTitle, e.2 ∈ reg.all.map (·.path) := by
    unfold categoryParentPathByTitle
    apply foldl_induction (fun d : Dict (List Char) (List Char) => ∀ e ∈ d, e.2 ∈ reg.all.map (·.path))
    · simp
    · intro d hd o ho e he
      split at he
      · exact hd e he
      · rcases Dict.mem_set he with he | rfl
        · exact hd e he
        · exact List.mem_map_of_mem _ ho
  exact this _ (Dict.mem_of_get_eq_some h)

/-- A class is nested only under a class of the module. -/
theorem mem_paths_of_nestingParent {c : CodeObject} {p : List Char} (h : reg.nestingParent c = some p) :
    p ∈ reg.all.map (·.path) := by
  unfold nestingParent at h
  split at h
  · cases h
  · exact reg.mem_paths_of_categoryParentPathByTitle h

theorem mem_objects_of_mem_all {o : CodeObject} (h : o ∈ reg.all) : o ∈ reg.objects := (List.mem_filter.1 h).1

theorem name_not_mem_hiddenNames {o : CodeObject} (h : o ∈ reg.all) : o.name ∉ hiddenNames :=
  (by simpa using (List.mem_filter.1 h).2 : o.owner = typesPath ∧ o.name ∉ hiddenNames).2

theorem mem_objects_of_mem_referencedTypesFor {o c : CodeObject} (h : c ∈ reg.referencedTypesFor o) :
    c ∈ reg.objects := by
  obtain ⟨p, -, hp⟩ := List.mem_filterMap.1 (List.mem_filter.1 h).1
  exact List.mem_of_find?_eq_some hp

@[simp] theorem mem_sortByName {c : CodeObject} {os : List CodeObject} : c ∈ sortByName os ↔ c ∈ os :=
  (List.mergeSort_perm _ _).mem_iff

/-! ### Rendering an object -/

/-- The children `render_type_object` writes under an object: a class nested under it, or a type its
parameters name that it does not skip. -/
def Eligible (object child : CodeObject) : Prop :=
  (child ∈ (reg.layout.categoryChildren.get object.path).getD [] ∧ child.path ≠ object.path ∧
    child.name ∉ hiddenNames) ∨
  (child ∈ reg.referencedTypesFor object ∧ reg.skipReference object child = false)

/-- What holds before both loops, and across each child they write, holds after them. -/
theorem renderChildren_induction (P : Render → Prop) {render : CodeObject → Render → Render} {object : CodeObject}
    {r : Render} (h0 : P r) (hP : ∀ c r, reg.Eligible object c → P r → P (render c r)) :
    P (reg.renderChildren render object r) := by
  refine foldl_induction P (foldl_induction P h0 fun r' h c hc => ?_) fun r' h c hc => ?_ <;> dsimp only <;> split
  · exact h
  · rename_i hskip
    exact hP c r' (.inl ⟨mem_sortByName.1 hc, fun he => hskip (.inl he), fun hn => hskip (.inr hn)⟩) h
  · exact h
  · rename_i hskip
    exact hP c r' (.inr ⟨hc, Bool.eq_false_iff.2 hskip⟩) h

theorem foldl_mem_rendered {α : Type} {f : Render → α → Render} (hmono : ∀ r a, r.rendered ⊆ (f r a).rendered)
    {l : List α} {a : α} (ha : a ∈ l) {q : List Char} (hq : ∀ r, q ∈ (f r a).rendered) (r : Render) :
    q ∈ (l.foldl f r).rendered := by
  induction l generalizing r with
  | nil => cases ha
  | cons b l ih =>
    rw [List.foldl_cons]
    rcases List.mem_cons.1 ha with rfl | ha
    · exact foldl_induction (fun r' : Render => q ∈ r'.rendered) (hq r) fun r' h c _ => hmono r' c h
    · exact ih ha _

/-- Each class nested under the object, but the object itself, is written by the first loop and stays
in `rendered` through the second. -/
theorem mem_rendered_renderChildren {render : CodeObject → Render → Render} (hmono : ∀ c r, r.rendered ⊆ (render c r).rendered)
    {object c : CodeObject} (hc : c ∈ (reg.layout.categoryChildren.get object.path).getD []) (hne : c.path ≠ object.path)
    (hrender : ∀ r, c.path ∈ (render c r).rendered) (r : Render) : c.path ∈ (reg.renderChildren render object r).rendered := by
  have hname := reg.name_not_mem_hiddenNames ((reg.mem_categoryChildren.1 hc).1)
  refine foldl_induction (fun r' : Render => c.path ∈ r'.rendered) ?_ fun r' h c' _ => ?_
  · refine foldl_mem_rendered (fun r' c' => ?_) (mem_sortByName.2 hc) (fun r' => ?_) r
    · dsimp only; split
      · exact fun _ h => h
      · exact hmono c' r'
    · dsimp only
      rw [if_neg (by tauto)]
      exact hrender r'
  · dsimp only; split
    · exact h
    · exact hmono c' r' h

theorem rendered_enter (level : Nat) (o : CodeObject) (r : Render) :
    (reg.enter level o r).rendered = r.rendered ++ [o.path] := rfl

/-- `render_type_object` only adds to `rendered`, and with fuel it leaves the object rendered: it
was, or the call writes it. -/
theorem rendered_prefix_renderTypeObject : ∀ (fuel level : Nat) (o : CodeObject) (r : Render),
    r.rendered <+: (reg.renderTypeObject fuel level o r).rendered ∧
      (fuel ≠ 0 → o.path ∈ (reg.renderTypeObject fuel level o r).rendered)
  | 0, _, _, _ => ⟨List.prefix_refl _, fun h => absurd rfl h⟩
  | fuel + 1, level, o, r => by
    unfold renderTypeObject
    split
    · exact ⟨List.prefix_refl _, fun _ => ‹_›⟩
    · have h := @renderChildren_induction reg (fun r' : Render => r.rendered ++ [o.path] <+: r'.rendered)
        (reg.renderTypeObject fuel (nextLevel level)) o (reg.enter level o r)
        (List.prefix_refl (reg.enter level o r).rendered)
        fun c r' _ h => h.trans (rendered_prefix_renderTypeObject fuel _ c r').1
      exact ⟨(List.prefix_append _ _).trans h, fun _ => h.subset (by simp)⟩

theorem rendered_subset_renderTypeObject (fuel level : Nat) (o : CodeObject) (r : Render) :
    r.rendered ⊆ (reg.renderTypeObject fuel level o r).rendered :=
  (reg.rendered_prefix_renderTypeObject fuel level o r).1.subset

/-! ### No object twice -/

/-- The page so far writes exactly the objects in `rendered`, in order, each once. -/
def Written (r : Render) : Prop := codePaths r.out = r.rendered ∧ r.rendered.Nodup

theorem written_enter {level : Nat} {o : CodeObject} {r : Render} (h : Written r) (hnot : o.path ∉ r.rendered) :
    Written (reg.enter level o r) :=
  ⟨by simp [enter, h.1], h.2.append (List.nodup_singleton _) (List.disjoint_singleton.2 hnot)⟩

theorem written_renderTypeObject : ∀ (fuel level : Nat) (o : CodeObject) (r : Render),
    Written r → Written (reg.renderTypeObject fuel level o r)
  | 0, _, _, _, h => h
  | fuel + 1, level, o, r, h => by
    unfold renderTypeObject
    split
    · exact h
    · exact reg.renderChildren_induction Written (reg.written_enter h ‹_›)
        fun c r' _ h' => written_renderTypeObject fuel _ c r' h'

/-! ### Soundness: only placed classes of the module are written -/

/-- The classes of the module the page can reach: a class listed under a category, or nested under a
placed class (by path). -/
inductive Placed : List Char → Prop where
  | grouped {o : CodeObject} : o ∈ reg.all → reg.nestingParent o = none → Placed o.path
  | nested {o : CodeObject} {p : List Char} : o ∈ reg.all → reg.nestingParent o = some p → o.path ≠ p →
      Placed p → Placed o.path

/-- Every class of the module in `rendered` is placed. -/
def Sound (r : Render) : Prop := ∀ q ∈ r.rendered, q ∈ reg.all.map (·.path) → reg.Placed q

theorem not_mem_paths_of_skipReference {object c : CodeObject} (h : reg.skipReference object c = false) :
    c.path ∉ reg.all.map (·.path) := fun hm => by simp [skipReference, hm] at h

theorem sound_renderTypeObject : ∀ (fuel level : Nat) (o : CodeObject) (r : Render),
    reg.Sound r → (o.path ∈ reg.all.map (·.path) → reg.Placed o.path) → reg.Sound (reg.renderTypeObject fuel level o r)
  | 0, _, _, _, h, _ => h
  | fuel + 1, level, o, r, h, ho => by
    unfold renderTypeObject
    split
    · exact h
    · refine reg.renderChildren_induction reg.Sound (fun q hq htop => ?_) fun c r' hc h' => ?_
      · rcases List.mem_append.1 hq with hq | hq
        · exact h q hq htop
        · rw [List.mem_singleton.1 hq] at htop ⊢
          exact ho htop
      · refine sound_renderTypeObject fuel _ c r' h' fun htop => ?_
        rcases hc with ⟨hc, hne, -⟩ | ⟨-, hskip⟩
        · have hc := reg.mem_categoryChildren.1 hc
          exact .nested hc.1 hc.2 hne (ho (reg.mem_paths_of_nestingParent hc.2))
        · exact absurd htop (reg.not_mem_paths_of_skipReference hskip)

/-! ### Completeness: every nested class of a written class is written -/

/-- The objects of the registry not yet rendered: the fuel the recursion may still need. -/
def unrendered (r : Render) : Nat := reg.objects.countP fun o => o.path ∉ r.rendered

theorem unrendered_le {r r' : Render} (h : r.rendered ⊆ r'.rendered) : reg.unrendered r' ≤ reg.unrendered r :=
  List.countP_mono_left fun o _ ho => by
    simp only [decide_eq_true_eq] at ho ⊢
    exact fun hm => ho (h hm)

/-- Entering an object of the registry that was not rendered uses up one unit of the measure. -/
theorem unrendered_enter_lt {level : Nat} {o : CodeObject} {r : Render} (ho : o ∈ reg.objects) (hnot : o.path ∉ r.rendered) :
    reg.unrendered (reg.enter level o r) < reg.unrendered r :=
  countP_lt_countP (fun x _ hx => by simp_all [enter]) ho (by simpa using hnot) (by simp [enter])

theorem mem_objects_of_eligible {object c : CodeObject} (h : reg.Eligible object c) : c ∈ reg.objects := by
  rcases h with ⟨hc, -⟩ | ⟨hc, -⟩
  · exact reg.mem_objects_of_mem_all (reg.mem_categoryChildren.1 hc).1
  · exact reg.mem_objects_of_mem_referencedTypesFor hc

/-- Every object rendered outside `stack`, the objects whose writing is under way, has the classes
nested under it rendered. -/
def Closed (stack : List (List Char)) (r : Render) : Prop :=
  ∀ q ∈ r.rendered, q ∉ stack → ∀ c ∈ (reg.layout.categoryChildren.get q).getD [], c.path ≠ q → c.path ∈ r.rendered

/-- With fuel above the measure, a call on an object of the registry keeps every finished object's
nested classes rendered: the object's own nested classes are all written before the call returns. -/
theorem closed_renderTypeObject : ∀ (fuel level : Nat) (o : CodeObject) (r : Render) (stack : List (List Char)),
    reg.unrendered r < fuel → o ∈ reg.objects → reg.Closed stack r → reg.Closed stack (reg.renderTypeObject fuel level o r)
  | 0, _, _, _, _, hfuel, _, _ => absurd hfuel (Nat.not_lt_zero _)
  | fuel + 1, level, o, r, stack, hfuel, ho, hc => by
    unfold renderTypeObject
    split
    · exact hc
    · rename_i hnot
      have hlt := @unrendered_enter_lt reg level o r ho hnot
      have hpos : fuel ≠ 0 := by
        have : 0 < reg.unrendered r := List.countP_pos_iff.2 ⟨o, ho, by simpa using hnot⟩
        omega
      have hmono : ∀ c r', r'.rendered ⊆ (reg.renderTypeObject fuel (nextLevel level) c r').rendered :=
        fun c r' => reg.rendered_subset_renderTypeObject fuel _ c r'
      obtain ⟨hclosed, -⟩ := @renderChildren_induction reg
        (fun r' : Render => reg.Closed (o.path :: stack) r' ∧ reg.unrendered r' < fuel)
        (reg.renderTypeObject fuel (nextLevel level)) o (reg.enter level o r)
        ⟨fun q hq hqs c hcq hne => List.mem_append_left _ (hc q ((List.mem_append.1 hq).resolve_right
          fun h => hqs (by simp [List.mem_singleton.1 h])) (fun h => hqs (List.mem_cons_of_mem _ h)) c hcq hne),
          by omega⟩
        fun c r' hc' ⟨h1, h2⟩ => ⟨closed_renderTypeObject fuel _ c r' _ h2 (reg.mem_objects_of_eligible hc') h1,
          lt_of_le_of_lt (reg.unrendered_le (hmono c r')) h2⟩
      intro q hq hqs c hcq hne
      by_cases hqo : q = o.path
      · subst hqo
        exact reg.mem_rendered_renderChildren hmono hcq hne
          (fun r' => (reg.rendered_prefix_renderTypeObject fuel _ c r').2 hpos) _
      · exact hclosed q hq (by simp [hqo, hqs]) c hcq hne

/-! ### Enough fuel -/

/-- The loops write the same children with two `render`s that agree on every eligible child from
every state where `Q` holds, when the first keeps `Q`. -/
theorem renderChildren_congr (Q : Render → Prop) {f g : CodeObject → Render → Render} {object : CodeObject}
    {r : Render} (h0 : Q r) (hfg : ∀ c r, reg.Eligible object c → Q r → f c r = g c r)
    (hQ : ∀ c r, reg.Eligible object c → Q r → Q (f c r)) :
    reg.renderChildren f object r = reg.renderChildren g object r := by
  have step : ∀ (skip : CodeObject → Prop) [DecidablePred skip] (l : List CodeObject),
      (∀ c ∈ l, ¬skip c → reg.Eligible object c) → ∀ r', Q r' →
        l.foldl (fun r c => if skip c then r else f c r) r' = l.foldl (fun r c => if skip c then r else g c r) r' ∧
          Q (l.foldl (fun r c => if skip c then r else f c r) r') := by
    intro skip _ l hel r' hr'
    have hQ' : ∀ b a, a ∈ l → Q b → Q (if skip a then b else f a b) := fun b a ha hb => by
      split
      · exact hb
      · exact hQ a b (hel a ha ‹_›) hb
    exact ⟨foldl_congr_of_invariant Q hr' (fun b a ha hb => by
      split
      · rfl
      · exact hfg a b (hel a ha ‹_›) hb) hQ', foldl_induction Q hr' fun b hb a ha => hQ' b a ha hb⟩
  obtain ⟨h1, h1Q⟩ := step (fun c => c.path = object.path ∨ c.name ∈ hiddenNames) _
    (fun c hc hskip => .inl ⟨mem_sortByName.1 hc, fun he => hskip (.inl he), fun hn => hskip (.inr hn)⟩) r h0
  obtain ⟨h2, -⟩ := step (fun c => reg.skipReference object c = true) _
    (fun c hc hskip => .inr ⟨hc, Bool.eq_false_iff.2 hskip⟩) _ h1Q
  unfold renderChildren
  dsimp only
  rw [h2, h1]

/-- With fuel above the number of objects not yet rendered, more fuel changes nothing: every call
that renders draws a new object of the registry, so the recursion never runs out, and the model is
`render_type_object` itself. -/
theorem renderTypeObject_add_fuel : ∀ (fuel k level : Nat) (o : CodeObject) (r : Render),
    reg.unrendered r < fuel → o ∈ reg.objects →
      reg.renderTypeObject (fuel + k) level o r = reg.renderTypeObject fuel level o r
  | 0, _, _, _, _, hfuel, _ => absurd hfuel (Nat.not_lt_zero _)
  | fuel + 1, k, level, o, r, hfuel, ho => by
    rw [Nat.add_right_comm]
    unfold renderTypeObject
    split
    · rfl
    · rename_i hnot
      have hlt := @unrendered_enter_lt reg level o r ho hnot
      exact reg.renderChildren_congr (fun r' : Render => reg.unrendered r' < fuel) (by omega)
        (fun c r' hc h => renderTypeObject_add_fuel fuel k _ c r' h (reg.mem_objects_of_eligible hc))
        fun c r' _ h => lt_of_le_of_lt (reg.unrendered_le (reg.rendered_subset_renderTypeObject _ _ c r')) h

/-! ### The page -/

theorem nodup_keys_layout_grouped : (Dict.keys reg.layout.grouped).Nodup := by
  unfold layout
  apply foldl_induction (fun l : Layout => (Dict.keys l.grouped).Nodup)
  · exact List.nodup_nil
  intro l hl o _
  unfold place
  split
  · exact hl
  · exact Dict.nodup_keys_set hl _ _

theorem renderCategory_induction (P : Render → Prop) (sectionDocs : Dict (List Char) (List Char)) (key : List Char)
    {r : Render} (h0 : P r) (hhead : ∀ r blocks, codePaths blocks = [] → P r → P { r with out := r.out ++ blocks })
    (hP : ∀ o r level, o ∈ (reg.layout.grouped.get key).getD [] → P r →
      P (reg.renderTypeObject (reg.objects.length + 1) level o r)) :
    P (reg.renderCategory sectionDocs r key) := by
  unfold renderCategory
  dsimp only
  split_ifs
  · exact h0
  all_goals exact foldl_induction P (hhead _ _ rfl h0) fun r' h o ho => hP o r' _ (mem_sortByName.1 ho) h

theorem renderCategories_induction (P : Render → Prop) (h0 : ∀ out, codePaths out = [] → P { out })
    (hhead : ∀ r blocks, codePaths blocks = [] → P r → P { r with out := r.out ++ blocks })
    (hP : ∀ o r level, o ∈ reg.all → reg.nestingParent o = none → P r →
      P (reg.renderTypeObject (reg.objects.length + 1) level o r)) :
    P reg.renderCategories := by
  refine foldl_induction P (h0 _ ?_) fun r h key _ =>
    reg.renderCategory_induction P _ key h hhead fun o r level ho h =>
      hP o r level (reg.mem_grouped.1 ho).1 (reg.mem_grouped.1 ho).2.1 h
  split_ifs <;> rfl

theorem codePaths_typesPage : codePaths reg.typesPage = reg.renderCategories.rendered := by
  have : Written reg.renderCategories :=
    reg.renderCategories_induction Written (fun _ h => ⟨h, List.nodup_nil⟩)
      (fun r blocks hb h => ⟨by simp [hb, h.1], h.2⟩) fun o r level _ _ h => reg.written_renderTypeObject _ level o r h
  simp [typesPage, this.1, stateSection]

/-- No object is written twice on the types page. -/
theorem nodup_codePaths_typesPage : (codePaths reg.typesPage).Nodup := by
  rw [codePaths_typesPage]
  exact (reg.renderCategories_induction Written (fun _ h => ⟨h, List.nodup_nil⟩)
    (fun r blocks hb h => ⟨by simp [hb, h.1], h.2⟩) fun o r level _ _ h => reg.written_renderTypeObject _ level o r h).2

theorem sound_renderCategories : reg.Sound reg.renderCategories :=
  reg.renderCategories_induction reg.Sound (fun _ _ _ hq => absurd hq (List.not_mem_nil _)) (fun _ _ _ h => h)
    fun o r level ho hnp h => reg.sound_renderTypeObject _ level o r h fun _ => .grouped ho hnp

theorem closed_renderCategories : reg.Closed [] reg.renderCategories :=
  reg.renderCategories_induction (reg.Closed []) (fun _ _ _ hq => absurd hq (List.not_mem_nil _))
    (fun _ _ _ h => h) fun o r level ho _ h =>
      reg.closed_renderTypeObject _ level o r [] (Nat.lt_succ_of_le (List.countP_le_length _)) (reg.mem_objects_of_mem_all ho) h

theorem subset_renderCategory (sectionDocs : Dict (List Char) (List Char)) (r : Render) (key : List Char) :
    r.rendered ⊆ (reg.renderCategory sectionDocs r key).rendered :=
  reg.renderCategory_induction (fun r' : Render => r.rendered ⊆ r'.rendered) sectionDocs key (List.Subset.refl _)
    (fun _ _ _ h => h) fun o r' level _ h => h.trans (reg.rendered_subset_renderTypeObject _ level o r')

/-- Every class of the module listed under a category is written. -/
theorem mem_rendered_renderCategories_of_grouped {o : CodeObject} (ho : o ∈ reg.all) (hnp : reg.nestingParent o = none) :
    o.path ∈ reg.renderCategories.rendered := by
  have hlist : o ∈ (reg.layout.grouped.get (reg.groupKey o)).getD [] := reg.mem_grouped.2 ⟨ho, hnp, rfl⟩
  have hkey : reg.groupKey o ∈ Dict.keys reg.layout.grouped := by
    cases hg : reg.layout.grouped.get (reg.groupKey o) with
    | none => simp [hg] at hlist
    | some v => exact List.mem_map_of_mem Prod.fst (Dict.mem_of_get_eq_some hg)
  refine foldl_mem_rendered (reg.subset_renderCategory _)
    ((orderedKeys_perm _ reg.nodup_keys_layout_grouped _).mem_iff.2 hkey) (fun r => ?_) _
  unfold renderCategory
  rw [if_neg (List.ne_nil_of_mem hlist)]
  exact foldl_mem_rendered (fun r' o' => reg.rendered_subset_renderTypeObject _ _ o' r') (mem_sortByName.2 hlist)
    (fun r' => (reg.rendered_prefix_renderTypeObject _ _ o r').2 (Nat.succ_ne_zero _)) _

theorem mem_rendered_renderCategories_of_placed {q : List Char} (h : reg.Placed q) :
    q ∈ reg.renderCategories.rendered := by
  induction h with
  | grouped ho hnp => exact reg.mem_rendered_renderCategories_of_grouped ho hnp
  | nested ho hnp hne _ ih =>
    exact reg.closed_renderCategories _ ih (List.not_mem_nil _) _ (reg.mem_categoryChildren.2 ⟨ho, hnp⟩) hne

/-- A class of the module is written on the types page if and only if it is placed: listed under a
category, or nested under a class that is written. -/
theorem mem_codePaths_typesPage_iff {o : CodeObject} (ho : o ∈ reg.all) :
    o.path ∈ codePaths reg.typesPage ↔ reg.Placed o.path := by
  rw [codePaths_typesPage]
  exact ⟨fun h => reg.sound_renderCategories _ h (List.mem_map_of_mem _ ho), reg.mem_rendered_renderCategories_of_placed⟩

/-- A types module with a class listed at the top, and two classes whose categories name each other. -/
def tangledRegistry : TypesRegistry where
  objects := [⟨"AgUiProtocol::Core::Types::Tool".toList, "Tool".toList, typesPath⟩,
    ⟨"AgUiProtocol::Core::Types::A".toList, "A".toList, typesPath⟩,
    ⟨"AgUiProtocol::Core::Types::B".toList, "B".toList, typesPath⟩]
  category o := if o.name = "A".toList then some "B".toList else if o.name = "B".toList then some "A".toList else none
  referencePaths _ := []
  body _ := []
  moduleDoc := []

theorem mem_codePaths_typesPage_iff_tool :
    (⟨"AgUiProtocol::Core::Types::Tool".toList, "Tool".toList, typesPath⟩ : CodeObject) ∈ tangledRegistry.all ∧
      ("AgUiProtocol::Core::Types::Tool".toList ∈ codePaths tangledRegistry.typesPage ↔
        tangledRegistry.Placed "AgUiProtocol::Core::Types::Tool".toList) :=
  ⟨by decide, @mem_codePaths_typesPage_iff tangledRegistry
    ⟨"AgUiProtocol::Core::Types::Tool".toList, "Tool".toList, typesPath⟩ (by decide)⟩

/-- Two classes of the module whose categories name each other are nested under each other, and
neither is ever reached: both are missing from the types page. -/
theorem not_mem_codePaths_typesPage_of_cycle {a b : CodeObject} (hpaths : (reg.all.map (·.path)).Nodup)
    (ha : a ∈ reg.all) (hb : b ∈ reg.all) (hab : reg.nestingParent a = some b.path)
    (hba : reg.nestingParent b = some a.path) :
    a.path ∉ codePaths reg.typesPage ∧ b.path ∉ codePaths reg.typesPage := by
  have hinj : ∀ {o c : CodeObject}, o ∈ reg.all → c ∈ reg.all → o.path = c.path → o = c :=
    fun ho hc he => List.inj_on_of_nodup_map hpaths ho hc he
  have hcycle : ∀ q, reg.Placed q → q ≠ a.path ∧ q ≠ b.path := by
    intro q hq
    induction hq with
    | grouped ho hnp =>
      refine ⟨fun he => ?_, fun he => ?_⟩
      · rw [hinj ho ha he, hab] at hnp
        cases hnp
      · rw [hinj ho hb he, hba] at hnp
        cases hnp
    | nested ho hnp _ _ ih =>
      refine ⟨fun he => ?_, fun he => ?_⟩
      · rw [hinj ho ha he, hab] at hnp
        exact ih.2 (Option.some.inj hnp).symm
      · rw [hinj ho hb he, hba] at hnp
        exact ih.1 (Option.some.inj hnp).symm
  exact ⟨fun h => (hcycle _ ((reg.mem_codePaths_typesPage_iff ha).1 h)).1 rfl,
    fun h => (hcycle _ ((reg.mem_codePaths_typesPage_iff hb).1 h)).2 rfl⟩

theorem not_mem_codePaths_typesPage_tangled :
    let a : CodeObject := ⟨"AgUiProtocol::Core::Types::A".toList, "A".toList, typesPath⟩
    let b : CodeObject := ⟨"AgUiProtocol::Core::Types::B".toList, "B".toList, typesPath⟩
    (tangledRegistry.all.map (·.path)).Nodup ∧ a ∈ tangledRegistry.all ∧ b ∈ tangledRegistry.all ∧
      tangledRegistry.nestingParent a = some b.path ∧ tangledRegistry.nestingParent b = some a.path ∧
      a.path ∉ codePaths tangledRegistry.typesPage ∧ b.path ∉ codePaths tangledRegistry.typesPage := by
  intro a b
  have hpaths : (tangledRegistry.all.map (·.path)).Nodup := by decide
  have ha : a ∈ tangledRegistry.all := by decide
  have hb : b ∈ tangledRegistry.all := by decide
  have hab : tangledRegistry.nestingParent a = some b.path := by decide
  have hba : tangledRegistry.nestingParent b = some a.path := by decide
  exact ⟨hpaths, ha, hb, hab, hba, tangledRegistry.not_mem_codePaths_typesPage_of_cycle hpaths ha hb hab hba⟩

end TypesRegistry

end DocTemplate

end AgUi
