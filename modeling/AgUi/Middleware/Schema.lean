import AgUi.Middleware.BackwardCompatibility

/-!
# The rewritten events are valid modern events

`transformEvent` takes an event `EventSchemas` accepts to one it accepts again, whatever the two
fields hold, and leaves no `THINKING_*` type (`transformEventWith_schema`).  An event whose `type` is
none of the five `THINKING_*` types is returned as it is; a legacy event becomes its `REASONING_*` counterpart with every property the case does not name kept, so
each property of the `REASONING_*` schema is either written by the case (`type`, `messageId`, `role`)
or declared alike by the legacy schema and kept (`timestamp`, `rawEvent`, the content's `delta`):
`accepts_rewrite`.
-/

namespace AgUi

namespace BackwardCompatibility

variable {uuid : Nat → String} {warn : String → String → List String}

theorem mem_accepts {types : TypesSchemas} {shape : Shape} {x : Obj} (hx : shape.accepts types x)
    {p : String × FieldSchema} (hp : p ∈ shape) : p.2.accepts types (x.get p.1) := by
  simp only [Shape.accepts, List.all_eq_true] at hx
  exact hx p hp

/-- A legacy content event the schemas accept has a non-empty `delta` string. -/
theorem delta_of_accepts {types : TypesSchemas} {x : Obj}
    (hx : thinkingTextMessageContentEventSchema.accepts types x) :
    ∃ d, x.get "delta" = some (.str d) ∧ d ≠ "" := by
  exact FieldSchema.accepts_nonEmptyString.1 (mem_accepts hx (show ("delta", .nonEmptyString) ∈ _ by decide))

/-- Every property of the `REASONING_*` schema outside the case's keys is declared alike by the legacy
schema and kept; the ones the case writes pass. -/
theorem accepts_rewrite (types : TypesSchemas) (s : State) (x : Obj) (k : ThinkingType)
    (hx : (eventSchema k.eventType).accepts types x) :
    (eventSchema k.reasoning).accepts types (rewrite uuid s x k).1 := by
  cases k <;> refine Shape.accepts_of_keep hx (fun _ h => get_rewrite_of_not_mem s x _ h) (by decide) ?_
  case thinkingStart =>
    show ∀ p ∈ ([("type", .literal "REASONING_START"), ("messageId", .string)] : Shape), _
    simp only [List.forall_mem_cons, type_rewrite, messageId_rewrite]
    exact ⟨rfl, rfl, by simp⟩
  case thinkingEnd =>
    show ∀ p ∈ ([("type", .literal "REASONING_END"), ("messageId", .string)] : Shape), _
    simp only [List.forall_mem_cons, type_rewrite, messageId_rewrite]
    exact ⟨rfl, rfl, by simp⟩
  case thinkingTextMessageStart =>
    show ∀ p ∈ ([("type", .literal "REASONING_MESSAGE_START"), ("messageId", .string),
      ("role", .literal "assistant")] : Shape), _
    simp only [List.forall_mem_cons, type_rewrite, messageId_rewrite, role_rewrite_thinkingTextMessageStart]
    exact ⟨rfl, rfl, rfl, by simp⟩
  case thinkingTextMessageContent =>
    show ∀ p ∈ ([("type", .literal "REASONING_MESSAGE_CONTENT"), ("messageId", .string),
      ("delta", .nonEmptyString)] : Shape), _
    obtain ⟨d, hd, hne⟩ := delta_of_accepts hx
    simp only [List.forall_mem_cons, type_rewrite, messageId_rewrite, delta_rewrite_thinkingTextMessageContent, hd]
    exact ⟨rfl, rfl, FieldSchema.accepts_nonEmptyString.2 ⟨d, by simp, hne⟩, by simp⟩
  case thinkingTextMessageEnd =>
    show ∀ p ∈ ([("type", .literal "REASONING_MESSAGE_END"), ("messageId", .string)] : Shape), _
    simp only [List.forall_mem_cons, type_rewrite, messageId_rewrite]
    exact ⟨rfl, rfl, by simp⟩

theorem thinkingTypeOf_rewrite (s : State) (x : Obj) (k : ThinkingType) :
    thinkingTypeOf (rewrite uuid s x k).1 = none := by
  cases h : thinkingTypeOf (rewrite uuid s x k).1 with
  | none => rfl
  | some k' =>
    rw [thinkingTypeOf_eq_some, type_rewrite] at h
    cases k <;> cases k' <;> simp [ThinkingType.reasoning, ThinkingType.eventType, EventType.name] at h

/-- What `transformEvent` does to an event `EventSchemas` accepts, for every value of the two fields:
the result is accepted again and has no `THINKING_*` type; an event of any other type is returned as
it is; a legacy event gets the `REASONING_*` type and a string `messageId`, loses `title` (on
`THINKING_START`), gets `role: "assistant"` (on the message start), and keeps every other property,
the content's `delta` included. -/
theorem transformEventWith_schema (types : TypesSchemas) (s : State) (x : Obj)
    (hx : eventSchemasAccept types (.obj x)) :
    let y := (transformEventWith uuid warn s x).1
    eventSchemasAccept types (.obj y) ∧ (∀ k : ThinkingType, y.get "type" ≠ some (.str k.eventType.name)) ∧
      ((∀ k : ThinkingType, x.get "type" ≠ some (.str k.eventType.name)) → y = x) ∧
      ∀ k : ThinkingType, x.get "type" = some (.str k.eventType.name) →
        y.get "type" = some (.str k.reasoning.name) ∧ (∃ id, y.get "messageId" = some (.str id)) ∧
        (∀ key, key ∉ k.changedKeys → y.get key = x.get key) ∧
        (k = .thinkingStart → y.get "title" = none) ∧
        (k = .thinkingTextMessageStart → y.get "role" = some (.str "assistant")) ∧
        (k = .thinkingTextMessageContent → y.get "delta" = x.get "delta") := by
  cases hk : thinkingTypeOf x with
  | none =>
    rw [transformEventWith_of_none hk]
    exact ⟨hx, thinkingTypeOf_eq_none.1 hk, fun _ => rfl, fun k h => absurd (thinkingTypeOf_eq_some.2 h) (by simp [hk])⟩
  | some k =>
    have hxk : (eventSchema k.eventType).accepts types x := by
      rwa [eventSchemasAccept_obj (thinkingTypeOf_eq_some.1 hk)] at hx
    rw [transformEventWith_of_some hk]
    refine ⟨by rw [eventSchemasAccept_obj (type_rewrite s x k)]; exact accepts_rewrite types s x k hxk,
      thinkingTypeOf_eq_none.1 (thinkingTypeOf_rewrite s x k), fun h => absurd (thinkingTypeOf_eq_some.1 hk) (h k),
      fun k' hk' => ?_⟩
    obtain rfl : k = k' := Option.some.inj (hk.symm.trans (thinkingTypeOf_eq_some.2 hk'))
    refine ⟨type_rewrite s x k, ⟨_, messageId_rewrite s x k⟩, fun _ => get_rewrite_of_not_mem s x k, ?_, ?_, ?_⟩
    · rintro rfl; exact title_rewrite_thinkingStart s x
    · rintro rfl; exact role_rewrite_thinkingTextMessageStart s x
    · rintro rfl
      obtain ⟨d, hd, -⟩ := delta_of_accepts hxk
      simp [delta_rewrite_thinkingTextMessageContent, hd]

/-- A legacy content event with a passthrough key, in a state where a message is open. -/
theorem transformEventWith_schema_content :
    let x : Obj := [("type", .str "THINKING_TEXT_MESSAGE_CONTENT"), ("delta", .str "Step 1"),
      ("source", .str "llm")]
    let y := (transformEventWith (fun _ => "fresh") (fun _ _ => []) ⟨none, some "m", 0, []⟩ x).1
    eventSchemasAccept ⟨fun _ => true, fun _ => true, fun _ => true⟩ (.obj y) ∧ y.get "source" = x.get "source" :=
  have h := @transformEventWith_schema (fun _ => "fresh") (fun _ _ => []) ⟨fun _ => true, fun _ => true, fun _ => true⟩
    ⟨none, some "m", 0, []⟩ [("type", .str "THINKING_TEXT_MESSAGE_CONTENT"), ("delta", .str "Step 1"),
      ("source", .str "llm")] (by decide)
  ⟨h.1, (h.2.2.2 .thinkingTextMessageContent (by decide)).2.2.1 "source" (by decide)⟩

end BackwardCompatibility

end AgUi
