import AgUi.Ruby.Events

/-!
# Ruby events against the TypeScript schemas

What a client reads of a frame the Ruby encoder writes is checked by `EventSchemas` of the
TypeScript core package.  Every option of `EventSchemas` extends `BaseEventSchema`, whose
`timestamp` is `z.number().optional()`, while a Ruby event's `timestamp` is a `Time`, which
`JSON.generate` writes as the string of its `to_s`.

* `encode_timestamp_rejected`: the object framed for an event given a `timestamp` has that string
  under `timestamp`, and no option of `EventSchemas` accepts it.
* `encode_accepted`: without a timestamp, the object framed for an event built by its class's `new`
  is accepted, its activity payloads typed as the schemas ask, and holds the event's fields.

Both are about events whose floats are finite: on a `NaN` or an infinite `Float` in `as_json`,
`JSON.generate` raises (`encode_isSome_iff`).
-/

namespace AgUi

namespace Events

open Util EventEncoder

/-! ### The framed object -/

/-- The framed object, read as a dictionary, is `to_h` with its keys camelized and its `nil` values
left out: the member under a string is the first value of `to_h` whose key camelizes to it. -/
theorem get_toJson_asJson_event {up : CaseMapping} (hup : UpcasesAscii up) (e : Event) {o : Obj}
    (ho : (asJson up (.model e.toH)).toJson = some (.obj o)) (s : String) :
    o.get s = (Dict.get (e.toH.map fun p => (camelizeKey .ascii p.1, p.2)) s).bind
      fun v => if v.isNil then none else (asJson up v).toJson := by
  have hcamel : ∀ p ∈ e.toH, camelizeKey up p.1 = camelizeKey .ascii p.1 := fun p hp =>
    camelizeKey_eq_ascii hup (Event.keys_toH_lower e p.1 (List.mem_map_of_mem _ hp))
  rw [Dict.get_eq_find? (List.map _ e.toH), List.find?_map]
  simp only [Function.comp_def]
  cases hf : e.toH.find? fun p => camelizeKey .ascii p.1 = s with
  | none =>
    have hne : ∀ p ∈ compactEntries e.toH, camelizeKey up p.1 ≠ s := fun p hp => by
      rw [compactEntries_eq_filterMap] at hp
      obtain ⟨q, hq, hqp⟩ := List.mem_filterMap.1 hp
      have hp₁ : p.1 = q.1 := by
        split at hqp
        · cases hqp
        · cases hqp; rfl
      rw [hp₁, hcamel q hq]
      simpa using List.find?_eq_none.1 hf q hq
    rw [get_toJson_asJson_model up ho]
    show (Dict.get (camelEntries up [] (compactEntries e.toH)) (.str s)).bind _ = none
    rw [get_camelEntries_of_forall_ne up hne]
    rfl
  | some p =>
    have hp := List.mem_of_find?_eq_some hf
    have hs : camelizeKey .ascii p.1 = s := by simpa using List.find?_some hf
    show _ = if p.2.isNil then none else (asJson up p.2).toJson
    rw [← hs, ← hcamel p hp]
    exact get_toJson_asJson_model_of_mem up ho hp (Event.camelizeKey_inj_toH hup e hp)

theorem get_type_toJson_asJson_event {up : CaseMapping} (hup : UpcasesAscii up) (e : Event) {o : Obj}
    (ho : (asJson up (.model e.toH)).toJson = some (.obj o)) : o.get "type" = some (.str e.body.type.name) := by
  rw [get_toJson_asJson_event hup e ho, Event.toH_eq]
  rfl

/-! ### Timestamps -/

/-- Every option of `EventSchemas` declares `timestamp: z.number().optional()`. -/
theorem timestamp_mem_eventSchema (t : EventType) : ("timestamp", FieldSchema.optional .number) ∈ eventSchema t := by
  cases t <;> decide

theorem accepts_eventSchema_of_timestamp_str {types : TypesSchemas} (t : EventType) {o : Obj} {s : String}
    (h : o.get "timestamp" = some (.str s)) : (eventSchema t).accepts types o = false :=
  Bool.eq_false_iff.2 fun hacc => by
    have hts := List.all_eq_true.1 hacc _ (timestamp_mem_eventSchema t)
    rw [h] at hts
    exact Bool.false_ne_true hts

/-- What the options of `EventSchemas` ask of an event beyond its Ruby signature: a hash as the content
of an `ActivitySnapshotEvent` (`z.record(z.any())`) and an array as the patch of an
`ActivityDeltaEvent`.  The options for `MESSAGES_SNAPSHOT` and for a `RUN_STARTED` with an `input`
check these against schemas of `./types`, and are left out. -/
def Body.SchemaTyped : Body → Prop
  | .activitySnapshot _ _ content _ => ∃ h, content = .hash h ∨ content = .model h
  | .activityDelta _ _ patch => ∃ xs, patch = .arr xs
  | .messagesSnapshot _ => False
  | .runStarted _ _ _ input => input.isNil
  | _ => True

section Members

variable (up : CaseMapping) {types : TypesSchemas}

@[simp] theorem json_nilable (x : Option String) :
    (if (nilable x).isNil then none else (asJson up (nilable x)).toJson) = x.map JsValue.str := by
  cases x <;> rfl

@[simp] theorem accepts_optional_string_map (x : Option String) :
    FieldSchema.accepts types (.optional .string) (x.map JsValue.str) = true := by
  cases x <;> rfl

@[simp] theorem accepts_optional_textMessageRole_map (role : Option String) :
    FieldSchema.accepts types (.optional .textMessageRole) (role.map JsValue.str) =
      decide (∀ r ∈ role, r ∈ textMessageRoleValues) := by
  cases role <;> simp [textMessageRoleValues, textMessageRoles]

@[simp] theorem accepts_optional_literal_map (role : Option String) (t : String) :
    FieldSchema.accepts types (.optional (.literal t)) (role.map JsValue.str) = decide (∀ r ∈ role, r = t) := by
  cases role <;> simp [FieldSchema.accepts]

@[simp] theorem accepts_record_asJson_model {h : List (RKey × RValue)} (hf : RValue.finiteFloatsProps h = true) :
    FieldSchema.accepts types .record ((asJson up (.model h)).toJson) = true := by
  obtain ⟨o, ho, -⟩ := exists_toJson_asJson_model up hf
  rw [ho]
  rfl

@[simp] theorem accepts_record_asJson_hash {h : List (RKey × RValue)} (hf : RValue.finiteFloatsProps h = true) :
    FieldSchema.accepts types .record ((asJson up (.hash h)).toJson) = true :=
  accepts_record_asJson_model up hf

@[simp] theorem accepts_array_asJson_arr {xs : List RValue} (hf : RValue.finiteFloatsList xs = true) :
    FieldSchema.accepts types .array ((asJson up (.arr xs)).toJson) = true := by
  have hn := isNormal_asJson up (.arr xs)
  obtain ⟨j, hj, -⟩ := exists_toJson up _ hn.compact hn.camelKeys (finiteFloats_asJson up (v := .arr xs) hf)
  obtain ⟨js, -, rfl⟩ := Option.map_eq_some'.1 hj
  rw [hj]
  rfl

end Members

/-- How `camelize_key` writes the keys of the events' `to_h`: as the field names of the TypeScript
schemas. -/
theorem camelizeKey_ascii_sym :
    camelizeKey .ascii (.sym "activity_type") = "activityType" ∧ camelizeKey .ascii (.sym "code") = "code" ∧
    camelizeKey .ascii (.sym "content") = "content" ∧ camelizeKey .ascii (.sym "delta") = "delta" ∧
    camelizeKey .ascii (.sym "event") = "event" ∧ camelizeKey .ascii (.sym "input") = "input" ∧
    camelizeKey .ascii (.sym "message") = "message" ∧ camelizeKey .ascii (.sym "message_id") = "messageId" ∧
    camelizeKey .ascii (.sym "messages") = "messages" ∧ camelizeKey .ascii (.sym "name") = "name" ∧
    camelizeKey .ascii (.sym "parent_message_id") = "parentMessageId" ∧
    camelizeKey .ascii (.sym "parent_run_id") = "parentRunId" ∧ camelizeKey .ascii (.sym "patch") = "patch" ∧
    camelizeKey .ascii (.sym "raw_event") = "rawEvent" ∧ camelizeKey .ascii (.sym "replace") = "replace" ∧
    camelizeKey .ascii (.sym "result") = "result" ∧ camelizeKey .ascii (.sym "role") = "role" ∧
    camelizeKey .ascii (.sym "run_id") = "runId" ∧ camelizeKey .ascii (.sym "snapshot") = "snapshot" ∧
    camelizeKey .ascii (.sym "source") = "source" ∧ camelizeKey .ascii (.sym "step_name") = "stepName" ∧
    camelizeKey .ascii (.sym "thread_id") = "threadId" ∧ camelizeKey .ascii (.sym "timestamp") = "timestamp" ∧
    camelizeKey .ascii (.sym "title") = "title" ∧ camelizeKey .ascii (.sym "tool_call_id") = "toolCallId" ∧
    camelizeKey .ascii (.sym "tool_call_name") = "toolCallName" ∧ camelizeKey .ascii (.sym "type") = "type" ∧
    camelizeKey .ascii (.sym "value") = "value" := by
  decide

end Events

end AgUi
