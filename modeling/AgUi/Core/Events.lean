import AgUi.Dict

/-!
# Events of the TypeScript core package

The values the client handles and the zod schemas of `sdks/typescript/packages/core/src/events.ts`.

A `JsValue` is what `JSON.parse` returns, plus `undefined`, which an in-memory event may hold under
a key.  A number is an integer or, when its text has a fraction or an exponent, a `JsDecimal`, kept
by the parts of that text: nothing modelled here computes with a number, the schemas only ask
whether a value is one.  An event is a plain object, `Obj`, read and written with the `Dict`
operations.

Every schema of `events.ts` is `BaseEventSchema.extend({...})` (one is built with `.omit`), and
`BaseEventSchema` is `.passthrough()`, which `extend` and `omit` keep: a schema is a `Shape`, the
list of its declared keys with a `FieldSchema` each, and it accepts an object when every declared key
passes; other keys are ignored.  `EventSchemas` is the discriminated union on `type`.  The three
schemas `events.ts` imports from `./types` are a parameter, `TypesSchemas`.
-/

namespace AgUi

/-- A number whose text has a fraction or an exponent (`1.5`, `-0.25`, `1.0e+20`), by the parts of
that text: the sign, the integer part, the digits after the point and the exponent.  A text with an
exponent and no fraction (`1e5`) is kept with the fraction `0`, which is the same number. -/
structure JsDecimal where
  negative : Bool
  whole : Nat
  fraction : List (Fin 10)
  fraction_ne_nil : fraction ≠ []
  exponent : Option Int
  deriving DecidableEq, Repr

/-- A JavaScript value. -/
inductive JsValue where
  | undef
  | null
  | bool (b : Bool)
  | num (n : Int)
  | decimal (d : JsDecimal)
  | str (s : String)
  | arr (xs : List JsValue)
  | obj (props : List (String × JsValue))

namespace JsValue

mutual
/-- Structural equality, from which `DecidableEq` is built. -/
def beq : JsValue → JsValue → Bool
  | undef, undef | null, null => true
  | bool a, bool b => a == b
  | num a, num b => a == b
  | decimal a, decimal b => a == b
  | str a, str b => a == b
  | arr xs, arr ys => beqList xs ys
  | obj xs, obj ys => beqProps xs ys
  | _, _ => false
/-- `beq` on arrays. -/
def beqList : List JsValue → List JsValue → Bool
  | [], [] => true
  | x :: xs, y :: ys => beq x y && beqList xs ys
  | _, _ => false
/-- `beq` on property lists. -/
def beqProps : List (String × JsValue) → List (String × JsValue) → Bool
  | [], [] => true
  | (k, x) :: xs, (l, y) :: ys => k == l && beq x y && beqProps xs ys
  | _, _ => false
end

mutual
theorem beq_iff : ∀ a b : JsValue, beq a b = true ↔ a = b
  | undef, undef | null, null => iff_of_true rfl rfl
  | bool a, bool b => show (a == b) = true ↔ _ by simp
  | num a, num b => show (a == b) = true ↔ _ by simp
  | decimal a, decimal b => show (a == b) = true ↔ _ by simp
  | str a, str b => show (a == b) = true ↔ _ by simp
  | arr xs, arr ys => (beqList_iff xs ys).trans (arr.injEq xs ys).symm.to_iff
  | obj xs, obj ys => (beqProps_iff xs ys).trans (obj.injEq xs ys).symm.to_iff
  | undef, null | undef, bool _ | undef, num _ | undef, decimal _ | undef, str _ | undef, arr _
  | undef, obj _
  | null, undef | null, bool _ | null, num _ | null, decimal _ | null, str _ | null, arr _ | null, obj _
  | bool _, undef | bool _, null | bool _, num _ | bool _, decimal _ | bool _, str _ | bool _, arr _
  | bool _, obj _
  | num _, undef | num _, null | num _, bool _ | num _, decimal _ | num _, str _ | num _, arr _
  | num _, obj _
  | decimal _, undef | decimal _, null | decimal _, bool _ | decimal _, num _ | decimal _, str _
  | decimal _, arr _ | decimal _, obj _
  | str _, undef | str _, null | str _, bool _ | str _, num _ | str _, decimal _ | str _, arr _
  | str _, obj _
  | arr _, undef | arr _, null | arr _, bool _ | arr _, num _ | arr _, decimal _ | arr _, str _
  | arr _, obj _
  | obj _, undef | obj _, null | obj _, bool _ | obj _, num _ | obj _, decimal _ | obj _, str _
  | obj _, arr _ =>
    ⟨nofun, nofun⟩
theorem beqList_iff : ∀ a b : List JsValue, beqList a b = true ↔ a = b
  | [], [] => iff_of_true rfl rfl
  | x :: xs, y :: ys => show (beq x y && beqList xs ys) = true ↔ _ by
    rw [Bool.and_eq_true, beq_iff x y, beqList_iff xs ys, List.cons.injEq]
  | [], _ :: _ | _ :: _, [] => ⟨nofun, nofun⟩
theorem beqProps_iff : ∀ a b : List (String × JsValue), beqProps a b = true ↔ a = b
  | [], [] => iff_of_true rfl rfl
  | (k, x) :: xs, (l, y) :: ys => show (k == l && beq x y && beqProps xs ys) = true ↔ _ by
    simp [beq_iff x y, beqProps_iff xs ys, and_assoc]
  | [], _ :: _ | _ :: _, [] => ⟨nofun, nofun⟩
end

instance : DecidableEq JsValue := fun a b => decidable_of_iff _ (beq_iff a b)

end JsValue

/-- A plain object: its own properties in insertion order. -/
abbrev Obj := Dict String JsValue

/-! ### `EventType` -/

/-- `enum EventType`; every member's value is its own name. -/
inductive EventType where
  | textMessageStart | textMessageContent | textMessageEnd | textMessageChunk
  | toolCallStart | toolCallArgs | toolCallEnd | toolCallChunk | toolCallResult
  | thinkingStart | thinkingEnd | thinkingTextMessageStart | thinkingTextMessageContent
  | thinkingTextMessageEnd
  | stateSnapshot | stateDelta | messagesSnapshot | activitySnapshot | activityDelta
  | raw | custom | runStarted | runFinished | runError | stepStarted | stepFinished
  | reasoningStart | reasoningMessageStart | reasoningMessageContent | reasoningMessageEnd
  | reasoningMessageChunk | reasoningEnd | reasoningEncryptedValue
  deriving DecidableEq, Repr

namespace EventType

/-- The string value of the member. -/
def name : EventType → String
  | textMessageStart => "TEXT_MESSAGE_START"
  | textMessageContent => "TEXT_MESSAGE_CONTENT"
  | textMessageEnd => "TEXT_MESSAGE_END"
  | textMessageChunk => "TEXT_MESSAGE_CHUNK"
  | toolCallStart => "TOOL_CALL_START"
  | toolCallArgs => "TOOL_CALL_ARGS"
  | toolCallEnd => "TOOL_CALL_END"
  | toolCallChunk => "TOOL_CALL_CHUNK"
  | toolCallResult => "TOOL_CALL_RESULT"
  | thinkingStart => "THINKING_START"
  | thinkingEnd => "THINKING_END"
  | thinkingTextMessageStart => "THINKING_TEXT_MESSAGE_START"
  | thinkingTextMessageContent => "THINKING_TEXT_MESSAGE_CONTENT"
  | thinkingTextMessageEnd => "THINKING_TEXT_MESSAGE_END"
  | stateSnapshot => "STATE_SNAPSHOT"
  | stateDelta => "STATE_DELTA"
  | messagesSnapshot => "MESSAGES_SNAPSHOT"
  | activitySnapshot => "ACTIVITY_SNAPSHOT"
  | activityDelta => "ACTIVITY_DELTA"
  | raw => "RAW"
  | custom => "CUSTOM"
  | runStarted => "RUN_STARTED"
  | runFinished => "RUN_FINISHED"
  | runError => "RUN_ERROR"
  | stepStarted => "STEP_STARTED"
  | stepFinished => "STEP_FINISHED"
  | reasoningStart => "REASONING_START"
  | reasoningMessageStart => "REASONING_MESSAGE_START"
  | reasoningMessageContent => "REASONING_MESSAGE_CONTENT"
  | reasoningMessageEnd => "REASONING_MESSAGE_END"
  | reasoningMessageChunk => "REASONING_MESSAGE_CHUNK"
  | reasoningEnd => "REASONING_END"
  | reasoningEncryptedValue => "REASONING_ENCRYPTED_VALUE"

/-- Every member, in declaration order. -/
def all : List EventType :=
  [textMessageStart, textMessageContent, textMessageEnd, textMessageChunk, toolCallStart,
    toolCallArgs, toolCallEnd, toolCallChunk, toolCallResult, thinkingStart, thinkingEnd,
    thinkingTextMessageStart, thinkingTextMessageContent, thinkingTextMessageEnd, stateSnapshot,
    stateDelta, messagesSnapshot, activitySnapshot, activityDelta, raw, custom, runStarted,
    runFinished, runError, stepStarted, stepFinished, reasoningStart, reasoningMessageStart,
    reasoningMessageContent, reasoningMessageEnd, reasoningMessageChunk, reasoningEnd,
    reasoningEncryptedValue]

/-- The member whose value is `s`. -/
def ofName? (s : String) : Option EventType := all.find? (·.name = s)

@[simp] theorem ofName?_name (t : EventType) : ofName? t.name = some t := by
  cases t <;> rfl

end EventType

/-! ### Schemas -/

/-- The schemas `events.ts` imports from `./types`. -/
structure TypesSchemas where
  /-- `StateSchema`, applied to the property (absent is `none`). -/
  state : Option JsValue → Bool
  /-- `MessageSchema`. -/
  message : JsValue → Bool
  /-- `RunAgentInputSchema`. -/
  runAgentInput : JsValue → Bool

/-- The schema of one property, as `events.ts` writes it. -/
inductive FieldSchema where
  /-- `z.string()` -/
  | string
  /-- `z.string().refine((s) => s.length > 0, ...)` -/
  | nonEmptyString
  /-- `z.number()` -/
  | number
  /-- `z.boolean()` -/
  | boolean
  /-- `z.any()` -/
  | any
  /-- `z.literal(s)` -/
  | literal (s : String)
  /-- `z.nativeEnum(EventType)` -/
  | nativeEnum
  /-- `TextMessageRoleSchema` -/
  | textMessageRole
  /-- `ReasoningEncryptedValueSubtypeSchema` -/
  | encryptedValueSubtype
  /-- `z.record(z.any())` -/
  | record
  /-- `z.array(z.any())` -/
  | array
  /-- `StateSchema` -/
  | state
  /-- `z.array(MessageSchema)` -/
  | messages
  /-- `RunAgentInputSchema` -/
  | runAgentInput
  /-- `.optional()` -/
  | optional (f : FieldSchema)
  /-- `.default(d)` -/
  | withDefault (d : JsValue) (f : FieldSchema)
  deriving DecidableEq

/-- The roles of `TextMessageRoleSchema`. -/
def textMessageRoles : List String := ["developer", "system", "assistant", "user"]

/-- Whether a property (`none` when absent) passes its schema.  An absent or `undefined` property
fails every schema but `z.any()`, `.optional()` and `.default(d)`, which parses `d` instead. -/
def FieldSchema.accepts (types : TypesSchemas) : FieldSchema → Option JsValue → Bool
  | .string, v => (v matches some (.str _))
  | .nonEmptyString, v => (match v with | some (.str s) => s ≠ "" | _ => false)
  | .number, v => (v matches some (.num _)) || (v matches some (.decimal _))
  | .boolean, v => (v matches some (.bool _))
  | .any, _ => true
  | .literal t, v => v = some (.str t)
  | .nativeEnum, v => (match v with | some (.str s) => (EventType.ofName? s).isSome | _ => false)
  | .textMessageRole, v => (match v with | some (.str s) => s ∈ textMessageRoles | _ => false)
  | .encryptedValueSubtype, v => (match v with | some (.str s) => s ∈ ["tool-call", "message"] | _ => false)
  | .record, v => (v matches some (.obj _))
  | .array, v => (v matches some (.arr _))
  | .state, v => types.state v
  | .messages, v => (match v with | some (.arr xs) => xs.all types.message | _ => false)
  | .runAgentInput, v => (match v with | none | some .undef => false | some v => types.runAgentInput v)
  | .optional f, v => (match v with | none | some .undef => true | _ => f.accepts types v)
  | .withDefault d f, v => (match v with | none | some .undef => f.accepts types (some d) | _ => f.accepts types v)

namespace FieldSchema

variable {types : TypesSchemas}

theorem accepts_nonEmptyString {v : Option JsValue} :
    accepts types .nonEmptyString v = true ↔ ∃ d, v = some (.str d) ∧ d ≠ "" := by
  rcases v with _ | (_ | _ | _ | _ | _ | d | _ | _) <;> simp [accepts]

@[simp] theorem accepts_any (v : Option JsValue) : accepts types .any v = true := rfl

@[simp] theorem accepts_state (v : Option JsValue) : accepts types .state v = types.state v := rfl

@[simp] theorem accepts_optional_none (f : FieldSchema) : accepts types (.optional f) none = true := rfl

@[simp] theorem accepts_optional_some (f : FieldSchema) {j : JsValue} (h : j ≠ .undef) :
    accepts types (.optional f) (some j) = accepts types f (some j) := by
  cases j <;> first | exact absurd rfl h | rfl

@[simp] theorem accepts_optional_any (v : Option JsValue) : accepts types (.optional .any) v = true := by
  rcases v with _ | (_ | _ | _ | _ | _ | _ | _ | _) <;> rfl

@[simp] theorem accepts_withDefault_some (d : JsValue) (f : FieldSchema) {j : JsValue} (h : j ≠ .undef) :
    accepts types (.withDefault d f) (some j) = accepts types f (some j) := by
  cases j <;> first | exact absurd rfl h | rfl

@[simp] theorem accepts_string_str (s : String) : accepts types .string (some (.str s)) = true := rfl

@[simp] theorem accepts_nonEmptyString_str (s : String) :
    accepts types .nonEmptyString (some (.str s)) = decide (s ≠ "") := rfl

@[simp] theorem accepts_literal_str (s t : String) :
    accepts types (.literal t) (some (.str s)) = decide (s = t) := by
  simp [accepts]

@[simp] theorem accepts_textMessageRole_str (s : String) :
    accepts types .textMessageRole (some (.str s)) = decide (s ∈ textMessageRoles) := rfl

@[simp] theorem accepts_boolean_bool (b : Bool) : accepts types .boolean (some (.bool b)) = true := rfl

@[simp] theorem accepts_array_arr (xs : List JsValue) : accepts types .array (some (.arr xs)) = true := rfl

@[simp] theorem accepts_record_obj (ps : List (String × JsValue)) :
    accepts types .record (some (.obj ps)) = true := rfl

end FieldSchema

/-- The declared keys of an object schema, each with its property schema. -/
abbrev Shape := Dict String FieldSchema

namespace Shape

/-- `.extend(augmentation)`: later keys override, new keys are appended. -/
def extend (shape augmentation : Shape) : Shape :=
  augmentation.foldl (fun s p => s.set p.1 p.2) shape

/-- `.omit({k: true, ...})`. -/
def omitKeys (shape : Shape) (ks : List String) : Shape := shape.filter (·.1 ∉ ks)

/-- A `.passthrough()` object schema accepts an object when each declared key passes. -/
def accepts (types : TypesSchemas) (shape : Shape) (o : Obj) : Bool :=
  shape.all fun p => p.2.accepts types (o.get p.1)

/-- An object `y` that agrees with an accepted `x` outside the keys `changed` passes a schema
whose keys outside `changed` are declared alike by the schema of `x`, if its properties under
`changed` pass. -/
theorem accepts_of_keep {types : TypesSchemas} {shape shape' : Shape} {x y : Obj} {changed : List String}
    (hx : shape.accepts types x) (hkeep : ∀ key, key ∉ changed → y.get key = x.get key)
    (hsub : ∀ p ∈ shape', p.1 ∉ changed → p ∈ shape)
    (hnew : ∀ p ∈ shape'.filter (·.1 ∈ changed), p.2.accepts types (y.get p.1)) :
    shape'.accepts types y := by
  simp only [accepts, List.all_eq_true] at hx ⊢
  intro p hp
  by_cases hc : p.1 ∈ changed
  · exact hnew p (List.mem_filter.2 ⟨hp, by simpa using hc⟩)
  · rw [hkeep _ hc]; exact hx p (hsub p hp hc)

end Shape

/-- `BaseEventSchema`. -/
def baseEventSchema : Shape :=
  [("type", .nativeEnum), ("timestamp", .optional .number), ("rawEvent", .optional .any)]

/-- `BaseEventSchema.extend({ type: z.literal(t), ...fields })`. -/
def eventOf (t : EventType) (fields : Shape) : Shape :=
  baseEventSchema.extend (("type", .literal t.name) :: fields)

def textMessageStartEventSchema : Shape :=
  eventOf .textMessageStart
    [("messageId", .string), ("role", .withDefault (.str "assistant") .textMessageRole)]

def textMessageContentEventSchema : Shape :=
  eventOf .textMessageContent [("messageId", .string), ("delta", .nonEmptyString)]

def textMessageEndEventSchema : Shape := eventOf .textMessageEnd [("messageId", .string)]

def textMessageChunkEventSchema : Shape :=
  eventOf .textMessageChunk
    [("messageId", .optional .string), ("role", .optional .textMessageRole),
      ("delta", .optional .string)]

def thinkingTextMessageStartEventSchema : Shape := eventOf .thinkingTextMessageStart []

/-- `TextMessageContentEventSchema.omit({ messageId: true, type: true }).extend({ type })`. -/
def thinkingTextMessageContentEventSchema : Shape :=
  (textMessageContentEventSchema.omitKeys ["messageId", "type"]).extend
    [("type", .literal EventType.thinkingTextMessageContent.name)]

def thinkingTextMessageEndEventSchema : Shape := eventOf .thinkingTextMessageEnd []

def toolCallStartEventSchema : Shape :=
  eventOf .toolCallStart
    [("toolCallId", .string), ("toolCallName", .string), ("parentMessageId", .optional .string)]

def toolCallArgsEventSchema : Shape :=
  eventOf .toolCallArgs [("toolCallId", .string), ("delta", .string)]

def toolCallEndEventSchema : Shape := eventOf .toolCallEnd [("toolCallId", .string)]

/-- `ToolCallResultEventSchema` declares `messageId` before `type`. -/
def toolCallResultEventSchema : Shape :=
  baseEventSchema.extend
    [("messageId", .string), ("type", .literal EventType.toolCallResult.name),
      ("toolCallId", .string), ("content", .string), ("role", .optional (.literal "tool"))]

def toolCallChunkEventSchema : Shape :=
  eventOf .toolCallChunk
    [("toolCallId", .optional .string), ("toolCallName", .optional .string),
      ("parentMessageId", .optional .string), ("delta", .optional .string)]

def thinkingStartEventSchema : Shape := eventOf .thinkingStart [("title", .optional .string)]

def thinkingEndEventSchema : Shape := eventOf .thinkingEnd []

def stateSnapshotEventSchema : Shape := eventOf .stateSnapshot [("snapshot", .state)]

def stateDeltaEventSchema : Shape := eventOf .stateDelta [("delta", .array)]

def messagesSnapshotEventSchema : Shape := eventOf .messagesSnapshot [("messages", .messages)]

def activitySnapshotEventSchema : Shape :=
  eventOf .activitySnapshot
    [("messageId", .string), ("activityType", .string), ("content", .record),
      ("replace", .withDefault (.bool true) (.optional .boolean))]

def activityDeltaEventSchema : Shape :=
  eventOf .activityDelta [("messageId", .string), ("activityType", .string), ("patch", .array)]

def rawEventSchema : Shape := eventOf .raw [("event", .any), ("source", .optional .string)]

def customEventSchema : Shape := eventOf .custom [("name", .string), ("value", .any)]

def runStartedEventSchema : Shape :=
  eventOf .runStarted
    [("threadId", .string), ("runId", .string), ("parentRunId", .optional .string),
      ("input", .optional .runAgentInput)]

def runFinishedEventSchema : Shape :=
  eventOf .runFinished [("threadId", .string), ("runId", .string), ("result", .optional .any)]

def runErrorEventSchema : Shape :=
  eventOf .runError [("message", .string), ("code", .optional .string)]

def stepStartedEventSchema : Shape := eventOf .stepStarted [("stepName", .string)]

def stepFinishedEventSchema : Shape := eventOf .stepFinished [("stepName", .string)]

def reasoningStartEventSchema : Shape := eventOf .reasoningStart [("messageId", .string)]

def reasoningMessageStartEventSchema : Shape :=
  eventOf .reasoningMessageStart [("messageId", .string), ("role", .literal "assistant")]

def reasoningMessageContentEventSchema : Shape :=
  eventOf .reasoningMessageContent [("messageId", .string), ("delta", .nonEmptyString)]

def reasoningMessageEndEventSchema : Shape := eventOf .reasoningMessageEnd [("messageId", .string)]

def reasoningMessageChunkEventSchema : Shape :=
  eventOf .reasoningMessageChunk [("messageId", .optional .string), ("delta", .optional .string)]

def reasoningEndEventSchema : Shape := eventOf .reasoningEnd [("messageId", .string)]

def reasoningEncryptedValueEventSchema : Shape :=
  eventOf .reasoningEncryptedValue
    [("subtype", .encryptedValueSubtype), ("entityId", .string), ("encryptedValue", .string)]

/-- The option of `EventSchemas` for each discriminator value. -/
def eventSchema : EventType → Shape
  | .textMessageStart => textMessageStartEventSchema
  | .textMessageContent => textMessageContentEventSchema
  | .textMessageEnd => textMessageEndEventSchema
  | .textMessageChunk => textMessageChunkEventSchema
  | .thinkingStart => thinkingStartEventSchema
  | .thinkingEnd => thinkingEndEventSchema
  | .thinkingTextMessageStart => thinkingTextMessageStartEventSchema
  | .thinkingTextMessageContent => thinkingTextMessageContentEventSchema
  | .thinkingTextMessageEnd => thinkingTextMessageEndEventSchema
  | .toolCallStart => toolCallStartEventSchema
  | .toolCallArgs => toolCallArgsEventSchema
  | .toolCallEnd => toolCallEndEventSchema
  | .toolCallChunk => toolCallChunkEventSchema
  | .toolCallResult => toolCallResultEventSchema
  | .stateSnapshot => stateSnapshotEventSchema
  | .stateDelta => stateDeltaEventSchema
  | .messagesSnapshot => messagesSnapshotEventSchema
  | .activitySnapshot => activitySnapshotEventSchema
  | .activityDelta => activityDeltaEventSchema
  | .raw => rawEventSchema
  | .custom => customEventSchema
  | .runStarted => runStartedEventSchema
  | .runFinished => runFinishedEventSchema
  | .runError => runErrorEventSchema
  | .stepStarted => stepStartedEventSchema
  | .stepFinished => stepFinishedEventSchema
  | .reasoningStart => reasoningStartEventSchema
  | .reasoningMessageStart => reasoningMessageStartEventSchema
  | .reasoningMessageContent => reasoningMessageContentEventSchema
  | .reasoningMessageEnd => reasoningMessageEndEventSchema
  | .reasoningMessageChunk => reasoningMessageChunkEventSchema
  | .reasoningEnd => reasoningEndEventSchema
  | .reasoningEncryptedValue => reasoningEncryptedValueEventSchema

/-- `EventSchemas.safeParse(v).success`: `z.discriminatedUnion("type", [...])` takes the option
whose literal `type` is the value's, and fails on anything but an object with such a `type`. -/
def eventSchemasAccept (types : TypesSchemas) : JsValue → Bool
  | .obj o =>
    match Dict.get o "type" with
    | some (.str t) =>
      match EventType.ofName? t with
      | some et => (eventSchema et).accepts types o
      | none => false
    | _ => false
  | _ => false

/-- An object whose `type` is a member's value is checked against that member's option. -/
theorem eventSchemasAccept_obj {types : TypesSchemas} {o : Obj} {t : EventType}
    (h : o.get "type" = some (.str t.name)) :
    eventSchemasAccept types (.obj o) = (eventSchema t).accepts types o := by
  simp [eventSchemasAccept, h]

end AgUi
