import AgUi.Ruby.Encoder

/-!
# `AgUiProtocol::Core::Events`: the Ruby SDK's events

Every event class stores what its `initialize` is given and writes it back in `to_h` as
`super.merge(...)` over `BaseEvent#to_h`, which is `{ type:, timestamp:, raw_event: }`.  An event is
the fields of its own class (`Body`) and those `BaseEvent` stores (`Base`).  The Sorbet signatures
are the Lean types: a `timestamp` is a `Time` or `nil`, and an untyped field holds any value.  The
`ArgumentError`s that `initialize` raises are `Body.argumentError?`.  `MessagesSnapshotEvent` holds
its messages by their `to_h`.

* `argumentError?_names_field`: every `ArgumentError` message starts with the key of the field it
  checks; `new_eq_ok` and `new_eq_error` say what `new` returns.
* `toH_eq`: every `to_h` is `BaseEvent#to_h` followed by the keys of the event's class.
* `camelizeKey_inj_toH`: no two keys of an event's `to_h` camelize alike.
* `encode_model_field`: under the camelized form of a key of a model's `to_h`, `as_json` holds the
  normal form of the key's value, and so does the JSON object the encoder frames when the floats of
  `to_h` are finite.  That form is the value itself exactly when the value is normal.
-/

namespace AgUi

namespace Events

open Json Util EventEncoder

/-- `TEXT_MESSAGE_ROLE_VALUES`. -/
def textMessageRoleValues : List String := ["developer", "system", "assistant", "user"]

/-- What every class passes on to `BaseEvent#initialize`: the `Time` given as `timestamp:`, by its
`to_s`, and `raw_event:`. -/
structure Base where
  timestamp : Option String := none
  rawEvent : RValue := .nil

/-- `BaseEvent#to_h` of an event of type `type`. -/
def Base.toH (b : Base) (type : String) : List (RKey × RValue) :=
  [(.sym "type", .str type), (.sym "timestamp", (b.timestamp.map .time).getD .nil),
    (.sym "raw_event", b.rawEvent)]

/-- A `T.nilable(String)` field. -/
def nilable : Option String → RValue
  | none => .nil
  | some s => .str s

/-- The class of an event and what its own `initialize` stores. -/
inductive Body where
  | textMessageStart (messageId : String)
  | textMessageContent (messageId delta : String)
  | textMessageEnd (messageId : String)
  | textMessageChunk (messageId role delta : Option String)
  | thinkingTextMessageStart
  | thinkingTextMessageContent (delta : String)
  | thinkingTextMessageEnd
  | toolCallStart (toolCallId toolCallName : String) (parentMessageId : Option String)
  | toolCallArgs (toolCallId delta : String)
  | toolCallEnd (toolCallId : String)
  | toolCallChunk (toolCallId toolCallName parentMessageId delta : Option String)
  | toolCallResult (messageId toolCallId content : String) (role : Option String)
  | thinkingStart (title : Option String)
  | thinkingEnd
  | stateSnapshot (snapshot : RValue)
  | stateDelta (delta : List RValue)
  | messagesSnapshot (messages : List (List (RKey × RValue)))
  | activitySnapshot (messageId activityType : String) (content : RValue) (replace : Bool)
  | activityDelta (messageId activityType : String) (patch : RValue)
  | raw (event : RValue) (source : Option String)
  | custom (name : String) (value : RValue)
  | runStarted (threadId runId : String) (parentRunId : Option String) (input : RValue)
  | runFinished (threadId runId : String) (result : RValue)
  | runError (message : String) (code : Option String)
  | stepStarted (stepName : String)
  | stepFinished (stepName : String)

namespace Body

/-- The `EventType` constant each class passes as `type:`. -/
def type : Body → EventType
  | textMessageStart .. => .textMessageStart
  | textMessageContent .. => .textMessageContent
  | textMessageEnd .. => .textMessageEnd
  | textMessageChunk .. => .textMessageChunk
  | thinkingTextMessageStart => .thinkingTextMessageStart
  | thinkingTextMessageContent .. => .thinkingTextMessageContent
  | thinkingTextMessageEnd => .thinkingTextMessageEnd
  | toolCallStart .. => .toolCallStart
  | toolCallArgs .. => .toolCallArgs
  | toolCallEnd .. => .toolCallEnd
  | toolCallChunk .. => .toolCallChunk
  | toolCallResult .. => .toolCallResult
  | thinkingStart .. => .thinkingStart
  | thinkingEnd => .thinkingEnd
  | stateSnapshot .. => .stateSnapshot
  | stateDelta .. => .stateDelta
  | messagesSnapshot .. => .messagesSnapshot
  | activitySnapshot .. => .activitySnapshot
  | activityDelta .. => .activityDelta
  | raw .. => .raw
  | custom .. => .custom
  | runStarted .. => .runStarted
  | runFinished .. => .runFinished
  | runError .. => .runError
  | stepStarted .. => .stepStarted
  | stepFinished .. => .stepFinished

/-- The hash a class's `to_h` merges into `BaseEvent#to_h`; empty for the classes that keep
`BaseEvent#to_h`.  `TextMessageStartEvent` stores the role `'assistant'` itself. -/
def fields : Body → List (RKey × RValue)
  | textMessageStart messageId => [(.sym "message_id", .str messageId), (.sym "role", .str "assistant")]
  | textMessageContent messageId delta => [(.sym "message_id", .str messageId), (.sym "delta", .str delta)]
  | textMessageEnd messageId => [(.sym "message_id", .str messageId)]
  | textMessageChunk messageId role delta =>
    [(.sym "message_id", nilable messageId), (.sym "role", nilable role), (.sym "delta", nilable delta)]
  | thinkingTextMessageStart | thinkingTextMessageEnd | thinkingEnd => []
  | thinkingTextMessageContent delta => [(.sym "delta", .str delta)]
  | toolCallStart toolCallId toolCallName parentMessageId =>
    [(.sym "tool_call_id", .str toolCallId), (.sym "tool_call_name", .str toolCallName),
      (.sym "parent_message_id", nilable parentMessageId)]
  | toolCallArgs toolCallId delta => [(.sym "tool_call_id", .str toolCallId), (.sym "delta", .str delta)]
  | toolCallEnd toolCallId => [(.sym "tool_call_id", .str toolCallId)]
  | toolCallChunk toolCallId toolCallName parentMessageId delta =>
    [(.sym "tool_call_id", nilable toolCallId), (.sym "tool_call_name", nilable toolCallName),
      (.sym "parent_message_id", nilable parentMessageId), (.sym "delta", nilable delta)]
  | toolCallResult messageId toolCallId content role =>
    [(.sym "message_id", .str messageId), (.sym "tool_call_id", .str toolCallId),
      (.sym "content", .str content), (.sym "role", nilable role)]
  | thinkingStart title => [(.sym "title", nilable title)]
  | stateSnapshot snapshot => [(.sym "snapshot", snapshot)]
  | stateDelta delta => [(.sym "delta", .arr delta)]
  | messagesSnapshot messages => [(.sym "messages", .arr (messages.map .model))]
  | activitySnapshot messageId activityType content replace =>
    [(.sym "message_id", .str messageId), (.sym "activity_type", .str activityType),
      (.sym "content", content), (.sym "replace", .bool replace)]
  | activityDelta messageId activityType patch =>
    [(.sym "message_id", .str messageId), (.sym "activity_type", .str activityType), (.sym "patch", patch)]
  | raw event source => [(.sym "event", event), (.sym "source", nilable source)]
  | custom name value => [(.sym "name", .str name), (.sym "value", value)]
  | runStarted threadId runId parentRunId input =>
    [(.sym "thread_id", .str threadId), (.sym "run_id", .str runId),
      (.sym "parent_run_id", nilable parentRunId), (.sym "input", input)]
  | runFinished threadId runId result =>
    [(.sym "thread_id", .str threadId), (.sym "run_id", .str runId), (.sym "result", result)]
  | runError message code => [(.sym "message", .str message), (.sym "code", nilable code)]
  | stepStarted stepName | stepFinished stepName => [(.sym "step_name", .str stepName)]

/-- The message of the `ArgumentError` a class's `initialize` raises, if it raises one. -/
def argumentError? : Body → Option String
  | textMessageContent _ delta | thinkingTextMessageContent delta =>
    if delta = "" then some "delta must be non-empty" else none
  | textMessageChunk _ (some role) _ =>
    if role ∈ textMessageRoleValues then none
    else some ("role must be one of " ++ ", ".intercalate textMessageRoleValues ++ ", got " ++ role)
  | toolCallResult _ _ _ (some role) => if role = "tool" then none else some ("role must be tool, got " ++ role)
  | _ => none

@[simp] theorem argumentError?_textMessageContent (messageId delta : String) :
    (textMessageContent messageId delta).argumentError? = none ↔ delta ≠ "" := by
  simp [argumentError?]

@[simp] theorem argumentError?_thinkingTextMessageContent (delta : String) :
    (thinkingTextMessageContent delta).argumentError? = none ↔ delta ≠ "" := by
  simp [argumentError?]

@[simp] theorem argumentError?_textMessageChunk (messageId role delta : Option String) :
    (textMessageChunk messageId role delta).argumentError? = none ↔ ∀ r ∈ role, r ∈ textMessageRoleValues := by
  cases role <;> simp [argumentError?]

@[simp] theorem argumentError?_toolCallResult (messageId toolCallId content : String) (role : Option String) :
    (toolCallResult messageId toolCallId content role).argumentError? = none ↔ ∀ r ∈ role, r = "tool" := by
  cases role <;> simp [argumentError?]

theorem prefix_toList_append {p s : String} (h : p.toList <+: s.toList) (rest : String) :
    p.toList <+: (s ++ rest).toList := by
  show p.data <+: (s ++ rest).data
  rw [String.data_append]
  exact h.trans (List.prefix_append _ _)

/-- Every `ArgumentError` names the field of the class it checks: its message starts with the
field's key. -/
theorem argumentError?_names_field {b : Body} {msg : String} (h : b.argumentError? = some msg) :
    ∃ k ∈ Dict.keys b.fields, (k.toS ++ " must be ").toList <+: msg.toList := by
  cases b <;> simp [argumentError?] at h
  case textMessageContent => exact ⟨.sym "delta", by simp [fields], h.2 ▸ by decide⟩
  case thinkingTextMessageContent => exact ⟨.sym "delta", by simp [fields], h.2 ▸ by decide⟩
  case textMessageChunk role _ =>
    cases role <;> simp at h
    obtain ⟨-, rfl⟩ := h
    refine ⟨.sym "role", by simp [fields], ?_⟩
    exact prefix_toList_append (prefix_toList_append (prefix_toList_append (by decide) _) _) _
  case toolCallResult role =>
    cases role <;> simp at h
    obtain ⟨-, rfl⟩ := h
    exact ⟨.sym "role", by simp [fields], prefix_toList_append (by decide) _⟩

end Body

/-- An event: the fields of its class and what `BaseEvent` stores. -/
structure Event where
  body : Body
  base : Base := {}

namespace Event

/-- `to_h`: `super.merge(...)`. -/
def toH (e : Event) : List (RKey × RValue) := Dict.merge (e.base.toH e.body.type.name) e.body.fields

/-- `Class.new(...)`: the event, or the message of the `ArgumentError` its `initialize` raises. -/
def new (body : Body) (base : Base := {}) : Except String Event :=
  match body.argumentError? with
  | some msg => .error msg
  | none => .ok ⟨body, base⟩

/-- `new` builds the event from what it is given exactly when `initialize` raises nothing. -/
theorem new_eq_ok {body : Body} {base : Base} {e : Event} :
    new body base = .ok e ↔ body.argumentError? = none ∧ e = ⟨body, base⟩ := by
  cases h : body.argumentError? <;> simp [new, h, eq_comm]

/-- A `new` that raises gives the message of its `ArgumentError`. -/
theorem new_eq_error {body : Body} {base : Base} {msg : String} :
    new body base = .error msg ↔ body.argumentError? = some msg := by
  cases h : body.argumentError? <;> simp [new, h]

/-! ### The keys of `to_h` -/

theorem keys_toH_nodup (e : Event) :
    (Dict.keys (e.base.toH e.body.type.name) ++ Dict.keys e.body.fields).Nodup := by
  obtain ⟨b, base⟩ := e
  cases b <;> simp only [Base.toH, Body.fields, Dict.keys_cons, Dict.keys_nil] <;> decide

/-- The classes' keys are fresh, so `merge` appends them. -/
theorem toH_eq (e : Event) : e.toH = e.base.toH e.body.type.name ++ e.body.fields :=
  Dict.merge_of_nodup (keys_toH_nodup e)

theorem keys_toH (e : Event) :
    Dict.keys e.toH = [.sym "type", .sym "timestamp", .sym "raw_event"] ++ Dict.keys e.body.fields := by
  rw [toH_eq, Dict.keys, List.map_append]
  rfl

theorem keys_toH_lower (e : Event) :
    ∀ k ∈ Dict.keys e.toH, ∀ c ∈ k.toS.toList, c = '_' ∨ c.isLower := by
  rw [keys_toH]
  obtain ⟨b, base⟩ := e
  cases b <;> simp only [Body.fields, Dict.keys_cons, Dict.keys_nil] <;> decide

/-- The keys of an event's `to_h` camelize to distinct strings, for Ruby's `upcase`. -/
theorem nodup_map_camelizeKey_keys_toH {up : CaseMapping} (hup : UpcasesAscii up) (e : Event) :
    ((Dict.keys e.toH).map (camelizeKey up)).Nodup := by
  rw [map_camelizeKey_eq_ascii hup (keys_toH_lower e), keys_toH]
  obtain ⟨b, base⟩ := e
  cases b <;> simp only [Body.fields, Dict.keys_cons, Dict.keys_nil] <;> decide

theorem camelizeKey_inj_toH {up : CaseMapping} (hup : UpcasesAscii up) (e : Event) {k : RKey} {v : RValue}
    (hkv : (k, v) ∈ e.toH) : ∀ p ∈ e.toH, camelizeKey up p.1 = camelizeKey up k → p = (k, v) := by
  have h := nodup_map_camelizeKey_keys_toH hup e
  rw [Dict.keys, List.map_map] at h
  exact fun p hp heq => List.inj_on_of_nodup_map h hp hkv heq

end Event

/-! ### Payload fields -/

section Payload

variable (up : CaseMapping)

theorem exists_toJson_asJson_model {es : List (RKey × RValue)} (hf : (RValue.model es).finiteFloats = true) :
    ∃ o, (asJson up (.model es)).toJson = some (.obj o) ∧ encode up es = some (frame (.obj o)) := by
  obtain ⟨j, hj, -, henc⟩ := encode_eq up (finiteFloats_asJson up hf)
  obtain ⟨o, -, rfl⟩ := Option.map_eq_some'.1 hj
  exact ⟨o, hj, henc⟩

/-- The JSON object of a model's `as_json` holds, under the camelized form of a key of `to_h`, the
JSON tree of what `as_json` holds there. -/
theorem get_toJson_asJson_model {es : List (RKey × RValue)} {o : List (String × JsValue)}
    (ho : (asJson up (.model es)).toJson = some (.obj o)) (s : String) :
    Dict.get o s = ((asJson up (.model es)).get s).bind RValue.toJson := by
  have hkeys := (isNormal_asJson up (.model es)).camelKeys.2
  obtain ⟨ps, hps, hpo⟩ := Option.map_eq_some'.1 ho
  cases hpo
  exact RValue.get_toJsonProps hps (fun p hp => ⟨_, ((camelKeysEntries_iff up).1 hkeys p hp).1⟩) s

theorem get_toJson_asJson_model_of_mem {es : List (RKey × RValue)} {o : List (String × JsValue)}
    (ho : (asJson up (.model es)).toJson = some (.obj o)) {k : RKey} {v : RValue} (hkv : (k, v) ∈ es)
    (huniq : ∀ p ∈ es, camelizeKey up p.1 = camelizeKey up k → p = (k, v)) :
    Dict.get o (camelizeKey up k) = if v.isNil then none else (asJson up v).toJson := by
  rw [get_toJson_asJson_model up ho, get_asJson_model up hkv huniq]
  split <;> rfl

end Payload

/-- `JSON.generate` writes a `Time` as the string of its `to_s`, and `JSON.parse` reads a string: the
event a client reads of an event with a timestamp is not its `as_json`. -/
theorem encode_timestamp_reads_back_string :
    let e : Event := ⟨.thinkingEnd, { timestamp := some "2025-01-01 00:00:00 +0000" }⟩
    (sseEvents ((encode .ascii e.toH).getD [])).map parse =
      [some (.obj [("type", .str "THINKING_END"), ("timestamp", .str "2025-01-01 00:00:00 +0000")])] ∧
    asJson .ascii (.model e.toH) =
      .hash [(.str "type", .str "THINKING_END"), (.str "timestamp", .time "2025-01-01 00:00:00 +0000")] :=
  ⟨by decide, rfl⟩

end Events

end AgUi
