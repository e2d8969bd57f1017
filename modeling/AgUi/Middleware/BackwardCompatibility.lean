import AgUi.Core.Events

/-!
# `BackwardCompatibility_0_0_45`

The middleware that rewrites the deprecated `THINKING_*` events into `REASONING_*` events:
`client/src/middleware/backward-compatibility-0-0-45.ts`, and a second copy of the class whose
`transformEvent` also calls `warnAboutTransformation`.  The copies differ only in the warnings, so
both are `transformEventWith` at their own `warn`: `transformEvent` and `transformEventWarning`.

The state holds the instance's two fields, the number of ids `randomUUID` has returned (the `n`-th
call returns `uuid n`; results that need fresh ids assume `uuid` injective) and the lines written
by `console.warn`.  A `run` call resets the two fields; an `Action` list is any interleaving of
`run` calls and events reaching one instance.

Everything one call can do to ids is said once, by `messageId_rewrite`, `current_rewrite` and
`drawn_rewrite`, over the `Level` of the legacy type: the phase pair `THINKING_START`/`THINKING_END`
or the message triple.
-/

namespace AgUi

namespace BackwardCompatibility

/-- `f` along a list, threading the state and collecting the outputs: a `map` over a stream whose
function updates its instance. -/
def mapState {σ α β : Type} (f : σ → α → β × σ) : σ → List α → List β × σ
  | s, [] => ([], s)
  | s, a :: as =>
    let r := f s a
    let rs := mapState f r.2 as
    (r.1 :: rs.1, rs.2)

section MapState

variable {σ α β : Type} (f : σ → α → β × σ)

theorem length_mapState (s : σ) (l : List α) : (mapState f s l).1.length = l.length := by
  induction l generalizing s with
  | nil => rfl
  | cons a l ih => simp [mapState, ih]

theorem mapState_append (s : σ) (l₁ l₂ : List α) :
    mapState f s (l₁ ++ l₂) =
      ((mapState f s l₁).1 ++ (mapState f (mapState f s l₁).2 l₂).1, (mapState f (mapState f s l₁).2 l₂).2) := by
  induction l₁ generalizing s with
  | nil => rfl
  | cons a l₁ ih => simp [mapState, ih]

/-- The output at the position of an element is `f` of it in the state the elements before it left. -/
theorem getElem?_mapState (s : σ) (pre post : List α) (a : α) :
    (mapState f s (pre ++ a :: post)).1[pre.length]? = some (f (mapState f s pre).2 a).1 := by
  rw [mapState_append, List.getElem?_append_right (by rw [length_mapState]), length_mapState, Nat.sub_self]
  simp [mapState]

/-- A quantity no step on the list changes is the same after the whole list. -/
theorem mapState_snd_eq {γ : Type} (g : σ → γ) (s : σ) {l : List α} (h : ∀ s, ∀ a ∈ l, g (f s a).2 = g s) :
    g (mapState f s l).2 = g s := by
  induction l generalizing s with
  | nil => rfl
  | cons a l ih =>
    simp only [mapState]
    rw [ih _ fun s' a' ha' => h s' a' (List.mem_cons_of_mem _ ha'), h s a (List.mem_cons_self _ _)]

/-- A list each step returns as it is comes out as it went in. -/
theorem mapState_fst_eq_self (s : σ) {l : List α} {f : σ → α → α × σ} (h : ∀ s, ∀ a ∈ l, (f s a).1 = a) :
    (mapState f s l).1 = l := by
  induction l generalizing s with
  | nil => rfl
  | cons a l ih =>
    simp only [mapState]
    rw [ih _ fun s' a' ha' => h s' a' (List.mem_cons_of_mem _ ha'), h s a (List.mem_cons_self _ _)]

end MapState

/-- The five deprecated types of the `switch`, in the order of the constants of the file. -/
inductive ThinkingType where
  | thinkingStart | thinkingEnd | thinkingTextMessageStart | thinkingTextMessageContent
  | thinkingTextMessageEnd
  deriving DecidableEq, Repr

/-- Phase-level (`REASONING_START`/`REASONING_END`) or message-level events. -/
inductive Level where
  | phase | message
  deriving DecidableEq, Repr

namespace ThinkingType

/-- Every legacy type. -/
def all : List ThinkingType :=
  [thinkingStart, thinkingEnd, thinkingTextMessageStart, thinkingTextMessageContent,
    thinkingTextMessageEnd]

/-- The `EventType` member whose value the constant holds. -/
def eventType : ThinkingType → EventType
  | thinkingStart => .thinkingStart
  | thinkingEnd => .thinkingEnd
  | thinkingTextMessageStart => .thinkingTextMessageStart
  | thinkingTextMessageContent => .thinkingTextMessageContent
  | thinkingTextMessageEnd => .thinkingTextMessageEnd

/-- The `REASONING_*` type the case returns. -/
def reasoning : ThinkingType → EventType
  | thinkingStart => .reasoningStart
  | thinkingEnd => .reasoningEnd
  | thinkingTextMessageStart => .reasoningMessageStart
  | thinkingTextMessageContent => .reasoningMessageContent
  | thinkingTextMessageEnd => .reasoningMessageEnd

/-- The legacy type a `type` string names. -/
def ofName? (t : String) : Option ThinkingType := all.find? (·.eventType.name = t)

/-- Which field the case reads or writes. -/
def level : ThinkingType → Level
  | thinkingStart | thinkingEnd => .phase
  | _ => .message

/-- The keys whose values the case replaces, adds or drops; it keeps every other property. -/
def changedKeys : ThinkingType → List String
  | thinkingStart => ["title", "type", "messageId"]
  | thinkingTextMessageStart => ["type", "messageId", "role"]
  | thinkingTextMessageContent => ["delta", "type", "messageId"]
  | thinkingTextMessageEnd | thinkingEnd => ["type", "messageId"]

/-- The two cases that always draw a fresh id and store it. -/
def isStart : ThinkingType → Bool
  | thinkingStart | thinkingTextMessageStart => true
  | _ => false

end ThinkingType

/-- The legacy start of a level: `THINKING_START` or `THINKING_TEXT_MESSAGE_START`. -/
def Level.start : Level → ThinkingType
  | .phase => .thinkingStart
  | .message => .thinkingTextMessageStart

/-- The `case` an event takes in `switch (event.type as string)`. -/
def thinkingTypeOf (event : Obj) : Option ThinkingType :=
  match event.get "type" with
  | some (.str t) => ThinkingType.ofName? t
  | _ => none

/-- The middleware's state. -/
structure State where
  currentReasoningId : Option String
  currentMessageId : Option String
  /-- How many ids `randomUUID` has returned. -/
  drawn : Nat
  /-- The lines passed to `console.warn`. -/
  console : List String

/-- A new instance: both fields `null`. -/
def State.init : State := ⟨none, none, 0, []⟩

/-- The field a level reads. -/
def State.current (s : State) : Level → Option String
  | .phase => s.currentReasoningId
  | .message => s.currentMessageId

/-- What `run` does to the instance before subscribing: both fields back to `null`. -/
def State.reset (s : State) : State := { s with currentReasoningId := none, currentMessageId := none }

/-- The text `warnAboutTransformation` passes to `console.warn`. -/
def warningText (fromType toType : String) : String :=
  "AG-UI is converting " ++ fromType ++ " to " ++ toType ++ ". To suppress this warning, upgrade your " ++
    "AG-UI integration package, switch over to REASONING_* events, ask your integration provider to " ++
    "update their event system or set SUPPRESS_TRANSFORMATION_WARNINGS=true in your .env file."

/-- `warnAboutTransformation(from, to)`, given the value of `SUPPRESS_TRANSFORMATION_WARNINGS`:
nothing when it is a non-empty string, otherwise one line. -/
def warnAboutTransformation (suppress : Option String) (fromType toType : String) : List String :=
  if suppress.any (· ≠ "") then [] else [warningText fromType toType]

section Transform

variable (uuid : Nat → String)

/-- `randomUUID()`. -/
def randomUUID (s : State) : String × State := (uuid s.drawn, { s with drawn := s.drawn + 1 })

/-- `current ?? randomUUID()`. -/
def orRandomUUID (current : Option String) (s : State) : String × State :=
  match current with
  | some id => (id, s)
  | none => randomUUID uuid s

/-- The body of each `case` of `transformEvent`, without its warning. -/
def rewrite (s : State) (event : Obj) : ThinkingType → Obj × State
  | .thinkingStart =>
    let (id, s) := randomUUID uuid s
    ((((event.erase "title").set "type" (.str EventType.reasoningStart.name)).set "messageId" (.str id)),
      { s with currentReasoningId := some id })
  | .thinkingTextMessageStart =>
    let (id, s) := randomUUID uuid s
    ((((event.set "type" (.str EventType.reasoningMessageStart.name)).set "messageId" (.str id)).set
        "role" (.str "assistant")),
      { s with currentMessageId := some id })
  | .thinkingTextMessageContent =>
    let (id, s) := orRandomUUID uuid s.currentMessageId s
    (((((event.erase "delta").set "type" (.str EventType.reasoningMessageContent.name)).set "messageId"
        (.str id)).set "delta" ((event.get "delta").getD .undef)), s)
  | .thinkingTextMessageEnd =>
    let (id, s) := orRandomUUID uuid s.currentMessageId s
    (((event.set "type" (.str EventType.reasoningMessageEnd.name)).set "messageId" (.str id)), s)
  | .thinkingEnd =>
    let (id, s) := orRandomUUID uuid s.currentReasoningId s
    (((event.set "type" (.str EventType.reasoningEnd.name)).set "messageId" (.str id)), s)

/-- `transformEvent` of a copy whose cases call `warn(from, to)` (once each, after which the case
goes on unchanged); `default` returns the event itself. -/
def transformEventWith (warn : String → String → List String) (s : State) (event : Obj) :
    Obj × State :=
  match thinkingTypeOf event with
  | none => (event, s)
  | some k =>
    let r := rewrite uuid s event k
    (r.1, { r.2 with console := s.console ++ warn k.eventType.name k.reasoning.name })

/-- `transformEvent` of `backward-compatibility-0-0-45.ts`, which warns about nothing. -/
def transformEvent : State → Obj → Obj × State := transformEventWith uuid fun _ _ => []

/-- `transformEvent` of the copy with `warnAboutTransformation`. -/
def transformEventWarning (suppress : Option String) : State → Obj → Obj × State :=
  transformEventWith uuid (warnAboutTransformation suppress)

variable (warn : String → String → List String)

/-- One stream of events through `transformEventWith`, in order: `pipe(map(...))`. -/
def transformAll : State → List Obj → List Obj × State := mapState (transformEventWith uuid warn)

/-- `run(input, next)` and the stream of `next`'s events: the fields are reset, then every event is
mapped through `transformEvent`. -/
def runEvents (s : State) (es : List Obj) : List Obj × State := transformAll uuid warn s.reset es

/-- What reaches one instance: a call of `run` for some run, or an event of some run's stream. -/
inductive Action where
  | run (r : Nat)
  | event (r : Nat) (e : Obj)

/-- One action: `run` emits nothing and resets the fields; an event is transformed. -/
def step (s : State) : Action → Option Obj × State
  | .run _ => (none, s.reset)
  | .event _ e =>
    let r := transformEventWith uuid warn s e
    (some r.1, r.2)

/-- An interleaving of actions on one instance; the output at each position is that action's. -/
def exec : State → List Action → List (Option Obj) × State := mapState (step uuid warn)

/-! ### One call -/

variable {uuid warn}

theorem ThinkingType.ofName?_eq_some {t : String} {k : ThinkingType} :
    ThinkingType.ofName? t = some k ↔ t = k.eventType.name := by
  constructor
  · intro h; simpa [eq_comm] using List.find?_some h
  · rintro rfl; cases k <;> rfl

theorem thinkingTypeOf_eq_some {event : Obj} {k : ThinkingType} :
    thinkingTypeOf event = some k ↔ event.get "type" = some (.str k.eventType.name) := by
  unfold thinkingTypeOf
  split <;> simp_all [ThinkingType.ofName?_eq_some]

theorem thinkingTypeOf_eq_none {event : Obj} :
    thinkingTypeOf event = none ↔ ∀ k : ThinkingType, event.get "type" ≠ some (.str k.eventType.name) := by
  simp only [Option.eq_none_iff_forall_not_mem, Option.mem_def, thinkingTypeOf_eq_some, ne_eq]

theorem orRandomUUID_eq (c : Option String) (s : State) :
    orRandomUUID uuid c s = (c.getD (uuid s.drawn), { s with drawn := if c.isSome then s.drawn else s.drawn + 1 }) := by
  cases c <;> rfl

@[simp] theorem console_rewrite (s : State) (e : Obj) (k : ThinkingType) :
    (rewrite uuid s e k).2.console = s.console := by
  cases k <;> simp [rewrite, randomUUID, orRandomUUID_eq]

/-- The id the case writes into `messageId`: a fresh one for the two starts, otherwise the stored one
of its level, or a fresh one when that is `null`. -/
theorem messageId_rewrite (s : State) (e : Obj) (k : ThinkingType) :
    (rewrite uuid s e k).1.get "messageId" =
      some (.str (if k.isStart then uuid s.drawn else (s.current k.level).getD (uuid s.drawn))) := by
  cases k <;> simp [rewrite, randomUUID, orRandomUUID_eq, State.current, ThinkingType.isStart,
    ThinkingType.level]

/-- The two starts store the id they drew in the field of their level; nothing else changes a field. -/
theorem current_rewrite (s : State) (e : Obj) (k : ThinkingType) (l : Level) :
    (rewrite uuid s e k).2.current l = if k = l.start then some (uuid s.drawn) else s.current l := by
  cases k <;> cases l <;> simp [rewrite, randomUUID, orRandomUUID_eq, State.current, Level.start]

/-- `randomUUID` is called by the starts, and by the other cases when the field is `null`. -/
theorem drawn_rewrite (s : State) (e : Obj) (k : ThinkingType) :
    (rewrite uuid s e k).2.drawn = if k.isStart || (s.current k.level).isNone then s.drawn + 1 else s.drawn := by
  cases k <;> cases h : s.currentMessageId <;> cases h' : s.currentReasoningId <;>
    simp [rewrite, randomUUID, orRandomUUID_eq, State.current, ThinkingType.isStart, ThinkingType.level, h, h']

theorem type_rewrite (s : State) (e : Obj) (k : ThinkingType) :
    (rewrite uuid s e k).1.get "type" = some (.str k.reasoning.name) := by
  cases k <;> simp [rewrite, randomUUID, orRandomUUID_eq, ThinkingType.reasoning]

/-- Every property the case does not name keeps its value. -/
theorem get_rewrite_of_not_mem (s : State) (e : Obj) (k : ThinkingType) {key : String}
    (h : key ∉ k.changedKeys) : (rewrite uuid s e k).1.get key = e.get key := by
  have hne : ∀ k', k' ∈ k.changedKeys → k' ≠ key := fun k' hk' he => h (he ▸ hk')
  cases k <;> simp_all [ThinkingType.changedKeys, rewrite, randomUUID, orRandomUUID_eq, Dict.get_set]

theorem title_rewrite_thinkingStart (s : State) (e : Obj) :
    (rewrite uuid s e .thinkingStart).1.get "title" = none := by
  simp [rewrite, randomUUID]

theorem role_rewrite_thinkingTextMessageStart (s : State) (e : Obj) :
    (rewrite uuid s e .thinkingTextMessageStart).1.get "role" = some (.str "assistant") := by
  simp [rewrite, randomUUID]

theorem delta_rewrite_thinkingTextMessageContent (s : State) (e : Obj) :
    (rewrite uuid s e .thinkingTextMessageContent).1.get "delta" = some ((e.get "delta").getD .undef) := by
  simp [rewrite, orRandomUUID_eq]

theorem transformEventWith_of_none {s : State} {e : Obj} (h : thinkingTypeOf e = none) :
    transformEventWith uuid warn s e = (e, s) := by
  simp [transformEventWith, h]

theorem transformEventWith_of_some {s : State} {e : Obj} {k : ThinkingType} (h : thinkingTypeOf e = some k) :
    transformEventWith uuid warn s e =
      ((rewrite uuid s e k).1,
        { (rewrite uuid s e k).2 with console := s.console ++ warn k.eventType.name k.reasoning.name }) := by
  simp only [transformEventWith, h]

end Transform

end BackwardCompatibility

end AgUi
