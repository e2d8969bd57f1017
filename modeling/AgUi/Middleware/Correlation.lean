import AgUi.Middleware.BackwardCompatibility

/-!
# Correlation ids of the rewritten reasoning events

What the two instance fields of `BackwardCompatibility_0_0_45` guarantee over whole streams.

* (latest start) in a run, every `REASONING_MESSAGE_CONTENT`/`END` rewritten from a legacy event
  carries the id of the `REASONING_MESSAGE_START` rewritten from the latest legacy message start,
  and every `REASONING_END` the id of the latest `REASONING_START` (`messageId_latest_start`);
* (separation) the ids of the rewritten phase pairs and of the rewritten message triples of a run
  never meet, when `randomUUID` never repeats an id (`Separated`, `separated_transformAll`);
* (interleaving) the fields belong to the instance, not to a run: across any interleaving of runs
  an event carries the id of the latest start the instance rewrote, whichever run it came from,
  unless a `run` call came after it (`exec_messageId_latest_start`);
* (warnings) the copy with `warnAboutTransformation` prints one line per rewritten event
  (`console_exec`).

Each is a one-step lemma for `transformEventWith` lifted to a stream by induction.
-/

namespace AgUi

namespace BackwardCompatibility

variable {uuid : Nat → String} {warn : String → String → List String}

theorem isStart_eq_false {k : ThinkingType} {l : Level} (hk : k.level = l) (hk' : k ≠ l.start) :
    k.isStart = false := by
  subst hk; cases k <;> simp_all [ThinkingType.isStart, ThinkingType.level, Level.start]

@[simp] theorem current_setConsole (s : State) (c : List String) (l : Level) :
    ({ s with console := c } : State).current l = s.current l := by
  cases l <;> rfl

theorem current_transformEventWith (s : State) (e : Obj) (l : Level) :
    (transformEventWith uuid warn s e).2.current l =
      if thinkingTypeOf e = some l.start then some (uuid s.drawn) else s.current l := by
  cases h : thinkingTypeOf e with
  | none => simp [transformEventWith_of_none h]
  | some k => simp [transformEventWith_of_some h, current_rewrite]

/-! ### One run -/

theorem current_transformAll_of_no_start {l : Level} (s : State) {es : List Obj}
    (h : ∀ e ∈ es, thinkingTypeOf e ≠ some l.start) :
    (transformAll uuid warn s es).2.current l = s.current l :=
  mapState_snd_eq _ (State.current · l) s fun s' e he => by
    simp only [current_transformEventWith, if_neg (h e he)]

/-- (latest start) From any state, a legacy content or end event after a legacy start of its level,
with no other such start between them, carries the start's id. -/
theorem messageId_latest_start (s : State) {l : Level} {k : ThinkingType} {pre mid post : List Obj}
    {eS eC : Obj} (hS : thinkingTypeOf eS = some l.start) (hmid : ∀ e ∈ mid, thinkingTypeOf e ≠ some l.start)
    (hC : thinkingTypeOf eC = some k) (hk : k.level = l) (hk' : k ≠ l.start) :
    let outs := (transformAll uuid warn s (pre ++ eS :: mid ++ eC :: post)).1
    ∃ id, (outs[pre.length]?).bind (·.get "messageId") = some (.str id) ∧
      (outs[pre.length + mid.length + 1]?).bind (·.get "messageId") = some (.str id) := by
  dsimp only
  set s₁ := (transformAll uuid warn s pre).2
  set s₂ := (transformAll uuid warn (transformEventWith uuid warn s₁ eS).2 mid).2
  have hstart : (transformEventWith uuid warn s₁ eS).2.current l = some (uuid s₁.drawn) := by
    simp [current_transformEventWith, hS]
  have hmid' : s₂.current k.level = some (uuid s₁.drawn) := by
    rw [hk, current_transformAll_of_no_start _ hmid, hstart]
  have hS' : (transformAll uuid warn s (pre ++ eS :: mid ++ eC :: post)).1[pre.length]? =
      some (transformEventWith uuid warn s₁ eS).1 := by
    rw [show pre ++ eS :: mid ++ eC :: post = pre ++ eS :: (mid ++ eC :: post) by simp]
    exact getElem?_mapState _ s pre _ eS
  have hC' : (transformAll uuid warn s (pre ++ eS :: mid ++ eC :: post)).1[pre.length + mid.length + 1]? =
      some (transformEventWith uuid warn s₂ eC).1 := by
    rw [show pre.length + mid.length + 1 = (pre ++ eS :: mid).length by simp; omega, transformAll,
      getElem?_mapState]
    simp [mapState_append, mapState, s₂, s₁, transformAll]
  refine ⟨uuid s₁.drawn, ?_, ?_⟩
  · rw [hS', Option.some_bind, transformEventWith_of_some hS, messageId_rewrite]
    cases l <;> rfl
  · rw [hC', Option.some_bind, transformEventWith_of_some hC, messageId_rewrite, isStart_eq_false hk hk',
      hmid']
    rfl

/-! ### Separation of the two levels -/

/-- An id is known at a level when the run produced it at that level or holds it in the level's
field. -/
def Known (s : State) (P : List (Level × String)) (l : Level) (id : String) : Prop :=
  (l, id) ∈ P ∨ s.current l = some id

/-- (separation) Every known id came from an earlier call of `randomUUID`, and no id is known at both
levels. -/
structure Separated (uuid : Nat → String) (s : State) (P : List (Level × String)) : Prop where
  drawn : ∀ l id, Known s P l id → ∃ n < s.drawn, id = uuid n
  disjoint : ∀ id, Known s P .phase id → Known s P .message id → False

/-- The level and id of a rewritten event, from the event and its output. -/
def producedId (e o : Obj) : Option (Level × String) :=
  match thinkingTypeOf e, o.get "messageId" with
  | some k, some (.str id) => some (k.level, id)
  | _, _ => none

/-- The levels and ids of the rewritten events of a stream, in order. -/
def producedIds (es outs : List Obj) : List (Level × String) :=
  (es.zip outs).filterMap fun p => producedId p.1 p.2

theorem producedIds_cons (e o : Obj) (es os : List Obj) :
    producedIds (e :: es) (o :: os) = (producedId e o).toList ++ producedIds es os := by
  simp only [producedIds, List.zip_cons_cons, List.filterMap_cons]
  cases producedId e o <;> rfl

theorem drawn_le_transformEventWith (s : State) (e : Obj) : s.drawn ≤ (transformEventWith uuid warn s e).2.drawn := by
  cases h : thinkingTypeOf e with
  | none => simp [transformEventWith_of_none h]
  | some k => rw [transformEventWith_of_some h]; simp only [drawn_rewrite]; split <;> omega

/-- What one rewritten event adds to the known ids: only the id `randomUUID` returned, at the event's
level. -/
theorem known_transformEventWith {s : State} {P : List (Level × String)} {e : Obj} {k : ThinkingType}
    (h : thinkingTypeOf e = some k) {l : Level} {x : String}
    (hx : Known (transformEventWith uuid warn s e).2 (P ++ (producedId e (transformEventWith uuid warn s e).1).toList) l x) :
    Known s P l x ∨ (l = k.level ∧ x = uuid s.drawn ∧ s.drawn < (transformEventWith uuid warn s e).2.drawn) := by
  rw [transformEventWith_of_some h] at hx ⊢
  have hp : producedId e (rewrite uuid s e k).1 =
      some (k.level, if k.isStart then uuid s.drawn else (s.current k.level).getD (uuid s.drawn)) := by
    simp [producedId, h, messageId_rewrite]
  simp only [Known, hp, Option.toList_some, List.mem_append, List.mem_singleton, Prod.mk.injEq,
    current_setConsole, current_rewrite] at hx
  simp only [drawn_rewrite, Known]
  rcases hx with (hP | ⟨rfl, rfl⟩) | hc
  · exact .inl (.inl hP)
  · cases hs : k.isStart
    · cases hcur : s.current k.level <;> simp [hcur]
    · simp
  · split at hc
    · rename_i hk; subst hk; cases l <;> simp_all [Level.start, ThinkingType.isStart, ThinkingType.level]
    · exact .inl (.inr hc)

theorem separated_transformEventWith (huuid : Function.Injective uuid) {s : State} {P : List (Level × String)}
    (h : Separated uuid s P) (e : Obj) :
    Separated uuid (transformEventWith uuid warn s e).2 (P ++ (producedId e (transformEventWith uuid warn s e).1).toList) := by
  cases hk : thinkingTypeOf e with
  | none =>
    have hp : producedId e e = none := by simp [producedId, hk]
    simpa [transformEventWith_of_none hk, hp] using h
  | some k =>
    have hle := @drawn_le_transformEventWith uuid warn s e
    constructor
    · intro l x hx
      rcases known_transformEventWith hk hx with hx | ⟨-, rfl, hlt⟩
      · obtain ⟨n, hn, rfl⟩ := h.drawn l x hx
        exact ⟨n, by omega, rfl⟩
      · exact ⟨s.drawn, hlt, rfl⟩
    · intro x hp hm
      rcases known_transformEventWith hk hp with hp | ⟨hlp, rfl, -⟩ <;>
        rcases known_transformEventWith hk hm with hm | ⟨hlm, hx, -⟩
      · exact h.disjoint x hp hm
      · obtain ⟨n, hn, hxn⟩ := h.drawn _ _ hp
        exact absurd (huuid (hxn.symm.trans hx)) (by omega)
      · obtain ⟨n, hn, hxn⟩ := h.drawn _ _ hm
        exact absurd (huuid hxn) (by omega)
      · exact absurd (hlp.trans hlm.symm) (by decide)

theorem separated_transformAll (huuid : Function.Injective uuid) (s : State) (P : List (Level × String))
    (es : List Obj) (h : Separated uuid s P) :
    Separated uuid (transformAll uuid warn s es).2 (P ++ producedIds es (transformAll uuid warn s es).1) := by
  induction es generalizing s P with
  | nil => simpa [transformAll, mapState, producedIds] using h
  | cons e es ih =>
    simp only [transformAll, mapState, producedIds_cons, ← List.append_assoc]
    exact ih _ _ (separated_transformEventWith huuid h e)

theorem separated_reset (s : State) : Separated uuid s.reset [] :=
  ⟨fun l _ hx => by cases l <;> simp [Known, State.reset, State.current] at hx,
    fun _ hx => by simp [Known, State.reset, State.current] at hx⟩

/-- Every output of a stream is its event rewritten in some state. -/
theorem mem_zip_transformAll {s : State} {es : List Obj} {p : Obj × Obj}
    (hp : p ∈ es.zip (transformAll uuid warn s es).1) : ∃ s', p.2 = (transformEventWith uuid warn s' p.1).1 := by
  induction es generalizing s with
  | nil => simp at hp
  | cons e es ih =>
    simp only [transformAll, mapState, List.zip_cons_cons, List.mem_cons] at hp
    rcases hp with rfl | hp
    · exact ⟨s, rfl⟩
    · exact ih hp

theorem messageId_mem_producedIds {s : State} {es : List Obj} {p : Obj × Obj} {k : ThinkingType}
    (hp : p ∈ es.zip (transformAll uuid warn s es).1) (hk : thinkingTypeOf p.1 = some k) :
    ∃ id, p.2.get "messageId" = some (.str id) ∧ (k.level, id) ∈ producedIds es (transformAll uuid warn s es).1 := by
  obtain ⟨s', hs'⟩ := mem_zip_transformAll hp
  obtain ⟨id, hid⟩ : ∃ id, p.2.get "messageId" = some (.str id) := by
    rw [hs', transformEventWith_of_some hk, messageId_rewrite]; exact ⟨_, rfl⟩
  exact ⟨id, hid, List.mem_filterMap.2 ⟨p, hp, by simp [producedId, hk, hid]⟩⟩

/-! ### One run -/

/-- What a run's outputs `outs` guarantee about the ids of the rewritten events of its stream `es`. -/
structure RunCorrelation (es outs : List Obj) : Prop where
  /-- (a, b) A rewritten content or end event carries the id of the latest rewritten start of its
  level. -/
  latestStart : ∀ (l : Level) (k : ThinkingType) (pre mid post : List Obj) (eS eC : Obj),
    es = pre ++ eS :: mid ++ eC :: post → thinkingTypeOf eS = some l.start →
    (∀ e ∈ mid, thinkingTypeOf e ≠ some l.start) → thinkingTypeOf eC = some k → k.level = l →
    k ≠ l.start →
    ∃ id, (outs[pre.length]?).bind (·.get "messageId") = some (.str id) ∧
      (outs[pre.length + mid.length + 1]?).bind (·.get "messageId") = some (.str id)
  /-- (c) A rewritten phase-level event and a rewritten message-level event never share an id. -/
  separated : ∀ p ∈ es.zip outs, ∀ q ∈ es.zip outs,
    (thinkingTypeOf p.1).map ThinkingType.level = some .phase →
    (thinkingTypeOf q.1).map ThinkingType.level = some .message →
    p.2.get "messageId" ≠ q.2.get "messageId"

theorem runEvents_correlation (huuid : Function.Injective uuid) (s : State) (es : List Obj) :
    RunCorrelation es (runEvents uuid warn s es).1 where
  latestStart _ _ _ _ _ _ _ hes hS hmid hC hk hk' := by
    subst hes; exact messageId_latest_start s.reset hS hmid hC hk hk'
  separated p hp q hq hpl hql := by
    obtain ⟨kp, hkp, hkpl⟩ := Option.map_eq_some'.1 hpl
    obtain ⟨kq, hkq, hkql⟩ := Option.map_eq_some'.1 hql
    obtain ⟨x, hx, hxP⟩ := messageId_mem_producedIds hp hkp
    obtain ⟨y, hy, hyP⟩ := messageId_mem_producedIds hq hkq
    have hsep := @separated_transformAll uuid warn huuid s.reset [] es (separated_reset s)
    rw [hx, hy, Ne, Option.some.injEq, JsValue.str.injEq]
    rintro rfl
    rw [hkpl] at hxP; rw [hkql] at hyP
    exact hsep.disjoint x (.inl (by simpa using hxP)) (.inl (by simpa using hyP))

/-- The legacy flow of the middleware's tests, with every event once. -/
def thinkingFlow : List Obj :=
  [[("type", .str "THINKING_START"), ("title", .str "Analyzing")],
    [("type", .str "THINKING_TEXT_MESSAGE_START")],
    [("type", .str "THINKING_TEXT_MESSAGE_CONTENT"), ("delta", .str "Step 1...")],
    [("type", .str "THINKING_TEXT_MESSAGE_END")], [("type", .str "THINKING_END")]]

theorem runEvents_correlation_thinkingFlow :
    Function.Injective (fun n => String.mk (List.replicate n 'u')) ∧
      RunCorrelation thinkingFlow
        (runEvents (fun n => String.mk (List.replicate n 'u')) (fun _ _ => []) State.init thinkingFlow).1 :=
  have hinj : Function.Injective (fun n => String.mk (List.replicate n 'u')) := fun a b h => by
    simpa using congrArg String.length h
  ⟨hinj, runEvents_correlation hinj _ _⟩

/-- A run returns a stream with no legacy event as it is, from any state. -/
theorem transformAll_of_none (s : State) {es : List Obj} (h : ∀ e ∈ es, thinkingTypeOf e = none) :
    (transformAll uuid warn s es).1 = es :=
  mapState_fst_eq_self s fun s' e he => by rw [transformEventWith_of_none (h e he)]

/-- For every supply of ids and from every state, a run returns a native `REASONING_START` and a
native `REASONING_MESSAGE_START` as they are, with the id their producer gave them. -/
theorem runEvents_reasoning_passthrough (uuid : Nat → String) (warn : String → String → List String) (s : State)
    (id : String) :
    (runEvents uuid warn s [[("type", .str "REASONING_START"), ("messageId", .str id)],
        [("type", .str "REASONING_MESSAGE_START"), ("messageId", .str id), ("role", .str "assistant")]]).1 =
      [[("type", .str "REASONING_START"), ("messageId", .str id)],
        [("type", .str "REASONING_MESSAGE_START"), ("messageId", .str id), ("role", .str "assistant")]] := by
  refine transformAll_of_none _ fun e he => ?_
  simp only [List.mem_cons, List.mem_singleton, List.not_mem_nil, or_false] at he
  rcases he with rfl | rfl <;> rfl

/-- Events a run passes through unchanged keep the ids their producer gave them: even with a supply of
pairwise-distinct ids, a native `REASONING_START` and a native `REASONING_MESSAGE_START` may share
one. -/
theorem runEvents_native_reasoning_ids_meet :
    let outs := (runEvents (fun n => String.mk (List.replicate n 'u')) (fun _ _ => []) State.init
      [[("type", .str "REASONING_START"), ("messageId", .str "m")],
        [("type", .str "REASONING_MESSAGE_START"), ("messageId", .str "m"), ("role", .str "assistant")]]).1
    Function.Injective (fun n => String.mk (List.replicate n 'u')) ∧
      ∃ o₁ ∈ outs, ∃ o₂ ∈ outs, o₁.get "type" = some (.str "REASONING_START") ∧
        o₂.get "type" = some (.str "REASONING_MESSAGE_START") ∧ o₁.get "messageId" = o₂.get "messageId" := by
  intro outs
  refine ⟨fun a b h => by simpa using congrArg String.length h, ?_⟩
  rw [show outs = _ from runEvents_reasoning_passthrough _ _ _ "m"]
  exact ⟨_, List.mem_cons_self _ _, _, List.mem_cons_of_mem _ (List.mem_cons_self _ _), rfl, rfl, rfl⟩

/-! ### Interleaved runs -/

/-- An action that leaves the field of level `l` as it is: an event other than the start of `l`.  A
`run` call does not: it resets the field. -/
def Action.Keeps (l : Level) : Action → Prop
  | .run _ => False
  | .event _ e => thinkingTypeOf e ≠ some l.start

theorem current_exec_of_keeps {l : Level} (s : State) {as : List Action} (h : ∀ a ∈ as, a.Keeps l) :
    (exec uuid warn s as).2.current l = s.current l :=
  mapState_snd_eq _ (State.current · l) s fun s' a ha => by
    cases a with
    | run _ => exact (h _ ha).elim
    | event _ e => simp only [step, current_transformEventWith, if_neg (show _ from h _ ha)]

/-- (interleaving) Across any interleaving of runs on one instance, a legacy content or end event
carries the id of the latest legacy start of its level the instance rewrote, from whichever run,
when no `run` call came between them. -/
theorem exec_messageId_latest_start (s : State) {l : Level} {k : ThinkingType} {pre mid post : List Action}
    {rS rC : Nat} {eS eC : Obj} (hS : thinkingTypeOf eS = some l.start) (hmid : ∀ a ∈ mid, a.Keeps l)
    (hC : thinkingTypeOf eC = some k) (hk : k.level = l) (hk' : k ≠ l.start) :
    let outs := (exec uuid warn s (pre ++ .event rS eS :: mid ++ .event rC eC :: post)).1
    ∃ id, (outs[pre.length]?).join.bind (·.get "messageId") = some (.str id) ∧
      (outs[pre.length + mid.length + 1]?).join.bind (·.get "messageId") = some (.str id) := by
  dsimp only
  set s₁ := (exec uuid warn s pre).2
  set s₂ := (exec uuid warn (transformEventWith uuid warn s₁ eS).2 mid).2
  have hmid' : s₂.current k.level = some (uuid s₁.drawn) := by
    rw [hk, current_exec_of_keeps _ hmid]
    simp [current_transformEventWith, hS]
  have hS' : (exec uuid warn s (pre ++ .event rS eS :: mid ++ .event rC eC :: post)).1[pre.length]? =
      some (some (transformEventWith uuid warn s₁ eS).1) := by
    rw [show pre ++ .event rS eS :: mid ++ .event rC eC :: post = pre ++ .event rS eS :: (mid ++ .event rC eC :: post)
      by simp, exec, getElem?_mapState]
    rfl
  have hC' : (exec uuid warn s (pre ++ .event rS eS :: mid ++ .event rC eC :: post)).1[pre.length + mid.length + 1]? =
      some (some (transformEventWith uuid warn s₂ eC).1) := by
    rw [show pre.length + mid.length + 1 = (pre ++ .event rS eS :: mid).length by simp; omega, exec,
      getElem?_mapState]
    simp [mapState_append, mapState, step, s₂, s₁, exec]
  refine ⟨uuid s₁.drawn, ?_, ?_⟩
  · rw [hS', Option.join, Option.some_bind, id_eq, Option.some_bind, transformEventWith_of_some hS, messageId_rewrite]
    cases l <;> rfl
  · rw [hC', Option.join, Option.some_bind, id_eq, Option.some_bind, transformEventWith_of_some hC, messageId_rewrite,
      isStart_eq_false hk hk', hmid']
    rfl

/-- Run 1 opens a message, run 0 opens a phase, and run 0's next content event carries run 1's id. -/
theorem exec_messageId_latest_start_across_runs :
    let outs := (exec (fun n => String.mk (List.replicate n 'u')) (fun _ _ => []) State.init
      [.run 0, .run 1, .event 1 [("type", .str "THINKING_TEXT_MESSAGE_START")],
        .event 0 [("type", .str "THINKING_START")],
        .event 0 [("type", .str "THINKING_TEXT_MESSAGE_CONTENT"), ("delta", .str "x")]]).1
    ∃ id, (outs[2]?).join.bind (·.get "messageId") = some (.str id) ∧
      (outs[4]?).join.bind (·.get "messageId") = some (.str id) :=
  @exec_messageId_latest_start (fun n => String.mk (List.replicate n 'u')) (fun _ _ => []) State.init .message
    .thinkingTextMessageContent [.run 0, .run 1] [.event 0 [("type", .str "THINKING_START")]] [] 1 0
    [("type", .str "THINKING_TEXT_MESSAGE_START")]
    [("type", .str "THINKING_TEXT_MESSAGE_CONTENT"), ("delta", .str "x")] (by decide)
    (by simp only [List.forall_mem_singleton, Action.Keeps]; decide) (by decide) rfl (by decide)

/-- Run 0 and run 1 are started on one instance, and each begins a legacy message; the next content
event of run 0 carries the id drawn for run 1. -/
theorem exec_content_takes_other_run_id :
    let outs := (exec (fun n => String.mk (List.replicate n 'u')) (fun _ _ => []) State.init
      [.run 0, .run 1, .event 0 [("type", .str "THINKING_TEXT_MESSAGE_START")],
        .event 1 [("type", .str "THINKING_TEXT_MESSAGE_START")],
        .event 0 [("type", .str "THINKING_TEXT_MESSAGE_CONTENT"), ("delta", .str "x")]]).1
    (outs[2]?).join.bind (·.get "messageId") = some (.str "") ∧
      (outs[3]?).join.bind (·.get "messageId") = some (.str "u") ∧
      (outs[4]?).join.bind (·.get "messageId") = some (.str "u") := by
  decide

/-! ### Warnings -/

/-- The legacy types of the events of an interleaving, in order. -/
def legacyTypes : List Action → List ThinkingType
  | [] => []
  | .run _ :: as => legacyTypes as
  | .event _ e :: as => (thinkingTypeOf e).toList ++ legacyTypes as

/-- (warnings) The copy with `warnAboutTransformation` writes one line per legacy event it rewrites,
over any interleaving of runs, unless `SUPPRESS_TRANSFORMATION_WARNINGS` is a non-empty string; then
none. -/
theorem console_exec (suppress : Option String) (s : State) (as : List Action) :
    (exec uuid (warnAboutTransformation suppress) s as).2.console =
      s.console ++ if suppress.any (· ≠ "") then []
        else (legacyTypes as).map fun k => warningText k.eventType.name k.reasoning.name := by
  induction as generalizing s with
  | nil => simp [exec, mapState, legacyTypes]
  | cons a as ih =>
    simp only [exec] at ih
    cases a with
    | run _ => simp [exec, mapState, step, ih, legacyTypes, State.reset]
    | event _ e =>
      cases hk : thinkingTypeOf e with
      | none => simp [exec, mapState, step, ih, legacyTypes, hk, transformEventWith_of_none hk]
      | some k =>
        simp only [exec, mapState, step, ih, legacyTypes, hk, transformEventWith_of_some hk, console_rewrite,
          warnAboutTransformation]
        split <;> simp

/-- Six legacy content events print six warnings, all of one type. -/
theorem console_six_content_events :
    (exec (fun _ => "") (warnAboutTransformation none) State.init
      (.run 0 :: List.replicate 6 (.event 0 [("type", .str "THINKING_TEXT_MESSAGE_CONTENT"),
        ("delta", .str "t")]))).2.console =
      List.replicate 6 (warningText "THINKING_TEXT_MESSAGE_CONTENT" "REASONING_MESSAGE_CONTENT") :=
  rfl

end BackwardCompatibility

end AgUi
