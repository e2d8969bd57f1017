import AgUi.Ruby.Util
import AgUi.Json.Parse

/-!
# `EventEncoder`: events as server-sent events

`EventEncoder#encode` writes `"data: #{JSON.generate(event.as_json)}\n\n"`.  A client reads the
stream by the event-stream interpretation of the server-sent events standard: lines end at CRLF,
LF or CR; a `data:` line appends its value and a line feed to the data buffer; a blank line
dispatches the buffer without its last line feed.

* `newline_not_mem_generate` (in `Json.Generate`) keeps every frame to one `data:` line and a blank
  line, whatever the strings of the event hold.
* `sseEvents_frames`: the stream of frames of trees `j₁ … jₙ` gives exactly the events
  `generate j₁ … generate jₙ`.
* `exists_toJson`: the JSON tree of a normal form whose floats are finite has distinct keys, so
  reading it back gives it again (`parse_generate`).
* `encode_isSome_iff`: `encode` raises (`JSON::GeneratorError`) exactly when the event's `as_json`
  holds a `NaN` or an infinite `Float`.
* `encode_stream`: a client reading the frames of any sequence of events whose `as_json`
  `JSON.generate` accepts receives one event per frame, whose data parses to the JSON tree of the
  event's `as_json`.
-/

namespace AgUi

namespace EventEncoder

open Json Util

/-! ### Reading a stream -/

/-- The lines of a stream, each without its terminator (CRLF, LF or CR), and last the unterminated
rest. -/
def splitLines : List Char → List (List Char)
  | [] => [[]]
  | '\r' :: '\n' :: r => [] :: splitLines r
  | c :: r =>
    if c = '\n' ∨ c = '\r' then [] :: splitLines r
    else
      match splitLines r with
      | l :: ls => (c :: l) :: ls
      | [] => [[c]]

/-- The data buffer and the data of the events dispatched so far. -/
structure SseState where
  data : List Char
  events : List (List Char)

/-- One line of the stream: a blank line dispatches the buffer unless it is empty, a line starting
with `:` is a comment, a `data` field appends its value (one leading space dropped) and a line feed.
Other fields (`event`, `id`, `retry`) do not touch the data. -/
def processLine (st : SseState) (line : List Char) : SseState :=
  if line = [] then
    if st.data = [] then st else ⟨[], st.events ++ [st.data.dropLast]⟩
  else if line.head? = some ':' then st
  else
    let field := line.takeWhile (· != ':')
    let value := match line.dropWhile (· != ':') with
      | [] => []
      | _ :: v => if v.head? = some ' ' then v.tail else v
    if field = ['d', 'a', 't', 'a'] then { st with data := st.data ++ value ++ ['\n'] } else st

/-- The data of the events a client receives from a stream; an event the stream does not close with
a blank line is dropped. -/
def sseEvents (stream : List Char) : List (List Char) :=
  ((splitLines stream).dropLast.foldl processLine ⟨[], []⟩).events

/-! ### Writing a stream -/

/-- The frame of one event. -/
def frame (j : JsValue) : List Char := ['d', 'a', 't', 'a', ':', ' '] ++ generate j ++ ['\n', '\n']

variable (up : CaseMapping)

/-- `encode(event)`: the frame of the JSON tree of `event.as_json`, for the model whose `to_h` is
`event`; `none` where `JSON.generate` raises. -/
def encode (event : List (RKey × RValue)) : Option (List Char) :=
  (asJson up (.model event)).toJson.map frame

/-! ### Frames are read back one by one -/

theorem splitLines_append {l : List Char} (hl : '\n' ∉ l ∧ '\r' ∉ l) (r : List Char) :
    splitLines (l ++ '\n' :: r) = l :: splitLines r := by
  induction l with
  | nil => rfl
  | cons c l ih =>
    simp only [List.mem_cons, not_or] at hl
    rw [List.cons_append, splitLines.eq_3 _ _ (fun _ h => absurd h (Ne.symm hl.2.1)),
      if_neg (by rintro (h | h) <;> [exact hl.1.1 h.symm; exact hl.2.1 h.symm]), ih ⟨hl.1.2, hl.2.2⟩]

theorem splitLines_frame (j : JsValue) (r : List Char) :
    splitLines (frame j ++ r) = (['d', 'a', 't', 'a', ':', ' '] ++ generate j) :: [] :: splitLines r := by
  have h := newline_not_mem_generate j
  rw [frame, List.append_assoc, List.append_assoc, show ['\n', '\n'] ++ r = '\n' :: ([] ++ '\n' :: r) from rfl,
    ← List.append_assoc, splitLines_append (by simpa using h), splitLines_append (by simp)]

theorem processLine_frame (st : SseState) (j : JsValue) :
    processLine (processLine st (['d', 'a', 't', 'a', ':', ' '] ++ generate j)) [] =
      if st.data = [] then ⟨[], st.events ++ [generate j]⟩ else ⟨[], st.events ++ [st.data ++ generate j]⟩ := by
  have hdata : processLine st (['d', 'a', 't', 'a', ':', ' '] ++ generate j) =
      { st with data := st.data ++ generate j ++ ['\n'] } := rfl
  rw [hdata, processLine, if_pos rfl, if_neg (by simp)]
  split <;> simp_all [List.dropLast_append_of_ne_nil]

theorem splitLines_flatMap_frame (js : List JsValue) :
    splitLines (js.flatMap frame) =
      js.flatMap (fun j => [['d', 'a', 't', 'a', ':', ' '] ++ generate j, []]) ++ [[]] := by
  induction js with
  | nil => rfl
  | cons j js ih => rw [List.flatMap_cons, splitLines_frame, ih, List.flatMap_cons]; rfl

/-- A stream of frames gives one event per frame, with the text `JSON.generate` wrote. -/
theorem sseEvents_frames (js : List JsValue) : sseEvents (js.flatMap frame) = js.map generate := by
  suffices h : ∀ events, (js.flatMap (fun j => [['d', 'a', 't', 'a', ':', ' '] ++ generate j, []])).foldl
      processLine ⟨[], events⟩ = ⟨[], events ++ js.map generate⟩ by
    rw [sseEvents, splitLines_flatMap_frame, List.dropLast_concat, h]; rfl
  induction js with
  | nil => simp
  | cons j js ih =>
    intro events
    rw [List.flatMap_cons, List.foldl_append, List.foldl_cons, List.foldl_cons, List.foldl_nil,
      processLine_frame, if_pos rfl, ih, List.map_cons, List.append_assoc, List.singleton_append]

/-! ### The tree of `as_json` -/

theorem nodup_map_toS {ks : List RKey} (hnd : ks.Nodup) (hs : ∀ k ∈ ks, ∃ s, k = .str s) :
    (ks.map RKey.toS).Nodup :=
  hnd.map_on fun x hx y hy hxy => by
    obtain ⟨a, rfl⟩ := hs x hx
    obtain ⟨b, rfl⟩ := hs y hy
    exact congrArg RKey.str hxy

mutual
theorem exists_toJson : ∀ v : RValue, IsCompact v → CamelKeys up v → v.finiteFloats = true →
    ∃ j, v.toJson = some j ∧ IsJson j
  | .nil, _, _, _ | .bool _, _, _, _ | .int _, _, _, _ | .float (.finite _), _, _, _ | .str _, _, _, _
  | .sym _, _, _, _ | .time _, _, _, _ => ⟨_, rfl, trivial⟩
  | .float .nan, _, _, hf | .float .infinity, _, _, hf | .float .negInfinity, _, _, hf => nomatch hf
  | .model _, h, _, _ => h.elim
  | .arr xs, h, hk, hf => by
    obtain ⟨js, hjs, hj⟩ := exists_toJsonList xs h hk hf
    exact ⟨.arr js, by simp [RValue.toJson, hjs], hj⟩
  | .hash es, h, ⟨hnd, hk⟩, hf => by
    obtain ⟨ps, hps, hkeys, hj⟩ := exists_toJsonProps es h hk hf
    refine ⟨.obj ps, by simp [RValue.toJson, hps], ?_, hj⟩
    rw [hkeys]
    exact nodup_map_toS hnd fun k hk' => by
      obtain ⟨p, hp, rfl⟩ := List.mem_map.1 hk'
      exact ⟨_, ((camelKeysEntries_iff up).1 hk p hp).1⟩
theorem exists_toJsonList : ∀ xs : List RValue, IsCompactElems xs → CamelKeysElems up xs →
    RValue.finiteFloatsList xs = true → ∃ js, RValue.toJsonList xs = some js ∧ IsJsonList js
  | [], _, _, _ => ⟨[], rfl, trivial⟩
  | v :: vs, ⟨_, hv, hvs⟩, ⟨hk, hks⟩, hf => by
    simp only [RValue.finiteFloatsList, Bool.and_eq_true] at hf
    obtain ⟨j, hj, hj'⟩ := exists_toJson v hv hk hf.1
    obtain ⟨js, hjs, hjs'⟩ := exists_toJsonList vs hvs hks hf.2
    exact ⟨j :: js, by simp [RValue.toJsonList, hj, hjs], hj', hjs'⟩
theorem exists_toJsonProps : ∀ es : List (RKey × RValue), IsCompactEntries es → CamelKeysEntries up es →
    RValue.finiteFloatsProps es = true →
      ∃ ps, RValue.toJsonProps es = some ps ∧ Dict.keys ps = (Dict.keys es).map RKey.toS ∧ IsJsonProps ps
  | [], _, _, _ => ⟨[], rfl, rfl, trivial⟩
  | (k, v) :: es, ⟨_, hv, hes⟩, ⟨_, hk, hks⟩, hf => by
    simp only [RValue.finiteFloatsProps, Bool.and_eq_true] at hf
    obtain ⟨j, hj, hj'⟩ := exists_toJson v hv hk hf.1
    obtain ⟨ps, hps, hkeys, hps'⟩ := exists_toJsonProps es hes hks hf.2
    exact ⟨(k.toS, j) :: ps, by simp [RValue.toJsonProps, hj, hps], by simp [hkeys], hj', hps'⟩
end

theorem encode_eq {event : List (RKey × RValue)} (hf : (asJson up (.model event)).finiteFloats = true) :
    ∃ j, (asJson up (.model event)).toJson = some j ∧ IsJson j ∧ encode up event = some (frame j) := by
  have hn := isNormal_asJson up (.model event)
  obtain ⟨j, hj, hj'⟩ := exists_toJson up _ hn.compact hn.camelKeys hf
  exact ⟨j, hj, hj', by rw [encode, hj]; rfl⟩

/-- `{ value: Float::NAN }` raises. -/
example : encode .ascii [(.sym "value", .float .nan)] = none := by decide

theorem map_encode {events : List (List (RKey × RValue))}
    (hgen : ∀ e ∈ events, ((asJson up (.model e)).toJson).isSome) :
    ∃ js : List JsValue, events.map (fun e => (asJson up (.model e)).toJson) = js.map some ∧
      events.map (encode up) = js.map (some ∘ frame) ∧ ∀ j ∈ js, IsJson j := by
  induction events with
  | nil => exact ⟨[], rfl, rfl, by simp⟩
  | cons e events ih =>
    obtain ⟨js, h₁, h₂, h₃⟩ := ih fun e' he' => hgen e' (List.mem_cons_of_mem _ he')
    obtain ⟨j', hj'⟩ := Option.isSome_iff_exists.1 (hgen e (List.mem_cons_self _ _))
    obtain ⟨j, hj, hjson, henc⟩ := encode_eq up (RValue.finiteFloats_of_toJson hj')
    exact ⟨j :: js, by simp [hj, h₁], by simp [henc, h₂], by simpa using ⟨hjson, h₃⟩⟩

/-- (framing) Every model whose `as_json` `JSON.generate` accepts is encoded as one `data:` line of
`JSON.generate` text, free of line breaks, and a blank line.  A client reading the frames of a
sequence of such models receives one event per model, and the data of each parses to the JSON tree of
the model's `as_json`; read as Ruby objects, that tree is `as_json` itself when it holds no `Time` and
no `Symbol`. -/
theorem encode_stream {events : List (List (RKey × RValue))}
    (hgen : ∀ e ∈ events, ((asJson up (.model e)).toJson).isSome) :
    ∃ js : List JsValue,
      events.map (fun e => (asJson up (.model e)).toJson) = js.map some ∧
      events.map (encode up) = js.map (some ∘ frame) ∧
      (∀ j ∈ js, '\n' ∉ generate j ∧ '\r' ∉ generate j) ∧
      (sseEvents (js.map frame).flatten).map parse = js.map some ∧
      ∀ e ∈ events, (asJson up (.model e)).IsPlain →
        ((asJson up (.model e)).toJson).map RValue.ofJson = some (asJson up (.model e)) := by
  obtain ⟨js, h₁, h₂, h₃⟩ := map_encode up hgen
  refine ⟨js, h₁, h₂, fun j _ => newline_not_mem_generate j, ?_, fun e _ hp => RValue.ofJson_toJson _ hp⟩
  show (sseEvents (js.flatMap frame)).map parse = _
  rw [sseEvents_frames, List.map_map]
  exact List.map_congr_left fun j hj => parse_generate j (h₃ j hj)

/-- A run start whose thread id holds a blank line, and a delta holding `nil`, the float `1.5` and a
carriage return. -/
def twoEvents : List (List (RKey × RValue)) :=
  [[(.sym "type", .str "RUN_STARTED"), (.sym "thread_id", .str "t\n\nx")],
    [(.sym "delta", .arr [.nil, .float (.finite ⟨false, 1, [5], by decide, none⟩), .str "a\r"])]]

theorem encode_stream_two_events :
    (∀ e ∈ twoEvents, ((asJson .ascii (.model e)).toJson).isSome) ∧
    ∃ js : List JsValue,
      twoEvents.map (fun e => (asJson .ascii (.model e)).toJson) = js.map some ∧
      twoEvents.map (encode .ascii) = js.map (some ∘ frame) ∧
      (∀ j ∈ js, '\n' ∉ generate j ∧ '\r' ∉ generate j) ∧
      (sseEvents (js.map frame).flatten).map parse = js.map some ∧
      ∀ e ∈ twoEvents, (asJson .ascii (.model e)).IsPlain →
        ((asJson .ascii (.model e)).toJson).map RValue.ofJson = some (asJson .ascii (.model e)) :=
  ⟨by decide, encode_stream .ascii (by decide)⟩

end EventEncoder

end AgUi