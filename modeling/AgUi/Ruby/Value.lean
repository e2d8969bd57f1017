import AgUi.Core.Events

/-!
# Ruby values of the Ruby SDK

The objects the Ruby SDK's models hold and `Util` walks over: `nil`, booleans, integers, floats,
strings, symbols, `Time`s, arrays, hashes and instances of `Types::Model`.  A hash is its list of
entries in insertion order, keyed by a string or a symbol; a model is what its `to_h` returns, which
is all that `Util.normalize_value` reads of it.  A `Time` is kept as the text `Time#to_s` writes, and
a finite `Float` as the parts of the text `Float#to_s` writes, which is all `JSON.generate` reads of
them.

`RValue.toJson` is the JSON tree `JSON.generate` writes for a value, as a `JsValue`, or `none` where it
raises: on `NaN`, `Infinity` and `-Infinity` (`JSON::GeneratorError`, since `allow_nan` is off).
`RValue.ofJson` is the Ruby objects `JSON.parse` returns for a tree; on a plain value, one that
`JSON.parse` could return, reading back what was written gives the value again (`ofJson_toJson`).
-/

namespace AgUi

/-- A hash key: a `String` or a `Symbol`. -/
inductive RKey where
  | str (s : String)
  | sym (s : String)
  deriving DecidableEq, Repr

/-- `key.to_s`. -/
def RKey.toS : RKey → String
  | .str s | .sym s => s

/-- A `Float`: a finite one by the parts of the text `Float#to_s` writes, or one of the three values
that are not finite. -/
inductive RFloat where
  | finite (d : JsDecimal)
  | nan
  | infinity
  | negInfinity
  deriving DecidableEq, Repr

/-- A Ruby object. -/
inductive RValue where
  | nil
  | bool (b : Bool)
  | int (n : Int)
  | float (f : RFloat)
  | str (s : String)
  | sym (s : String)
  /-- A `Time`, by the text of its `to_s`. -/
  | time (toS : String)
  | arr (xs : List RValue)
  | hash (entries : List (RKey × RValue))
  /-- A `Types::Model`, by the hash its `to_h` returns. -/
  | model (toH : List (RKey × RValue))

namespace RValue

/-- `nil?`. -/
def isNil : RValue → Bool
  | nil => true
  | _ => false

@[simp] theorem isNil_nil : nil.isNil = true := rfl

@[simp] theorem isNil_bool (b : Bool) : (bool b).isNil = false := rfl

@[simp] theorem isNil_float (f : RFloat) : (float f).isNil = false := rfl

@[simp] theorem isNil_str (s : String) : (str s).isNil = false := rfl

@[simp] theorem isNil_time (s : String) : (time s).isNil = false := rfl

@[simp] theorem isNil_arr (xs : List RValue) : (arr xs).isNil = false := rfl

@[simp] theorem isNil_hash (h : List (RKey × RValue)) : (hash h).isNil = false := rfl

@[simp] theorem isNil_model (h : List (RKey × RValue)) : (model h).isNil = false := rfl

/-- `value[key]` on a hash, by a string key; `none` where Ruby gives `nil` for want of the key or
of a hash. -/
def get : RValue → String → Option RValue
  | hash h, s => Dict.get h (.str s)
  | _, _ => none

/-! ### Writing and reading JSON -/

mutual
/-- The JSON tree `JSON.generate` writes: symbols, times, floats and keys through `to_s`; `none` where
it raises, on a float that is not finite.  A model inside a value is written by its own `to_json`,
which is not followed here (`none`). -/
def toJson : RValue → Option JsValue
  | nil => some .null
  | bool b => some (.bool b)
  | int n => some (.num n)
  | float (.finite d) => some (.decimal d)
  | float .nan | float .infinity | float .negInfinity => none
  | str s | sym s | time s => some (.str s)
  | arr xs => (toJsonList xs).map .arr
  | hash h => (toJsonProps h).map .obj
  | model _ => none
/-- `toJson` on the elements of an array. -/
def toJsonList : List RValue → Option (List JsValue)
  | [] => some []
  | v :: vs => (toJson v).bind fun j => (toJsonList vs).map (j :: ·)
/-- `toJson` on the entries of a hash. -/
def toJsonProps : List (RKey × RValue) → Option (List (String × JsValue))
  | [] => some []
  | (k, v) :: h => (toJson v).bind fun j => (toJsonProps h).map ((k.toS, j) :: ·)
end

@[simp] theorem toJson_bool (b : Bool) : (bool b).toJson = some (.bool b) := rfl

@[simp] theorem toJson_str (s : String) : (str s).toJson = some (.str s) := rfl

@[simp] theorem toJson_time (s : String) : (time s).toJson = some (.str s) := rfl

mutual
/-- The objects `JSON.parse` returns: string keys, integers, and floats for the numbers with a
fraction or an exponent. -/
def ofJson : JsValue → RValue
  | .undef | .null => nil
  | .bool b => bool b
  | .num n => int n
  | .decimal d => float (.finite d)
  | .str s => str s
  | .arr xs => arr (ofJsonList xs)
  | .obj ps => hash (ofJsonProps ps)
/-- `ofJson` on the elements of an array. -/
def ofJsonList : List JsValue → List RValue
  | [] => []
  | j :: js => ofJson j :: ofJsonList js
/-- `ofJson` on the entries of an object. -/
def ofJsonProps : List (String × JsValue) → List (RKey × RValue)
  | [] => []
  | (k, j) :: ps => (.str k, ofJson j) :: ofJsonProps ps
end

mutual
/-- A value `JSON.parse` could return: no symbol, time, model or float that is not finite, and string
keys. -/
def IsPlain : RValue → Prop
  | sym _ | time _ | model _ => False
  | float .nan | float .infinity | float .negInfinity => False
  | arr xs => IsPlainList xs
  | hash h => IsPlainProps h
  | _ => True
def IsPlainList : List RValue → Prop
  | [] => True
  | v :: vs => IsPlain v ∧ IsPlainList vs
def IsPlainProps : List (RKey × RValue) → Prop
  | [] => True
  | (.str _, v) :: h => IsPlain v ∧ IsPlainProps h
  | (.sym _, _) :: _ => False
end

mutual
/-- Every `Float` the value holds is finite (`Float#finite?`), at any depth, models included. -/
def finiteFloats : RValue → Bool
  | float f => (f matches .finite _)
  | arr xs => finiteFloatsList xs
  | hash h | model h => finiteFloatsProps h
  | _ => true
def finiteFloatsList : List RValue → Bool
  | [] => true
  | v :: vs => finiteFloats v && finiteFloatsList vs
def finiteFloatsProps : List (RKey × RValue) → Bool
  | [] => true
  | (_, v) :: h => finiteFloats v && finiteFloatsProps h
end

theorem finiteFloatsList_iff {xs : List RValue} : finiteFloatsList xs = true ↔ ∀ v ∈ xs, v.finiteFloats = true := by
  induction xs with
  | nil => simp [finiteFloatsList]
  | cons v xs ih => simp [finiteFloatsList, ih]

theorem finiteFloatsProps_iff {h : List (RKey × RValue)} :
    finiteFloatsProps h = true ↔ ∀ p ∈ h, p.2.finiteFloats = true := by
  induction h with
  | nil => simp [finiteFloatsProps]
  | cons p h ih => simp [finiteFloatsProps, ih]

mutual
/-- `JSON.generate` writes a value only when every float in it is finite. -/
theorem finiteFloats_of_toJson : ∀ {v : RValue} {j : JsValue}, v.toJson = some j → v.finiteFloats = true
  | nil, _, _ | bool _, _, _ | int _, _, _ | float (.finite _), _, _ | str _, _, _ | sym _, _, _
  | time _, _, _ => rfl
  | float .nan, _, h | float .infinity, _, h | float .negInfinity, _, h | model _, _, h => nomatch h
  | arr xs, _, h => by
    obtain ⟨js, hjs, -⟩ := Option.map_eq_some'.1 h
    exact finiteFloatsList_of_toJsonList hjs
  | hash ps, _, h => by
    obtain ⟨js, hjs, -⟩ := Option.map_eq_some'.1 h
    exact finiteFloatsProps_of_toJsonProps hjs
theorem finiteFloatsList_of_toJsonList :
    ∀ {xs : List RValue} {js : List JsValue}, toJsonList xs = some js → finiteFloatsList xs = true
  | [], _, _ => rfl
  | v :: vs, _, h => by
    obtain ⟨j, hj, h⟩ := Option.bind_eq_some.1 h
    obtain ⟨js, hjs, -⟩ := Option.map_eq_some'.1 h
    simp only [finiteFloatsList, finiteFloats_of_toJson hj, finiteFloatsList_of_toJsonList hjs, Bool.and_self]
theorem finiteFloatsProps_of_toJsonProps :
    ∀ {ps : List (RKey × RValue)} {js : List (String × JsValue)}, toJsonProps ps = some js →
      finiteFloatsProps ps = true
  | [], _, _ => rfl
  | (_, v) :: ps, _, h => by
    obtain ⟨j, hj, h⟩ := Option.bind_eq_some.1 h
    obtain ⟨js, hjs, -⟩ := Option.map_eq_some'.1 h
    simp only [finiteFloatsProps, finiteFloats_of_toJson hj, finiteFloatsProps_of_toJsonProps hjs, Bool.and_self]
end

theorem mem_ofJsonProps {ps : List (String × JsValue)} {k : String} {j : JsValue} (h : (k, j) ∈ ps) :
    (RKey.str k, ofJson j) ∈ ofJsonProps ps := by
  induction ps with
  | nil => cases h
  | cons p ps ih =>
    obtain ⟨k', j'⟩ := p
    rcases List.mem_cons.1 h with h | h
    · cases h; exact List.mem_cons_self _ _
    · exact List.mem_cons_of_mem _ (ih h)

/-- A key of a hash written by `JSON.generate` is looked up in the JSON object as its Ruby key was in
the hash, when the keys are strings. -/
theorem get_toJsonProps : ∀ {h : List (RKey × RValue)} {ps : List (String × JsValue)},
    toJsonProps h = some ps → (∀ p ∈ h, ∃ s, p.1 = .str s) → ∀ s, Dict.get ps s = (Dict.get h (.str s)).bind toJson
  | [], _, hps, _, _ => by cases hps; rfl
  | (k, v) :: h, ps, hps, hk, s => by
    obtain ⟨s', rfl⟩ := hk (k, v) (List.mem_cons_self _ _)
    obtain ⟨j, hj, hps⟩ := Option.bind_eq_some.1 hps
    obtain ⟨ps', hps', rfl⟩ := Option.map_eq_some'.1 hps
    rw [Dict.get_cons, Dict.get_cons, get_toJsonProps hps' (fun p hp => hk p (List.mem_cons_of_mem _ hp))]
    by_cases hs : s' = s
    · simp [hs, hj, RKey.toS]
    · simp [hs, RKey.toS]

mutual
/-- What `JSON.parse` returns of what `JSON.generate` writes is the value itself, for a plain
value. -/
theorem ofJson_toJson : ∀ v : RValue, IsPlain v → (toJson v).map ofJson = some v
  | nil, _ | bool _, _ | int _, _ | float (.finite _), _ | str _, _ => rfl
  | arr xs, h => by
    obtain ⟨js, hjs, rfl⟩ := Option.map_eq_some'.1 (ofJsonList_toJsonList xs h)
    simp [toJson, hjs, ofJson]
  | hash ps, h => by
    obtain ⟨js, hjs, rfl⟩ := Option.map_eq_some'.1 (ofJsonProps_toJsonProps ps h)
    simp [toJson, hjs, ofJson]
theorem ofJsonList_toJsonList : ∀ xs : List RValue, IsPlainList xs → (toJsonList xs).map ofJsonList = some xs
  | [], _ => rfl
  | v :: vs, ⟨hv, hvs⟩ => by
    obtain ⟨j, hj, rfl⟩ := Option.map_eq_some'.1 (ofJson_toJson v hv)
    obtain ⟨js, hjs, hjs'⟩ := Option.map_eq_some'.1 (ofJsonList_toJsonList vs hvs)
    simp [toJsonList, hj, hjs, ofJsonList, hjs']
theorem ofJsonProps_toJsonProps :
    ∀ ps : List (RKey × RValue), IsPlainProps ps → (toJsonProps ps).map ofJsonProps = some ps
  | [], _ => rfl
  | (.str k, v) :: ps, ⟨hv, hps⟩ => by
    obtain ⟨j, hj, rfl⟩ := Option.map_eq_some'.1 (ofJson_toJson v hv)
    obtain ⟨js, hjs, hjs'⟩ := Option.map_eq_some'.1 (ofJsonProps_toJsonProps ps hps)
    simp [toJsonProps, hj, hjs, ofJsonProps, hjs', RKey.toS]
end

end RValue

end AgUi
