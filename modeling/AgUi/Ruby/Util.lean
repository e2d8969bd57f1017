import AgUi.Ruby.Value
import AgUi.ListLemmas
import Mathlib.Data.List.Basic

/-!
# `AgUiProtocol::Util`: the JSON-ready form of a value

`Model#as_json` is `deep_transform_keys_to_camel(deep_compact(to_h))`.  The same two walks applied to
any value give `asJson`, which is `Model#as_json` on a model.

* `camelizeKey_camelizeKey`: `camelize_key` leaves its own results as they are, also the keys it
  returns unchanged because `split("_")` gives at most one piece (`"a_"`, `"_"`, `""`).
* `isNormal_asJson`: `asJson v` holds no `nil` hash value, no `nil` array element and no model at any
  depth, and its keys are distinct strings that `camelize_key` leaves as they are.
* `asJson_normalForm`: normalizing a normal form changes nothing.
* `get_asJson_model`: under the camelized form of a key of a model's `to_h`, `as_json` holds the
  normal form of the key's value, when no other key camelizes alike.

Ruby's `upcase` of a character is a parameter, `CaseMapping`: all the walks need of it is that it
never writes `_`.
-/

namespace AgUi

/-- Ruby's `upcase` of a one-character string.  No case mapping yields `_`. -/
structure CaseMapping where
  upcase : Char → List Char
  upcase_ne_underscore : ∀ c, c ≠ '_' → '_' ∉ upcase c

/-- `upcase` on ASCII letters, every other character left as it is. -/
def CaseMapping.ascii : CaseMapping where
  upcase c := [c.toUpper]
  upcase_ne_underscore c hc := by
    rw [List.mem_singleton]
    simp only [Char.toUpper]
    split_ifs with h
    · intro h'
      have hv : (c.toNat - 32).isValidChar := Or.inl (by omega)
      have h'' := congrArg Char.toNat h'.symm
      rw [Char.ofNat, dif_pos hv] at h''
      simp only [Char.ofNatAux, Char.toNat, UInt32.toNat, BitVec.toNat_ofNatLt] at h h''
      have : '_'.val.toBitVec.toNat = 95 := rfl
      omega
    · exact Ne.symm hc

namespace Util

variable (up : CaseMapping)

/-! ### `camelize_key` -/

/-- Ruby's `str.split("_")`: the pieces between underscores, trailing empty pieces removed. -/
def splitUnderscore (s : List Char) : List (List Char) :=
  ((s.splitOnP (· == '_')).reverse.dropWhile List.isEmpty).reverse

/-- `p.empty? ? "" : (p[0].upcase + p[1..])`. -/
def capitalize : List Char → List Char
  | [] => []
  | c :: cs => up.upcase c ++ cs

/-- `camelize_key`: keys whose `to_s` has at most one piece are returned as they are; the others
lose their underscores and every piece but the first is capitalized. -/
def camelizeKey (key : RKey) : String :=
  let str := key.toS
  let parts := splitUnderscore str.toList
  if parts.length ≤ 1 then str
  else ⟨parts.headD [] ++ ((parts.drop 1).map (capitalize up)).flatten⟩

theorem mem_splitOnP_of_mem_splitUnderscore {s l : List Char} (h : l ∈ splitUnderscore s) :
    l ∈ s.splitOnP (· == '_') :=
  List.mem_reverse.1 ((List.dropWhile_suffix _).subset (List.mem_reverse.1 h))

theorem length_splitUnderscore_le_one {s : List Char} (h : '_' ∉ s) : (splitUnderscore s).length ≤ 1 := by
  rw [splitUnderscore, List.splitOnP_eq_single _ _ (fun c hc => by simpa using ne_of_mem_of_not_mem hc h)]
  cases hs : s.isEmpty <;> simp [List.dropWhile, hs]

theorem not_mem_capitalize {l : List Char} (h : '_' ∉ l) : '_' ∉ capitalize up l := by
  cases l with
  | nil => simp [capitalize]
  | cons c cs =>
    simp only [List.mem_cons, not_or] at h
    simpa [capitalize, h.2] using up.upcase_ne_underscore c (Ne.symm h.1)

/-- A key `camelize_key` rewrites comes out without underscores. -/
theorem not_mem_camelizeKey {key : RKey} (h : ¬ (splitUnderscore key.toS.toList).length ≤ 1) :
    '_' ∉ (camelizeKey up key).toList := by
  have hparts : ∀ l ∈ splitUnderscore key.toS.toList, '_' ∉ l := fun l hl hx => by
    simpa using (mem_of_mem_splitOnP (mem_splitOnP_of_mem_splitUnderscore hl) hx).2
  have e : (camelizeKey up key).toList = (splitUnderscore key.toS.toList).headD [] ++
      ((splitUnderscore key.toS.toList).drop 1 |>.map (capitalize up)).flatten :=
    congrArg String.toList (if_neg h)
  rw [e, List.mem_append, not_or, List.mem_flatten]
  refine ⟨fun hx => ?_, fun ⟨l, hl, hx⟩ => ?_⟩
  · cases hs : splitUnderscore key.toS.toList with
    | nil => rw [hs] at h; exact h (by simp)
    | cons l ls => rw [hs] at hx; exact hparts l (hs ▸ List.mem_cons_self l ls) hx
  · obtain ⟨l', hl', rfl⟩ := List.mem_map.1 hl
    exact not_mem_capitalize up (hparts l' (List.mem_of_mem_drop hl')) hx

theorem camelizeKey_of_length_le_one {key : RKey} (h : (splitUnderscore key.toS.toList).length ≤ 1) :
    camelizeKey up key = key.toS :=
  if_pos h

/-- A key without underscores is its own camelized form. -/
theorem camelizeKey_of_not_mem {key : RKey} (h : '_' ∉ key.toS.toList) : camelizeKey up key = key.toS :=
  camelizeKey_of_length_le_one up (length_splitUnderscore_le_one h)

@[simp] theorem camelizeKey_camelizeKey (key : RKey) :
    camelizeKey up (.str (camelizeKey up key)) = camelizeKey up key := by
  by_cases h : (splitUnderscore key.toS.toList).length ≤ 1
  · rw [camelizeKey_of_length_le_one up h]
    exact @camelizeKey_of_length_le_one up (.str key.toS) h
  · exact camelizeKey_of_not_mem up (not_mem_camelizeKey up h)

/-! ### Keys of lower-case letters and underscores -/

/-- Ruby's `upcase` on the lower-case ASCII letters. -/
def UpcasesAscii (up : CaseMapping) : Prop := ∀ c : Char, c.isLower → up.upcase c = [c.toUpper]

/-- `camelize_key` reads `upcase` only at the first letter of each piece after the first: on a key
of lower-case ASCII letters and underscores, every case mapping that agrees with ASCII on these
letters camelizes alike. -/
theorem camelizeKey_eq_ascii {up : CaseMapping} (hup : UpcasesAscii up) {k : RKey}
    (hk : ∀ c ∈ k.toS.toList, c = '_' ∨ c.isLower) : camelizeKey up k = camelizeKey .ascii k := by
  unfold camelizeKey
  dsimp only
  split_ifs
  · rfl
  · congr 3
    refine List.map_congr_left fun l hl => ?_
    cases l with
    | nil => rfl
    | cons c cs =>
      obtain ⟨hc, hne⟩ := mem_of_mem_splitOnP
        (mem_splitOnP_of_mem_splitUnderscore (List.mem_of_mem_drop hl)) (List.mem_cons_self c cs)
      rw [capitalize, capitalize, hup c ((hk c hc).resolve_left (by simpa using hne))]
      rfl

theorem map_camelizeKey_eq_ascii {up : CaseMapping} (hup : UpcasesAscii up) {ks : List RKey}
    (hks : ∀ k ∈ ks, ∀ c ∈ k.toS.toList, c = '_' ∨ c.isLower) :
    ks.map (camelizeKey up) = ks.map (camelizeKey .ascii) :=
  List.map_congr_left fun k hk => camelizeKey_eq_ascii hup (hks k hk)

theorem upcasesAscii_ascii : UpcasesAscii .ascii := fun _ _ => rfl

/-! ### The walks -/

mutual
/-- `deep_compact`: a model is read through `to_h`; the `nil` values of hashes and the `nil` elements
of arrays are removed, at every depth. -/
def deepCompact : RValue → RValue
  | .hash h | .model h => .hash (compactEntries h)
  | .arr xs => .arr (compactElems xs)
  | v => v
/-- `value.map { |v| deep_compact(v) }`, then `reject!(&:nil?)`. -/
def compactElems : List RValue → List RValue
  | [] => []
  | v :: vs => if (deepCompact v).isNil then compactElems vs else deepCompact v :: compactElems vs
/-- `value.transform_values { |v| deep_compact(v) unless v.nil? }`, then `compact!`. -/
def compactEntries : List (RKey × RValue) → List (RKey × RValue)
  | [] => []
  | (k, v) :: h =>
    let w := if v.isNil then .nil else deepCompact v
    if w.isNil then compactEntries h else (k, w) :: compactEntries h
end

mutual
/-- `deep_transform_keys_to_camel`: a model is read through `to_h`; every hash is rebuilt with its
keys through `camelize_key`, at every depth. -/
def deepTransformKeysToCamel : RValue → RValue
  | .hash h | .model h => .hash (camelEntries [] h)
  | .arr xs => .arr (camelElems xs)
  | v => v
/-- `value.map { |v| deep_transform_keys_to_camel(v) }`. -/
def camelElems : List RValue → List RValue
  | [] => []
  | v :: vs => deepTransformKeysToCamel v :: camelElems vs
/-- `each_with_object(acc) { |(k, v), acc| acc[camelize_key(k)] = deep_transform_keys_to_camel(v) }`:
a later key with the same camelized form overwrites the earlier one's value in place. -/
def camelEntries (acc : List (RKey × RValue)) : List (RKey × RValue) → List (RKey × RValue)
  | [] => acc
  | (k, v) :: h => camelEntries (Dict.set acc (.str (camelizeKey up k)) (deepTransformKeysToCamel v)) h
end

/-- `deep_transform_keys_to_camel(deep_compact(v))`: `Model#as_json` on a model. -/
def asJson (v : RValue) : RValue := deepTransformKeysToCamel up (deepCompact v)

@[simp] theorem asJson_bool (b : Bool) : asJson up (.bool b) = .bool b := rfl

@[simp] theorem asJson_str (s : String) : asJson up (.str s) = .str s := rfl

@[simp] theorem asJson_time (s : String) : asJson up (.time s) = .time s := rfl

/-- No model is `nil`, so an array of models keeps every element: its `as_json` is the array of their
`as_json`s. -/
theorem asJson_arr_models (hs : List (List (RKey × RValue))) :
    asJson up (.arr (hs.map .model)) = .arr (hs.map fun h => asJson up (.model h)) := by
  induction hs with
  | nil => rfl
  | cons h hs ih =>
    have hrest : camelElems up (compactElems (hs.map .model)) = hs.map fun h => asJson up (.model h) :=
      RValue.arr.inj ih
    show RValue.arr (camelElems up (compactElems (.model h :: hs.map .model))) = _
    rw [compactElems, if_neg (by simp [deepCompact]), camelElems, hrest]
    rfl

/-! ### Normal forms -/

mutual
/-- No `nil` hash value or array element and no model, at any depth. -/
def IsCompact : RValue → Prop
  | .model _ => False
  | .arr xs => IsCompactElems xs
  | .hash h => IsCompactEntries h
  | _ => True
def IsCompactElems : List RValue → Prop
  | [] => True
  | v :: vs => v.isNil = false ∧ IsCompact v ∧ IsCompactElems vs
def IsCompactEntries : List (RKey × RValue) → Prop
  | [] => True
  | (_, v) :: h => v.isNil = false ∧ IsCompact v ∧ IsCompactEntries h
end

mutual
/-- Every hash has distinct keys, each a string that `camelize_key` leaves as it is; no model. -/
def CamelKeys : RValue → Prop
  | .model _ => False
  | .arr xs => CamelKeysElems xs
  | .hash h => (Dict.keys h).Nodup ∧ CamelKeysEntries h
  | _ => True
def CamelKeysElems : List RValue → Prop
  | [] => True
  | v :: vs => CamelKeys v ∧ CamelKeysElems vs
def CamelKeysEntries : List (RKey × RValue) → Prop
  | [] => True
  | (k, v) :: h => k = .str (camelizeKey up k) ∧ CamelKeys v ∧ CamelKeysEntries h
end

/-- The normal form `as_json` promises. -/
structure IsNormal (v : RValue) : Prop where
  compact : IsCompact v
  camelKeys : CamelKeys up v

theorem isCompactEntries_iff {h : List (RKey × RValue)} :
    IsCompactEntries h ↔ ∀ p ∈ h, p.2.isNil = false ∧ IsCompact p.2 := by
  induction h with
  | nil => simp [IsCompactEntries]
  | cons p h ih => simp [IsCompactEntries, ih, and_assoc]

theorem camelKeysEntries_iff {h : List (RKey × RValue)} :
    CamelKeysEntries up h ↔ ∀ p ∈ h, p.1 = .str (camelizeKey up p.1) ∧ CamelKeys up p.2 := by
  induction h with
  | nil => simp [CamelKeysEntries]
  | cons p h ih => simp [CamelKeysEntries, ih, and_assoc]

@[simp] theorem isNil_deepTransformKeysToCamel (v : RValue) :
    (deepTransformKeysToCamel up v).isNil = v.isNil := by
  cases v <;> rfl

theorem isCompactEntries_set {d : List (RKey × RValue)} (hd : IsCompactEntries d) (k : RKey) {v : RValue}
    (hv : v.isNil = false) (hc : IsCompact v) : IsCompactEntries (Dict.set d k v) :=
  isCompactEntries_iff.2 fun p hp =>
    (Dict.mem_set hp).elim (isCompactEntries_iff.1 hd p) (by rintro rfl; exact ⟨hv, hc⟩)

theorem camelKeys_set {d : List (RKey × RValue)} (hd : (Dict.keys d).Nodup ∧ CamelKeysEntries up d)
    (k : RKey) {v : RValue} (hv : CamelKeys up v) :
    (Dict.keys (Dict.set d (.str (camelizeKey up k)) v)).Nodup ∧
      CamelKeysEntries up (Dict.set d (.str (camelizeKey up k)) v) :=
  ⟨Dict.nodup_keys_set hd.1 _ _, camelKeysEntries_iff up |>.2 fun p hp =>
    (Dict.mem_set hp).elim (camelKeysEntries_iff up |>.1 hd.2 p) (by rintro rfl; exact ⟨by simp, hv⟩)⟩

/-! ### `deep_compact` -/

mutual
theorem isCompact_deepCompact : ∀ v : RValue, IsCompact (deepCompact v)
  | .hash h | .model h => isCompactEntries_compactEntries h
  | .arr xs => isCompactElems_compactElems xs
  | .nil | .bool _ | .int _ | .float _ | .str _ | .sym _ | .time _ => trivial
theorem isCompactElems_compactElems : ∀ xs : List RValue, IsCompactElems (compactElems xs)
  | [] => trivial
  | v :: vs => by
    rw [compactElems]
    split
    next => exact isCompactElems_compactElems vs
    next hw => exact ⟨by simpa using hw, isCompact_deepCompact v, isCompactElems_compactElems vs⟩
theorem isCompactEntries_compactEntries : ∀ h : List (RKey × RValue), IsCompactEntries (compactEntries h)
  | [] => trivial
  | (k, v) :: h => by
    rw [compactEntries]
    by_cases hv : v.isNil
    · rw [if_pos hv]; exact isCompactEntries_compactEntries h
    · rw [if_neg hv]
      split
      next => exact isCompactEntries_compactEntries h
      next hw => exact ⟨by simpa using hw, isCompact_deepCompact v, isCompactEntries_compactEntries h⟩
end

mutual
theorem deepCompact_of_isCompact : ∀ v : RValue, IsCompact v → deepCompact v = v
  | .hash h, hv => congrArg RValue.hash (compactEntries_of_isCompact h hv)
  | .model _, hv => hv.elim
  | .arr xs, hv => congrArg RValue.arr (compactElems_of_isCompact xs hv)
  | .nil, _ | .bool _, _ | .int _, _ | .float _, _ | .str _, _ | .sym _, _ | .time _, _ => rfl
theorem compactElems_of_isCompact : ∀ xs : List RValue, IsCompactElems xs → compactElems xs = xs
  | [], _ => rfl
  | v :: vs, ⟨h₁, h₂, h₃⟩ => by
    simp [compactElems, deepCompact_of_isCompact v h₂, h₁, compactElems_of_isCompact vs h₃]
theorem compactEntries_of_isCompact :
    ∀ h : List (RKey × RValue), IsCompactEntries h → compactEntries h = h
  | [], _ => rfl
  | (k, v) :: h, ⟨h₁, h₂, h₃⟩ => by
    simp [compactEntries, deepCompact_of_isCompact v h₂, h₁, compactEntries_of_isCompact h h₃]
end

/-! ### `deep_transform_keys_to_camel` -/

mutual
theorem isCompact_deepTransformKeysToCamel :
    ∀ v : RValue, IsCompact v → IsCompact (deepTransformKeysToCamel up v)
  | .hash h, hv => isCompactEntries_camelEntries h [] trivial hv
  | .model _, hv => hv.elim
  | .arr xs, hv => isCompactElems_camelElems xs hv
  | .nil, _ | .bool _, _ | .int _, _ | .float _, _ | .str _, _ | .sym _, _ | .time _, _ => trivial
theorem isCompactElems_camelElems :
    ∀ xs : List RValue, IsCompactElems xs → IsCompactElems (camelElems up xs)
  | [], _ => trivial
  | v :: vs, ⟨h₁, h₂, h₃⟩ =>
    ⟨by simpa using h₁, isCompact_deepTransformKeysToCamel v h₂, isCompactElems_camelElems vs h₃⟩
theorem isCompactEntries_camelEntries : ∀ (h acc : List (RKey × RValue)),
    IsCompactEntries acc → IsCompactEntries h → IsCompactEntries (camelEntries up acc h)
  | [], _, hacc, _ => hacc
  | (_, v) :: h, _, hacc, ⟨h₁, h₂, h₃⟩ =>
    isCompactEntries_camelEntries h _
      (isCompactEntries_set hacc _ (by simpa using h₁) (isCompact_deepTransformKeysToCamel v h₂)) h₃
end

mutual
theorem camelKeys_deepTransformKeysToCamel : ∀ v : RValue, CamelKeys up (deepTransformKeysToCamel up v)
  | .hash h | .model h => camelKeys_camelEntries h [] ⟨List.nodup_nil, trivial⟩
  | .arr xs => camelKeysElems_camelElems xs
  | .nil | .bool _ | .int _ | .float _ | .str _ | .sym _ | .time _ => trivial
theorem camelKeysElems_camelElems : ∀ xs : List RValue, CamelKeysElems up (camelElems up xs)
  | [] => trivial
  | v :: vs => ⟨camelKeys_deepTransformKeysToCamel v, camelKeysElems_camelElems vs⟩
theorem camelKeys_camelEntries : ∀ (h acc : List (RKey × RValue)),
    (Dict.keys acc).Nodup ∧ CamelKeysEntries up acc →
      (Dict.keys (camelEntries up acc h)).Nodup ∧ CamelKeysEntries up (camelEntries up acc h)
  | [], _, hacc => hacc
  | (k, v) :: h, _, hacc =>
    camelKeys_camelEntries h _ (camelKeys_set up hacc k (camelKeys_deepTransformKeysToCamel v))
end

mutual
theorem deepTransformKeysToCamel_of_camelKeys :
    ∀ v : RValue, CamelKeys up v → deepTransformKeysToCamel up v = v
  | .hash h, ⟨hnd, hh⟩ => congrArg RValue.hash (camelEntries_of_camelKeys h [] (by simpa using hnd) hh)
  | .model _, hv => hv.elim
  | .arr xs, hv => congrArg RValue.arr (camelElems_of_camelKeys xs hv)
  | .nil, _ | .bool _, _ | .int _, _ | .float _, _ | .str _, _ | .sym _, _ | .time _, _ => rfl
theorem camelElems_of_camelKeys : ∀ xs : List RValue, CamelKeysElems up xs → camelElems up xs = xs
  | [], _ => rfl
  | v :: vs, ⟨h₁, h₂⟩ => by
    rw [camelElems, deepTransformKeysToCamel_of_camelKeys v h₁, camelElems_of_camelKeys vs h₂]
theorem camelEntries_of_camelKeys : ∀ (h acc : List (RKey × RValue)),
    (Dict.keys acc ++ Dict.keys h).Nodup → CamelKeysEntries up h → camelEntries up acc h = acc ++ h
  | [], acc, _, _ => (List.append_nil acc).symm
  | (k, v) :: h, acc, hnd, ⟨hk, hv, hh⟩ => by
    have hnd' : (Dict.keys (acc ++ [(k, v)]) ++ Dict.keys h).Nodup := by simpa [Dict.keys] using hnd
    have hk' : k ∉ Dict.keys acc := fun hm => (List.nodup_append.1 hnd).2.2 hm (List.mem_cons_self _ _)
    rw [camelEntries, ← hk, deepTransformKeysToCamel_of_camelKeys v hv, Dict.set_of_not_mem hk',
      camelEntries_of_camelKeys h _ hnd' hh, List.append_assoc, List.singleton_append]
end

/-! ### Floats -/

theorem finiteFloatsProps_set {d : List (RKey × RValue)} (hd : RValue.finiteFloatsProps d = true) (k : RKey)
    {v : RValue} (hv : v.finiteFloats = true) : RValue.finiteFloatsProps (Dict.set d k v) = true :=
  RValue.finiteFloatsProps_iff.2 fun p hp =>
    (Dict.mem_set hp).elim (RValue.finiteFloatsProps_iff.1 hd p) (by rintro rfl; exact hv)

mutual
theorem finiteFloats_deepCompact : ∀ v : RValue, v.finiteFloats = true → (deepCompact v).finiteFloats = true
  | .hash h, hv | .model h, hv => finiteFloatsProps_compactEntries h hv
  | .arr xs, hv => finiteFloatsList_compactElems xs hv
  | .nil, hv | .bool _, hv | .int _, hv | .float _, hv | .str _, hv | .sym _, hv | .time _, hv => hv
theorem finiteFloatsList_compactElems :
    ∀ xs : List RValue, RValue.finiteFloatsList xs = true → RValue.finiteFloatsList (compactElems xs) = true
  | [], _ => rfl
  | v :: vs, h => by
    simp only [RValue.finiteFloatsList, Bool.and_eq_true] at h
    rw [compactElems]
    split
    · exact finiteFloatsList_compactElems vs h.2
    · simp only [RValue.finiteFloatsList, finiteFloats_deepCompact v h.1, finiteFloatsList_compactElems vs h.2,
        Bool.and_self]
theorem finiteFloatsProps_compactEntries : ∀ h : List (RKey × RValue),
    RValue.finiteFloatsProps h = true → RValue.finiteFloatsProps (compactEntries h) = true
  | [], _ => rfl
  | (k, v) :: h, hh => by
    simp only [RValue.finiteFloatsProps, Bool.and_eq_true] at hh
    rw [compactEntries]
    by_cases hv : v.isNil
    · rw [if_pos hv]; exact finiteFloatsProps_compactEntries h hh.2
    · rw [if_neg hv]
      split
      · exact finiteFloatsProps_compactEntries h hh.2
      · simp only [RValue.finiteFloatsProps, finiteFloats_deepCompact v hh.1, finiteFloatsProps_compactEntries h hh.2,
          Bool.and_self]
end

mutual
theorem finiteFloats_deepTransformKeysToCamel :
    ∀ v : RValue, v.finiteFloats = true → (deepTransformKeysToCamel up v).finiteFloats = true
  | .hash h, hv | .model h, hv => finiteFloatsProps_camelEntries h [] rfl hv
  | .arr xs, hv => finiteFloatsList_camelElems xs hv
  | .nil, hv | .bool _, hv | .int _, hv | .float _, hv | .str _, hv | .sym _, hv | .time _, hv => hv
theorem finiteFloatsList_camelElems :
    ∀ xs : List RValue, RValue.finiteFloatsList xs = true → RValue.finiteFloatsList (camelElems up xs) = true
  | [], _ => rfl
  | v :: vs, h => by
    simp only [RValue.finiteFloatsList, Bool.and_eq_true] at h
    simp only [camelElems, RValue.finiteFloatsList, finiteFloats_deepTransformKeysToCamel v h.1,
      finiteFloatsList_camelElems vs h.2, Bool.and_self]
theorem finiteFloatsProps_camelEntries : ∀ (h acc : List (RKey × RValue)), RValue.finiteFloatsProps acc = true →
    RValue.finiteFloatsProps h = true → RValue.finiteFloatsProps (camelEntries up acc h) = true
  | [], _, hacc, _ => hacc
  | (k, v) :: h, _, hacc, hh => by
    simp only [RValue.finiteFloatsProps, Bool.and_eq_true] at hh
    exact finiteFloatsProps_camelEntries h _ (finiteFloatsProps_set hacc _
      (finiteFloats_deepTransformKeysToCamel v hh.1)) hh.2
end

/-- `as_json` keeps no `Float` it did not find: a value whose floats are finite has a normal form
whose floats are finite. -/
theorem finiteFloats_asJson {v : RValue} (hv : v.finiteFloats = true) : (asJson up v).finiteFloats = true :=
  finiteFloats_deepTransformKeysToCamel up _ (finiteFloats_deepCompact v hv)

/-! ### The normal form -/

theorem isNormal_asJson (v : RValue) : IsNormal up (asJson up v) :=
  ⟨isCompact_deepTransformKeysToCamel up _ (isCompact_deepCompact v), camelKeys_deepTransformKeysToCamel up _⟩

theorem asJson_of_isNormal {w : RValue} (hw : IsNormal up w) : asJson up w = w := by
  rw [asJson, deepCompact_of_isCompact w hw.compact, deepTransformKeysToCamel_of_camelKeys up w hw.camelKeys]

/-! ### The keys of a model's `as_json` -/

@[simp] theorem isNil_deepCompact (v : RValue) : (deepCompact v).isNil = v.isNil := by
  cases v <;> rfl

/-- `deep_compact` on the entries of a hash drops the `nil` values and compacts the others. -/
theorem compactEntries_eq_filterMap (h : List (RKey × RValue)) :
    compactEntries h = h.filterMap fun p => if p.2.isNil then none else some (p.1, deepCompact p.2) := by
  induction h with
  | nil => rfl
  | cons p h ih =>
    obtain ⟨k, v⟩ := p
    by_cases hv : v.isNil <;> simp [compactEntries, hv, ih]

theorem get_camelEntries_of_forall_ne {c : String} :
    ∀ {h acc : List (RKey × RValue)}, (∀ p ∈ h, camelizeKey up p.1 ≠ c) →
      Dict.get (camelEntries up acc h) (.str c) = Dict.get acc (.str c)
  | [], _, _ => rfl
  | (k, v) :: h, acc, hne => by
    rw [camelEntries, get_camelEntries_of_forall_ne (fun p hp => hne p (List.mem_cons_of_mem _ hp)),
      Dict.get_set_ne _ _ (by simpa using hne (k, v) (List.mem_cons_self _ _))]

/-- The entry whose key is the only one to camelize to `camelize_key(k)` gives the value under it. -/
theorem get_camelEntries {k : RKey} {v : RValue} :
    ∀ {h acc : List (RKey × RValue)}, (k, v) ∈ h →
      (∀ p ∈ h, camelizeKey up p.1 = camelizeKey up k → p = (k, v)) →
      Dict.get (camelEntries up acc h) (.str (camelizeKey up k)) = some (deepTransformKeysToCamel up v)
  | (k', v') :: h, acc, hkv, huniq => by
    have huniq' : ∀ p ∈ h, camelizeKey up p.1 = camelizeKey up k → p = (k, v) :=
      fun p hp => huniq p (List.mem_cons_of_mem _ hp)
    rw [camelEntries]
    by_cases hk : camelizeKey up k' = camelizeKey up k
    · obtain ⟨rfl, rfl⟩ := Prod.ext_iff.1 (huniq _ (List.mem_cons_self _ _) hk)
      by_cases hm : (k', v') ∈ h
      · exact get_camelEntries hm huniq'
      · rw [get_camelEntries_of_forall_ne up fun p hp heq => hm (huniq' p hp heq ▸ hp), Dict.get_set_self]
    · exact get_camelEntries ((List.mem_cons.1 hkv).resolve_left fun h => hk (by cases h; rfl)) huniq'

/-- The value `as_json` gives a key of a model's `to_h`, when no other key camelizes alike: nothing
for `nil`, and otherwise the value's own normal form. -/
theorem get_asJson_model {es : List (RKey × RValue)} {k : RKey} {v : RValue} (hkv : (k, v) ∈ es)
    (huniq : ∀ p ∈ es, camelizeKey up p.1 = camelizeKey up k → p = (k, v)) :
    (asJson up (.model es)).get (camelizeKey up k) = if v.isNil then none else some (asJson up v) := by
  show Dict.get (camelEntries up [] (compactEntries es)) _ = _
  have hmem : ∀ p ∈ compactEntries es, camelizeKey up p.1 = camelizeKey up k → p = (k, deepCompact v) ∧
      v.isNil = false := fun p hp heq => by
    rw [compactEntries_eq_filterMap] at hp
    obtain ⟨q, hq, hqp⟩ := List.mem_filterMap.1 hp
    by_cases hq₂ : q.2.isNil
    · simp [hq₂] at hqp
    · rw [if_neg hq₂, Option.some.injEq] at hqp
      subst hqp
      obtain rfl := huniq q hq heq
      exact ⟨rfl, by simpa using hq₂⟩
  split
  · next hv => exact get_camelEntries_of_forall_ne up fun p hp heq => by simp [(hmem p hp heq).2] at hv
  · next hv =>
    refine get_camelEntries up ?_ fun p hp heq => (hmem p hp heq).1
    rw [compactEntries_eq_filterMap]
    exact List.mem_filterMap.2 ⟨(k, v), hkv, by simp [hv]⟩

/-- `asJson v` is a normal form, and normalizing it again changes nothing. -/
theorem asJson_normalForm (v : RValue) : IsNormal up (asJson up v) ∧ asJson up (asJson up v) = asJson up v :=
  ⟨isNormal_asJson up v, asJson_of_isNormal up (isNormal_asJson up v)⟩

end Util

end AgUi
