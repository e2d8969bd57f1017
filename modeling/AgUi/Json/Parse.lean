import AgUi.Json.Generate

/-!
# Reading JSON text

`JSON.parse`, as the client reads the `data` of a server-sent event and as Ruby reads it back: a
value with whitespace around its tokens, string escapes including `\uXXXX` and surrogate pairs, and
objects built by assignment, so that a repeated key keeps its first place and its last value.
A number is read in three parts, the integer part, the fraction and the exponent: with neither of
the last two it is an integer, and otherwise a `JsDecimal` (which `JSON.parse` makes a `Float`).
The parser runs on fuel; one more than the length of the text is enough.

* `parse_generate`: reading what `JSON.generate` wrote gives the tree back, for every tree with no
  `undefined` whose objects have distinct keys.
-/

namespace AgUi

namespace Json

/-! ### Tokens -/

/-- JSON's whitespace. -/
def isWs (c : Char) : Bool := c == ' ' || c == '\t' || c == '\n' || c == '\r'

def skipWs : List Char → List Char
  | [] => []
  | c :: r => if isWs c then skipWs r else c :: r

/-- The value of a hexadecimal digit, in either case. -/
def hexVal (c : Char) : Option Nat :=
  if '0' ≤ c ∧ c ≤ '9' then some (c.toNat - 48)
  else if 'a' ≤ c ∧ c ≤ 'f' then some (c.toNat - 87)
  else if 'A' ≤ c ∧ c ≤ 'F' then some (c.toNat - 55)
  else none

/-- The code unit of four hexadecimal digits. -/
def hex4 (a b c d : Char) : Option Nat :=
  (hexVal a).bind fun a => (hexVal b).bind fun b => (hexVal c).bind fun c => (hexVal d).map fun d =>
    ((a * 16 + b) * 16 + c) * 16 + d

/-- The character a one-letter escape stands for. -/
def unescape (e : Char) : Option Char :=
  if e = '"' then some '"' else if e = '\\' then some '\\' else if e = '/' then some '/'
  else if e = 'b' then some '\x08' else if e = 'f' then some '\x0c' else if e = 'n' then some '\n'
  else if e = 'r' then some '\r' else if e = 't' then some '\t' else none

/-- `c` in front of the characters read so far. -/
def consFst (c : Char) (p : List Char × List Char) : List Char × List Char := (c :: p.1, p.2)

mutual
/-- The characters of a string literal after its opening quote, and what follows the closing
quote.  A raw control character is refused. -/
def parseStringBody : List Char → Option (List Char × List Char)
  | [] => none
  | c :: r =>
    if c = '"' then some ([], r)
    else if c = '\\' then parseEscape r
    else if c.toNat < 32 then none
    else (parseStringBody r).map (consFst c)
/-- What follows a backslash. -/
def parseEscape : List Char → Option (List Char × List Char)
  | [] => none
  | e :: r =>
    if e = 'u' then parseUnicode r
    else (unescape e).bind fun c => (parseStringBody r).map (consFst c)
/-- What follows `\u`: a code unit, or a high surrogate and then its low surrogate. -/
def parseUnicode : List Char → Option (List Char × List Char)
  | a :: b :: c :: d :: r =>
    (hex4 a b c d).bind fun n =>
      if n < 0xd800 ∨ 0xe000 ≤ n then (parseStringBody r).map (consFst (Char.ofNat n))
      else if 0xdc00 ≤ n then none
      else parseLowSurrogate n r
  | _ => none
/-- What follows a high surrogate `n`: `\u` and a low surrogate. -/
def parseLowSurrogate (n : Nat) : List Char → Option (List Char × List Char)
  | s :: u :: a :: b :: c :: d :: r =>
    if s = '\\' ∧ u = 'u' then
      (hex4 a b c d).bind fun m =>
        if 0xdc00 ≤ m ∧ m < 0xe000 then
          (parseStringBody r).map (consFst (Char.ofNat (0x10000 + (n - 0xd800) * 0x400 + (m - 0xdc00))))
        else none
    else none
  | _ => none
end

/-- The value of a run of decimal digits. -/
def readNat (ds : List Char) : Nat := ds.foldl (fun n d => 10 * n + (d.toNat - 48)) 0

/-- The digit a digit character stands for. -/
def digitVal (c : Char) : Fin 10 := ⟨(c.toNat - 48) % 10, Nat.mod_lt _ (by decide)⟩

/-- The integer part of a number and what follows it: at least one digit, and no leading zero. -/
def parseNat (cs : List Char) : Option (Nat × List Char) :=
  let ds := cs.takeWhile Char.isDigit
  if ds = [] ∨ (ds.head? = some '0' ∧ 1 < ds.length) then none
  else some (readNat ds, cs.dropWhile Char.isDigit)

/-- The fraction of a number, empty when the text has none: a point and at least one digit. -/
def parseFraction (cs : List Char) : Option (List (Fin 10) × List Char) :=
  if cs.head? = some '.' then
    let ds := cs.tail.takeWhile Char.isDigit
    if ds = [] then none else some (ds.map digitVal, cs.tail.dropWhile Char.isDigit)
  else some ([], cs)

/-- The exponent of a number, if the text has one: `e` or `E`, a sign or none, and at least one
digit. -/
def parseExponent (cs : List Char) : Option (Option Int × List Char) :=
  if cs.head? = some 'e' ∨ cs.head? = some 'E' then
    let r := if cs.tail.head? = some '-' ∨ cs.tail.head? = some '+' then cs.tail.tail else cs.tail
    let ds := r.takeWhile Char.isDigit
    if ds = [] then none
    else some (some (if cs.tail.head? = some '-' then -(readNat ds : Int) else readNat ds), r.dropWhile Char.isDigit)
  else some (none, cs)

/-- A number: an optional minus, then its three parts. -/
def parseNumber (cs : List Char) : Option (JsValue × List Char) :=
  let negative : Bool := cs.head? = some '-'
  (parseNat (if negative then cs.tail else cs)).bind fun (whole, r) =>
    (parseFraction r).bind fun (fraction, r) =>
      (parseExponent r).bind fun (exponent, r) =>
        if h : fraction = [] then
          match exponent with
          | none => some (.num (if negative then -(whole : Int) else whole), r)
          | some e => some (.decimal ⟨negative, whole, [0], List.cons_ne_nil _ _, some e⟩, r)
        else some (.decimal ⟨negative, whole, fraction, h, exponent⟩, r)

/-- A keyword. -/
def literal (word : List Char) (v : JsValue) (cs : List Char) : Option (JsValue × List Char) :=
  if word.isPrefixOf cs then some (v, cs.drop word.length) else none

/-! ### Values -/

mutual
def parseValue : Nat → List Char → Option (JsValue × List Char)
  | 0, _ => none
  | fuel + 1, cs =>
    match skipWs cs with
    | [] => none
    | c :: r =>
      if c = 'n' then literal ['u', 'l', 'l'] .null r
      else if c = 't' then literal ['r', 'u', 'e'] (.bool true) r
      else if c = 'f' then literal ['a', 'l', 's', 'e'] (.bool false) r
      else if c = '"' then (parseStringBody r).map fun p => (.str ⟨p.1⟩, p.2)
      else if c = '[' then
        if (skipWs r).head? = some ']' then some (.arr [], (skipWs r).tail)
        else (parseValue fuel r).bind fun p => parseElemsRest fuel [p.1] p.2
      else if c = '{' then
        if (skipWs r).head? = some '}' then some (.obj [], (skipWs r).tail)
        else (parseMember fuel r).bind fun p => parseMembersRest fuel [p.1] p.2
      else parseNumber (c :: r)
/-- The rest of an array after an element: `,` and a further element, or `]`. -/
def parseElemsRest : Nat → List JsValue → List Char → Option (JsValue × List Char)
  | 0, _, _ => none
  | fuel + 1, acc, cs =>
    let cs := skipWs cs
    if cs.head? = some ']' then some (.arr acc, cs.tail)
    else if cs.head? = some ',' then (parseValue fuel cs.tail).bind fun p => parseElemsRest fuel (acc ++ [p.1]) p.2
    else none
/-- A member `"k": v`. -/
def parseMember : Nat → List Char → Option ((String × JsValue) × List Char)
  | 0, _ => none
  | fuel + 1, cs =>
    let cs := skipWs cs
    if cs.head? = some '"' then
      (parseStringBody cs.tail).bind fun p =>
        let r := skipWs p.2
        if r.head? = some ':' then (parseValue fuel r.tail).map fun q => ((⟨p.1⟩, q.1), q.2) else none
    else none
/-- The rest of an object after a member: `,` and a further member, or `}`.  A member is assigned,
as `JSON.parse` does. -/
def parseMembersRest : Nat → List (String × JsValue) → List Char → Option (JsValue × List Char)
  | 0, _, _ => none
  | fuel + 1, acc, cs =>
    let cs := skipWs cs
    if cs.head? = some '}' then some (.obj acc, cs.tail)
    else if cs.head? = some ',' then
      (parseMember fuel cs.tail).bind fun p => parseMembersRest fuel (Dict.set acc p.1.1 p.1.2) p.2
    else none
end

/-- `JSON.parse` of a whole text. -/
def parse (cs : List Char) : Option JsValue :=
  (parseValue (cs.length + 1) cs).bind fun p => if skipWs p.2 = [] then some p.1 else none

/-! ### Reading back strings -/

theorem hexVal_hexDigit : ∀ k < 16, hexVal (hexDigit k) = some k := by decide

theorem skipWs_cons {c : Char} (h : isWs c = false) (r : List Char) : skipWs (c :: r) = c :: r := by
  simp [skipWs, h]

theorem parseStringBody_plain {c : Char} (h₁ : c ≠ '"') (h₂ : c ≠ '\\') (h₃ : ¬ c.toNat < 32)
    (r : List Char) : parseStringBody (c :: r) = (parseStringBody r).map (consFst c) := by
  rw [parseStringBody, if_neg h₁, if_neg h₂, if_neg h₃]

theorem parseUnicode_cons (a b c d : Char) (r : List Char) :
    parseUnicode (a :: b :: c :: d :: r) = (hex4 a b c d).bind fun n =>
      if n < 0xd800 ∨ 0xe000 ≤ n then (parseStringBody r).map (consFst (Char.ofNat n))
      else if 0xdc00 ≤ n then none
      else parseLowSurrogate n r := rfl

theorem parseStringBody_escapeChar (c : Char) (r : List Char) :
    parseStringBody (escapeChar c ++ r) = (parseStringBody r).map (consFst c) := by
  by_cases h₁ : c = '"'; · subst h₁; rfl
  by_cases h₂ : c = '\\'; · subst h₂; rfl
  by_cases h₃ : c = '\x08'; · subst h₃; rfl
  by_cases h₄ : c = '\x0c'; · subst h₄; rfl
  by_cases h₅ : c = '\n'; · subst h₅; rfl
  by_cases h₆ : c = '\r'; · subst h₆; rfl
  by_cases h₇ : c = '\t'; · subst h₇; rfl
  rw [escapeChar, if_neg h₁, if_neg h₂, if_neg h₃, if_neg h₄, if_neg h₅, if_neg h₆, if_neg h₇]
  by_cases h₈ : c.toNat < 32
  · have hhex : hex4 '0' '0' (hexDigit (c.toNat / 16)) (hexDigit (c.toNat % 16)) = some c.toNat := by
      rw [hex4, show hexVal '0' = some 0 from rfl, hexVal_hexDigit _ (by omega),
        hexVal_hexDigit _ (Nat.mod_lt _ (by decide))]
      show some (((0 * 16 + 0) * 16 + c.toNat / 16) * 16 + c.toNat % 16) = some c.toNat
      congr 1; omega
    rw [if_pos h₈]
    show parseUnicode ('0' :: '0' :: _ :: _ :: r) = _
    rw [parseUnicode_cons, hhex, Option.some_bind, if_pos (Or.inl (by omega)), Char.ofNat_toNat]
  · rw [if_neg h₈]
    exact parseStringBody_plain h₁ h₂ h₈ r

theorem parseStringBody_escape (s : List Char) (r : List Char) :
    parseStringBody (s.flatMap escapeChar ++ '"' :: r) = some (s, r) := by
  induction s with
  | nil => rw [List.flatMap_nil, List.nil_append, parseStringBody, if_pos rfl]
  | cons c s ih => rw [List.flatMap_cons, List.append_assoc, parseStringBody_escapeChar, ih]; rfl

/-! ### Reading back numbers -/

/-- What may follow a value in the text `JSON.generate` writes: nothing, or the punctuation that
goes on with the enclosing array or object. -/
def IsDelimited : List Char → Prop
  | [] => True
  | c :: _ => c = ',' ∨ c = ']' ∨ c = '}'

/-- `ds` is the decimal text of `n`. -/
structure DecimalOf (n : Nat) (ds : List Char) : Prop where
  ne_nil : ds ≠ []
  isDigit : ∀ d ∈ ds, d.isDigit
  value : readNat ds = n
  leading : ds.head? = some '0' → ds = ['0']

theorem readNat_append_singleton (ds : List Char) (d : Char) :
    readNat (ds ++ [d]) = 10 * readNat ds + (d.toNat - 48) := by
  simp [readNat, List.foldl_append]

theorem decimalOf_toDigitsCore (fuel n : Nat) (acc : List Char) (h : n < fuel) :
    ∃ ds, DecimalOf n ds ∧ Nat.toDigitsCore 10 fuel n acc = ds ++ acc := by
  induction fuel generalizing n acc with
  | zero => omega
  | succ fuel ih =>
    obtain ⟨hdig, hval⟩ := digitChar_spec (n % 10) (Nat.mod_lt _ (by decide))
    rw [toDigitsCore_succ]
    split
    case isTrue hn =>
      refine ⟨[Nat.digitChar (n % 10)], ⟨List.cons_ne_nil _ _, by simpa using hdig, ?_, fun h => ?_⟩, rfl⟩
      · simp only [readNat, List.foldl_cons, List.foldl_nil, hval]; omega
      · simpa using h
    case isFalse hn =>
      obtain ⟨ds, hds, heq⟩ := ih (n / 10) (Nat.digitChar (n % 10) :: acc) (by omega)
      have hhead : (ds ++ [Nat.digitChar (n % 10)]).head? = ds.head? := by
        cases ds with
        | nil => exact absurd rfl hds.ne_nil
        | cons d ds => rfl
      refine ⟨ds ++ [Nat.digitChar (n % 10)], ⟨by simp, fun d hd => ?_, ?_, fun h => ?_⟩, by simp [heq]⟩
      · rcases List.mem_append.1 hd with hd | hd
        · exact hds.isDigit d hd
        · rw [List.mem_singleton.1 hd]; exact hdig
      · rw [readNat_append_singleton, hds.value, hval]; omega
      · have h0 := congrArg readNat (hds.leading (hhead ▸ h))
        rw [hds.value] at h0
        exact absurd h0 hn

theorem decimalOf_toDigits (n : Nat) : DecimalOf n (Nat.toDigits 10 n) := by
  obtain ⟨ds, hds, heq⟩ := decimalOf_toDigitsCore (n + 1) n [] (Nat.lt_succ_self n)
  rw [toDigits_eq, heq, List.append_nil]
  exact hds

/-- The two digits at least of an exponent are read back as its magnitude. -/
theorem readNat_exponentDigits (n : Nat) : readNat (exponentDigits n) = n := by
  unfold exponentDigits
  split
  · have h0 : '0'.toNat - 48 = 0 := rfl
    simp only [readNat, List.foldl_cons, List.foldl_nil, h0, (digitChar_spec n ‹_›).2]
    omega
  · exact (decimalOf_toDigits n).value

theorem exponentDigits_ne_nil (n : Nat) : exponentDigits n ≠ [] := by
  unfold exponentDigits
  split
  · exact List.cons_ne_nil _ _
  · exact (decimalOf_toDigits n).ne_nil

theorem digitVal_digitOf (k : Fin 10) : digitVal (digitOf k) = k :=
  Fin.ext (by simp only [digitVal, digitOf, (digitChar_spec k k.2).2, Nat.mod_eq_of_lt k.2])

theorem isDigit_of_isDelimited {c : Char} {r : List Char} (h : IsDelimited (c :: r)) :
    c.isDigit = false ∧ c ≠ '.' ∧ c ≠ 'e' ∧ c ≠ 'E' := by
  rcases h with rfl | rfl | rfl <;> decide

/-- A run of digits followed by something else is read as that run. -/
theorem takeWhile_isDigit_append {ds r : List Char} (hds : ∀ d ∈ ds, d.isDigit)
    (hr : ∀ c ∈ r.head?, c.isDigit = false) :
    (ds ++ r).takeWhile Char.isDigit = ds ∧ (ds ++ r).dropWhile Char.isDigit = r := by
  rw [List.takeWhile_append_of_pos hds, List.dropWhile_append_of_pos hds]
  cases r with
  | nil => exact ⟨List.append_nil ds, rfl⟩
  | cons c r => simp [List.takeWhile_cons, List.dropWhile_cons, hr c rfl]

theorem parseNat_decimalOf {n : Nat} {ds r : List Char} (hds : DecimalOf n ds)
    (hr : ∀ c ∈ r.head?, c.isDigit = false) : parseNat (ds ++ r) = some (n, r) := by
  have hlead : ¬ (ds.head? = some '0' ∧ 1 < ds.length) := fun h => by
    have := hds.leading h.1; rw [this] at h; exact absurd h.2 (by decide)
  obtain ⟨htake, hdrop⟩ := takeWhile_isDigit_append hds.isDigit hr
  simp only [parseNat, htake, hdrop, hds.value]
  rw [if_neg (by simp only [not_or]; exact ⟨hds.ne_nil, hlead⟩)]

theorem parseFraction_absent {r : List Char} (hr : r.head? ≠ some '.') : parseFraction r = some ([], r) :=
  if_neg hr

theorem parseFraction_digits {ks : List (Fin 10)} (hks : ks ≠ []) {r : List Char}
    (hr : ∀ c ∈ r.head?, c.isDigit = false) : parseFraction ('.' :: (ks.map digitOf ++ r)) = some (ks, r) := by
  obtain ⟨htake, hdrop⟩ := @takeWhile_isDigit_append (ks.map digitOf) r (by simp [isDigit_digitOf]) hr
  rw [parseFraction, if_pos (show ('.' :: (ks.map digitOf ++ r)).head? = some '.' from rfl)]
  simp only [List.tail_cons, htake, hdrop, List.map_map]
  rw [if_neg (by simpa using hks)]
  congr
  exact (List.map_congr_left fun k _ => digitVal_digitOf k).trans (List.map_id ks)

theorem parseExponent_absent {r : List Char} (hr : r.head? ≠ some 'e' ∧ r.head? ≠ some 'E') :
    parseExponent r = some (none, r) :=
  if_neg (not_or.2 hr)

theorem parseExponent_digits (e : Int) {r : List Char} (hr : ∀ c ∈ r.head?, c.isDigit = false) :
    parseExponent ('e' :: (if e < 0 then '-' else '+') :: (exponentDigits e.natAbs ++ r)) = some (some e, r) := by
  obtain ⟨htake, hdrop⟩ := @takeWhile_isDigit_append (exponentDigits e.natAbs) r
    (fun d hd => isDigit_of_mem_exponentDigits hd) hr
  by_cases he : e < 0
  · simp only [parseExponent, if_pos he, List.head?_cons, List.tail_cons, true_or, if_true, htake, hdrop,
      exponentDigits_ne_nil, if_false, readNat_exponentDigits]
    congr; omega
  · simp only [parseExponent, if_neg he, List.head?_cons, List.tail_cons, true_or, or_true, if_true, htake,
      hdrop, exponentDigits_ne_nil, if_false, readNat_exponentDigits, Option.some.injEq]
    congr; exact Int.natAbs_of_nonneg (not_lt.1 he)

/-- What `parseNumber` does after the sign, when the integer part is the decimal text of `whole`. -/
theorem parseNumber_signed (negative : Bool) {whole : Nat} {ds r : List Char} (hds : DecimalOf whole ds)
    (hr : ∀ c ∈ r.head?, c.isDigit = false) :
    parseNumber ((if negative then ['-'] else []) ++ (ds ++ r)) =
      (parseFraction r).bind fun (fraction, r) => (parseExponent r).bind fun (exponent, r) =>
        if h : fraction = [] then
          match exponent with
          | none => some (.num (if negative then -(whole : Int) else whole), r)
          | some e => some (.decimal ⟨negative, whole, [0], List.cons_ne_nil _ _, some e⟩, r)
        else some (.decimal ⟨negative, whole, fraction, h, exponent⟩, r) := by
  have hnat := parseNat_decimalOf hds hr
  obtain ⟨c, cs, hc⟩ := List.exists_cons_of_ne_nil hds.ne_nil
  have hc' : c ≠ '-' := fun h => absurd (hds.isDigit c (by simp [hc])) (by rw [h]; decide)
  rw [hc, List.cons_append] at hnat
  cases negative
  · simp only [parseNumber, hc, if_false, List.nil_append, List.cons_append, List.head?_cons, Option.some.injEq,
      hc', decide_False, Bool.false_eq_true, hnat, Option.some_bind]
  · simp only [parseNumber, hc, if_true, List.singleton_append, List.cons_append, List.head?_cons, List.tail_cons,
      decide_True, List.nil_append, hnat, Option.some_bind]

theorem parseNumber_intChars (n : Int) {r : List Char} (hr : IsDelimited r) :
    parseNumber (intChars n ++ r) = some (.num n, r) := by
  have hnext : (∀ c ∈ r.head?, c.isDigit = false) ∧ r.head? ≠ some '.' ∧ r.head? ≠ some 'e' ∧
      r.head? ≠ some 'E' := by
    cases r with
    | nil => simp
    | cons c r => obtain ⟨h₀, h₁, h₂, h₃⟩ := isDigit_of_isDelimited hr; simp [h₀, h₁, h₂, h₃]
  have hint : intChars n ++ r = (if decide (n < 0) then ['-'] else []) ++ (Nat.toDigits 10 n.natAbs ++ r) := by
    unfold intChars; split <;> simp [*]
  rw [hint, parseNumber_signed _ (decimalOf_toDigits _) hnext.1]
  simp only [parseFraction_absent hnext.2.1, Option.some_bind, parseExponent_absent hnext.2.2, dite_true,
    decide_eq_true_eq, Option.some.injEq, Prod.mk.injEq, JsValue.num.injEq, and_true]
  split <;> omega

theorem parseNumber_decimalChars (d : JsDecimal) {r : List Char} (hr : IsDelimited r) :
    parseNumber (decimalChars d ++ r) = some (.decimal d, r) := by
  obtain ⟨negative, whole, fraction, hne, exponent⟩ := d
  have hr' : (∀ c ∈ r.head?, c.isDigit = false) ∧ r.head? ≠ some 'e' ∧ r.head? ≠ some 'E' := by
    cases r with
    | nil => simp
    | cons c r => obtain ⟨h₀, -, h₂, h₃⟩ := isDigit_of_isDelimited hr; simp [h₀, h₂, h₃]
  -- the text of the exponent, read back, and what follows the fraction
  obtain ⟨expPart, hchars, hexp, hnext⟩ : ∃ expPart : List Char,
      decimalChars ⟨negative, whole, fraction, hne, exponent⟩ ++ r = (if negative then ['-'] else []) ++
        (Nat.toDigits 10 whole ++ ('.' :: (fraction.map digitOf ++ (expPart ++ r)))) ∧
      parseExponent (expPart ++ r) = some (exponent, r) ∧ ∀ c ∈ (expPart ++ r).head?, c.isDigit = false := by
    cases exponent with
    | none => exact ⟨[], by simp [decimalChars], parseExponent_absent hr'.2, hr'.1⟩
    | some e =>
      exact ⟨'e' :: (if e < 0 then '-' else '+') :: exponentDigits e.natAbs, by simp [decimalChars],
        parseExponent_digits e hr'.1, by simp⟩
  rw [hchars, parseNumber_signed _ (decimalOf_toDigits _) (by simp),
    parseFraction_digits hne hnext]
  simp only [Option.some_bind, hexp, dif_neg hne]

/-! ### Reading back values -/

mutual
/-- A JSON value `JSON.generate` writes and `JSON.parse` reads back: no `undefined`, and distinct keys
in every object. -/
def IsJson : JsValue → Prop
  | .undef => False
  | .arr xs => IsJsonList xs
  | .obj ps => (Dict.keys ps).Nodup ∧ IsJsonProps ps
  | _ => True
def IsJsonList : List JsValue → Prop
  | [] => True
  | x :: xs => IsJson x ∧ IsJsonList xs
def IsJsonProps : List (String × JsValue) → Prop
  | [] => True
  | (_, v) :: ps => IsJson v ∧ IsJsonProps ps
end

theorem parseValue_lbracket (m : Nat) (t : List Char) : parseValue (m + 1) ('[' :: t) =
    if (skipWs t).head? = some ']' then some (.arr [], (skipWs t).tail)
    else (parseValue m t).bind fun p => parseElemsRest m [p.1] p.2 := rfl

theorem parseValue_lbrace (m : Nat) (t : List Char) : parseValue (m + 1) ('{' :: t) =
    if (skipWs t).head? = some '}' then some (.obj [], (skipWs t).tail)
    else (parseMember m t).bind fun p => parseMembersRest m [p.1] p.2 := rfl

theorem parseValue_quote (m : Nat) (t : List Char) :
    parseValue (m + 1) ('"' :: t) = (parseStringBody t).map fun p => (.str ⟨p.1⟩, p.2) := rfl

theorem ne_of_isDigit {c d : Char} (hc : c.isDigit) (hd : d.isDigit = false) : c ≠ d := by
  rintro rfl; simp_all

theorem isWs_of_isDigit {c : Char} (hc : c.isDigit) : isWs c = false := by
  cases h : isWs c
  · rfl
  · simp only [isWs, Bool.or_eq_true, beq_iff_eq] at h
    rcases h with ((rfl | rfl) | rfl) | rfl <;> exact absurd hc (by decide)

theorem parseValue_number {c : Char} (hc : c = '-' ∨ c.isDigit) (m : Nat) (t : List Char) :
    parseValue (m + 1) (c :: t) = parseNumber (c :: t) := by
  have hne : isWs c = false ∧ c ≠ 'n' ∧ c ≠ 't' ∧ c ≠ 'f' ∧ c ≠ '"' ∧ c ≠ '[' ∧ c ≠ '{' := by
    rcases hc with rfl | hc
    · decide
    · exact ⟨isWs_of_isDigit hc, ne_of_isDigit hc rfl, ne_of_isDigit hc rfl, ne_of_isDigit hc rfl,
        ne_of_isDigit hc rfl, ne_of_isDigit hc rfl, ne_of_isDigit hc rfl⟩
  obtain ⟨hws, h₁, h₂, h₃, h₄, h₅, h₆⟩ := hne
  simp only [parseValue, skipWs_cons hws, if_neg h₁, if_neg h₂, if_neg h₃, if_neg h₄, if_neg h₅, if_neg h₆]

theorem literal_append (word : List Char) (v : JsValue) (r : List Char) :
    literal word v (word ++ r) = some (v, r) := by
  simp [literal, List.isPrefixOf_iff_prefix]

theorem parseValue_literal (c : Char) (word : List Char) (v : JsValue) (m : Nat) (r : List Char)
    (h : (c = 'n' ∧ word = ['u', 'l', 'l'] ∧ v = .null) ∨ (c = 't' ∧ word = ['r', 'u', 'e'] ∧ v = .bool true) ∨
      (c = 'f' ∧ word = ['a', 'l', 's', 'e'] ∧ v = .bool false)) :
    parseValue (m + 1) ((c :: word) ++ r) = literal word v (word ++ r) := by
  rcases h with ⟨rfl, rfl, rfl⟩ | ⟨rfl, rfl, rfl⟩ | ⟨rfl, rfl, rfl⟩ <;> rfl

theorem parseElemsRest_comma (m : Nat) (acc : List JsValue) (t : List Char) :
    parseElemsRest (m + 1) acc (',' :: t) = (parseValue m t).bind fun p => parseElemsRest m (acc ++ [p.1]) p.2 :=
  rfl

theorem parseMembersRest_comma (m : Nat) (acc : List (String × JsValue)) (t : List Char) :
    parseMembersRest (m + 1) acc (',' :: t) =
      (parseMember m t).bind fun p => parseMembersRest m (Dict.set acc p.1.1 p.1.2) p.2 := rfl

/-- The text of an integer starts with a minus or a digit. -/
theorem intChars_eq_cons (n : Int) : ∃ c t, intChars n = c :: t ∧ (c = '-' ∨ c.isDigit) := by
  unfold intChars
  split
  · exact ⟨_, _, rfl, .inl rfl⟩
  · obtain ⟨d, ds, hd⟩ := List.exists_cons_of_ne_nil (decimalOf_toDigits n.natAbs).ne_nil
    exact ⟨d, ds, hd, .inr ((decimalOf_toDigits n.natAbs).isDigit d (by simp [hd]))⟩

/-- The text of a `Float` starts with a minus or a digit. -/
theorem decimalChars_eq_cons (d : JsDecimal) : ∃ c t, decimalChars d = c :: t ∧ (c = '-' ∨ c.isDigit) := by
  rcases d with ⟨_ | _, whole, fraction, hne, exponent⟩
  · obtain ⟨c, cs, hc⟩ := List.exists_cons_of_ne_nil (decimalOf_toDigits whole).ne_nil
    simp only [decimalChars, Bool.false_eq_true, if_false, List.nil_append, hc, List.cons_append]
    exact ⟨_, _, rfl, .inr ((decimalOf_toDigits whole).isDigit c (by simp [hc]))⟩
  · exact ⟨_, _, rfl, .inl rfl⟩

/-- The first character `JSON.generate` writes is not whitespace and closes nothing. -/
theorem generate_eq_cons (v : JsValue) :
    ∃ c t, generate v = c :: t ∧ (c = '-' ∨ c.isDigit ∨ c ∈ ['n', 't', 'f', '"', '[', '{']) := by
  match v with
  | .undef | .null => exact ⟨_, _, rfl, by decide⟩
  | .bool true => exact ⟨_, _, rfl, by decide⟩
  | .bool false => exact ⟨_, _, rfl, by decide⟩
  | .str _ => exact ⟨_, _, rfl, by decide⟩
  | .arr [] | .arr (_ :: _) => exact ⟨_, _, rfl, by decide⟩
  | .obj [] | .obj (_ :: _) => exact ⟨_, _, rfl, by decide⟩
  | .num n =>
    obtain ⟨c, t, h, hc⟩ := intChars_eq_cons n
    exact ⟨c, t, h, hc.imp_right .inl⟩
  | .decimal d =>
    obtain ⟨c, t, h, hc⟩ := decimalChars_eq_cons d
    exact ⟨c, t, h, hc.imp_right .inl⟩

theorem generate_head {v : JsValue} {c : Char} {t : List Char} (h : generate v = c :: t) :
    isWs c = false ∧ c ≠ ']' ∧ c ≠ '}' := by
  obtain ⟨c', t', h', hc⟩ := generate_eq_cons v
  obtain ⟨rfl, -⟩ := List.cons_eq_cons.1 (h.symm.trans h')
  rcases hc with rfl | hc | hc
  · decide
  · exact ⟨isWs_of_isDigit hc, ne_of_isDigit hc rfl, ne_of_isDigit hc rfl⟩
  · simp only [List.mem_cons, List.not_mem_nil, or_false] at hc
    rcases hc with rfl | rfl | rfl | rfl | rfl | rfl <;> decide

theorem length_generate_pos (v : JsValue) : 0 < (generate v).length := by
  obtain ⟨c, t, h, -⟩ := generate_eq_cons v
  simp [h]

theorem isDelimited_generateElems (xs : List JsValue) (r : List Char) :
    IsDelimited (generateElems xs ++ r) := by
  cases xs <;> simp [generateElems, IsDelimited]

theorem isDelimited_generateMembers (ps : List (String × JsValue)) (r : List Char) :
    IsDelimited (generateMembers ps ++ r) := by
  cases ps <;> simp [generateMembers, IsDelimited]

theorem parseMember_quote {m : Nat} {k : String} {v : JsValue} {rest : List Char}
    (hv : parseValue m (generate v ++ rest) = some (v, rest)) :
    parseMember (m + 1) (quote k ++ ':' :: (generate v ++ rest)) = some ((k, v), rest) := by
  rw [quote, List.cons_append, List.append_assoc, List.singleton_append]
  show (parseStringBody _).bind _ = _
  rw [skipWs_cons (c := '"') rfl, List.tail_cons, parseStringBody_escape]
  show (if (skipWs (':' :: (generate v ++ rest))).head? = some ':' then _ else none) = _
  rw [skipWs_cons (c := ':') rfl, List.head?_cons, if_pos rfl, List.tail_cons, hv]
  rfl

mutual
theorem parseValue_generate : ∀ (v : JsValue) (n : Nat) (r : List Char), IsJson v →
    (generate v).length < n → IsDelimited r → parseValue n (generate v ++ r) = some (v, r)
  | .undef, _, _, hv, _, _ => hv.elim
  | .null, m + 1, r, _, _, _ =>
    (parseValue_literal 'n' ['u', 'l', 'l'] .null m r (by decide)).trans (literal_append _ _ _)
  | .bool true, m + 1, r, _, _, _ =>
    (parseValue_literal 't' ['r', 'u', 'e'] (.bool true) m r (by decide)).trans (literal_append _ _ _)
  | .bool false, m + 1, r, _, _, _ =>
    (parseValue_literal 'f' ['a', 'l', 's', 'e'] (.bool false) m r (by decide)).trans (literal_append _ _ _)
  | .arr [], _ + 1, _, _, _, _ | .obj [], _ + 1, _, _, _, _ => rfl
  | .num n, m + 1, r, _, _, hr => by
    obtain ⟨c, t, hct, hc⟩ := intChars_eq_cons n
    show parseValue (m + 1) (intChars n ++ r) = _
    rw [hct, List.cons_append, parseValue_number hc, ← List.cons_append, ← hct]
    exact parseNumber_intChars n hr
  | .decimal d, m + 1, r, _, _, hr => by
    obtain ⟨c, t, hct, hc⟩ := decimalChars_eq_cons d
    show parseValue (m + 1) (decimalChars d ++ r) = _
    rw [hct, List.cons_append, parseValue_number hc, ← List.cons_append, ← hct]
    exact parseNumber_decimalChars d hr
  | .str s, m + 1, r, _, _, _ => by
    rw [generate, quote, List.cons_append, List.append_assoc, List.singleton_append, parseValue_quote,
      parseStringBody_escape]
    rfl
  | .arr (x :: xs), m + 1, r, ⟨hx, hxs⟩, hn, hr => by
    obtain ⟨c, t, hct⟩ := generate_eq_cons x
    obtain ⟨hws, hc, -⟩ := generate_head hct.1
    have hlen := length_generate_pos x
    have hlen' : 0 < (generateElems xs).length := by cases xs <;> simp [generateElems]
    simp only [generate, List.length_cons, List.length_append] at hn
    rw [generate, List.cons_append, List.append_assoc, parseValue_lbracket, hct.1, List.cons_append,
      skipWs_cons hws, List.head?_cons, if_neg (by simpa using hc), ← List.cons_append, ← hct.1,
      parseValue_generate x m _ hx (by omega) (isDelimited_generateElems xs r), Option.some_bind,
      parseElemsRest_generate xs m [x] r hxs (by omega) hr]
    rfl
  | .obj ((k, v) :: ps), m + 1, r, ⟨hnd, hv, hps⟩, hn, hr => by
    have hlen' : 0 < (generateMembers ps).length := by cases ps <;> simp [generateMembers]
    simp only [generate, quote, List.length_cons, List.length_append] at hn
    obtain ⟨m, rfl⟩ : ∃ m', m = m' + 1 := ⟨m - 1, by omega⟩
    have hmem := parseMember_quote (k := k) (parseValue_generate v m (generateMembers ps ++ r) hv (by omega)
      (isDelimited_generateMembers ps r))
    rw [generate, List.cons_append, List.append_assoc, List.cons_append, List.append_assoc, parseValue_lbrace]
    rw [quote, List.cons_append, skipWs_cons (c := '"') rfl, List.head?_cons, if_neg (by decide)]
    rw [← List.cons_append, ← quote, hmem, Option.some_bind,
      parseMembersRest_generate ps (m + 1) [(k, v)] r hps (by simpa [Dict.keys] using hnd) (by omega) hr]
    rfl
theorem parseElemsRest_generate : ∀ (xs : List JsValue) (n : Nat) (acc : List JsValue) (r : List Char),
    IsJsonList xs → (generateElems xs).length < n → IsDelimited r →
      parseElemsRest n acc (generateElems xs ++ r) = some (.arr (acc ++ xs), r)
  | [], m + 1, acc, r, _, _, _ => by rw [List.append_nil]; rfl
  | y :: ys, m + 1, acc, r, ⟨hy, hys⟩, hn, hr => by
    have hlen := length_generate_pos y
    have hlen' : 0 < (generateElems ys).length := by cases ys <;> simp [generateElems]
    simp only [generateElems, List.length_cons, List.length_append] at hn
    rw [generateElems, List.cons_append, parseElemsRest_comma, List.append_assoc,
      parseValue_generate y m _ hy (by omega) (isDelimited_generateElems ys r), Option.some_bind,
      parseElemsRest_generate ys m _ r hys (by omega) hr, List.append_assoc, List.singleton_append]
theorem parseMembersRest_generate : ∀ (ps : List (String × JsValue)) (n : Nat) (acc : List (String × JsValue))
    (r : List Char), IsJsonProps ps → (Dict.keys acc ++ Dict.keys ps).Nodup → (generateMembers ps).length < n →
      IsDelimited r → parseMembersRest n acc (generateMembers ps ++ r) = some (.obj (acc ++ ps), r)
  | [], m + 1, acc, r, _, _, _, _ => by rw [List.append_nil]; rfl
  | (k, v) :: ps, m + 1, acc, r, ⟨hv, hps⟩, hnd, hn, hr => by
    have hlen' : 0 < (generateMembers ps).length := by cases ps <;> simp [generateMembers]
    simp only [generateMembers, quote, List.length_cons, List.length_append] at hn
    obtain ⟨m, rfl⟩ : ∃ m', m = m' + 1 := ⟨m - 1, by omega⟩
    have hmem := parseMember_quote (k := k) (parseValue_generate v m (generateMembers ps ++ r) hv (by omega)
      (isDelimited_generateMembers ps r))
    have hk : k ∉ Dict.keys acc := fun h => (List.nodup_append.1 hnd).2.2 h (List.mem_cons_self _ _)
    rw [generateMembers, List.cons_append, parseMembersRest_comma, List.append_assoc, List.cons_append,
      List.append_assoc, hmem, Option.some_bind]
    dsimp only
    rw [Dict.set_of_not_mem hk, parseMembersRest_generate ps (m + 1) _ r hps (by simpa [Dict.keys] using hnd)
      (by omega) hr, List.append_assoc, List.singleton_append]
end

/-- `JSON.parse` reads back what `JSON.generate` wrote. -/
theorem parse_generate (v : JsValue) (hv : IsJson v) : parse (generate v) = some v := by
  have h := parseValue_generate v ((generate v).length + 1) [] hv (Nat.lt_succ_self _) trivial
  rw [List.append_nil] at h
  rw [parse, h]
  rfl

example : parse "\x7b\"a\": [1, -20, true], \"b\": \"x\\u0041\\n\"\x7d".toList =
    some (.obj [("a", .arr [.num 1, .num (-20), .bool true]), ("b", .str "xA\n")]) := by
  decide

example : parse "[1.5, -2E3, 0.25e-2]".toList = some (.arr [.decimal ⟨false, 1, [5], by decide, none⟩,
    .decimal ⟨true, 2, [0], by decide, some 3⟩, .decimal ⟨false, 0, [2, 5], by decide, some (-2)⟩]) := by
  decide

end Json

end AgUi
