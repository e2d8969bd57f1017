import AgUi.Core.Events

/-!
# Writing JSON text

`JSON.generate` as the Ruby SDK's encoder calls it, on the JSON tree of a value: no whitespace,
strings escaped as the `json` gem escapes them (`"`, `\` and the control characters, nothing else;
`\u00xx` in lower case), integers in decimal, and a finite `Float` as `Float#to_s` writes it
(`decimalChars`).  `undefined` is not JSON; no tree written here holds it, and it is written as
`null`.

* `newline_not_mem_generate`: the text holds no line feed and no carriage return, whatever the
  strings of the value hold.
-/

namespace AgUi

namespace Json

/-- The lower-case hexadecimal digit of `n < 16`. -/
def hexDigit (n : Nat) : Char := if n < 10 then Char.ofNat (48 + n) else Char.ofNat (87 + n)

/-- The `json` gem's escape of one character of a string. -/
def escapeChar (c : Char) : List Char :=
  if c = '"' then ['\\', '"']
  else if c = '\\' then ['\\', '\\']
  else if c = '\x08' then ['\\', 'b']
  else if c = '\x0c' then ['\\', 'f']
  else if c = '\n' then ['\\', 'n']
  else if c = '\r' then ['\\', 'r']
  else if c = '\t' then ['\\', 't']
  else if c.toNat < 32 then ['\\', 'u', '0', '0', hexDigit (c.toNat / 16), hexDigit (c.toNat % 16)]
  else [c]

/-- A string literal: the escaped characters between quotes. -/
def quote (s : String) : List Char := '"' :: (s.toList.flatMap escapeChar ++ ['"'])

/-- `Integer#to_s`. -/
def intChars (n : Int) : List Char :=
  if n < 0 then '-' :: Nat.toDigits 10 n.natAbs else Nat.toDigits 10 n.natAbs

theorem toDigits_eq (n : Nat) : Nat.toDigits 10 n = Nat.toDigitsCore 10 (n + 1) n [] := rfl

theorem toDigitsCore_succ (fuel n : Nat) (acc : List Char) :
    Nat.toDigitsCore 10 (fuel + 1) n acc =
      if n / 10 = 0 then Nat.digitChar (n % 10) :: acc
      else Nat.toDigitsCore 10 fuel (n / 10) (Nat.digitChar (n % 10) :: acc) := rfl

/-- The character of a digit. -/
def digitOf (k : Fin 10) : Char := Nat.digitChar k

/-- The magnitude of an exponent as `"%+03d"` writes it after the sign: two digits at least. -/
def exponentDigits (n : Nat) : List Char := if n < 10 then ['0', Nat.digitChar n] else Nat.toDigits 10 n

/-- `Float#to_s` of a finite `Float`, which `JSON.generate` writes for it: the sign, the integer part,
the point and the digits after it, and in scientific notation `e`, the exponent's sign and its
digits (`-0.5`, `100.0`, `1.0e+20`, `1.0e-05`). -/
def decimalChars (d : JsDecimal) : List Char :=
  (if d.negative then ['-'] else []) ++ Nat.toDigits 10 d.whole ++ '.' :: d.fraction.map digitOf ++
    match d.exponent with
    | none => []
    | some e => 'e' :: (if e < 0 then '-' else '+') :: exponentDigits e.natAbs

mutual
/-- `JSON.generate`. -/
def generate : JsValue → List Char
  | .undef | .null => ['n', 'u', 'l', 'l']
  | .bool true => ['t', 'r', 'u', 'e']
  | .bool false => ['f', 'a', 'l', 's', 'e']
  | .num n => intChars n
  | .decimal d => decimalChars d
  | .str s => quote s
  | .arr [] => ['[', ']']
  | .arr (x :: xs) => '[' :: (generate x ++ generateElems xs)
  | .obj [] => ['{', '}']
  | .obj ((k, v) :: ps) => '{' :: (quote k ++ ':' :: (generate v ++ generateMembers ps))
/-- What follows the first element of an array: `,x` for each further element, then `]`. -/
def generateElems : List JsValue → List Char
  | [] => [']']
  | x :: xs => ',' :: (generate x ++ generateElems xs)
/-- What follows the first member of an object: `,"k":v` for each further member, then `}`. -/
def generateMembers : List (String × JsValue) → List Char
  | [] => ['}']
  | (k, v) :: ps => ',' :: (quote k ++ ':' :: (generate v ++ generateMembers ps))
end

/-! ### No line breaks -/

/-- Neither a line feed nor a carriage return. -/
def NotNewline (c : Char) : Prop := c ≠ '\n' ∧ c ≠ '\r'

instance : DecidablePred NotNewline := fun _ => inferInstanceAs (Decidable (_ ∧ _))

theorem notNewline_hexDigit {n : Nat} (h : n < 16) : NotNewline (hexDigit n) := by
  revert n; decide

theorem notNewline_of_mem_ite {p : Prop} [Decidable p] {l r : List Char} {d : Char}
    (hl : p → d ∈ l → NotNewline d) (hr : ¬p → d ∈ r → NotNewline d) (h : d ∈ if p then l else r) :
    NotNewline d := by
  by_cases hp : p
  · exact hl hp (by rwa [if_pos hp] at h)
  · exact hr hp (by rwa [if_neg hp] at h)

/-- The escapes are line-break free, and a character written as it is is neither `\n` nor `\r`. -/
theorem notNewline_of_mem_escapeChar {c d : Char} (h : d ∈ escapeChar c) : NotNewline d := by
  have pair : ∀ {a b : Char}, NotNewline a → NotNewline b → d ∈ [a, b] → NotNewline d := fun ha hb hd => by
    rcases List.mem_pair.1 hd with rfl | rfl <;> assumption
  unfold escapeChar at h
  refine notNewline_of_mem_ite (fun _ => pair (by decide) (by decide)) (fun _ h => ?_) h
  refine notNewline_of_mem_ite (fun _ => pair (by decide) (by decide)) (fun _ h => ?_) h
  refine notNewline_of_mem_ite (fun _ => pair (by decide) (by decide)) (fun _ h => ?_) h
  refine notNewline_of_mem_ite (fun _ => pair (by decide) (by decide)) (fun _ h => ?_) h
  refine notNewline_of_mem_ite (fun _ => pair (by decide) (by decide)) (fun hn h => ?_) h
  refine notNewline_of_mem_ite (fun _ => pair (by decide) (by decide)) (fun hr h => ?_) h
  refine notNewline_of_mem_ite (fun _ => pair (by decide) (by decide)) (fun _ h => ?_) h
  refine notNewline_of_mem_ite (fun _ h => ?_) (fun _ h => ?_) h
  · simp only [List.mem_cons, List.not_mem_nil, or_false] at h
    rcases h with rfl | rfl | rfl | rfl | h | h
    · decide
    · decide
    · decide
    · decide
    · exact h ▸ notNewline_hexDigit (by omega)
    · exact h ▸ notNewline_hexDigit (Nat.mod_lt _ (by decide))
  · rw [List.mem_singleton.1 h]
    exact ⟨hn, hr⟩

theorem notNewline_of_mem_quote {s : String} {d : Char} (h : d ∈ quote s) : NotNewline d := by
  simp only [quote, List.mem_cons, List.mem_append, List.mem_flatMap, List.mem_singleton,
    List.not_mem_nil, or_false] at h
  rcases h with rfl | ⟨c, -, hc⟩ | rfl
  · decide
  · exact notNewline_of_mem_escapeChar hc
  · decide

theorem isDigit_of_mem_toDigitsCore {fuel n : Nat} {acc : List Char} {d : Char}
    (h : d ∈ Nat.toDigitsCore 10 fuel n acc) : d ∈ acc ∨ d.isDigit := by
  induction fuel generalizing n acc with
  | zero => exact .inl h
  | succ fuel ih =>
    have hdig : (Nat.digitChar (n % 10)).isDigit := by
      have : ∀ k < 10, (Nat.digitChar k).isDigit := by decide
      exact this _ (Nat.mod_lt _ (by decide))
    rw [toDigitsCore_succ] at h
    split at h
    · rcases List.mem_cons.1 h with rfl | h
      · exact .inr hdig
      · exact .inl h
    · rcases ih h with h | h
      · rcases List.mem_cons.1 h with rfl | h
        · exact .inr hdig
        · exact .inl h
      · exact .inr h

theorem isDigit_of_mem_toDigits {n : Nat} {d : Char} (h : d ∈ Nat.toDigits 10 n) : d.isDigit :=
  (isDigit_of_mem_toDigitsCore h).resolve_left (List.not_mem_nil d)

theorem digitChar_spec : ∀ k < 10, (Nat.digitChar k).isDigit ∧ (Nat.digitChar k).toNat - 48 = k := by
  decide

theorem isDigit_digitOf (k : Fin 10) : (digitOf k).isDigit := (digitChar_spec k k.2).1

theorem isDigit_of_mem_exponentDigits {n : Nat} {d : Char} (h : d ∈ exponentDigits n) : d.isDigit := by
  unfold exponentDigits at h
  split at h
  · rcases List.mem_pair.1 h with rfl | rfl
    · rfl
    · exact (digitChar_spec n ‹_›).1
  · exact isDigit_of_mem_toDigits h

theorem notNewline_of_isDigit {d : Char} (h : d.isDigit) : NotNewline d := by
  constructor <;> (rintro rfl; revert h; decide)

theorem notNewline_of_mem_intChars {n : Int} {d : Char} (h : d ∈ intChars n) : NotNewline d := by
  unfold intChars at h
  split at h
  · rcases List.mem_cons.1 h with rfl | h
    · decide
    · exact notNewline_of_isDigit (isDigit_of_mem_toDigits h)
  · exact notNewline_of_isDigit (isDigit_of_mem_toDigits h)

theorem notNewline_of_mem_decimalChars {d : JsDecimal} {c : Char} (h : c ∈ decimalChars d) : NotNewline c := by
  have hexp : ∀ {e : Int}, c ∈ 'e' :: (if e < 0 then '-' else '+') :: exponentDigits e.natAbs → NotNewline c :=
    fun h => by
      rcases List.mem_cons.1 h with rfl | h
      · decide
      · rcases List.mem_cons.1 h with rfl | h
        · split <;> decide
        · exact notNewline_of_isDigit (isDigit_of_mem_exponentDigits h)
  simp only [decimalChars, List.mem_append, List.mem_cons, List.mem_map] at h
  rcases h with ((hs | hw) | rfl | ⟨k, -, rfl⟩) | hx
  · split at hs
    · rw [List.mem_singleton.1 hs]; decide
    · exact absurd hs (List.not_mem_nil c)
  · exact notNewline_of_isDigit (isDigit_of_mem_toDigits hw)
  · decide
  · exact notNewline_of_isDigit (isDigit_digitOf k)
  · split at hx
    · exact absurd hx (List.not_mem_nil c)
    · exact hexp hx

mutual
theorem notNewline_of_mem_generate : ∀ (v : JsValue) {d : Char}, d ∈ generate v → NotNewline d
  | .undef, _, h | .null, _, h | .bool true, _, h | .bool false, _, h | .arr [], _, h | .obj [], _, h => by
    simp only [generate, List.mem_cons, List.mem_singleton, List.not_mem_nil, or_false] at h
    rcases h with rfl | rfl | rfl | rfl | rfl <;> decide
  | .num _, _, h => notNewline_of_mem_intChars h
  | .decimal _, _, h => notNewline_of_mem_decimalChars h
  | .str _, _, h => notNewline_of_mem_quote h
  | .arr (x :: xs), _, h => by
    rcases List.mem_cons.1 h with rfl | h
    · decide
    · rcases List.mem_append.1 h with h | h
      · exact notNewline_of_mem_generate x h
      · exact notNewline_of_mem_generateElems xs h
  | .obj ((k, v) :: ps), _, h => by
    rcases List.mem_cons.1 h with rfl | h
    · decide
    · rcases List.mem_append.1 h with h | h
      · exact notNewline_of_mem_quote h
      · rcases List.mem_cons.1 h with rfl | h
        · decide
        · rcases List.mem_append.1 h with h | h
          · exact notNewline_of_mem_generate v h
          · exact notNewline_of_mem_generateMembers ps h
theorem notNewline_of_mem_generateElems : ∀ (xs : List JsValue) {d : Char}, d ∈ generateElems xs → NotNewline d
  | [], _, h => by rw [List.mem_singleton.1 (show _ ∈ [']'] from h)]; decide
  | x :: xs, _, h => by
    rcases List.mem_cons.1 h with rfl | h
    · decide
    · rcases List.mem_append.1 h with h | h
      · exact notNewline_of_mem_generate x h
      · exact notNewline_of_mem_generateElems xs h
theorem notNewline_of_mem_generateMembers :
    ∀ (ps : List (String × JsValue)) {d : Char}, d ∈ generateMembers ps → NotNewline d
  | [], _, h => by rw [List.mem_singleton.1 (show _ ∈ ['}'] from h)]; decide
  | (k, v) :: ps, _, h => by
    rcases List.mem_cons.1 h with rfl | h
    · decide
    · rcases List.mem_append.1 h with h | h
      · exact notNewline_of_mem_quote h
      · rcases List.mem_cons.1 h with rfl | h
        · decide
        · rcases List.mem_append.1 h with h | h
          · exact notNewline_of_mem_generate v h
          · exact notNewline_of_mem_generateMembers ps h
end

/-- `JSON.generate` writes no line feed and no carriage return. -/
theorem newline_not_mem_generate (v : JsValue) : '\n' ∉ generate v ∧ '\r' ∉ generate v :=
  ⟨fun h => (notNewline_of_mem_generate v h).1 rfl, fun h => (notNewline_of_mem_generate v h).2 rfl⟩

end Json

end AgUi
