import TechPulse.Domain

/-!
# Python's `int()` on a `str`

`_parse_range` converts the parts of a `Range` header with the builtin `int`. For a
`str` argument and base 10, CPython 3.12 (`PyLong_FromUnicodeObject`) works in two
passes:

* `_PyUnicode_TransformDecimalAndSpaceToASCII` keeps every ASCII character, turns
  other whitespace into a space and a decimal digit of any script into its ASCII
  digit, and cuts the string at the first other character with a `?`;
* `PyLong_FromString` parses the ASCII result: `Py_ISSPACE` whitespace, one sign,
  digits with single underscores between them (not first, not last), whitespace
  again, and nothing else; more than `sys.get_int_max_str_digits()` digits
  (4300 by default) raise `ValueError` as well.

So `int()` accepts more than the ASCII numerals of a header grammar: signs,
underscores, surrounding whitespace and other scripts' digits. The main lemma,
`pyInt_numeral`, is what it does on an ASCII numeral.
-/

namespace TechPulse

/-! ### The two passes -/

/-- `Py_ISSPACE`: the whitespace of the C parser, ASCII only. -/
def asciiIsSpace (c : Char) : Bool := c == ' ' || (9 ≤ c.toNat && c.toNat ≤ 13)

/-- The code point of the digit zero of each run of ten decimal digits (general
    category `Nd`) in Unicode 15.0, the version of Python 3.12's tables. -/
def unicodeDigitZeros : List Nat :=
  [0x30, 0x660, 0x6F0, 0x7C0, 0x966, 0x9E6, 0xA66, 0xAE6, 0xB66, 0xBE6, 0xC66, 0xCE6,
   0xD66, 0xDE6, 0xE50, 0xED0, 0xF20, 0x1040, 0x1090, 0x17E0, 0x1810, 0x1946, 0x19D0,
   0x1A80, 0x1A90, 0x1B50, 0x1BB0, 0x1C40, 0x1C50, 0xA620, 0xA8D0, 0xA900, 0xA9D0,
   0xA9F0, 0xAA50, 0xABF0, 0xFF10, 0x104A0, 0x10D30, 0x11066, 0x110F0, 0x11136,
   0x111D0, 0x112F0, 0x11450, 0x114D0, 0x11650, 0x116C0, 0x11730, 0x118E0, 0x11950,
   0x11C50, 0x11D50, 0x11DA0, 0x11F50, 0x16A60, 0x16AC0, 0x16B50, 0x1D7CE, 0x1D7D8,
   0x1D7E2, 0x1D7EC, 0x1D7F6, 0x1E140, 0x1E2F0, 0x1E4F0, 0x1E950, 0x1FBF0]

/-- `Py_UNICODE_TODECIMAL`: the value of a decimal digit of any script. -/
def pyDecimal (c : Char) : Option Nat :=
  (unicodeDigitZeros.find? fun z => z ≤ c.toNat && c.toNat < z + 10).map (c.toNat - ·)

/-- `_PyUnicode_TransformDecimalAndSpaceToASCII` on one character; `none` stands
    for the `?` that ends the string, which no numeral contains. -/
def toAsciiDigitOrSpace (c : Char) : Option Char :=
  if c.toNat < 127 then some c
  else if pyIsSpace c then some ' '
  else (pyDecimal c).map fun d => Char.ofNat (48 + d)

/-- `_PY_LONG_DEFAULT_MAX_STR_DIGITS`. -/
def PY_LONG_DEFAULT_MAX_STR_DIGITS : Nat := 4300

/-- The value of a string of ASCII digits. -/
def decimalValue (ds : List Char) : Nat := ds.foldl (fun acc c => 10 * acc + (c.toNat - 48)) 0

/-- Whether two underscores follow each other, which `long_from_string_base`
    refuses. -/
def doubleUnderscore : List Char → Bool
  | '_' :: '_' :: _ => true
  | _ :: cs => doubleUnderscore cs
  | [] => false

/-- The optional sign: its factor, and the rest. -/
def pySign : List Char → Int × List Char
  | c :: r => if c = '+' then (1, r) else if c = '-' then (-1, r) else (1, c :: r)
  | [] => (1, [])

/-- `PyLong_FromString(str, &end, 10)` on an ASCII string, with the check of
    `PyLong_FromUnicodeObject` that it read to the end. -/
def pyLongFromString (a : List Char) : Option Int :=
  let (sign, a) := pySign (a.dropWhile asciiIsSpace)
  let body := a.takeWhile fun c => c.isDigit || c == '_'
  let rest := a.dropWhile fun c => c.isDigit || c == '_'
  let digits := body.filter (· != '_')
  if body.head? = some '_' || body.getLast? = some '_' || doubleUnderscore body ||
      digits.isEmpty || decide (PY_LONG_DEFAULT_MAX_STR_DIGITS < digits.length) ||
      !rest.all asciiIsSpace then none
  else some (sign * decimalValue digits)

/-- `int(x)` for a `str` `x`; `none` where it raises `ValueError`. -/
def pyInt (s : List Char) : Option Int := s.mapM toAsciiDigitOrSpace >>= pyLongFromString

/-! ### ASCII numerals -/

/-- An ASCII decimal numeral: a non-empty string of the digits `0` to `9`. -/
structure Numeral where
  digits : List Char
  digits_ne_nil : digits ≠ []
  isDigit : ∀ c ∈ digits, c.isDigit

@[simp] theorem Numeral.isEmpty_digits (a : Numeral) : a.digits.isEmpty = false := by
  simpa using a.digits_ne_nil

/-- The number a numeral denotes. -/
def Numeral.value (a : Numeral) : Nat := decimalValue a.digits

theorem Char.toNat_of_isDigit {c : Char} (h : c.isDigit) : 48 ≤ c.toNat ∧ c.toNat ≤ 57 := by
  simp only [Char.isDigit, Bool.and_eq_true, decide_eq_true_eq] at h
  exact ⟨h.1, h.2⟩

/-- An ASCII digit is none of the characters the parsers look for. -/
theorem Char.ne_of_isDigit {c : Char} (h : c.isDigit) {d : Char} (hd : d.isDigit = false) :
    c ≠ d := by
  rintro rfl; simp [h] at hd

theorem asciiIsSpace_of_isDigit {c : Char} (h : c.isDigit) : asciiIsSpace c = false := by
  have := Char.toNat_of_isDigit h
  have hsp : c ≠ ' ' := Char.ne_of_isDigit h (by decide)
  simp only [asciiIsSpace, Bool.or_eq_false_iff, beq_eq_false_iff_ne, ne_eq, hsp,
    not_false_eq_true, true_and, Bool.and_eq_false_imp, decide_eq_true_eq, decide_eq_false_iff_not]
  omega

theorem pyIsSpace_of_isDigit {c : Char} (h : c.isDigit) : pyIsSpace c = false := by
  have := Char.toNat_of_isDigit h
  simp only [pyIsSpace, Bool.or_eq_false_iff, Bool.and_eq_false_imp, decide_eq_true_eq,
    decide_eq_false_iff_not, beq_eq_false_iff_ne, ne_eq]
  omega

theorem mapM_toAsciiDigitOrSpace {s : List Char} (h : ∀ c ∈ s, c.isDigit) :
    s.mapM toAsciiDigitOrSpace = some s := by
  induction s with
  | nil => rfl
  | cons c s ih =>
    have hc : c.toNat < 127 := by have := Char.toNat_of_isDigit (h c (.head _)); omega
    rw [List.mapM_cons, ih fun d hd => h d (.tail _ hd)]
    simp [toAsciiDigitOrSpace, hc]

theorem doubleUnderscore_eq_false {s : List Char} (h : '_' ∉ s) : doubleUnderscore s = false := by
  induction s with
  | nil => rfl
  | cons c s ih =>
    have hc : c ≠ '_' := fun hc => h (hc ▸ .head _)
    have ih := ih fun hs => h (.tail _ hs)
    cases s with
    | nil => simp [doubleUnderscore]
    | cons d s => simp [doubleUnderscore, hc, ih]

/-- **`int()` on an ASCII numeral** returns its value, unless it has more digits
    than the conversion limit. -/
theorem pyInt_numeral (a : Numeral) :
    pyInt a.digits =
      if a.digits.length ≤ PY_LONG_DEFAULT_MAX_STR_DIGITS then some (a.value : Int) else none := by
  obtain ⟨ds, hne, hd⟩ := a
  obtain ⟨c, r, rfl⟩ := List.exists_cons_of_ne_nil hne
  have hc := hd c (.head _)
  have hu : '_' ∉ c :: r := fun hu => absurd (hd _ hu) (by decide)
  have hsign : pySign (c :: r) = (1, c :: r) := by
    simp [pySign, Char.ne_of_isDigit hc (d := '+') (by decide),
      Char.ne_of_isDigit hc (d := '-') (by decide)]
  have hbody : (c :: r).takeWhile (fun c => c.isDigit || c == '_') = c :: r :=
    List.takeWhile_eq_self_iff.mpr fun x hx => by simp [hd x hx]
  have hrest : (c :: r).dropWhile (fun c => c.isDigit || c == '_') = [] :=
    List.dropWhile_eq_nil_iff.mpr fun x hx => by simp [hd x hx]
  have hdigits : (c :: r).filter (· != '_') = c :: r :=
    List.filter_eq_self.mpr fun x hx => by
      have : x ≠ '_' := fun h => hu (h ▸ hx)
      simpa using this
  have hlast : (c :: r).getLast? ≠ some '_' := fun h => hu (List.mem_of_mem_getLast? h)
  rw [pyInt, mapM_toAsciiDigitOrSpace hd]
  show pyLongFromString (c :: r) = _
  simp only [pyLongFromString, List.dropWhile_cons, asciiIsSpace_of_isDigit hc, Bool.false_eq_true, if_false, hsign, hbody,
    hrest, hdigits, List.head?_cons, Option.some.injEq, Char.ne_of_isDigit hc (d := '_')
      (by decide), decide_False, Bool.false_or, hlast, doubleUnderscore_eq_false hu,
    List.isEmpty_cons, List.all_nil, Bool.not_true, Bool.or_false, Int.one_mul, Numeral.value,
    decide_eq_true_eq]
  split_ifs <;> first | rfl | omega

end TechPulse
