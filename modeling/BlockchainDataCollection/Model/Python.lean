import Mathlib
import BlockchainDataCollection.Text.Splitting

/-!
# The Python values and errors the collector relies on

Only the parts of the language that the collector's own code observes: lower
casing, splitting on a separator, truthiness of optional strings, reading
hexadecimal numbers, floats that hold integers, and the exceptions that are
raised or caught by name.
-/

namespace BlockchainDataCollection.Python

/-- Exceptions, each with the text the code or the interpreter gives it. -/
inductive PyError where
  | typeError (message : String)
  | valueError (message : String)
  | attributeError (message : String)
  | overflowError (message : String)
  | unboundLocalError (name : String)
  | notImplementedError (message : String)
  | invalidAddress (address : String)
  | blockNotFound
  | nodeError (message : String)
  | databaseError (message : String)
  | redisError (message : String)
  | kafkaTimeoutError
  | kafkaError (message : String)
  | kafkaConsumerPartitionsEmptyError
  deriving DecidableEq

/-- `str.lower` on ASCII text.  It is only applied to hexadecimal addresses, where
the two agree; letters outside ASCII, which Python lowers too, are left alone. -/
def lower (text : String) : String :=
  String.ofList (text.toList.map Char.toLower)

/-- `str.split(sep)` for a separator of one character. -/
def split (separator : Char) (text : String) : List String :=
  (text.toList.splitOn separator).map String.ofList

theorem split_eq_pair_iff {separator : Char} {text before after : String} :
    split separator text = [before, after] ↔
      text.toList = before.toList ++ separator :: after.toList ∧
        separator ∉ before.toList ∧ separator ∉ after.toList := by
  have hpair : [before, after] = [before.toList, after.toList].map String.ofList := by
    simp [String.ofList_toList]
  rw [split, hpair, List.map_inj_right fun _ _ h => String.ofList_injective h,
    Splitting.splitOn_eq_pair_iff]

/-- `if value:` for an optional string. -/
def truthy : Option String → Option String
  | none => none
  | some text => if text = "" then none else some text

theorem truthy_eq_some {value : Option String} {text : String} :
    truthy value = some text ↔ value = some text ∧ text ≠ "" := by
  cases value with
  | none => simp [truthy]
  | some other =>
      by_cases h : other = ""
      · subst other
        simp only [truthy, if_true, reduceCtorEq, Option.some.injEq, false_iff, not_and, not_not]
        exact fun h => h.symm
      · simp only [truthy, if_neg h, Option.some.injEq, iff_self_and]
        rintro rfl
        exact h

/-! ## Hexadecimal numbers -/

def hexDigit (c : Char) : Option ℕ :=
  if '0' ≤ c ∧ c ≤ '9' then some (c.toNat - '0'.toNat)
  else if 'a' ≤ c ∧ c ≤ 'f' then some (c.toNat - 'a'.toNat + 10)
  else if 'A' ≤ c ∧ c ≤ 'F' then some (c.toNat - 'A'.toNat + 10)
  else none

/-- The digits after the first one; an underscore may separate two digits. -/
def hexDigits (value : ℕ) : List Char → Option ℕ
  | [] => some value
  | '_' :: c :: rest => (hexDigit c).bind fun digit => hexDigits (value * 16 + digit) rest
  | c :: rest => (hexDigit c).bind fun digit => hexDigits (value * 16 + digit) rest

def hexNumber : List Char → Option ℕ
  | [] => none
  | c :: rest => (hexDigit c).bind fun digit => hexDigits digit rest

def dropHexMarker : List Char → List Char
  | '0' :: 'x' :: '_' :: rest => rest
  | '0' :: 'X' :: '_' :: rest => rest
  | '0' :: 'x' :: rest => rest
  | '0' :: 'X' :: rest => rest
  | text => text

def strip (text : List Char) : List Char :=
  ((text.dropWhile Char.isWhitespace).reverse.dropWhile Char.isWhitespace).reverse

def hexInteger : List Char → Option ℤ
  | '-' :: rest => (hexNumber (dropHexMarker rest)).map fun value => -(value : ℤ)
  | '+' :: rest => (hexNumber (dropHexMarker rest)).map fun value => (value : ℤ)
  | text => (hexNumber (dropHexMarker text)).map fun value => (value : ℤ)

/-- `int(text, 16)`. -/
def intBase16 (text : String) : Except PyError ℤ :=
  match hexInteger (strip text.toList) with
  | some value => .ok value
  | none => .error (.valueError s!"invalid literal for int() with base 16: '{text}'")

example : intBase16 "0x1bc16d674ec80000" = .ok 2000000000000000000 := by decide

/-! ## Floats that hold integers -/

/-- The float nearest to a natural number: 53 significant bits, ties to even. -/
def toFloat (value : ℕ) : ℕ :=
  if value < 2 ^ 53 then value
  else
    let unit := 2 ^ (Nat.log2 value - 52)
    let quotient := value / unit
    let remainder := value % unit
    if 2 * remainder < unit ∨ 2 * remainder = unit ∧ quotient % 2 = 0 then quotient * unit
    else (quotient + 1) * unit

/-- `a * b` on floats. -/
def floatMul (left right : ℕ) : ℕ := toFloat (left * right)

/-- `float.fromhex` on the quantities a node sends: `0x` and hexadecimal digits,
for numbers below `2 ^ 1024 - 2 ^ 970`.  From there on Python raises an
`OverflowError`, and it also reads signs, blanks, fractions and exponents; no
quantity of 256 bits is written so. -/
def floatFromHex (text : String) : Except PyError ℕ :=
  match if '_' ∈ text.toList then none else hexNumber (dropHexMarker text.toList) with
  | some value => .ok (toFloat value)
  | none => .error (.valueError "invalid hexadecimal floating-point string")

end BlockchainDataCollection.Python
