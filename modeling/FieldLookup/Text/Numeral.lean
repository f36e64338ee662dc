/-!
Decimal numerals: writing a natural number or an integer, padding with zeros, and reading them
back; hexadecimal digits and code points. Main statements: `value?_digits` (reading undoes writing)
and `value?_padded` (leading zeros do not count).
-/
namespace FieldLookup.Text.Numeral

def digitChar (d : Nat) : Char := Char.ofNat (48 + d % 10)

/-- The value of an ASCII digit. -/
def digitValue? (c : Char) : Option Nat :=
  if '0' ≤ c ∧ c ≤ '9' then some (c.toNat - 48) else none

def isDigit (c : Char) : Bool := (digitValue? c).isSome

/-- The decimal digits of a number, without leading zeros. -/
def digits (n : Nat) : List Char :=
  if n < 10 then [digitChar n] else digits (n / 10) ++ [digitChar (n % 10)]

/-- The digits of a number, filled up with zeros on the left to a width. -/
def padded (width n : Nat) : List Char :=
  List.replicate (width - (digits n).length) '0' ++ digits n

/-- The number that a run of digits stands for, continuing from one already read. -/
def valueFrom? : Nat → List Char → Option Nat
  | n, [] => some n
  | n, c :: s => (digitValue? c).bind fun d => valueFrom? (10 * n + d) s

/-- The number that a nonempty run of ASCII digits stands for. -/
def value? (s : List Char) : Option Nat := if s = [] then none else valueFrom? 0 s

/-- The value of a run of characters that are all digits, with anything else counted as zero. -/
def valueOfDigits (s : List Char) : Nat :=
  s.foldl (fun n c => 10 * n + (digitValue? c).getD 0) 0

/-- An integer: at most one sign, then digits. -/
def intValue? : List Char → Option Int
  | '-' :: s => (value? s).map fun n => -Int.ofNat n
  | '+' :: s => (value? s).map Int.ofNat
  | s => (value? s).map Int.ofNat

/-- The word with the given value, if there is one. -/
def int64OfInt? (n : Int) : Option Int64 :=
  if Int64.minValue.toInt ≤ n ∧ n ≤ Int64.maxValue.toInt then some (Int64.ofInt n) else none

/-- A signed decimal integer that fits a 64-bit word. -/
def int64Of? (s : List Char) : Option Int64 := (intValue? s).bind int64OfInt?

def intDigits (n : Int) : List Char :=
  if n < 0 then '-' :: digits n.natAbs else digits n.natAbs

def natText (n : Nat) : String := String.ofList (digits n)

def intText (n : Int) : String := String.ofList (intDigits n)

/-! ## Hexadecimal digits and code points -/

/-- The value of a hexadecimal digit. -/
def hexValue? (c : Char) : Option Nat :=
  if '0' ≤ c ∧ c ≤ '9' then some (c.toNat - 48)
  else if 'a' ≤ c ∧ c ≤ 'f' then some (c.toNat - 87)
  else if 'A' ≤ c ∧ c ≤ 'F' then some (c.toNat - 55)
  else none

/-- The character with a code point, if there is one. -/
def charOfCode? (n : Nat) : Option Char := if n.isValidChar then some (Char.ofNat n) else none

/-! ## Reading undoes writing -/

theorem digitValue?_digitChar (d : Nat) : digitValue? (digitChar d) = some (d % 10) := by
  have h : d % 10 < 10 := Nat.mod_lt _ (by decide)
  unfold digitChar
  generalize d % 10 = k at h
  match k with
  | 0 | 1 | 2 | 3 | 4 | 5 | 6 | 7 | 8 | 9 => decide
  | k + 10 => omega

theorem valueFrom?_append (n : Nat) (s t : List Char) :
    valueFrom? n (s ++ t) = (valueFrom? n s).bind fun m => valueFrom? m t := by
  induction s generalizing n with
  | nil => rfl
  | cons c s ih =>
    simp only [List.cons_append, valueFrom?]
    cases digitValue? c with
    | none => rfl
    | some d => simpa using ih (10 * n + d)

theorem valueFrom?_digits (n : Nat) : valueFrom? 0 (digits n) = some n := by
  fun_induction digits n with
  | case1 n h => simp [valueFrom?, digitValue?_digitChar, Nat.mod_eq_of_lt h]
  | case2 n h ih =>
    rw [valueFrom?_append, ih]
    simp [valueFrom?, digitValue?_digitChar]
    omega

theorem digits_ne_nil (n : Nat) : digits n ≠ [] := by
  unfold digits
  split <;> simp

theorem value?_digits (n : Nat) : value? (digits n) = some n := by
  simp [value?, digits_ne_nil, valueFrom?_digits]

theorem valueFrom?_replicate_zero (k : Nat) (s : List Char) :
    valueFrom? 0 (List.replicate k '0' ++ s) = valueFrom? 0 s := by
  induction k with
  | zero => rfl
  | succ k ih =>
    have h0 : digitValue? '0' = some 0 := by decide
    simpa [List.replicate_succ, valueFrom?, h0] using ih

theorem value?_padded (width n : Nat) : value? (padded width n) = some n := by
  simp [value?, padded, digits_ne_nil, valueFrom?_replicate_zero, valueFrom?_digits]

end FieldLookup.Text.Numeral
