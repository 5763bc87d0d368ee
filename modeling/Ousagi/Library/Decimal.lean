import Mathlib.Data.Nat.Digits.Defs

/-!
Canonical decimal notation over bytes: digits without leading zeros, with a
minus sign for the negative integers.
-/

namespace Library

def decimal (value : Nat) : List UInt8 := (Nat.toDigits 10 value).map Char.toUInt8

def signedDecimal (value : Int) : List UInt8 :=
  if value < 0 then 45 :: decimal value.natAbs else decimal value.natAbs

def isDigit (byte : UInt8) : Bool := 48 ≤ byte && byte ≤ 57

def digitsValue (digits : List UInt8) : Nat :=
  digits.foldl (fun value digit => 10 * value + (digit.toNat - 48)) 0

/-- An optional sign, then at least one digit, and what they denote. -/
inductive Numeral : List UInt8 → Int → Prop
  | plain {digits : List UInt8} (some : digits ≠ []) (only : ∀ digit ∈ digits, isDigit digit) :
      Numeral digits (digitsValue digits)
  | plus {digits : List UInt8} (some : digits ≠ []) (only : ∀ digit ∈ digits, isDigit digit) :
      Numeral (43 :: digits) (digitsValue digits)
  | minus {digits : List UInt8} (some : digits ≠ []) (only : ∀ digit ∈ digits, isDigit digit) :
      Numeral (45 :: digits) (-digitsValue digits)

theorem decimal_nonempty (value : Nat) : decimal value ≠ [] := by
  simp [decimal, Nat.toDigits_ne_nil]

theorem decimal_length {value digits : Nat} (positive : 0 < digits)
    (small : value < 10 ^ digits) : (decimal value).length ≤ digits := by
  rw [decimal, List.length_map]
  exact Nat.toDigits_length 10 value digits positive small

theorem toUInt8_digit {digit : Char} (isDigit : digit.isDigit = true) :
    digit.toUInt8.toNat = digit.toNat ∧ 48 ≤ digit.toNat ∧ digit.toNat ≤ 57 := by
  simp only [Char.isDigit, Bool.and_eq_true, decide_eq_true_eq, UInt32.le_iff_toNat_le] at isDigit
  have lower : 48 ≤ digit.toNat := isDigit.1
  have upper : digit.toNat ≤ 57 := isDigit.2
  refine ⟨?_, lower, upper⟩
  have same : digit.toUInt8.toNat = digit.toNat % 256 := UInt32.toNat_toUInt8 digit.val
  omega

theorem decimal_digits {value : Nat} {byte : UInt8} (member : byte ∈ decimal value) :
    isDigit byte = true := by
  obtain ⟨digit, inside, same⟩ := List.mem_map.mp member
  obtain ⟨exact, lower, upper⟩ :=
    toUInt8_digit (Nat.isDigit_of_mem_toDigits (by omega) (by omega) inside)
  subst byte
  simp only [isDigit, Bool.and_eq_true, decide_eq_true_eq, UInt8.le_iff_toNat_le]
  change 48 ≤ digit.toUInt8.toNat ∧ digit.toUInt8.toNat ≤ 57
  omega

theorem digitsValue_map (digits : List Char) (start : Nat)
    (all : ∀ digit ∈ digits, digit.isDigit = true) :
    (digits.map Char.toUInt8).foldl (fun value digit => 10 * value + (digit.toNat - 48)) start =
      Nat.ofDigitChars 10 digits start := by
  induction digits generalizing start with
  | nil => simp
  | cons digit rest ih =>
      obtain ⟨exact, _, _⟩ := toUInt8_digit (all digit (by simp))
      simp only [List.map_cons, List.foldl_cons, Nat.ofDigitChars_cons]
      rw [ih _ (fun other member => all other (by simp [member])), exact]
      rfl

@[simp] theorem digitsValue_decimal (value : Nat) : digitsValue (decimal value) = value := by
  rw [digitsValue, decimal, digitsValue_map]
  · exact Nat.ofDigitChars_ten_toDigits
  · exact fun digit member => Nat.isDigit_of_mem_toDigits (by omega) (by omega) member

theorem decimal_injective {first second : Nat} (same : decimal first = decimal second) :
    first = second := by
  rw [← digitsValue_decimal first, same, digitsValue_decimal]

theorem toString_injective {first second : Nat} (same : toString first = toString second) :
    first = second := by
  have digits : Nat.toDigits 10 first = Nat.toDigits 10 second := String.ofList_injective same
  exact decimal_injective (congrArg (List.map Char.toUInt8) digits)

theorem not_mem_decimal {value : Nat} {byte : UInt8} (other : isDigit byte = false) :
    byte ∉ decimal value := by
  intro member
  simp [decimal_digits member] at other

theorem numeral_more {token : List UInt8} {value : Int} (numeral : Numeral token value) :
    token ≠ [] ∧ token ≠ [43] ∧ token ≠ [45] := by
  cases numeral with
  | plain some only =>
      refine ⟨some, ?_, ?_⟩
      · rintro rfl
        exact absurd (only 43 (by simp)) (by decide)
      · rintro rfl
        exact absurd (only 45 (by simp)) (by decide)
  | plus some only => simp [some]
  | minus some only => simp [some]

theorem signedDecimal_nonempty (value : Int) : signedDecimal value ≠ [] := by
  rw [signedDecimal]
  split
  · simp
  · exact decimal_nonempty _

example : decimal 18446744073709551615 = "18446744073709551615".toList.map Char.toUInt8 := by
  decide

end Library
