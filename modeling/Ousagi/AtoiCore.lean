import Mathlib.Data.List.TakeWhile
import Ousagi.ParserCore
import Ousagi.Library.Decimal

/-!
The number reader of the `atoi` crate as its documentation describes it: an
optional sign, then the longest run of digits, and no value when the number
does not fit the type.
-/

namespace Ousagi

open Library

/-- The number reader reads the canonical decimals of each type whole. -/
structure CanonicalDecimals [FromRadix10SignedChecked UInt32] [FromRadix10SignedChecked UInt64]
    [FromRadix10SignedChecked Int64] : Prop where
  uint32 : ∀ value : UInt32, FromRadix10SignedChecked.fromRadix10SignedChecked
    (decimal value.toNat) = (some value, (decimal value.toNat).length)
  uint64 : ∀ value : UInt64, FromRadix10SignedChecked.fromRadix10SignedChecked
    (decimal value.toNat) = (some value, (decimal value.toNat).length)
  int64 : ∀ value : Int64, FromRadix10SignedChecked.fromRadix10SignedChecked
    (signedDecimal value.toInt) = (some value, (signedDecimal value.toInt).length)

def readDigits (sign : Int) (offset : Nat) (rest : Bytes) : Int × Nat :=
  (sign * digitsValue (rest.takeWhile isDigit), offset + (rest.takeWhile isDigit).length)

def readSigned : Bytes → Int × Nat
  | [] => (0, 0)
  | first :: rest =>
      if first = 43 then readDigits 1 1 rest
      else if first = 45 then readDigits (-1) 1 rest
      else readDigits 1 0 (first :: rest)

/-- The reader of a type reads a token as documented, with no value when none of the type's is the
number that the token denotes. -/
structure SignedReader (α : Type) [FromRadix10SignedChecked α] (number : α → Int) : Prop where
  used : ∀ token, (FromRadix10SignedChecked.fromRadix10SignedChecked (α := α) token).2 =
    (readSigned token).2
  value : ∀ token (value : α), (FromRadix10SignedChecked.fromRadix10SignedChecked token).1 =
    some value ↔ number value = (readSigned token).1

structure SignedDecimals [FromRadix10SignedChecked UInt32] [FromRadix10SignedChecked UInt64]
    [FromRadix10SignedChecked Int64] : Prop where
  uint32 : SignedReader UInt32 fun value => value.toNat
  uint64 : SignedReader UInt64 fun value => value.toNat
  int64 : SignedReader Int64 Int64.toInt

theorem digits_whole (value : Nat) : (decimal value).takeWhile isDigit = decimal value :=
  List.takeWhile_eq_self_iff.mpr fun _ member => decimal_digits member

theorem readSigned_decimal (value : Nat) :
    readSigned (decimal value) = ((value : Int), (decimal value).length) := by
  have whole := digits_whole value
  cases digits : decimal value with
  | nil => exact absurd digits (decimal_nonempty value)
  | cons first rest =>
      have leading : first ∈ decimal value := by simp [digits]
      have digit : isDigit first = true := decimal_digits leading
      have notPlus : first ≠ 43 := by
        intro same
        simp [same, isDigit] at digit
      have notMinus : first ≠ 45 := by
        intro same
        simp [same, isDigit] at digit
      rw [readSigned, if_neg notPlus, if_neg notMinus, readDigits, ← digits, whole]
      simp

theorem readSigned_signedDecimal (value : Int) :
    readSigned (signedDecimal value) = (value, (signedDecimal value).length) := by
  by_cases negative : value < 0
  · rw [signedDecimal, if_pos negative, readSigned, if_neg (by decide), if_pos rfl, readDigits,
      digits_whole]
    simp only [digitsValue_decimal, List.length_cons, Prod.mk.injEq]
    omega
  · rw [signedDecimal, if_neg negative, readSigned_decimal, Prod.mk.injEq]
    omega

theorem readSigned_whole {token : Bytes} (whole : (readSigned token).2 = token.length)
    (some : token ≠ []) (digits : token ≠ [43] ∧ token ≠ [45]) :
    Numeral token (readSigned token).1 := by
  have only : ∀ rest : Bytes, (rest.takeWhile isDigit).length = rest.length →
      rest.takeWhile isDigit = rest ∧ ∀ digit ∈ rest, isDigit digit := by
    intro rest same
    have all := (List.takeWhile_prefix isDigit).eq_of_length same
    exact ⟨all, List.takeWhile_eq_self_iff.mp all⟩
  cases token with
  | nil => exact absurd rfl some
  | cons first rest =>
      simp only [readSigned] at whole ⊢
      by_cases plus : first = 43
      · rw [if_pos plus, readDigits] at whole ⊢
        obtain ⟨all, digit⟩ := only rest (by simpa [Nat.add_comm] using whole)
        rw [plus] at digits ⊢
        rw [all, one_mul]
        exact .plus (by simpa using digits.1) digit
      rw [if_neg plus] at whole ⊢
      by_cases minus : first = 45
      · rw [if_pos minus, readDigits] at whole ⊢
        obtain ⟨all, digit⟩ := only rest (by simpa [Nat.add_comm] using whole)
        rw [minus] at digits ⊢
        rw [all, neg_one_mul]
        exact .minus (by simpa using digits.2) digit
      · rw [if_neg minus, readDigits] at whole ⊢
        obtain ⟨all, digit⟩ := only (first :: rest) (by simpa using whole)
        rw [all, one_mul]
        exact .plain some digit

theorem SignedDecimals.canonical [FromRadix10SignedChecked UInt32]
    [FromRadix10SignedChecked UInt64] [FromRadix10SignedChecked Int64] (signed : SignedDecimals) :
    CanonicalDecimals where
  uint32 value := by
    refine Prod.ext ((signed.uint32.value _ value).mpr ?_) ((signed.uint32.used _).trans ?_)
    all_goals rw [readSigned_decimal]
  uint64 value := by
    refine Prod.ext ((signed.uint64.value _ value).mpr ?_) ((signed.uint64.used _).trans ?_)
    all_goals rw [readSigned_decimal]
  int64 value := by
    refine Prod.ext ((signed.int64.value _ value).mpr ?_) ((signed.int64.used _).trans ?_)
    all_goals rw [readSigned_signedDecimal]

instance : FromRadix10SignedChecked UInt32 where
  fromRadix10SignedChecked token :=
    let (value, used) := readSigned token
    (if 0 ≤ value ∧ value < 2 ^ 32 then some (UInt32.ofNat value.toNat) else none, used)

instance : FromRadix10SignedChecked UInt64 where
  fromRadix10SignedChecked token :=
    let (value, used) := readSigned token
    (if 0 ≤ value ∧ value < 2 ^ 64 then some (UInt64.ofNat value.toNat) else none, used)

instance : FromRadix10SignedChecked Int64 where
  fromRadix10SignedChecked token :=
    let (value, used) := readSigned token
    (if -2 ^ 63 ≤ value ∧ value < 2 ^ 63 then some (Int64.ofInt value) else none, used)

theorem signedDecimals : SignedDecimals where
  uint32 := by
    refine ⟨fun _ => rfl, fun token value => ?_⟩
    have bound := value.toNat_lt
    simp only [FromRadix10SignedChecked.fromRadix10SignedChecked, Option.ite_none_right_eq_some,
      Option.some.injEq]
    constructor
    · rintro ⟨within, rfl⟩
      rw [UInt32.toNat_ofNat_of_lt' (show _ < 2 ^ 32 by omega)]
      omega
    · intro same
      rw [← same]
      exact ⟨by omega, by simp⟩
  uint64 := by
    refine ⟨fun _ => rfl, fun token value => ?_⟩
    have bound := value.toNat_lt
    simp only [FromRadix10SignedChecked.fromRadix10SignedChecked, Option.ite_none_right_eq_some,
      Option.some.injEq]
    constructor
    · rintro ⟨within, rfl⟩
      rw [UInt64.toNat_ofNat_of_lt' (show _ < 2 ^ 64 by omega)]
      omega
    · intro same
      rw [← same]
      exact ⟨by omega, by simp⟩
  int64 := by
    refine ⟨fun _ => rfl, fun token value => ?_⟩
    have lower := value.le_toInt
    have upper := value.toInt_lt
    simp only [FromRadix10SignedChecked.fromRadix10SignedChecked, Option.ite_none_right_eq_some,
      Option.some.injEq]
    constructor
    · rintro ⟨within, rfl⟩
      exact Int64.toInt_ofInt_of_le within.1 within.2
    · intro same
      rw [← same]
      exact ⟨⟨lower, upper⟩, by simp⟩

theorem canonicalDecimals : CanonicalDecimals := signedDecimals.canonical

end Ousagi
