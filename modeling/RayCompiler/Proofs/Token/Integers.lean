import RayCompiler.Token.Integer
import RayCompiler.Token.LexError

namespace RayCompiler.Integer

-- Digits gathered behind an integer without wrapping: each product and each sum on the way is the
-- exact one, up to the first that is too large.
inductive Gathers : Int64 → List Char → Option Int64 → Prop where
  | nil : Gathers value [] (some value)
  | cons {value : Int64} (product : (value * 10).toInt = value.toInt * 10)
      (sum : (value * 10 + ofDigit digit).toInt = (value * 10).toInt + (ofDigit digit).toInt)
      (more : Gathers (value * 10 + ofDigit digit) digits result) :
      Gathers value (digit :: digits) result
  | overflow {value : Int64}
      (large : Int64.maxValue.toInt < value.toInt * 10 + (ofDigit digit).toInt) :
      Gathers value (digit :: digits) none

theorem gathers_foldlM {value : Int64} (hvalue : 0 ≤ value.toInt) (digits : List Char) :
    Gathers value digits (digits.foldlM extend? value) := by
  induction digits generalizing value with
  | nil => exact .nil
  | cons digit digits ih =>
      rw [List.foldlM_cons]
      rcases extend?_cases hvalue digit with ⟨hextend, hproduct, hsum⟩ | ⟨hextend, hlarge⟩
      · rw [hextend]
        have hdigit := toInt_ofDigit digit
        exact .cons hproduct hsum (ih (by omega))
      · rw [hextend]
        exact .overflow hlarge

theorem le_ofDigitChars (digits : List Char) (start : Nat) :
    start ≤ Nat.ofDigitChars 10 digits start := by
  rw [Nat.ofDigitChars_eq_ofDigitChars_zero]
  exact Nat.le_add_right_of_le (Nat.le_mul_of_pos_left start (Nat.pow_pos (by decide)))

-- An integer is gathered exactly if it is the value of the digits. More digits never make that value
-- smaller, so a sum that is too large for a part of them is too large for all.
theorem Gathers.eq_some_iff {value last : Int64} {digits : List Char} {result : Option Int64}
    (h : Gathers value digits result) {start : Nat} (hvalue : value.toInt = start) :
    result = some last ↔ last.toInt = Nat.ofDigitChars 10 digits start := by
  induction h generalizing start with
  | nil => rw [Nat.ofDigitChars_nil, ← hvalue, Option.some_inj, eq_comm, Int64.toInt_inj]
  | cons product sum more ih =>
      rw [Nat.ofDigitChars_cons]
      apply ih
      rw [sum, product, hvalue, toInt_ofDigit]
      omega
  | @overflow digit digits value large =>
      rw [hvalue, toInt_ofDigit] at large
      rw [Nat.ofDigitChars_cons]
      have hle := le_ofDigitChars digits (10 * start + (digit.toNat - '0'.toNat))
      have hmax := last.toInt_le
      constructor
      · intro he
        cases he
      · omega

theorem gathers_ofDigits? (digits : List Char) : Gathers 0 digits (ofDigits? digits) :=
  gathers_foldlM (by decide) digits

theorem ofDigits?_eq_some_iff {digits : List Char} {value : Int64} :
    ofDigits? digits = some value ↔ value.toInt = Nat.ofDigitChars 10 digits 0 :=
  (gathers_ofDigits? digits).eq_some_iff rfl

theorem ofDigits?_eq_none_iff {digits : List Char} :
    ofDigits? digits = none ↔ greatestInteger < Nat.ofDigitChars 10 digits 0 := by
  unfold greatestInteger
  constructor
  · intro hnone
    refine Nat.lt_of_not_le fun hle => ?_
    rw [ofDigits?_eq_some_iff.mpr (Int64.toInt_ofNat_of_lt (Nat.lt_succ_of_le hle))] at hnone
    cases hnone
  · intro hlarge
    refine Option.eq_none_iff_forall_ne_some.mpr fun value he => ?_
    have hvalue := ofDigits?_eq_some_iff.mp he
    have hlt := value.toInt_lt
    omega

end RayCompiler.Integer
