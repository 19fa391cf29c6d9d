namespace RayCompiler.Integer

-- The product of two 64-bit integers, unless it lies outside their range.
def times? (first second : Int64) : Option Int64 :=
  if first.toBitVec.smulOverflow second.toBitVec then none else some (first * second)

-- The sum of two 64-bit integers, unless it lies outside their range.
def plus? (first second : Int64) : Option Int64 :=
  if first.toBitVec.saddOverflow second.toBitVec then none else some (first + second)

def ofDigit (digit : Char) : Int64 := .ofNat (digit.toNat - '0'.toNat)

-- An integer with one more decimal digit behind it.
def extend? (value : Int64) (digit : Char) : Option Int64 := do
  let tens ← times? value 10
  plus? tens (ofDigit digit)

-- The integer that decimal digits spell. It is gathered from the first digit on, up to the first
-- product or sum outside the range.
def ofDigits? (digits : List Char) : Option Int64 := digits.foldlM extend? 0

theorem times?_cases (first second : Int64) :
    (times? first second = some (first * second) ∧
      (first * second).toInt = first.toInt * second.toInt) ∨
    (times? first second = none ∧
      (Int64.maxValue.toInt < first.toInt * second.toInt ∨
        first.toInt * second.toInt < Int64.minValue.toInt)) := by
  by_cases h : first.toBitVec.smulOverflow second.toBitVec
  · refine .inr ⟨if_pos h, ?_⟩
    simp only [BitVec.smulOverflow, Int64.toInt_toBitVec, Bool.or_eq_true, decide_eq_true_eq] at h
    rw [Int64.toInt_maxValue, Int64.toInt_minValue]
    omega
  · exact .inl ⟨if_neg h, BitVec.toInt_mul_of_not_smulOverflow h⟩

theorem plus?_cases (first second : Int64) :
    (plus? first second = some (first + second) ∧
      (first + second).toInt = first.toInt + second.toInt) ∨
    (plus? first second = none ∧
      (Int64.maxValue.toInt < first.toInt + second.toInt ∨
        first.toInt + second.toInt < Int64.minValue.toInt)) := by
  by_cases h : first.toBitVec.saddOverflow second.toBitVec
  · refine .inr ⟨if_pos h, ?_⟩
    simp only [BitVec.saddOverflow, Int64.toInt_toBitVec, Bool.or_eq_true, decide_eq_true_eq] at h
    rw [Int64.toInt_maxValue, Int64.toInt_minValue]
    omega
  · exact .inl ⟨if_neg h, BitVec.toInt_add_of_not_saddOverflow h⟩

theorem toInt_ofDigit (digit : Char) :
    (ofDigit digit).toInt = (digit.toNat - '0'.toNat : Nat) := by
  have hlt : digit.toNat < 2 ^ 32 := digit.val.toNat_lt
  exact Int64.toInt_ofNat_of_lt (by omega)

-- What a digit does to an integer that is not negative. A product that is too large makes the sum
-- too large as well, so the exact sum decides.
theorem extend?_cases {value : Int64} (hvalue : 0 ≤ value.toInt) (digit : Char) :
    (extend? value digit = some (value * 10 + ofDigit digit) ∧
      (value * 10).toInt = value.toInt * 10 ∧
      (value * 10 + ofDigit digit).toInt = (value * 10).toInt + (ofDigit digit).toInt) ∨
    (extend? value digit = none ∧ Int64.maxValue.toInt < value.toInt * 10 + (ofDigit digit).toInt) := by
  have hdigit := toInt_ofDigit digit
  have hmin := Int64.toInt_minValue
  have htimes := times?_cases value 10
  rw [show (10 : Int64).toInt = 10 from rfl] at htimes
  rcases htimes with ⟨htens, hproduct⟩ | ⟨htens, hlarge⟩
  · have hextend : extend? value digit = plus? (value * 10) (ofDigit digit) := by
      rw [extend?, htens]
      rfl
    rw [hextend]
    rcases plus?_cases (value * 10) (ofDigit digit) with ⟨hplus, hsum⟩ | ⟨hplus, hlarge⟩
    · exact .inl ⟨hplus, hproduct, hsum⟩
    · exact .inr ⟨hplus, by omega⟩
  · exact .inr ⟨by rw [extend?, htens]; rfl, by omega⟩

end RayCompiler.Integer
