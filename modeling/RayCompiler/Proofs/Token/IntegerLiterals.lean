import Mathlib.Algebra.Group.Nat.Defs
import RayCompiler.Proofs.Token.Scanning

namespace RayCompiler

open Reading

-- The place so many one-byte characters further on the same line.
def Position.along (position : Position) (count : Nat) : Position :=
  ⟨position.offset + count, position.line, position.column + count⟩

theorem step_digit {c : Char} (h : c.isDigit) (position : Position) :
    position.step c = position.along 1 := by
  obtain ⟨hlow, hhigh⟩ := isDigit_iff.mp h
  have hline : c ≠ '\n' := by
    rintro rfl
    exact absurd hlow (by decide)
  have hsize : c.utf8Size = 1 := by
    rw [Char.utf8Size_eq_one_iff, UInt32.le_iff_toNat_le]
    exact Nat.le_trans hhigh (by decide)
  rw [Position.step, if_neg hline, hsize]
  rfl

theorem past_digits {digits : List Char} (hrun : ∀ c ∈ digits, c.isDigit) (position : Position) :
    position.past digits = position.along digits.length := by
  induction digits generalizing position with
  | nil => rfl
  | cons c digits ih =>
      rw [Position.past_cons, step_digit (hrun c List.mem_cons_self),
        ih fun d hm => hrun d (List.mem_cons_of_mem c hm)]
      simp only [Position.along, List.length_cons, Nat.add_assoc, Nat.add_comm 1]

namespace Lexer

variable {c : Char} {rest text after : List Char}

theorem next?_one {token : Token} (position : Position) (hgap : ¬isGap c)
    (hread : ofText c rest = one text token after) :
    (Lexer.mk position (c :: rest) [] false).next? =
      some (.ok ⟨⟨position, position.past text⟩, token⟩, ⟨position.past text, after, [], false⟩) := by
  have houtcome : (ofText c rest).outcome = .ok after := by rw [hread]; rfl
  have hfound : locate position (ofText c rest).lexemes =
      [⟨⟨position, position.past text⟩, token⟩] := by rw [hread]; rfl
  have hcovered : (ofText c rest).covered = text := by rw [hread]; exact List.append_nil text
  rw [next?_read hgap houtcome hfound, hcovered]

theorem tokensFrom_of_next? {position stop : Position} {token : Located Token}
    (h : (Lexer.mk position text [] false).next? = some (.ok token, ⟨stop, after, [], false⟩)) :
    tokensFrom position text = (token :: ·) <$> tokensFrom stop after := by
  rw [← mapM_items, items_cons h, ← mapM_items]
  exact mapM_ok_append [token] _

theorem tokensFrom_of_next?_error {position : Position} {error : Located LexError} {later : Lexer}
    (h : (Lexer.mk position text [] false).next? = some (.error error, later)) :
    tokensFrom position text = .error error := by
  rw [← mapM_items, items_cons h]
  rfl

end Lexer

-- What a lexer makes of digits that begin at the given place, where the given text follows: a number
-- with the exact value, or an error at the first digit if that value is too large. On the way to
-- either of them no product and no sum wraps.
structure ReadsInteger (position : Position) (digits after : List Char) : Prop where
  gathers : Integer.Gathers 0 digits (Integer.ofDigits? digits)
  fits : Nat.ofDigitChars 10 digits 0 ≤ 2 ^ 63 - 1 → ∃ value token,
    Integer.ofDigits? digits = some value ∧ value.toInt = Nat.ofDigitChars 10 digits 0 ∧
    token = ⟨⟨position, position.along digits.length⟩, .number value⟩ ∧
    (Lexer.mk position (digits ++ after) [] false).next? =
      some (.ok token, ⟨position.along digits.length, after, [], false⟩) ∧
    tokensFrom position (digits ++ after) =
      (token :: ·) <$> tokensFrom (position.along digits.length) after
  exceeds : 2 ^ 63 - 1 < Nat.ofDigitChars 10 digits 0 → ∃ later,
    Integer.ofDigits? digits = none ∧
    (Lexer.mk position (digits ++ after) [] false).next? =
      some (.error ⟨.point position, .integerOverflow⟩, later) ∧
    later.items = [] ∧
    tokensFrom position (digits ++ after) = .error ⟨.point position, .integerOverflow⟩

theorem readsInteger_of_digits {digits after : List Char} (hfilled : digits ≠ [])
    (hrun : ∀ c ∈ digits, c.isDigit) (hends : ∀ c ∈ after.head?, ¬c.isDigit)
    (position : Position) : ReadsInteger position digits after := by
  obtain ⟨c, more, rfl⟩ := List.exists_cons_of_ne_nil hfilled
  have hgap : ¬isGap c := fun h => not_isDigit_of_isGap h (hrun c List.mem_cons_self)
  have hread := ofText_of_digits hfilled hrun hends rfl
  refine ⟨Integer.gathers_ofDigits? _, fun hfits => ?_, fun hlarge => ?_⟩
  · have hvalue := Int64.toInt_ofNat_of_lt (Nat.lt_of_le_of_lt hfits (by decide))
    have hsome := Integer.ofDigits?_eq_some_iff.mpr hvalue
    rw [hsome, Option.elim_some] at hread
    have hnext := Lexer.next?_one position hgap hread
    rw [past_digits hrun] at hnext
    exact ⟨_, _, hsome, hvalue, rfl, hnext, Lexer.tokensFrom_of_next? hnext⟩
  · have hnone : Integer.ofDigits? (c :: more) = none := Integer.ofDigits?_eq_none_iff.mpr hlarge
    rw [hnone, Option.elim_none] at hread
    have hnext := @Lexer.next?_failed position _ _ _ hgap (by rw [hread]; rfl)
    rw [hread] at hnext
    exact ⟨_, hnone, hnext, Lexer.items_done _ _, Lexer.tokensFrom_of_next?_error hnext⟩

-- The largest integer behind zeros, and the next one with a digit more, so that the sum is too large
-- in the middle of the run.
def largestDigits : List Char := "009223372036854775807".toList

def excessDigits : List Char := "92233720368547758080".toList

theorem readsInteger_largestDigits :
    (Nat.ofDigitChars 10 largestDigits 0 = 2 ^ 63 - 1 ∧
      Nat.ofDigitChars 10 excessDigits 0 = 2 ^ 63 * 10) ∧
    (Lexer.mk .start (largestDigits ++ ['x']) [] false).next? =
      some (.ok ⟨⟨.start, ⟨21, 1, 22⟩⟩, .number Int64.maxValue⟩, ⟨⟨21, 1, 22⟩, ['x'], [], false⟩) ∧
    tokensFrom .start excessDigits = .error ⟨.point .start, .integerOverflow⟩ := by
  have hlargest : Nat.ofDigitChars 10 largestDigits 0 = 2 ^ 63 - 1 := by decide +kernel
  have hexcess : Nat.ofDigitChars 10 excessDigits 0 = 2 ^ 63 * 10 := by decide +kernel
  have hfirst : ReadsInteger .start largestDigits ['x'] :=
    readsInteger_of_digits (by decide +kernel) (List.all_eq_true.mp rfl) (by simp) .start
  have hsecond : ReadsInteger .start excessDigits [] :=
    readsInteger_of_digits (by decide +kernel) (List.all_eq_true.mp rfl) (by simp) .start
  obtain ⟨value, _, _, hvalue, rfl, hnext, _⟩ := hfirst.fits (Nat.le_of_eq hlargest)
  obtain ⟨_, _, _, _, htokens⟩ := hsecond.exceeds (by rw [hexcess]; decide)
  have hmax : value = Int64.maxValue := by
    rw [← Int64.toInt_inj, hvalue, hlargest]
    rfl
  rw [hmax] at hnext
  rw [List.append_nil] at htokens
  exact ⟨⟨hlargest, hexcess⟩, hnext, htokens⟩

end RayCompiler
