import RayCompiler.Proofs.Token.Scanning

namespace RayCompiler

open Reading

-- How a token outside comments is written down. A number may have zeros in front of it.
inductive WrittenAs : Token → List Char → Prop where
  | name (word : IsWord text) (free : ∀ keyword : Keyword, keyword.word ≠ text) :
      WrittenAs (.name text) text.toList
  | keyword (keyword : Keyword) : WrittenAs (.keyword keyword) keyword.word.toList
  | number (zeros : Nat) {value : Int64} (natural : 0 ≤ value.toInt) :
      WrittenAs (.number value) (List.replicate zeros '0' ++ Nat.toDigits 10 value.toInt.toNat)
  | string (inside : quote ∉ contents.toList) :
      WrittenAs (.string contents) (quote :: contents.toList ++ [quote])
  | lineEnd : WrittenAs .lineEnd ['\n']
  | symbol (symbol : Symbol) : WrittenAs (.symbol symbol) symbol.spelling

-- Tokens written one after another, each with a gap behind it.
inductive Printed : List Token → List Char → Prop where
  | nil : Printed [] []
  | cons (written : WrittenAs token text) (filled : gap ≠ []) (blank : ∀ c ∈ gap, isGap c)
      (more : Printed tokens rest) : Printed (token :: tokens) (text ++ gap ++ rest)

theorem WrittenAs.plain {token : Token} {text : List Char} (h : WrittenAs token text) :
    token.Plain := by
  cases h <;> trivial

-- Zeros in front of a number do not change it.
theorem ofDigitChars_zeros (zeros number : Nat) :
    Nat.ofDigitChars 10 (List.replicate zeros '0' ++ Nat.toDigits 10 number) 0 = number := by
  rw [Nat.ofDigitChars_append, Nat.ofDigitChars_replicate_zero, Nat.mul_zero,
    Nat.ofDigitChars_toDigits (by decide) (by decide)]

theorem WrittenAs.spells {token : Token} {text : List Char} (h : WrittenAs token text) :
    Spells text token [] := by
  cases h with
  | name word free => exact .name word free (by simp)
  | keyword keyword => exact .keyword (by simp)
  | number zeros natural =>
      refine .number (by simp [Nat.toDigits_ne_nil]) ?_ ?_ (by simp)
      · intro c hm
        rcases List.mem_append.mp hm with hm | hm
        · rw [List.eq_of_mem_replicate hm]
          decide
        · exact Nat.isDigit_of_mem_toDigits (by decide) (by decide) hm
      · rw [ofDigitChars_zeros, Int.toNat_of_nonneg natural]
  | string inside => exact .string inside
  | lineEnd => exact .lineEnd
  | symbol symbol =>
      refine .symbol ?_
      cases symbol <;> simp [Symbol.EndsBefore]

-- A gap is passed over.
theorem Scans.behind_gap {after gap text : List Char} {position : Position}
    {tokens : List (Located Token)} (hgap : ∀ c ∈ gap, isGap c)
    (h : Scans after (position.past gap) text tokens) : Scans after position (gap ++ text) tokens := by
  induction gap generalizing position with
  | nil => exact h
  | cons c gap ih =>
      have hfirst := hgap c List.mem_cons_self
      exact .gap hfirst (ih (fun d hm => hgap d (List.mem_cons_of_mem c hm)) h)

-- The induction is on the tokens. Behind each of them there is a gap, so none of them could be read
-- as part of a longer one.
theorem Printed.scans {tokens : List Token} {text : List Char} (h : Printed tokens text)
    (position : Position) :
    ∃ located, Scans [] position text located ∧ located.map (·.value) = tokens := by
  induction h generalizing position with
  | nil => exact ⟨[], .nil, rfl⟩
  | @cons token text gap tokens rest written filled blank _ ih =>
      obtain ⟨located, hscans, rfl⟩ := ih ((position.past text).past gap)
      have hspells : Spells text token (gap ++ rest) := by
        refine written.spells.before written.plain fun c hm => .inr ?_
        cases gap with
        | nil => exact absurd rfl filled
        | cons first gap =>
            cases hm
            exact blank _ List.mem_cons_self
      have hmore : Scans [] (position.past text) (gap ++ rest) located := hscans.behind_gap blank
      rw [List.append_assoc]
      exact ⟨_, .token (by rwa [List.append_nil]) written.plain hmore, rfl⟩

-- Reading undoes writing: the tokens come back, and the end of input behind them.
theorem tokenize_printed {source : Source} {tokens : List Token}
    (h : Printed tokens source.text.toList) :
    ∃ located, tokenize source = .ok located ∧
      located.map (·.value) = tokens ++ [.endOfInput] := by
  obtain ⟨located, hscans, rfl⟩ := h.scans .start
  exact ⟨_, hscans.tokensFrom_eq, by simp [endAt]⟩

-- Signs that begin longer ones, a word that begins like a keyword, a string of two lines and the
-- largest number, with gaps of several kinds.
def printedSource : Source where
  name := "printed.ray"
  text := "= =>\t/\r* \u00a0returned return \"a\nb\" \n \u2028009223372036854775807 "

def printedTokens : List Token :=
  [.symbol .assign, .symbol .arrow, .symbol .slash, .symbol .times, .name "returned", .keyword .ret,
    .string "a\nb", .lineEnd, .number Int64.maxValue]

theorem printed_printedTokens : Printed printedTokens printedSource.text.toList := by
  have htext : printedSource.text.toList =
      ['='] ++ [' '] ++ (['=', '>'] ++ ['\t'] ++ (['/'] ++ ['\r'] ++ (['*'] ++ [' ', '\u00a0'] ++
        ("returned".toList ++ [' '] ++ ("return".toList ++ [' '] ++
          (quote :: "a\nb".toList ++ [quote] ++ [' '] ++ (['\n'] ++ [' ', '\u2028'] ++
            (List.replicate 2 '0' ++ Nat.toDigits 10 Int64.maxValue.toInt.toNat ++ [' '] ++
              [])))))))) := by
    decide +kernel
  have hfree : ∀ keyword : Keyword, keyword.word ≠ "returned" := by
    intro keyword
    cases keyword <;> decide
  rw [htext]
  have hblank : ∀ {gap : List Char}, gap.all isGap → ∀ c ∈ gap, isGap c := List.all_eq_true.mp
  exact .cons (.symbol .assign) (by simp) (hblank rfl) <|
    .cons (.symbol .arrow) (by simp) (hblank rfl) <|
    .cons (.symbol .slash) (by simp) (hblank rfl) <|
    .cons (.symbol .times) (by simp) (hblank rfl) <|
    .cons (.name ⟨_, _, rfl, rfl, List.all_eq_true.mp rfl⟩ hfree) (by simp) (hblank rfl) <|
    .cons (.keyword .ret) (by simp) (hblank rfl) <|
    .cons (.string (by decide)) (by simp) (hblank rfl) <|
    .cons .lineEnd (by simp) (hblank rfl) <|
    .cons (.number 2 (by decide)) (by simp) (hblank rfl) .nil

theorem tokenize_printedSource : Printed printedTokens printedSource.text.toList ∧
    ∃ located, tokenize printedSource = .ok located ∧
      located.map (·.value) = printedTokens ++ [.endOfInput] :=
  ⟨printed_printedTokens, tokenize_printed printed_printedTokens⟩

end RayCompiler
