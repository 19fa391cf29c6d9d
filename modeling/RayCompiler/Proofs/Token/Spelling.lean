import RayCompiler.Proofs.Grammar.Basic
import RayCompiler.Token.Lexer

namespace RayCompiler

-- A letter, and then letters, digits and underscores.
def IsWord (text : String) : Prop :=
  ∃ first rest, text.toList = first :: rest ∧ first.isAlpha ∧ ∀ c ∈ rest, Reading.isWordChar c

instance (text : String) : Decidable (IsWord text) :=
  decidable_of_iff ((text.toList.head?.any Char.isAlpha &&
    text.toList.tail.all Reading.isWordChar) = true) (by
      unfold IsWord
      cases text.toList <;> simp)

theorem IsWord.isWordChar {name : String} (h : IsWord name) {c : Char} (hm : c ∈ name.toList) :
    Reading.isWordChar c := by
  obtain ⟨first, rest, he, hfirst, hrest⟩ := h
  rw [he] at hm
  rcases List.mem_cons.mp hm with rfl | hm
  · simp [Reading.isWordChar, Char.isAlphanum, hfirst]
  · exact hrest c hm

theorem IsWord.notMem {name : String} (h : IsWord name) {c : Char}
    (hc : Reading.isWordChar c = false) : c ∉ name.toList := by
  intro hm
  rw [h.isWordChar hm] at hc
  cases hc

-- What a text can spell. Its end is not written down, and a name is a word.
def Token.Spelled : Token → Prop
  | .name word => IsWord word
  | .endOfInput => False
  | _ => True

def Lexeme.Spelled (lexeme : Lexeme) : Prop := ∀ token, lexeme.token = some token → token.Spelled

end RayCompiler

namespace RayCompiler.Reading

theorem isDigit_iff {c : Char} : c.isDigit ↔ 48 ≤ c.toNat ∧ c.toNat ≤ 57 := by
  simp [Char.isDigit, UInt32.le_iff_toNat_le]

theorem isAlpha_iff {c : Char} :
    c.isAlpha ↔ 65 ≤ c.toNat ∧ c.toNat ≤ 90 ∨ 97 ≤ c.toNat ∧ c.toNat ≤ 122 := by
  change (decide (65 ≤ c.val ∧ c.val ≤ 90) || decide (97 ≤ c.val) && decide (c.val ≤ 122)) ↔ _
  simp [UInt32.le_iff_toNat_le]

def Spelled (reading : Reading) : Prop :=
  ∀ after, reading.outcome = .ok after → ∀ lexeme ∈ reading.lexemes, lexeme.Spelled

theorem spelled_one (text : List Char) {token : Token} (rest : List Char) (h : token.Spelled) :
    (one text token rest).Spelled := by
  intro after _ lexeme hm other he
  rw [List.mem_singleton.mp hm] at he
  cases he
  exact h

theorem spelled_failed (cause : LexError) : (failed cause).Spelled := by
  rintro _ ⟨⟩

theorem isWord_takeWhile {c : Char} (h : c.isAlpha) (rest : List Char) :
    IsWord (String.ofList ((c :: rest).takeWhile isWordChar)) := by
  have hfirst : isWordChar c := by simp [isWordChar, Char.isAlphanum, h]
  refine ⟨c, rest.takeWhile isWordChar, ?_, h, ?_⟩
  · rw [String.toList_ofList, List.takeWhile_cons_of_pos hfirst]
  · exact List.all_eq_true.mp (List.all_takeWhile)

theorem spelled_wordToken {word : String} (h : IsWord word) : (wordToken word).Spelled := by
  unfold wordToken
  split
  · trivial
  · exact h

theorem spelled_commentText (text : List Char) (block : Bool) (lexeme : List Char) :
    Lexeme.Spelled ⟨lexeme, commentText text block⟩ := by
  intro token he
  unfold commentText at he
  split at he
  · cases he
  · cases he
    trivial

theorem spelled_commentLexeme (text : List Char) (block : Bool) :
    ∀ lexeme ∈ commentLexeme text block, lexeme.Spelled := by
  unfold commentLexeme
  split
  · simp
  · simpa using spelled_commentText text block text

theorem spelled_some (text : List Char) {token : Token} (h : token.Spelled) :
    Lexeme.Spelled ⟨text, some token⟩ := by
  rintro _ ⟨⟩
  exact h

theorem spelled_closedLines (lines : List (List Char)) :
    ∀ lexeme ∈ closedLines lines, lexeme.Spelled := by
  fun_induction closedLines lines with
  | case1 => simp
  | case2 last => simpa using spelled_commentText last true _
  | case3 line next more ih =>
      intro lexeme hm
      rcases List.mem_append.mp hm with hm | hm
      · exact spelled_commentLexeme line true lexeme hm
      · rcases List.mem_cons.mp hm with rfl | hm
        · exact spelled_some _ trivial
        · exact ih lexeme hm

theorem spelled_ofLineComment (text : List Char) : (ofLineComment text).Spelled := by
  intro _ _ lexeme hm
  rcases List.mem_cons.mp hm with rfl | hm
  · exact spelled_some _ trivial
  · exact spelled_commentLexeme _ _ lexeme hm

theorem spelled_ofBlockComment (text : List Char) : (ofBlockComment text).Spelled := by
  unfold ofBlockComment
  dsimp only
  split
  · intro _ _ lexeme hm
    rcases List.mem_cons.mp hm with rfl | hm
    · cases (openBlock text).1 <;> exact spelled_some _ trivial
    · exact spelled_closedLines _ lexeme hm
  · rintro _ ⟨⟩

theorem spelled_ofText (c : Char) (rest : List Char) : (ofText c rest).Spelled := by
  fun_cases ofText c rest with
  | case1 => exact spelled_one _ _ trivial
  | case2 =>
      fun_cases ofSlash rest with
      | case1 rest => exact spelled_ofLineComment rest
      | case2 rest => exact spelled_ofBlockComment rest
      | case3 => exact spelled_one _ _ trivial
  | case3 =>
      unfold ofString
      dsimp only
      split
      · exact spelled_failed _
      · exact spelled_one _ _ trivial
  | case4 => fun_cases ofEquals rest <;> exact spelled_one _ _ trivial
  | case5 => exact spelled_one _ _ trivial
  | case6 _ _ _ _ _ hletter => exact spelled_one _ _ (spelled_wordToken (isWord_takeWhile hletter _))
  | case7 =>
      unfold ofNumber
      dsimp only
      split
      · exact spelled_one _ _ trivial
      · exact spelled_failed _
  | case8 => exact spelled_failed _

end RayCompiler.Reading

namespace RayCompiler

-- What holds of the tokens that lexemes spell also holds of the tokens in their places.
theorem forall_mem_locate {property : Token → Prop} {lexemes : List Lexeme} (position : Position)
    (h : ∀ lexeme ∈ lexemes, ∀ token, lexeme.token = some token → property token) :
    ∀ token ∈ locate position lexemes, property token.value := by
  induction lexemes generalizing position with
  | nil => simp [locate]
  | cons lexeme more ih =>
      have hmore := ih (position.past lexeme.text) fun other hm => h other (by simp [hm])
      unfold locate
      dsimp only
      split
      · next token htoken =>
          have hfirst := h lexeme (by simp) token htoken
          simpa using ⟨hfirst, hmore⟩
      · exact hmore

theorem spelled_locate {lexemes : List Lexeme} (position : Position)
    (h : ∀ lexeme ∈ lexemes, lexeme.Spelled) :
    ∀ token ∈ locate position lexemes, token.value.Spelled :=
  forall_mem_locate position h

-- The rounds in which a text is read: a gap is passed over, and then one reading gives its tokens,
-- until only a gap is left.
inductive Rounds : Position → List Char → List (Located Token) → Prop where
  | ended (blank : text.dropWhile isGap = []) :
      Rounds position text [endAt (position.past (text.takeWhile isGap))]
  | read (body : text.dropWhile isGap = c :: rest)
      (reading : (Reading.ofText c rest).outcome = .ok after)
      (more : Rounds ((position.past (text.takeWhile isGap)).past (Reading.ofText c rest).covered)
        after others) :
      Rounds position text
        (locate (position.past (text.takeWhile isGap)) (Reading.ofText c rest).lexemes ++ others)

-- The induction is on the length of the text that is left.
theorem rounds_of_tokensFrom {position : Position} {text : List Char}
    {tokens : List (Located Token)} (h : tokensFrom position text = .ok tokens) :
    Rounds position text tokens := by
  induction hn : text.length using Nat.strongRecOn generalizing position text tokens with
  | ind n ih =>
      subst hn
      rw [tokensFrom] at h
      split at h
      · next hbody =>
          cases h
          exact .ended hbody
      next c rest hbody =>
      dsimp only at h
      split at h
      · cases h
      next after hread =>
      cases hmore : tokensFrom ((position.past (text.takeWhile isGap)).past
          (Reading.ofText c rest).covered) after with
      | error error =>
          rw [hmore] at h
          cases h
      | ok more =>
          rw [hmore] at h
          cases h
          exact .read hbody hread (ih after.length (length_after_lt hbody hread) hmore rfl)

theorem Rounds.spelled {position : Position} {text : List Char} {tokens : List (Located Token)}
    (h : Rounds position text tokens) :
    ∃ front span, tokens = front ++ [⟨span, .endOfInput⟩] ∧ ∀ token ∈ front, token.value.Spelled := by
  induction h with
  | ended => exact ⟨[], _, rfl, by simp⟩
  | read _ reading _ ih =>
      obtain ⟨front, span, rfl, hfront⟩ := ih
      refine ⟨_ ++ front, span, (List.append_assoc _ _ _).symm, ?_⟩
      intro token hm
      rcases List.mem_append.mp hm with hm | hm
      · exact spelled_locate _ (Reading.spelled_ofText _ _ _ reading) token hm
      · exact hfront token hm

section Tokens

variable {source : Source} {tokens : List (Located Token)}

theorem endsOnce_tokenize (h : tokenize source = .ok tokens) : EndsOnce tokens := by
  obtain ⟨front, span, rfl, hfront⟩ := (rounds_of_tokensFrom h).spelled
  refine ⟨front, span, rfl, ?_⟩
  intro token hm he
  have hspelled := hfront token hm
  rw [he] at hspelled
  exact hspelled

theorem isWord_of_mem_tokenize (h : tokenize source = .ok tokens) {name : String}
    (hm : .name name ∈ tokens.map (·.value)) : IsWord name := by
  obtain ⟨front, span, rfl, hfront⟩ := (rounds_of_tokensFrom h).spelled
  obtain ⟨token, htoken, he⟩ := List.mem_map.mp hm
  rcases List.mem_append.mp htoken with htoken | hlast
  · have hspelled := hfront token htoken
    rw [he] at hspelled
    exact hspelled
  · rw [List.mem_singleton.mp hlast] at he
    cases he

end Tokens

end RayCompiler
