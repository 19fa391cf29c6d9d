import RayCompiler.Token.Lossless

namespace RayCompiler.Reading

-- Every lexeme covers some text.
def Solid (lexemes : List Lexeme) : Prop := ∀ lexeme ∈ lexemes, lexeme.text ≠ []

theorem solid_nil : Solid [] := by simp [Solid]

theorem solid_cons {c : Char} {text : List Char} {token : Option Token} {more : List Lexeme}
    (h : Solid more) : Solid (⟨c :: text, token⟩ :: more) := by
  intro lexeme hm
  rcases List.mem_cons.mp hm with rfl | hm
  · simp
  · exact h lexeme hm

theorem solid_commentLexeme_append (text : List Char) (block : Bool) {more : List Lexeme}
    (h : Solid more) : Solid (commentLexeme text block ++ more) := by
  cases text with
  | nil => exact h
  | cons c rest => exact solid_cons h

theorem solid_closedLines (lines : List (List Char)) : Solid (closedLines lines) := by
  induction lines with
  | nil => exact solid_nil
  | cons line more ih =>
      cases more with
      | nil => intro lexeme hm; simp_all [closedLines]
      | cons next others => exact solid_commentLexeme_append line true (solid_cons ih)

theorem solid_openLines (lines : List (List Char)) : Solid (openLines lines) := by
  induction lines with
  | nil => exact solid_nil
  | cons line more ih =>
      cases more with
      | nil => exact solid_nil
      | cons next others => exact solid_commentLexeme_append line true (solid_cons ih)

theorem opening_eq (style : CommentStyle) :
    ∃ text, opening style = ⟨'/' :: text, some (.openComment style)⟩ := by
  cases style <;> exact ⟨_, rfl⟩

-- A reading makes progress: no lexeme is empty, and if it goes on, the first lexeme spells a token.
structure Progress (reading : Reading) : Prop where
  solid : Solid reading.lexemes
  spelled : ∀ rest, reading.outcome = .ok rest →
    ∃ text token more, reading.lexemes = ⟨text, some token⟩ :: more

theorem progress_one (c : Char) (text : List Char) (token : Token) (rest : List Char) :
    (one (c :: text) token rest).Progress :=
  ⟨solid_cons solid_nil, fun _ _ => ⟨_, _, _, rfl⟩⟩

theorem progress_failed (cause : LexError) : (failed cause).Progress :=
  ⟨solid_nil, by rintro _ ⟨⟩⟩

theorem progress_ofLineComment (text : List Char) : (ofLineComment text).Progress := by
  refine ⟨solid_cons ?_, fun _ _ => ⟨_, _, _, rfl⟩⟩
  have h := solid_commentLexeme_append (text.takeWhile (· != '\n')) false solid_nil
  rwa [List.append_nil] at h

theorem progress_ofBlockComment (text : List Char) : (ofBlockComment text).Progress := by
  obtain ⟨body, he⟩ := opening_eq (openBlock text).1
  unfold ofBlockComment
  dsimp only
  rw [he]
  split
  · exact ⟨solid_cons (solid_closedLines _), fun _ _ => ⟨_, _, _, rfl⟩⟩
  · exact ⟨solid_cons (solid_openLines _), fun _ _ => ⟨_, _, _, rfl⟩⟩

theorem progress_ofSlash (text : List Char) : (ofSlash text).Progress := by
  fun_cases ofSlash text
  · exact progress_ofLineComment _
  · exact progress_ofBlockComment _
  · exact progress_one _ _ _ _

theorem progress_ofText (c : Char) (rest : List Char) : (ofText c rest).Progress := by
  unfold ofText
  split
  · exact progress_one _ _ _ _
  split
  · exact progress_ofSlash _
  split
  · unfold ofString
    dsimp only
    split
    · exact progress_failed _
    · exact progress_one _ _ _ _
  split
  · fun_cases ofEquals rest <;> exact progress_one _ _ _ _
  split
  · exact progress_one _ _ _ _
  split
  · next h =>
      have hw : isWordChar c = true := by simp [isWordChar, Char.isAlphanum, h]
      simp only [ofWord, List.takeWhile_cons, hw, ite_true]
      exact progress_one _ _ _ _
  split
  · next h =>
      unfold ofNumber
      dsimp only
      split
      · simp only [List.takeWhile_cons, h, ite_true]
        exact progress_one _ _ _ _
      · exact progress_failed _
  · exact progress_failed _

-- There are no more lexemes than characters.
theorem length_le_of_solid {lexemes : List Lexeme} (h : Solid lexemes) :
    lexemes.length ≤ (lexemes.flatMap (·.text)).length := by
  induction lexemes with
  | nil => simp
  | cons lexeme more ih =>
      have hpos := List.length_pos_iff.mpr (h lexeme (by simp))
      have hmore := ih fun other hm => h other (by simp [hm])
      simp only [List.flatMap_cons, List.length_append, List.length_cons]
      omega

theorem length_lexemes_le (c : Char) (rest : List Char) :
    (ofText c rest).lexemes.length ≤ (c :: rest).length := by
  obtain ⟨left, hl, -⟩ := lossless_ofText c rest
  have hs := length_le_of_solid (progress_ofText c rest).solid
  have hlen := congrArg List.length hl
  rw [List.length_append, covered] at hlen
  omega

theorem length_lexemes_add_le {c : Char} {rest after : List Char}
    (h : (ofText c rest).outcome = .ok after) :
    (ofText c rest).lexemes.length + after.length ≤ (c :: rest).length := by
  have hs := length_le_of_solid (progress_ofText c rest).solid
  have hlen := congrArg List.length (ofText_append h)
  rw [List.length_append, covered] at hlen
  omega

theorem length_after_lt {c : Char} {rest after : List Char}
    (h : (ofText c rest).outcome = .ok after) : after.length < (c :: rest).length := by
  have hadd := length_lexemes_add_le h
  obtain ⟨text, token, more, hp⟩ := (progress_ofText c rest).spelled after h
  rw [hp, List.length_cons] at hadd
  omega

end RayCompiler.Reading
