import RayCompiler.Token.Lexeme

namespace RayCompiler.Reading

theorem flatMap_commentLexeme (text : List Char) (block : Bool) :
    (commentLexeme text block).flatMap (·.text) = text := by
  cases text <;> simp [commentLexeme]

theorem flatMap_closedLines (lines : List (List Char)) (hne : lines ≠ []) :
    (closedLines lines).flatMap (·.text) = ['\n'].intercalate lines ++ ['*', '/'] := by
  induction lines with
  | nil => exact absurd rfl hne
  | cons line more ih =>
      cases more with
      | nil => simp [closedLines]
      | cons next others =>
          have hrest := ih (by simp)
          simp only [closedLines, List.flatMap_append, List.flatMap_cons, flatMap_commentLexeme, hrest]
          simp [List.intercalate, List.intersperse]

-- What an unclosed comment leaves without a token is its last line.
theorem flatMap_openLines (lines : List (List Char)) (hne : lines ≠ []) :
    (openLines lines).flatMap (·.text) ++ lines.getLast hne = ['\n'].intercalate lines := by
  induction lines with
  | nil => exact absurd rfl hne
  | cons line more ih =>
      cases more with
      | nil => simp [openLines]
      | cons next others =>
          have hrest := ih (by simp)
          simp only [openLines, List.flatMap_append, List.flatMap_cons, flatMap_commentLexeme,
            List.append_assoc, List.getLast_cons_cons, hrest]
          simp [List.intercalate, List.intersperse]

theorem splitClose?_append {body inside rest : List Char}
    (h : splitClose? body = some (inside, rest)) : inside ++ '*' :: '/' :: rest = body := by
  fun_induction splitClose? body generalizing inside with
  | case1 => simp at h
  | case2 after =>
      simp only [Option.some.injEq, Prod.mk.injEq] at h
      obtain ⟨rfl, rfl⟩ := h
      rfl
  | case3 c after _ ih =>
      obtain ⟨⟨text, left⟩, hs, he⟩ := Option.map_eq_some_iff.mp h
      simp only [Prod.mk.injEq] at he
      obtain ⟨rfl, rfl⟩ := he
      simp [ih hs]

theorem opening_append_openBlock (text : List Char) :
    (opening (openBlock text).1).text ++ (openBlock text).2 = '/' :: '*' :: text := by
  fun_cases openBlock text <;> simp [opening]

-- Reading loses nothing: the lexemes are followed by the text that is left, and a reading that goes
-- on does so with all of it.
def Lossless (reading : Reading) (text : List Char) : Prop :=
  ∃ rest, reading.covered ++ rest = text ∧ ∀ after, reading.outcome = .ok after → after = rest

theorem lossless_one (text : List Char) (token : Token) (rest : List Char) :
    (one text token rest).Lossless (text ++ rest) := by
  refine ⟨rest, by simp [covered, one], ?_⟩
  rintro _ ⟨⟩
  rfl

theorem lossless_failed (cause : LexError) (text : List Char) : (failed cause).Lossless text := by
  refine ⟨text, rfl, ?_⟩
  rintro _ ⟨⟩

theorem lossless_ofWord (text : List Char) : (ofWord text).Lossless text := by
  have h := lossless_one (text.takeWhile isWordChar)
    (wordToken (String.ofList (text.takeWhile isWordChar))) (text.dropWhile isWordChar)
  rwa [List.takeWhile_append_dropWhile] at h

theorem lossless_ofNumber (text : List Char) : (ofNumber text).Lossless text := by
  unfold ofNumber
  dsimp only
  split
  · next value _ =>
      have h := lossless_one (text.takeWhile Char.isDigit) (.number value)
        (text.dropWhile Char.isDigit)
      rwa [List.takeWhile_append_dropWhile] at h
  · exact lossless_failed _ _

theorem lossless_ofString (text : List Char) : (ofString text).Lossless (quote :: text) := by
  unfold ofString
  dsimp only
  split
  · exact lossless_failed _ _
  · next closing rest hrest =>
      have h := lossless_one (quote :: text.takeWhile (· != quote) ++ [closing])
        (.string (String.ofList (text.takeWhile (· != quote)))) rest
      have ht : text.takeWhile (· != quote) ++ closing :: rest = text := by
        rw [← hrest, List.takeWhile_append_dropWhile]
      have he : quote :: text.takeWhile (· != quote) ++ [closing] ++ rest = quote :: text := by
        simp [ht]
      rwa [he] at h

theorem lossless_ofEquals (text : List Char) : (ofEquals text).Lossless ('=' :: text) := by
  fun_cases ofEquals text <;> exact lossless_one _ _ _

theorem lossless_ofLineComment (text : List Char) :
    (ofLineComment text).Lossless ('/' :: '/' :: text) := by
  refine ⟨text.dropWhile (· != '\n'), ?_, ?_⟩
  · simp [ofLineComment, covered, flatMap_commentLexeme, List.takeWhile_append_dropWhile]
  · rintro _ ⟨⟩
    rfl

theorem lossless_ofBlockComment (text : List Char) :
    (ofBlockComment text).Lossless ('/' :: '*' :: text) := by
  unfold ofBlockComment
  dsimp only
  rw [← opening_append_openBlock text]
  split
  · next inside rest hs =>
      refine ⟨rest, ?_, ?_⟩
      · have hc := flatMap_closedLines _ (Text.lines_ne_nil inside)
        rw [Text.intercalate_lines] at hc
        simp only [covered, List.flatMap_cons, hc, ← splitClose?_append hs]
        simp
      · rintro _ ⟨⟩
        rfl
  · refine ⟨(Text.lines (openBlock text).2).getLast (Text.lines_ne_nil _), ?_, ?_⟩
    · have ho := flatMap_openLines _ (Text.lines_ne_nil (openBlock text).2)
      rw [Text.intercalate_lines] at ho
      simp only [covered, List.flatMap_cons, List.append_assoc, ho]
    · rintro _ ⟨⟩

theorem lossless_ofSlash (text : List Char) : (ofSlash text).Lossless ('/' :: text) := by
  fun_cases ofSlash text
  · exact lossless_ofLineComment _
  · exact lossless_ofBlockComment _
  · exact lossless_one _ _ _

theorem lossless_ofText (c : Char) (rest : List Char) : (ofText c rest).Lossless (c :: rest) := by
  unfold ofText
  split
  · exact lossless_one [c] _ _
  split
  · next h => subst h; exact lossless_ofSlash _
  split
  · next h => subst h; exact lossless_ofString _
  split
  · next h => subst h; exact lossless_ofEquals _
  split
  · exact lossless_one [c] _ _
  split
  · exact lossless_ofWord _
  split
  · exact lossless_ofNumber _
  · exact lossless_failed _ _

theorem ofText_append {c : Char} {rest after : List Char}
    (h : (ofText c rest).outcome = .ok after) : (ofText c rest).covered ++ after = c :: rest := by
  obtain ⟨left, hl, ha⟩ := lossless_ofText c rest
  rw [ha after h, hl]

end RayCompiler.Reading
