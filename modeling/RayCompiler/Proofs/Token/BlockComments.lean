import RayCompiler.Proofs.Token.Scanning

namespace RayCompiler

open Reading

-- A text with a closer behind it has its first closer there.
def ClosesFirst (inside : List Char) : Prop :=
  ∀ before after, inside ++ closer = before ++ closer ++ after → before = inside

-- The closer may share its star with no earlier one.
theorem closesFirst_iff {inside : List Char} :
    ClosesFirst inside ↔ ¬closer <:+: inside ++ ['*'] := by
  have hstar : inside ++ closer = inside ++ ['*'] ++ ['/'] := by simp [closer]
  constructor
  · rintro h ⟨before, after, hinside⟩
    rw [h before (after ++ ['/']) (by rw [hstar, ← hinside]; simp)] at hinside
    have hlength := congrArg List.length hinside
    simp [closer] at hlength
  · intro h before after hinside
    rcases List.eq_nil_or_concat after with rfl | ⟨after, last, rfl⟩
    · rw [List.append_nil] at hinside
      exact (List.append_cancel_right hinside).symm
    · rw [hstar, List.concat_eq_append, ← List.append_assoc] at hinside
      obtain ⟨hearlier, _⟩ := List.append_inj' hinside rfl
      exact absurd ⟨before, after, hearlier.symm⟩ h

-- How a comment opens, given its text up to the closer, and what is left of the text: a star in front
-- of it counts to the opening.
def openedBy : List Char → CommentStyle × List Char
  | '*' :: body => (.doc, body)
  | body => (.block, body)

theorem opening_append_openedBy (inside : List Char) :
    (opening (openedBy inside).1).text ++ (openedBy inside).2 = '/' :: '*' :: inside := by
  fun_cases openedBy inside <;> simp [opening]

theorem opens_openedBy {inside : List Char} (h : ¬closer <:+: inside ++ ['*']) :
    (openedBy inside).1.Opens (openedBy inside).2 ∧ ¬closer <:+: (openedBy inside).2 ++ ['*'] := by
  revert h
  fun_cases openedBy inside with
  | case1 body =>
      intro h
      rw [List.cons_append, List.infix_cons_iff, closer_prefix_iff, not_or] at h
      refine ⟨fun hslash => h.1 ⟨rfl, ?_⟩, h.2⟩
      rw [List.head?_append, hslash]
      rfl
  | case2 body hstar => exact fun h => ⟨head?_ne_some hstar, h⟩

-- The tokens of the text inside a block comment, line by line: one for each line that is not empty and
-- one for each line feed.
inductive Narrates : List Char → List Token → Prop where
  | empty : Narrates [] []
  | last (filled : line ≠ "") (inline : '\n' ∉ line.toList) : Narrates line.toList [.text line true]
  | blank (more : Narrates rest tokens) : Narrates ('\n' :: rest) (.lineEnd :: tokens)
  | line (filled : line ≠ "") (inline : '\n' ∉ line.toList) (more : Narrates rest tokens) :
      Narrates (line.toList ++ '\n' :: rest) (.text line true :: .lineEnd :: tokens)

theorem map_value_locate (position : Position) (lexemes : List Lexeme) :
    (locate position lexemes).map (·.value) = lexemes.filterMap (·.token) := by
  induction lexemes generalizing position with
  | nil => rfl
  | cons lexeme more ih =>
      unfold locate
      dsimp only
      split
      · next htoken => rw [List.map_cons, ih, List.filterMap_cons_some htoken]
      · next htoken => rw [ih, List.filterMap_cons_none htoken]

theorem intercalate_cons {line : List Char} {lines : List (List Char)} (h : lines ≠ []) :
    ['\n'].intercalate (line :: lines) = line ++ '\n' :: ['\n'].intercalate lines := by
  cases lines with
  | nil => exact absurd rfl h
  | cons next more => simp [List.intercalate, List.intersperse]

-- The induction is on the lines. The closer joins the last one and spells no token of its own.
theorem narrates_closedLines {lines : List (List Char)} (hne : lines ≠ [])
    (hinline : ∀ line ∈ lines, '\n' ∉ line) :
    Narrates (['\n'].intercalate lines) ((closedLines lines).filterMap (·.token)) := by
  fun_induction closedLines lines with
  | case1 => exact absurd rfl hne
  | case2 last =>
      have hlast := hinline last List.mem_cons_self
      cases last with
      | nil => exact .empty
      | cons c last =>
          have hnarrates : Narrates (String.ofList (c :: last)).toList _ :=
            .last (by simp) (by simpa using hlast)
          simpa [commentText] using hnarrates
  | case3 line next more ih =>
      have hline := hinline line List.mem_cons_self
      have hmore := ih (by simp) fun other hm => hinline other (List.mem_cons_of_mem _ hm)
      rw [intercalate_cons (by simp)]
      cases line with
      | nil => exact .blank hmore
      | cons c line =>
          have hnarrates := @Narrates.line (String.ofList (c :: line)) _ _ (by simp)
            (by simpa using hline) hmore
          simpa [commentLexeme, commentText] using hnarrates

theorem filterMap_opening (style : CommentStyle) (lexemes : List Lexeme) :
    (opening style :: lexemes).filterMap (·.token) =
      .openComment style :: lexemes.filterMap (·.token) := by
  cases style <;> rfl

-- A comment that is never closed is none, however it opens.
theorem ofBlockComment_unclosed {text : List Char} (h : ¬closer <:+: text) :
    (ofBlockComment text).outcome = .error .unterminatedComment := by
  have hbody : splitClose? (openBlock text).2 = none := by
    rw [splitClose?_eq_none_iff]
    fun_cases openBlock text with
    | case1 rest => exact h
    | case2 rest => exact fun hrest => h (List.infix_cons_iff.mpr (.inr hrest))
    | case3 => exact h
  simp only [ofBlockComment, hbody]

-- Behind a comment that is closed the lexer goes on as if the rest stood alone, and a comment that is
-- never closed is an error where it opens.
theorem items_blockComment (position : Position) :
    (∀ inside rest, ClosesFirst inside → ∃ tokens texts,
      tokens.map (·.value) = .openComment (openedBy inside).1 :: texts ∧
      Narrates (openedBy inside).2 texts ∧
      (Lexer.mk position ('/' :: '*' :: inside ++ closer ++ rest) [] false).items = tokens.map .ok ++
        (Lexer.mk (position.past ('/' :: '*' :: inside ++ closer)) rest [] false).items ∧
      tokensFrom position ('/' :: '*' :: inside ++ closer ++ rest) =
        (tokens ++ ·) <$> tokensFrom (position.past ('/' :: '*' :: inside ++ closer)) rest) ∧
    ∀ text, ¬closer <:+: text →
      (∃ later, (Lexer.mk position ('/' :: '*' :: text) [] false).items =
        .error ⟨.point position, .unterminatedComment⟩ :: later) ∧
      tokensFrom position ('/' :: '*' :: text) = .error ⟨.point position, .unterminatedComment⟩ := by
  constructor
  · intro inside rest hcloses
    obtain ⟨hopens, hinside⟩ := opens_openedBy (closesFirst_iff.mp hcloses)
    have hscans : Scans rest position _ _ := .blockComment hopens hinside .nil
    rw [opening_append_openedBy, List.append_nil, List.append_nil] at hscans
    have hitems := hscans.items
    refine ⟨_, (closedLines (Text.lines (openedBy inside).2)).filterMap (·.token), ?_, ?_, hitems, ?_⟩
    · rw [map_value_locate, filterMap_opening]
    · have hnarrates := narrates_closedLines (Text.lines_ne_nil (openedBy inside).2)
        fun _ hm => Text.notMem_of_mem_split hm
      rwa [Text.intercalate_lines] at hnarrates
    · rw [← Lexer.mapM_items, hitems, Lexer.mapM_ok_append, Lexer.mapM_items]
  · intro text hunclosed
    have houtcome : (ofText '/' ('*' :: text)).outcome = .error .unterminatedComment :=
      ofBlockComment_unclosed hunclosed
    obtain ⟨later, hitems⟩ := @Lexer.items_failed position _ _ _ (by decide) houtcome
    refine ⟨⟨later, hitems⟩, ?_⟩
    rw [← Lexer.mapM_items, hitems]
    rfl

-- Stars and slashes on both ends, with an empty line between.
def starryText : List Char := "*\né/*\n\n*".toList

theorem items_starryText :
    (ClosesFirst starryText ∧ ¬closer <:+: ['/', '*', '*', '\n']) ∧
    (∃ (tokens : List (Located Token)) (texts : List Token),
      tokens.map (·.value) = .openComment .doc :: texts ∧ Narrates "\né/*\n\n*".toList texts ∧
      (Lexer.mk .start ('/' :: '*' :: starryText ++ closer ++ ['x']) [] false).items =
        tokens.map .ok ++ (Lexer.mk ⟨13, 4, 4⟩ ['x'] [] false).items) ∧
    ∃ later, (Lexer.mk .start ['/', '*', '/', '*', '*', '\n'] [] false).items =
      .error ⟨.point .start, .unterminatedComment⟩ :: later := by
  have hcloses : ClosesFirst starryText := closesFirst_iff.mpr (by decide +kernel)
  have hunclosed : ¬closer <:+: ['/', '*', '*', '\n'] := by decide
  obtain ⟨tokens, texts, hvalues, hnarrates, hitems, _⟩ :=
    (items_blockComment .start).1 starryText ['x'] hcloses
  obtain ⟨hfailed, _⟩ := (items_blockComment .start).2 ['/', '*', '*', '\n'] hunclosed
  exact ⟨⟨hcloses, hunclosed⟩, ⟨tokens, texts, hvalues, hnarrates, hitems⟩, hfailed⟩

end RayCompiler
