import RayCompiler.Proofs.Token.Integers
import RayCompiler.Proofs.Token.Spelling

namespace RayCompiler

open Reading

-- A longer lexeme begins with this symbol unless something else follows.
def Symbol.EndsBefore : Symbol → List Char → Prop
  | .assign, after => after.head? ≠ some '=' ∧ after.head? ≠ some '>'
  | .slash, after => after.head? ≠ some '/' ∧ after.head? ≠ some '*'
  | _, _ => True

-- What ends a block comment.
def closer : List Char := ['*', '/']

-- A stretch of a text spells a token, where the given text follows. A word, a number or a symbol is
-- as long as it can be. The closer of a block comment belongs to the text of its last line.
inductive Spells : List Char → Token → List Char → Prop where
  | name (word : IsWord text) (free : ∀ keyword : Keyword, keyword.word ≠ text)
      (ends : ∀ c ∈ after.head?, ¬isWordChar c) : Spells text.toList (.name text) after
  | keyword (ends : ∀ c ∈ after.head?, ¬isWordChar c) :
      Spells keyword.word.toList (.keyword keyword) after
  | number {value : Int64} (filled : digits ≠ []) (run : ∀ c ∈ digits, c.isDigit)
      (decimal : value.toInt = Nat.ofDigitChars 10 digits 0) (ends : ∀ c ∈ after.head?, ¬c.isDigit) :
      Spells digits (.number value) after
  | string (inside : quote ∉ contents.toList) :
      Spells (quote :: contents.toList ++ [quote]) (.string contents) after
  | comment : Spells ['/', '/'] .comment after
  | lineText (filled : contents ≠ "") (inline : '\n' ∉ contents.toList)
      (ends : ∀ c ∈ after.head?, c = '\n') : Spells contents.toList (.text contents false) after
  | openBlock (ends : after.head? = some '*' → closer <+: after) :
      Spells ['/', '*'] (.openComment .block) after
  | openDoc (ends : after.head? ≠ some '/') : Spells ['/', '*', '*'] (.openComment .doc) after
  | blockText (filled : contents ≠ "") (inline : '\n' ∉ contents.toList)
      (ends : after.head? = some '\n') : Spells contents.toList (.text contents true) after
  | lastText (filled : contents ≠ "") (inline : '\n' ∉ contents.toList) :
      Spells (contents.toList ++ closer) (.text contents true) after
  | lineEnd : Spells ['\n'] .lineEnd after
  | symbol (ends : symbol.EndsBefore after) : Spells symbol.spelling (.symbol symbol) after

theorem Spells.ne_nil {text after : List Char} {token : Token} (h : Spells text token after) :
    text ≠ [] := by
  cases h with
  | name word =>
      obtain ⟨first, rest, he, _⟩ := word
      simp [he]
  | @keyword keyword => cases keyword <;> decide
  | number filled => exact filled
  | lineText filled | blockText filled => simpa using filled
  | lastText => simp [closer]
  | @symbol symbol => cases symbol <;> decide
  | _ => simp

theorem Spells.ne_endOfInput {text after : List Char} {token : Token}
    (h : Spells text token after) : token ≠ .endOfInput := by
  cases h <;> simp

-- Lexemes after which a line of a block comment begins: the opening, and then lines and their ends.
def AtLine (before : List Lexeme) : Prop :=
  ∃ front opening lines style, before = front ++ opening :: lines ∧
    opening.token = some (.openComment style) ∧
    (∀ line ∈ lines,
      line.token = some .lineEnd ∨ ∃ contents, line.token = some (.text contents true)) ∧
    ∀ last ∈ lines.getLast?, last.token = some .lineEnd

-- How a piece of a text stands between the pieces before it and the text after it: it spells a
-- token, or only keeps tokens apart, or closes a comment whose last line is empty.
inductive Fits (before : List Lexeme) : Lexeme → List Char → Prop where
  | token (spells : Spells text token after) : Fits before ⟨text, some token⟩ after
  | gap (blank : ∀ c ∈ text, isGap c) : Fits before ⟨text, none⟩ after
  | closer (line : AtLine before) : Fits before ⟨closer, none⟩ after

-- The text that pieces cover.
def covering (pieces : List Lexeme) : List Char := pieces.flatMap (·.text)

@[simp] theorem covering_nil : covering [] = [] := rfl

@[simp] theorem covering_cons (piece : Lexeme) (more : List Lexeme) :
    covering (piece :: more) = piece.text ++ covering more := rfl

@[simp] theorem covering_append (first second : List Lexeme) :
    covering (first ++ second) = covering first ++ covering second := List.flatMap_append

-- Pieces that each fit, behind the given ones and in front of the given text.
def Laid : List Lexeme → List Lexeme → List Char → Prop
  | _, [], _ => True
  | before, piece :: more, after =>
    Fits before piece (covering more ++ after) ∧ Laid (before ++ [piece]) more after

theorem laid_append {before first second : List Lexeme} {after : List Char} :
    Laid before (first ++ second) after ↔
      Laid before first (covering second ++ after) ∧ Laid (before ++ first) second after := by
  induction first generalizing before with
  | nil => simp [Laid]
  | cons piece more ih =>
      simp only [List.cons_append, Laid, ih, covering_append, List.append_assoc, and_assoc,
        List.nil_append]

theorem AtLine.behind {before : List Lexeme} (h : AtLine before) (earlier : List Lexeme) :
    AtLine (earlier ++ before) := by
  obtain ⟨front, opening, lines, style, rfl, hrest⟩ := h
  exact ⟨earlier ++ front, opening, lines, style, by simp, hrest⟩

theorem AtLine.next {before : List Lexeme} (h : AtLine before) (line : List Char) :
    AtLine (before ++ commentLexeme line true ++ [⟨['\n'], some .lineEnd⟩]) := by
  obtain ⟨front, opening, lines, style, rfl, hopening, hlines, _⟩ := h
  refine ⟨front, opening, lines ++ commentLexeme line true ++ [⟨['\n'], some .lineEnd⟩], style,
    by simp, hopening, ?_, by simp⟩
  intro piece hm
  simp only [List.mem_append, List.mem_singleton] at hm
  rcases hm with (hm | hm) | rfl
  · exact hlines piece hm
  · unfold commentLexeme at hm
    split at hm
    · simp at hm
    · next hfilled =>
        rw [List.mem_singleton.mp hm, commentText, if_neg hfilled]
        exact .inr ⟨_, rfl⟩
  · exact .inl rfl

theorem Fits.behind {before : List Lexeme} {piece : Lexeme} {after : List Char}
    (h : Fits before piece after) (earlier : List Lexeme) : Fits (earlier ++ before) piece after := by
  cases h with
  | token spells => exact .token spells
  | gap blank => exact .gap blank
  | closer line => exact .closer (line.behind earlier)

-- What fits behind some pieces also fits behind more of them.
theorem Laid.behind {before pieces : List Lexeme} {after : List Char} (h : Laid before pieces after)
    (earlier : List Lexeme) : Laid (earlier ++ before) pieces after := by
  induction pieces generalizing before with
  | nil => trivial
  | cons piece more ih =>
      refine ⟨h.1.behind earlier, ?_⟩
      have hmore := ih h.2
      rwa [← List.append_assoc] at hmore

theorem Laid.anywhere {pieces : List Lexeme} {after : List Char} (h : Laid [] pieces after)
    (before : List Lexeme) : Laid before pieces after := by
  have hbehind := h.behind before
  rwa [List.append_nil] at hbehind

theorem Laid.fits {before front back : List Lexeme} {piece : Lexeme} {after : List Char}
    (h : Laid before (front ++ piece :: back) after) :
    Fits (before ++ front) piece (covering back ++ after) :=
  (laid_append.mp h).2.1

end RayCompiler

namespace RayCompiler.Reading

-- The lexemes of a reading that goes on fit into the text.
def Spelling (reading : Reading) : Prop :=
  ∀ after, reading.outcome = .ok after → Laid [] reading.lexemes after

theorem spelling_one {text rest : List Char} {token : Token} (h : Spells text token rest) :
    (one text token rest).Spelling := by
  rintro _ ⟨⟩
  exact ⟨.token h, trivial⟩

theorem spelling_failed (cause : LexError) : (failed cause).Spelling := by
  rintro _ ⟨⟩

theorem head?_dropWhile_not {p : Char → Bool} (text : List Char) :
    ∀ c ∈ (text.dropWhile p).head?, ¬p c := by
  intro c hm
  have h := List.head?_dropWhile_not p text
  rw [Option.mem_def.mp hm] at h
  simpa using h

theorem head?_ne_some {c : Char} {text : List Char} (h : ∀ rest, text ≠ c :: rest) :
    text.head? ≠ some c := by
  intro he
  obtain ⟨rest, rfl⟩ := List.head?_eq_some_iff.mp he
  exact h rest rfl

theorem spelling_ofWord {c : Char} (h : c.isAlpha) (rest : List Char) :
    (ofWord (c :: rest)).Spelling := by
  have hword := isWord_takeWhile h rest
  have hends := @head?_dropWhile_not isWordChar (c :: rest)
  refine spelling_one ?_
  generalize (c :: rest).dropWhile isWordChar = after at hends ⊢
  generalize (c :: rest).takeWhile isWordChar = text at hword ⊢
  unfold wordToken
  split
  · next keyword hkeyword =>
      have hspelling : Spells _ (.keyword keyword) after := .keyword hends
      rwa [Keyword.ofWord?_eq_some_iff.mp hkeyword, String.toList_ofList] at hspelling
  · next hnone =>
      have hfree : ∀ keyword : Keyword, keyword.word ≠ String.ofList text := by
        intro keyword he
        rw [Keyword.ofWord?_eq_some_iff.mpr he] at hnone
        cases hnone
      have hspelling := Spells.name hword hfree hends
      rwa [String.toList_ofList] at hspelling

theorem spelling_ofNumber {c : Char} (h : c.isDigit) (rest : List Char) :
    (ofNumber (c :: rest)).Spelling := by
  have hfilled : (c :: rest).takeWhile Char.isDigit ≠ [] := by simp [h]
  have hrun : ∀ digit ∈ (c :: rest).takeWhile Char.isDigit, digit.isDigit :=
    List.all_eq_true.mp List.all_takeWhile
  unfold ofNumber
  dsimp only
  split
  · next hvalue =>
      exact spelling_one
        (.number hfilled hrun (Integer.ofDigits?_eq_some_iff.mp hvalue) (head?_dropWhile_not _))
  · exact spelling_failed _

theorem notMem_takeWhile_ne (mark : Char) (text : List Char) :
    mark ∉ text.takeWhile (· != mark) := by
  intro hm
  simpa using List.all_eq_true.mp List.all_takeWhile mark hm

theorem spelling_ofString (text : List Char) : (ofString text).Spelling := by
  have hinside := notMem_takeWhile_ne quote text
  have hclosing := @head?_dropWhile_not (· != quote) text
  unfold ofString
  dsimp only
  split
  · exact spelling_failed _
  · next closing rest hrest =>
      rw [hrest] at hclosing
      have hquote : closing = quote := by simpa using hclosing closing rfl
      have hspelling : Spells _ (.string (String.ofList (text.takeWhile (· != quote)))) rest :=
        .string (by simpa using hinside)
      rw [String.toList_ofList] at hspelling
      exact spelling_one (hquote ▸ hspelling)

theorem spelling_ofEquals (text : List Char) : (ofEquals text).Spelling := by
  fun_cases ofEquals text with
  | case1 rest => exact spelling_one (@Spells.symbol .equal rest trivial)
  | case2 rest => exact spelling_one (@Spells.symbol .arrow rest trivial)
  | case3 _ hequal harrow =>
      exact spelling_one (@Spells.symbol .assign _ ⟨head?_ne_some hequal, head?_ne_some harrow⟩)

-- A line of a comment gives a text unless it is empty.
theorem laid_commentLexeme {line after : List Char} {block : Bool} (before : List Lexeme)
    (h : String.ofList line ≠ "" →
      Spells (String.ofList line).toList (.text (String.ofList line) block) after) :
    Laid before (commentLexeme line block) after := by
  unfold commentLexeme
  split
  · trivial
  · next hfilled =>
      have hspelling := h (by simpa using hfilled)
      rw [String.toList_ofList] at hspelling
      rw [commentText, if_neg hfilled]
      exact ⟨.token hspelling, trivial⟩

theorem spelling_ofLineComment (text : List Char) : (ofLineComment text).Spelling := by
  rintro _ ⟨⟩
  have hinline := notMem_takeWhile_ne '\n' text
  have hends := @head?_dropWhile_not (· != '\n') text
  refine ⟨.token .comment, laid_commentLexeme _ fun hfilled => ?_⟩
  exact .lineText hfilled (by simpa using hinline) (by simpa using hends)

theorem fits_lastLine {line : List Char} (hinline : '\n' ∉ line) {before : List Lexeme}
    (hbefore : AtLine before) (after : List Char) :
    Fits before ⟨line ++ ['*', '/'], commentText line true⟩ after := by
  unfold commentText
  split
  · next hempty =>
      rw [List.isEmpty_iff.mp hempty]
      exact .closer hbefore
  · next hfilled =>
      have hspelling : Spells _ (.text (String.ofList line) true) after :=
        .lastText (by simpa using hfilled) (by simpa using hinline)
      rw [String.toList_ofList] at hspelling
      exact .token hspelling

-- Each line of a comment begins behind the opening or behind the end of the line before it.
theorem laid_closedLines {lines : List (List Char)} (hlines : ∀ line ∈ lines, '\n' ∉ line)
    {before : List Lexeme} (hbefore : AtLine before) (after : List Char) :
    Laid before (closedLines lines) after := by
  fun_induction closedLines lines generalizing before with
  | case1 => trivial
  | case2 last => exact ⟨fits_lastLine (hlines last (by simp)) hbefore _, trivial⟩
  | case3 line next more ih =>
      have hinline := hlines line (by simp)
      have hmore := ih (fun other hm => hlines other (List.mem_cons_of_mem _ hm))
        (hbefore.next line)
      refine laid_append.mpr ⟨laid_commentLexeme before fun hfilled => ?_, .token .lineEnd, hmore⟩
      exact .blockText hfilled (by simpa using hinline) rfl

-- A second star belongs to the opening, unless it begins the closer.
theorem fits_opening (text : List Char) :
    Fits [] (opening (openBlock text).1) (openBlock text).2 := by
  fun_cases openBlock text with
  | case1 rest => exact .token (.openBlock fun _ => ⟨rest, rfl⟩)
  | case2 rest hslash => exact .token (.openDoc (head?_ne_some hslash))
  | case3 _ _ hstar => exact .token (.openBlock fun he => absurd he (head?_ne_some hstar))

theorem atLine_opening (style : CommentStyle) : AtLine [opening style] := by
  cases style <;> exact ⟨[], _, [], _, rfl, rfl, by simp, by simp⟩

theorem spelling_ofBlockComment (text : List Char) : (ofBlockComment text).Spelling := by
  unfold ofBlockComment
  dsimp only
  split
  · next inside rest hs =>
      rintro _ ⟨⟩
      have hcovering : covering (closedLines (Text.lines inside)) ++ rest = (openBlock text).2 := by
        rw [covering, flatMap_closedLines _ (Text.lines_ne_nil inside), Text.intercalate_lines,
          ← splitClose?_append hs]
        simp
      refine ⟨?_, laid_closedLines (fun line hm => Text.notMem_of_mem_split hm) (atLine_opening _) _⟩
      rw [hcovering]
      exact fits_opening text
  · rintro _ ⟨⟩

theorem spelling_ofSlash (text : List Char) : (ofSlash text).Spelling := by
  fun_cases ofSlash text with
  | case1 rest => exact spelling_ofLineComment rest
  | case2 rest => exact spelling_ofBlockComment rest
  | case3 _ hslash hstar =>
      exact spelling_one (@Spells.symbol .slash _ ⟨head?_ne_some hslash, head?_ne_some hstar⟩)

theorem spelling_alone {c : Char} {symbol : Symbol} (h : Symbol.ofChar? c = some symbol)
    (rest : List Char) : (one [c] (.symbol symbol) rest).Spelling := by
  have hends : symbol.EndsBefore rest := by
    have halone := List.mem_of_find?_eq_some h
    cases symbol <;> trivial
  have hspelling := Spells.symbol hends
  rw [Symbol.spelling_of_ofChar? h] at hspelling
  exact spelling_one hspelling

theorem spelling_ofText (c : Char) (rest : List Char) : (ofText c rest).Spelling := by
  fun_cases ofText c rest with
  | case1 he => exact spelling_one (he ▸ .lineEnd)
  | case2 => exact spelling_ofSlash rest
  | case3 => exact spelling_ofString rest
  | case4 => exact spelling_ofEquals rest
  | case5 _ _ _ _ _ hsymbol => exact spelling_alone hsymbol rest
  | case6 _ _ _ _ _ hletter => exact spelling_ofWord hletter rest
  | case7 _ _ _ _ _ _ hdigit => exact spelling_ofNumber hdigit rest
  | case8 => exact spelling_failed _

end RayCompiler.Reading
