import RayCompiler.Proofs.Token.Pieces

namespace RayCompiler

-- Tokens that stand outside comments.
def Token.Plain : Token → Prop
  | .text _ _ => False
  | .comment => False
  | .openComment _ => False
  | _ => True

-- What the text of a block comment must not begin with, so that its opening is read in this style.
def CommentStyle.Opens : CommentStyle → List Char → Prop
  | .block, inside => inside.head? ≠ some '*'
  | .doc, inside => inside.head? ≠ some '/'

open Reading

-- What one reading takes off the front of a text, where the given text follows: a token, or a whole
-- comment. The closer of a block comment is the first one, which may share no star with the text.
inductive Takes : List Lexeme → List Char → Prop where
  | token (spells : Spells text token after) (plain : token.Plain) :
      Takes [⟨text, some token⟩] after
  | lineComment (inline : '\n' ∉ contents) (ends : ∀ c ∈ after.head?, c = '\n') :
      Takes (⟨['/', '/'], some .comment⟩ :: commentLexeme contents false) after
  | blockComment (opens : style.Opens inside) (unclosed : ¬closer <:+: inside ++ ['*']) :
      Takes (opening style :: closedLines (Text.lines inside)) after

theorem covering_lineComment (contents : List Char) :
    covering (⟨['/', '/'], some .comment⟩ :: commentLexeme contents false) =
      '/' :: '/' :: contents := by
  rw [covering_cons, covering, flatMap_commentLexeme]
  rfl

theorem covering_blockComment (style : CommentStyle) (inside : List Char) :
    covering (opening style :: closedLines (Text.lines inside)) =
      (opening style).text ++ inside ++ closer := by
  rw [covering_cons, covering, flatMap_closedLines _ (Text.lines_ne_nil inside),
    Text.intercalate_lines, List.append_assoc]
  rfl

end RayCompiler

namespace RayCompiler.Reading

-- The characters that decide by themselves how a text goes on.
def marks : List Char := '\n' :: '/' :: quote :: '=' :: Symbol.alone.flatMap (·.spelling)

theorem ofText_of_notMem_marks {c : Char} (h : c ∉ marks) (rest : List Char) :
    ofText c rest = if c.isAlpha then ofWord (c :: rest)
      else if c.isDigit then ofNumber (c :: rest) else failed (.badCharacter c) := by
  simp only [marks, List.mem_cons, not_or] at h
  obtain ⟨hline, hslash, hquote, hequals, halone⟩ := h
  have hsymbol : Symbol.ofChar? c = none := by
    cases he : Symbol.ofChar? c with
    | none => rfl
    | some symbol =>
        refine absurd (List.mem_flatMap.mpr ⟨symbol, List.mem_of_find?_eq_some he, ?_⟩) halone
        rw [Symbol.spelling_of_ofChar? he]
        exact List.mem_singleton_self c
  simp only [ofText, if_neg hline, if_neg hslash, if_neg hquote, if_neg hequals, hsymbol]

theorem notMem_marks {p : Char → Bool} (hmarks : marks.any p = false) {c : Char} (h : p c) :
    c ∉ marks :=
  fun hm => List.any_eq_false.mp hmarks c hm h

theorem ofText_of_isAlpha {c : Char} (h : c.isAlpha) (rest : List Char) :
    ofText c rest = ofWord (c :: rest) := by
  rw [ofText_of_notMem_marks (notMem_marks rfl h), if_pos h]

theorem ofText_of_isDigit {c : Char} (h : c.isDigit) (rest : List Char) :
    ofText c rest = ofNumber (c :: rest) := by
  have hletter : ¬c.isAlpha := by
    rw [isDigit_iff] at h
    rw [isAlpha_iff]
    omega
  rw [ofText_of_notMem_marks (notMem_marks rfl h), if_neg hletter, if_pos h]

-- A gap begins no word and no number.
theorem not_isWordChar_of_isGap {c : Char} (h : isGap c) : ¬isWordChar c := by
  have hblank : Text.isBlank c := (Bool.and_eq_true_iff.mp h).1
  have hline : c ≠ '_' := by
    rintro rfl
    exact absurd h (by decide)
  simp only [Text.isBlank, Text.inRanges, Text.blankRanges, List.any_cons, List.any_nil,
    Bool.or_eq_true, Bool.and_eq_true, decide_eq_true_eq, Bool.false_eq_true, or_false] at hblank
  simp only [isWordChar, Char.isAlphanum, Bool.or_eq_true, isAlpha_iff, isDigit_iff, beq_iff_eq,
    hline, or_false]
  omega

theorem not_isDigit_of_isGap {c : Char} (h : isGap c) : ¬c.isDigit := by
  intro hc
  exact not_isWordChar_of_isGap h (by simp [isWordChar, Char.isAlphanum, hc])

theorem ofText_of_isGap {c : Char} (h : isGap c) (rest : List Char) :
    ofText c rest = failed (.badCharacter c) := by
  have hword := not_isWordChar_of_isGap h
  simp only [isWordChar, Char.isAlphanum, Bool.or_eq_true, not_or] at hword
  rw [ofText_of_notMem_marks (notMem_marks rfl h), if_neg hword.1.1, if_neg hword.1.2]

-- A run of characters of one kind up to where the kind changes.
theorem run_exact {p : Char → Bool} {run after : List Char} (hrun : ∀ c ∈ run, p c)
    (hends : ∀ c ∈ after.head?, ¬p c) :
    (run ++ after).takeWhile p = run ∧ (run ++ after).dropWhile p = after := by
  rw [List.takeWhile_append_of_pos hrun, List.dropWhile_append_of_pos hrun]
  cases after with
  | nil => simp
  | cons c rest =>
      have hc := hends c rfl
      simp [hc]

theorem ofWord_exact {word after : List Char} (hword : ∀ c ∈ word, isWordChar c)
    (hends : ∀ c ∈ after.head?, ¬isWordChar c) :
    ofWord (word ++ after) = one word (wordToken (String.ofList word)) after := by
  obtain ⟨htake, hdrop⟩ := run_exact hword hends
  rw [ofWord, htake, hdrop]

theorem ofNumber_exact {digits after : List Char} (hrun : ∀ c ∈ digits, c.isDigit)
    (hends : ∀ c ∈ after.head?, ¬c.isDigit) :
    ofNumber (digits ++ after) = (Integer.ofDigits? digits).elim (failed .integerOverflow)
      fun value => one digits (.number value) after := by
  obtain ⟨htake, hdrop⟩ := run_exact hrun hends
  rw [ofNumber, htake, hdrop]
  cases Integer.ofDigits? digits <;> rfl

theorem ofString_exact {contents : List Char} (h : quote ∉ contents) (after : List Char) :
    ofString (contents ++ quote :: after) =
      one (quote :: contents ++ [quote]) (.string (String.ofList contents)) after := by
  have hrun : ∀ c ∈ contents, (c != quote) = true := by
    intro c hm
    simpa using ne_of_mem_of_not_mem hm h
  obtain ⟨htake, hdrop⟩ := @run_exact (· != quote) contents (quote :: after) hrun (by simp)
  rw [ofString, htake, hdrop]

theorem ofLineComment_exact {contents after : List Char} (h : '\n' ∉ contents)
    (hends : ∀ c ∈ after.head?, c = '\n') :
    ofLineComment (contents ++ after) =
      ⟨⟨['/', '/'], some .comment⟩ :: commentLexeme contents false, .ok after⟩ := by
  have hrun : ∀ c ∈ contents, (c != '\n') = true := by
    intro c hm
    simpa using ne_of_mem_of_not_mem hm h
  obtain ⟨htake, hdrop⟩ := @run_exact (· != '\n') contents after hrun (by simpa using hends)
  rw [ofLineComment, htake, hdrop]

theorem closer_prefix_iff {c : Char} {rest : List Char} :
    closer <+: c :: rest ↔ c = '*' ∧ rest.head? = some '/' := by
  cases rest <;> simp [closer, eq_comm]

theorem splitClose?_eq_none_iff {body : List Char} :
    splitClose? body = none ↔ ¬closer <:+: body := by
  fun_induction splitClose? body with
  | case1 => simp [closer]
  | case2 rest => simpa using (show closer <+: '*' :: '/' :: rest from ⟨rest, rfl⟩).isInfix
  | case3 c rest hother ih =>
      have hfront : ¬closer <+: c :: rest := by
        rw [closer_prefix_iff]
        rintro ⟨rfl, hslash⟩
        obtain ⟨more, rfl⟩ := List.head?_eq_some_iff.mp hslash
        exact hother more rfl rfl
      rw [Option.map_eq_none_iff, ih, List.infix_cons_iff, or_iff_right hfront]

-- The text before the first closer has none, not even with the star of that closer.
theorem splitClose?_unclosed {body inside after : List Char}
    (h : splitClose? body = some (inside, after)) : ¬closer <:+: inside ++ ['*'] := by
  fun_induction splitClose? body generalizing inside with
  | case1 => cases h
  | case2 =>
      cases h
      simp [closer, List.infix_cons_iff]
  | case3 c rest hother ih =>
      obtain ⟨⟨front, left⟩, hrest, he⟩ := Option.map_eq_some_iff.mp h
      cases he
      rw [List.cons_append, List.infix_cons_iff, closer_prefix_iff, or_iff_left (ih hrest)]
      rintro ⟨rfl, hslash⟩
      obtain ⟨more, hmore⟩ := List.head?_eq_some_iff.mp hslash
      cases front with
      | nil => cases hmore
      | cons first front =>
          cases hmore
          exact hother _ rfl (splitClose?_append hrest).symm

theorem splitClose?_exact {inside : List Char} (h : ¬closer <:+: inside ++ ['*'])
    (after : List Char) : splitClose? (inside ++ closer ++ after) = some (inside, after) := by
  induction inside with
  | nil => rfl
  | cons c inside ih =>
      rw [List.cons_append, List.infix_cons_iff, not_or, closer_prefix_iff] at h
      obtain ⟨hfront, hrest⟩ := h
      rw [List.cons_append, List.cons_append, splitClose?, ih hrest]
      · rfl
      · rintro rest rfl hslash
        refine hfront ⟨rfl, ?_⟩
        cases inside with
        | nil => cases hslash
        | cons first inside =>
            have hfirst : first = '/' := (List.cons.inj hslash).1
            simp [hfirst]

theorem ofBlockComment_exact {style : CommentStyle} {inside : List Char} (hopens : style.Opens inside)
    (hinside : ¬closer <:+: inside ++ ['*']) {text after : List Char}
    (htext : (opening style).text ++ inside ++ closer ++ after = '/' :: '*' :: text) :
    ofBlockComment text = ⟨opening style :: closedLines (Text.lines inside), .ok after⟩ := by
  have hopen : openBlock text = (style, inside ++ closer ++ after) := by
    cases style with
    | block =>
        cases htext
        cases inside with
        | nil => rfl
        | cons c inside =>
            have hstar : c ≠ '*' := by simpa [CommentStyle.Opens] using hopens
            rw [openBlock] <;> simp [hstar]
    | doc =>
        cases htext
        cases inside with
        | nil => rfl
        | cons c inside =>
            have hslash : c ≠ '/' := by simpa [CommentStyle.Opens] using hopens
            change openBlock ('*' :: c :: (inside ++ closer ++ after)) = _
            rw [openBlock]
            · rfl
            · simp [hslash]
  rw [ofBlockComment, hopen]
  dsimp only
  rw [splitClose?_exact hinside]

theorem ofText_of_symbol {symbol : Symbol} {after rest : List Char} {c : Char}
    (h : symbol.EndsBefore after) (htext : symbol.spelling ++ after = c :: rest) :
    ofText c rest = one symbol.spelling (.symbol symbol) after := by
  cases symbol with
  | assign =>
      cases htext
      change ofEquals after = _
      obtain ⟨hequals, harrow⟩ := h
      rw [ofEquals]
      · rfl
      · rintro more rfl
        exact hequals rfl
      · rintro more rfl
        exact harrow rfl
  | slash =>
      cases htext
      change ofSlash after = _
      obtain ⟨hslash, hstar⟩ := h
      rw [ofSlash]
      · rfl
      · rintro more rfl
        exact hslash rfl
      · rintro more rfl
        exact hstar rfl
  | _ =>
      cases htext
      rfl

theorem ofText_of_word {word : String} (h : IsWord word) {after rest : List Char} {c : Char}
    (hends : ∀ c ∈ after.head?, ¬isWordChar c) (htext : word.toList ++ after = c :: rest) :
    ofText c rest = one word.toList (wordToken word) after := by
  have hall : ∀ c ∈ word.toList, isWordChar c := fun c hm => h.isWordChar hm
  obtain ⟨first, more, hword, hfirst, _⟩ := h
  have hc : c = first := by
    rw [hword] at htext
    exact (List.cons.inj htext).1.symm
  rw [ofText_of_isAlpha (hc ▸ hfirst), ← htext, ofWord_exact hall hends, String.ofList_toList]

theorem isWord_word (keyword : Keyword) : IsWord keyword.word := by
  cases keyword <;> exact ⟨_, _, rfl, rfl, List.all_eq_true.mp rfl⟩

theorem wordToken_of_free {word : String} (h : ∀ keyword : Keyword, keyword.word ≠ word) :
    wordToken word = .name word := by
  unfold wordToken
  split
  · next keyword he => exact absurd (Keyword.ofWord?_eq_some_iff.mp he) (h keyword)
  · rfl

theorem ofText_of_digits {digits after rest : List Char} {c : Char} (hfilled : digits ≠ [])
    (hrun : ∀ c ∈ digits, c.isDigit) (hends : ∀ c ∈ after.head?, ¬c.isDigit)
    (htext : digits ++ after = c :: rest) :
    ofText c rest = (Integer.ofDigits? digits).elim (failed .integerOverflow)
      fun value => one digits (.number value) after := by
  have hc : c.isDigit := by
    cases digits with
    | nil => exact absurd rfl hfilled
    | cons first digits =>
        rw [← (List.cons.inj htext).1]
        exact hrun first List.mem_cons_self
  rw [ofText_of_isDigit hc, ← htext, ofNumber_exact hrun hends]

theorem ofText_of_spells {text after rest : List Char} {token : Token} {c : Char}
    (h : Spells text token after) (hplain : token.Plain) (htext : text ++ after = c :: rest) :
    ofText c rest = one text token after := by
  cases h with
  | name word free ends => rw [ofText_of_word word ends htext, wordToken_of_free free]
  | @keyword keyword _ ends =>
      rw [ofText_of_word (isWord_word keyword) ends htext, wordToken, Keyword.ofWord?_word]
  | number filled run value ends =>
      rw [ofText_of_digits filled run ends htext, Integer.ofDigits?_eq_some_iff.mpr value,
        Option.elim_some]
  | @string contents _ inside =>
      obtain ⟨rfl, rfl⟩ := List.cons.inj htext
      change ofString (contents.toList ++ [quote] ++ after) = _
      rw [List.append_assoc, List.singleton_append, ofString_exact inside, String.ofList_toList]
  | lineEnd =>
      cases htext
      rfl
  | symbol ends => exact ofText_of_symbol ends htext
  | _ => exact hplain.elim

-- The reading takes what can be taken there.
theorem ofText_of_takes {lexemes : List Lexeme} {after rest : List Char} {c : Char}
    (h : Takes lexemes after) (htext : covering lexemes ++ after = c :: rest) :
    ofText c rest = ⟨lexemes, .ok after⟩ := by
  cases h with
  | token spells plain =>
      rw [covering_cons, covering_nil, List.append_nil] at htext
      exact ofText_of_spells spells plain htext
  | lineComment inline ends =>
      rw [covering_lineComment] at htext
      cases htext
      exact ofLineComment_exact inline ends
  | @blockComment inside style _ opens unclosed =>
      rw [covering_blockComment] at htext
      obtain ⟨text, htext'⟩ : ∃ text,
          (opening style).text ++ inside ++ closer ++ after = '/' :: '*' :: text := by
        cases style <;> exact ⟨_, rfl⟩
      cases htext.symm.trans htext'
      exact ofBlockComment_exact opens unclosed htext'

-- A reading that goes on takes what it reads.
def Taken (reading : Reading) : Prop :=
  ∀ after, reading.outcome = .ok after → Takes reading.lexemes after

theorem taken_one {text rest : List Char} {token : Token} (h : (one text token rest).Spelling)
    (hplain : token.Plain) : (one text token rest).Taken := by
  rintro _ ⟨⟩
  have hlaid := h rest rfl
  cases hlaid.1 with
  | token spells => exact .token spells hplain

theorem taken_failed (cause : LexError) : (failed cause).Taken := by
  rintro _ ⟨⟩

theorem taken_ofLineComment (text : List Char) : (ofLineComment text).Taken := by
  rintro _ ⟨⟩
  have hends := @head?_dropWhile_not (· != '\n') text
  exact .lineComment (notMem_takeWhile_ne '\n' text) (by simpa using hends)

-- A second star belongs to the opening unless the comment is closed with it.
theorem opens_openBlock {text inside rest : List Char}
    (h : splitClose? (openBlock text).2 = some (inside, rest)) :
    (openBlock text).1.Opens inside := by
  have hbody := splitClose?_append h
  revert h hbody
  fun_cases openBlock text with
  | case1 rest =>
      intro h _
      cases h
      simp [CommentStyle.Opens]
  | case2 text hslash =>
      intro _ hbody he
      obtain ⟨more, rfl⟩ := List.head?_eq_some_iff.mp he
      exact hslash _ hbody.symm
  | case3 text _ hstar =>
      intro _ hbody he
      obtain ⟨more, rfl⟩ := List.head?_eq_some_iff.mp he
      exact hstar _ hbody.symm

theorem taken_ofBlockComment (text : List Char) : (ofBlockComment text).Taken := by
  unfold ofBlockComment
  dsimp only
  split
  · next inside rest hsplit =>
      rintro _ ⟨⟩
      exact .blockComment (opens_openBlock hsplit) (splitClose?_unclosed hsplit)
  · rintro _ ⟨⟩

theorem taken_ofSlash (text : List Char) : (ofSlash text).Taken := by
  have hspelling := spelling_ofSlash text
  revert hspelling
  fun_cases ofSlash text with
  | case1 rest => exact fun _ => taken_ofLineComment rest
  | case2 rest => exact fun _ => taken_ofBlockComment rest
  | case3 => exact fun hspelling => taken_one hspelling trivial

theorem taken_ofEquals (text : List Char) : (ofEquals text).Taken := by
  have hspelling := spelling_ofEquals text
  revert hspelling
  fun_cases ofEquals text <;> exact fun hspelling => taken_one hspelling trivial

theorem taken_ofString (text : List Char) : (ofString text).Taken := by
  have hspelling := spelling_ofString text
  revert hspelling
  unfold ofString
  dsimp only
  split
  · exact fun _ => taken_failed _
  · exact fun hspelling => taken_one hspelling trivial

theorem taken_ofNumber {c : Char} (h : c.isDigit) (rest : List Char) :
    (ofNumber (c :: rest)).Taken := by
  have hspelling := spelling_ofNumber h rest
  revert hspelling
  unfold ofNumber
  dsimp only
  split
  · exact fun hspelling => taken_one hspelling trivial
  · exact fun _ => taken_failed _

theorem plain_wordToken (word : String) : (wordToken word).Plain := by
  unfold wordToken
  split <;> trivial

theorem taken_ofText (c : Char) (rest : List Char) : (ofText c rest).Taken := by
  fun_cases ofText c rest with
  | case1 he => exact taken_one (spelling_one (he ▸ .lineEnd)) trivial
  | case2 => exact taken_ofSlash rest
  | case3 => exact taken_ofString rest
  | case4 => exact taken_ofEquals rest
  | case5 _ _ _ _ _ hsymbol => exact taken_one (spelling_alone hsymbol rest) trivial
  | case6 _ _ _ _ _ hletter => exact taken_one (spelling_ofWord hletter rest) (plain_wordToken _)
  | case7 _ _ _ _ _ _ hdigit => exact taken_ofNumber hdigit rest
  | case8 => exact taken_failed _

end RayCompiler.Reading

namespace RayCompiler

open Reading

-- What may follow a token outside comments depends on the next character only, and a gap may always
-- follow.
theorem Spells.before {text after other : List Char} {token : Token} (h : Spells text token after)
    (hplain : token.Plain) (hother : ∀ c ∈ other.head?, c ∈ after.head? ∨ isGap c) :
    Spells text token other := by
  have hends : ∀ {p : Char → Prop}, (∀ c ∈ after.head?, p c) → (∀ c, isGap c → p c) →
      ∀ c ∈ other.head?, p c := by
    intro p hafter hgap c hm
    rcases hother c hm with hm | hc
    · exact hafter c hm
    · exact hgap c hc
  have hnot : ∀ {c : Char}, ¬isGap c → after.head? ≠ some c → other.head? ≠ some c := by
    intro c hc hafter he
    rcases hother c he with hm | hgap
    · exact hafter hm
    · exact hc hgap
  cases h with
  | name word free ends => exact .name word free (hends ends fun _ => not_isWordChar_of_isGap)
  | keyword ends => exact .keyword (hends ends fun _ => not_isWordChar_of_isGap)
  | number filled run value ends =>
      exact .number filled run value (hends ends fun _ => not_isDigit_of_isGap)
  | string inside => exact .string inside
  | lineEnd => exact .lineEnd
  | @symbol symbol _ ends =>
      refine .symbol ?_
      cases symbol with
      | assign | slash => exact ⟨hnot (by decide) ends.1, hnot (by decide) ends.2⟩
      | _ => trivial
  | _ => exact hplain.elim

-- What is taken before a text is also taken before the first part of it.
theorem Takes.truncate {lexemes : List Lexeme} {front after : List Char}
    (h : Takes lexemes (front ++ after)) : Takes lexemes front := by
  have hhead : ∀ c ∈ front.head?, c ∈ (front ++ after).head? := by
    intro c hm
    rw [List.head?_append, Option.mem_def.mp hm]
    rfl
  cases h with
  | token spells plain => exact .token (spells.before plain fun c hm => .inl (hhead c hm)) plain
  | lineComment inline ends => exact .lineComment inline fun c hm => ends c (hhead c hm)
  | blockComment opens unclosed => exact .blockComment opens unclosed

-- Why nothing can be taken off the front of a text: it begins with a character that begins no
-- token, with too large a number, or with a string or a comment that is never closed.
inductive Spoils : LexError → List Char → Prop where
  | badCharacter (visible : ¬Text.isBlank c)
      (unknown : ∀ text token after, Spells text token after → token.Plain → text.head? ≠ some c) :
      Spoils (.badCharacter c) (c :: rest)
  | integerOverflow (run : ∀ c ∈ digits, c.isDigit) (ends : ∀ c ∈ after.head?, ¬c.isDigit)
      (large : greatestInteger < Nat.ofDigitChars 10 digits 0) :
      Spoils .integerOverflow (digits ++ after)
  | unterminatedString (unclosed : quote ∉ rest) : Spoils .unterminatedString (quote :: rest)
  | unterminatedComment (unclosed : ¬closer <:+: rest) :
      Spoils .unterminatedComment ('/' :: '*' :: rest)

theorem spoils_ofNumber {text : List Char} {cause : LexError}
    (h : (ofNumber text).outcome = .error cause) : Spoils cause text := by
  unfold ofNumber at h
  dsimp only at h
  split at h
  · cases h
  · next hnone =>
      cases h
      have hspoils : Spoils .integerOverflow
          (text.takeWhile Char.isDigit ++ text.dropWhile Char.isDigit) :=
        .integerOverflow (List.all_eq_true.mp List.all_takeWhile) (head?_dropWhile_not text)
          (Integer.ofDigits?_eq_none_iff.mp hnone)
      rwa [List.takeWhile_append_dropWhile] at hspoils

theorem spoils_ofString {text : List Char} {cause : LexError}
    (h : (ofString text).outcome = .error cause) : Spoils cause (quote :: text) := by
  unfold ofString at h
  dsimp only at h
  split at h
  · next hrest =>
      cases h
      have htext : text.takeWhile (· != quote) ++ text.dropWhile (· != quote) = text :=
        List.takeWhile_append_dropWhile
      rw [hrest, List.append_nil] at htext
      exact .unterminatedString (htext ▸ notMem_takeWhile_ne quote text)
  · cases h

theorem spoils_ofBlockComment {text : List Char} {cause : LexError}
    (h : (ofBlockComment text).outcome = .error cause) : Spoils cause ('/' :: '*' :: text) := by
  unfold ofBlockComment at h
  dsimp only at h
  split at h
  · cases h
  next hsplit =>
  cases h
  refine .unterminatedComment ?_
  revert hsplit
  fun_cases openBlock text with
  | case1 rest => rintro ⟨⟩
  | case2 rest hslash =>
      intro hsplit
      rw [List.infix_cons_iff, closer_prefix_iff, or_iff_left (splitClose?_eq_none_iff.mp hsplit)]
      rintro ⟨_, he⟩
      obtain ⟨more, rfl⟩ := List.head?_eq_some_iff.mp he
      exact hslash more rfl
  | case3 => exact splitClose?_eq_none_iff.mp

-- A reading that fails shows what spoils the text.
theorem spoils_ofText {c : Char} {rest : List Char} {cause : LexError} (hgap : ¬isGap c)
    (h : (ofText c rest).outcome = .error cause) : Spoils cause (c :: rest) := by
  revert h
  fun_cases ofText c rest with
  | case1 => rintro ⟨⟩
  | case2 _ hslash =>
      subst hslash
      fun_cases ofSlash rest with
      | case1 => rintro ⟨⟩
      | case2 rest => exact spoils_ofBlockComment
      | case3 => rintro ⟨⟩
  | case3 _ _ hquote =>
      subst hquote
      exact spoils_ofString
  | case4 => fun_cases ofEquals rest <;> rintro ⟨⟩
  | case5 => rintro ⟨⟩
  | case6 => rintro ⟨⟩
  | case7 => exact spoils_ofNumber
  | case8 hline hslash hquote hequals hsymbol hletter hdigit =>
      rintro ⟨⟩
      have hfails : ∀ more, ofText c more = failed (.badCharacter c) := by
        intro more
        simp only [ofText, if_neg hline, if_neg hslash, if_neg hquote, if_neg hequals, hsymbol,
          if_neg hletter, if_neg hdigit]
      refine .badCharacter ?_ ?_
      · intro hblank
        exact hgap (by simp [isGap, hblank, hline])
      · intro text token after hspells hplain hhead
        obtain ⟨more, rfl⟩ := List.head?_eq_some_iff.mp hhead
        have hread := ofText_of_spells hspells hplain rfl
        rw [List.append_eq, hfails] at hread
        cases hread

end RayCompiler
