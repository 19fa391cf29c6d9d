import RayCompiler.Proofs.Token.Pieces
import Mathlib.Data.List.Induction

namespace RayCompiler

namespace Position

-- The place behind a text, without a walk over it: its bytes, one line more than it has line feeds,
-- and one column more than it has characters behind the last of them.
def behind (text : List Char) : Position where
  offset := (String.ofList text).utf8ByteSize
  line := 1 + text.count '\n'
  column := 1 + (text.reverse.takeWhile (· ≠ '\n')).length

theorem past_start (text : List Char) : start.past text = behind text := by
  induction text using List.reverseRecOn with
  | nil => rfl
  | append_singleton text c ih =>
      rw [past_append, ih, past_cons, past_nil, step]
      by_cases hc : c = '\n'
      · subst hc
        simp [behind, newline, Nat.add_assoc]
        rfl
      · simp [behind, advance, hc, Nat.add_comm]

theorem past_behind (first second : List Char) :
    (behind first).past second = behind (first ++ second) := by
  rw [← past_start, ← past_start, past_append]

theorem offset_behind_append (first second : List Char) :
    (behind (first ++ second)).offset = (behind first).offset + (behind second).offset := by
  simp [behind]

theorem offset_behind_pos {text : List Char} (h : text ≠ []) : 0 < (behind text).offset := by
  rw [Nat.pos_iff_ne_zero]
  intro hzero
  exact h (by simpa using String.utf8ByteSize_eq_zero_iff.mp hzero)

end Position

open Position

theorem locate_append (position : Position) (first second : List Lexeme) :
    locate position (first ++ second) =
      locate position first ++ locate (position.past (covering first)) second := by
  induction first generalizing position with
  | nil => rfl
  | cons piece more ih =>
      simp only [List.cons_append, locate, covering_cons, Position.past_append, ih]
      cases piece.token <;> rfl

theorem locate_cons_of_some {position : Position} {piece : Lexeme} {token : Token}
    (h : piece.token = some token) (more : List Lexeme) :
    locate position (piece :: more) =
      ⟨⟨position, position.past piece.text⟩, token⟩ :: locate (position.past piece.text) more := by
  simp [locate, h]

section Pieces

variable {done : List Char} {pieces : List Lexeme}

-- Every token comes from a piece, and its span is where the piece stands.
theorem exists_piece_of_mem_locate {token : Located Token}
    (h : token ∈ locate (behind done) pieces) :
    ∃ front piece back, pieces = front ++ piece :: back ∧ piece.token = some token.value ∧
      token.span = ⟨behind (done ++ covering front), behind (done ++ covering front ++ piece.text)⟩ := by
  induction pieces generalizing done with
  | nil => simp [locate] at h
  | cons piece more ih =>
      have hmore : token ∈ locate (behind (done ++ piece.text)) more →
          ∃ front other back, piece :: more = front ++ other :: back ∧
            other.token = some token.value ∧ token.span =
              ⟨behind (done ++ covering front), behind (done ++ covering front ++ other.text)⟩ := by
        intro hm
        obtain ⟨front, other, back, rfl, hother, hspan⟩ := ih hm
        exact ⟨piece :: front, other, back, rfl, hother, by simpa using hspan⟩
      cases hpiece : piece.token with
      | none =>
          simp only [locate, hpiece, past_behind] at h
          exact hmore h
      | some found =>
          rw [locate_cons_of_some hpiece, past_behind] at h
          rcases List.mem_cons.mp h with rfl | h
          · exact ⟨[], piece, more, rfl, hpiece, by simp⟩
          · exact hmore h

theorem offset_le_of_mem_locate {token : Located Token} (h : token ∈ locate (behind done) pieces) :
    (behind done).offset ≤ token.span.start.offset ∧
      token.span.stop.offset ≤ (behind (done ++ covering pieces)).offset := by
  obtain ⟨front, piece, back, rfl, _, hspan⟩ := exists_piece_of_mem_locate h
  rw [hspan]
  simp only [covering_append, covering_cons, offset_behind_append]
  omega

theorem pairwise_locate : (locate (behind done) pieces).Pairwise fun first second =>
    first.span.stop.offset ≤ second.span.start.offset := by
  induction pieces generalizing done with
  | nil => exact .nil
  | cons piece more ih =>
      have hmore := @ih (done ++ piece.text)
      cases hpiece : piece.token with
      | none => simpa only [locate, hpiece, past_behind] using hmore
      | some token =>
          rw [locate_cons_of_some hpiece, past_behind]
          exact .cons (fun other hm => (offset_le_of_mem_locate hm).1) hmore

-- Every character of a text stands in one of its pieces.
theorem exists_piece_of_covering {before after : List Char} {c : Char}
    (h : covering pieces = before ++ c :: after) :
    ∃ front piece back inside rest, pieces = front ++ piece :: back ∧
      piece.text = inside ++ c :: rest ∧ before = covering front ++ inside := by
  induction pieces generalizing before with
  | nil => simp at h
  | cons piece more ih =>
      rw [covering_cons, List.append_eq_append_iff] at h
      rcases h with ⟨inside, rfl, hmore⟩ | ⟨inside, hpiece, hmore⟩
      · obtain ⟨front, other, back, place, rest, rfl, hother, rfl⟩ := ih hmore
        exact ⟨piece :: front, other, back, place, rest, rfl, hother, by simp⟩
      · cases inside with
        | nil =>
            obtain ⟨front, other, back, place, rest, rfl, hother, hplace⟩ := @ih [] hmore.symm
            exact ⟨piece :: front, other, back, place, rest, rfl, hother, by simp_all⟩
        | cons first inside =>
            rw [List.cons_append, List.cons.injEq] at hmore
            obtain ⟨rfl, rfl⟩ := hmore
            exact ⟨[], piece, more, before, inside, rfl, hpiece, by simp⟩

end Pieces

-- In each round the gap, the lexemes that are read and the pieces of what follows stand side by
-- side.
theorem Rounds.exists_pieces {position : Position} {text : List Char}
    {tokens : List (Located Token)} (h : Rounds position text tokens) :
    ∃ pieces, covering pieces = text ∧ Laid [] pieces [] ∧
      tokens = locate position pieces ++ [endAt (position.past text)] := by
  have hgap : ∀ text : List Char, ∀ c ∈ text.takeWhile isGap, isGap c :=
    fun _ => List.all_eq_true.mp List.all_takeWhile
  induction h with
  | @ended position text blank =>
      have htext := List.takeWhile_append_dropWhile (p := isGap) (l := text)
      rw [blank, List.append_nil] at htext
      exact ⟨[⟨text.takeWhile isGap, none⟩], by simpa using htext, ⟨.gap (hgap text), trivial⟩,
        by rw [htext]; rfl⟩
  | @read c rest _ _ position text body reading _ ih =>
      obtain ⟨pieces, rfl, hlaid, rfl⟩ := ih
      have hread := Reading.spelling_ofText c rest _ reading
      have hwhole : text.takeWhile isGap ++ ((Reading.ofText c rest).covered ++ covering pieces) =
          text := by
        rw [Reading.ofText_append reading, ← body, List.takeWhile_append_dropWhile]
      have hstop : ((position.past (text.takeWhile isGap)).past
          (Reading.ofText c rest).covered).past (covering pieces) = position.past text := by
        rw [← Position.past_append, ← Position.past_append, hwhole]
      refine ⟨⟨text.takeWhile isGap, none⟩ :: (Reading.ofText c rest).lexemes ++ pieces, ?_, ?_, ?_⟩
      · rw [List.cons_append, covering_cons, covering_append]
        exact hwhole
      · refine ⟨.gap (hgap text), laid_append.mpr ⟨?_, hlaid.anywhere _⟩⟩
        rw [List.append_nil]
        exact hread.anywhere _
      · rw [hstop, List.cons_append, locate]
        dsimp only
        rw [locate_append, List.append_assoc]
        rfl

-- A token stands in a text: its span is the exact place of a stretch that spells it.
def Located.StandsIn (text : List Char) (token : Located Token) : Prop :=
  ∃ before inside after, text = before ++ inside ++ after ∧ inside ≠ [] ∧
    token.span = ⟨behind before, behind (before ++ inside)⟩ ∧ Spells inside token.value after

-- The tokens of a block comment, up to the given place, where a line of it begins.
def CommentLineAt (tokens : List (Located Token)) (place : Position) : Prop :=
  ∃ front opening lines rest style, tokens = front ++ opening :: lines ++ rest ∧
    opening.value = .openComment style ∧
    (∀ line ∈ lines, line.value = .lineEnd ∨ ∃ contents, line.value = .text contents true) ∧
    (∀ last ∈ lines.getLast?, last.value = .lineEnd) ∧ (lines.getLastD opening).span.stop = place

-- The tokens of a source lose nothing of it. They end with the end of the source; each other one
-- stands in the text, one behind another; and what no token covers is blank, or closes a block
-- comment in an empty line.
structure Source.LaidOut (source : Source) (tokens : List (Located Token)) : Prop where
  ends : ∃ front, tokens = front ++ [endAt source.stop] ∧
    ∀ token ∈ front, token.value ≠ .endOfInput
  stop : source.stop = behind source.text.toList
  stands : ∀ token ∈ tokens, token.value ≠ .endOfInput → token.StandsIn source.text.toList
  ordered : tokens.Pairwise fun first second => first.span.stop.offset ≤ second.span.start.offset
  between : ∀ before c after, source.text.toList = before ++ c :: after →
    (∃ token ∈ tokens, token.span.start.offset ≤ (behind before).offset ∧
      (behind before).offset < token.span.stop.offset) ∨
    (Text.isBlank c ∧ c ≠ '\n') ∨
    ∃ front rest, source.text.toList = front ++ closer ++ rest ∧
      (before = front ∨ before = front ++ ['*']) ∧ CommentLineAt tokens (behind front)

section Pieces

variable {pieces : List Lexeme}

theorem standsIn_of_mem_locate (hlaid : Laid [] pieces []) {token : Located Token}
    (h : token ∈ locate (behind []) pieces) : token.StandsIn (covering pieces) := by
  obtain ⟨front, piece, back, rfl, htoken, hspan⟩ := exists_piece_of_mem_locate h
  have hfits := hlaid.fits
  obtain ⟨text, found⟩ := piece
  cases htoken
  cases hfits with
  | token spells =>
      rw [List.append_nil] at spells
      exact ⟨covering front, text, covering back, by simp, spells.ne_nil, hspan, spells⟩

theorem commentLineAt_of_atLine {before : List Lexeme} (h : AtLine before)
    (rest : List (Located Token)) :
    CommentLineAt (locate (behind []) before ++ rest) (behind (covering before)) := by
  obtain ⟨front, opening, lines, style, rfl, hopening, hlines, hlast⟩ := h
  have hlocated : ∀ token ∈ locate (behind (covering front ++ opening.text)) lines,
      token.value = .lineEnd ∨ ∃ contents, token.value = .text contents true := by
    intro token hm
    obtain ⟨_, piece, _, rfl, htoken, _⟩ := exists_piece_of_mem_locate hm
    have hpiece := hlines piece (by simp)
    rw [htoken] at hpiece
    simpa using hpiece
  rw [locate_append, locate_cons_of_some hopening, past_behind, past_behind, List.nil_append]
  refine ⟨_, _, _, rest, style, rfl, rfl, hlocated, ?_⟩
  -- The place is where the last line ends, or the opening if no line has ended.
  rcases List.eq_nil_or_concat lines with rfl | ⟨front, last, rfl⟩
  · simp [locate]
  · have hend : last.token = some .lineEnd := hlast last (by simp)
    rw [List.concat_eq_append, locate_append, locate_cons_of_some hend, past_behind, past_behind]
    simp [locate]

-- A piece that covers a character gives a token around it, unless it spells none.
theorem between_of_covering (hlaid : Laid [] pieces []) {before after : List Char} {c : Char}
    (h : covering pieces = before ++ c :: after) (rest : List (Located Token)) :
    (∃ token ∈ locate (behind []) pieces, token.span.start.offset ≤ (behind before).offset ∧
      (behind before).offset < token.span.stop.offset) ∨
    (Text.isBlank c ∧ c ≠ '\n') ∨
    ∃ front rest', covering pieces = front ++ closer ++ rest' ∧
      (before = front ∨ before = front ++ ['*']) ∧
      CommentLineAt (locate (behind []) pieces ++ rest) (behind front) := by
  obtain ⟨front, ⟨text, token⟩, back, inside, left, rfl, htext, rfl⟩ := exists_piece_of_covering h
  dsimp only at htext
  cases hlaid.fits with
  | @token _ token _ spells =>
      refine .inl ⟨⟨⟨behind (covering front), behind (covering front ++ text)⟩, token⟩, ?_, ?_, ?_⟩
      · rw [locate_append, locate_cons_of_some rfl, past_behind, past_behind]
        simp
      · simp only [offset_behind_append]
        omega
      · have hpos := offset_behind_pos (List.cons_ne_nil c left)
        simp only [htext, offset_behind_append]
        omega
  | gap blank =>
      have hblank := blank c (by simp [htext])
      exact .inr (.inl (by simpa [isGap] using hblank))
  | closer line =>
      refine .inr (.inr ⟨covering front, covering back, by simp, ?_, ?_⟩)
      · rw [closer, List.cons_eq_append_iff] at htext
        rcases htext with ⟨rfl, _⟩ | ⟨inside, rfl, htext⟩
        · simp
        · rw [List.cons_eq_append_iff] at htext
          rcases htext with ⟨rfl, _⟩ | ⟨inside, rfl, htext⟩
          · simp
          · simp at htext
      · rw [locate_append, List.append_assoc]
        exact commentLineAt_of_atLine line _

end Pieces

-- Positions are exact and nothing is lost: the tokens of a source tell where each of them stands in
-- its text, and the rest of the text says nothing.
theorem tokenize_laidOut {source : Source} {tokens : List (Located Token)}
    (h : tokenize source = .ok tokens) : source.LaidOut tokens := by
  obtain ⟨pieces, hcovering, hlaid, rfl⟩ := (rounds_of_tokensFrom h).exists_pieces
  have hstands : ∀ token ∈ locate (behind []) pieces, token.StandsIn source.text.toList := by
    intro token hm
    rw [← hcovering]
    exact standsIn_of_mem_locate hlaid hm
  refine ⟨⟨locate (behind []) pieces, rfl, ?_⟩, past_start _, ?_, ?_, ?_⟩
  · intro token hm
    obtain ⟨_, _, _, _, _, _, hspells⟩ := hstands token hm
    exact hspells.ne_endOfInput
  · intro token hm hne
    rcases List.mem_append.mp hm with hm | hm
    · exact hstands token hm
    · rw [List.mem_singleton.mp hm] at hne
      exact absurd rfl hne
  · refine List.pairwise_append.mpr ⟨@pairwise_locate [] pieces, by simp, ?_⟩
    intro token hm last hlast
    have hle := (@offset_le_of_mem_locate [] pieces token hm).2
    rw [hcovering] at hle
    rw [List.mem_singleton.mp hlast, past_start]
    exact hle
  · intro before c after htext
    rw [← hcovering] at htext ⊢
    rcases between_of_covering hlaid htext [endAt _] with ⟨token, hm, hspan⟩ | hrest
    · exact .inl ⟨token, List.mem_append_left _ hm, hspan⟩
    · exact .inr hrest

-- Two comments, the first with an empty line at its end, and a string that goes on in a second line.
def spreadSource : Source where
  name := "spread.ray"
  text := "/** é\n*/f=>12//x\n \"a\nb\""

def spreadTokens : List (Located Token) :=
  [⟨⟨⟨0, 1, 1⟩, ⟨3, 1, 4⟩⟩, .openComment .doc⟩, ⟨⟨⟨3, 1, 4⟩, ⟨6, 1, 6⟩⟩, .text " é" true⟩,
    ⟨⟨⟨6, 1, 6⟩, ⟨7, 2, 1⟩⟩, .lineEnd⟩, ⟨⟨⟨9, 2, 3⟩, ⟨10, 2, 4⟩⟩, .name "f"⟩,
    ⟨⟨⟨10, 2, 4⟩, ⟨12, 2, 6⟩⟩, .symbol .arrow⟩, ⟨⟨⟨12, 2, 6⟩, ⟨14, 2, 8⟩⟩, .number 12⟩,
    ⟨⟨⟨14, 2, 8⟩, ⟨16, 2, 10⟩⟩, .comment⟩, ⟨⟨⟨16, 2, 10⟩, ⟨17, 2, 11⟩⟩, .text "x" false⟩,
    ⟨⟨⟨17, 2, 11⟩, ⟨18, 3, 1⟩⟩, .lineEnd⟩, ⟨⟨⟨19, 3, 2⟩, ⟨24, 4, 3⟩⟩, .string "a\nb"⟩,
    endAt ⟨24, 4, 3⟩]

theorem laidOut_spreadTokens : tokenize spreadSource = .ok spreadTokens ∧
    spreadSource.LaidOut spreadTokens := by
  have htokens : tokenize spreadSource = .ok spreadTokens := by decide +kernel
  exact ⟨htokens, tokenize_laidOut htokens⟩

end RayCompiler
