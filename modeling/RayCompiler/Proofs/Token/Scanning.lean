import RayCompiler.Proofs.Token.Layout
import RayCompiler.Proofs.Token.Readings
import RayCompiler.Token.Iteration

namespace RayCompiler

-- The tokens of the first part of a text, where the given text follows: gaps are passed over, and
-- whatever else is there is taken reading by reading.
inductive Scans (after : List Char) : Position → List Char → List (Located Token) → Prop where
  | nil : Scans after position [] []
  | gap (blank : isGap c) (more : Scans after (position.step c) text tokens) :
      Scans after position (c :: text) tokens
  | takes (taken : Takes lexemes (text ++ after))
      (more : Scans after (position.past (covering lexemes)) text tokens) :
      Scans after position (covering lexemes ++ text) (locate position lexemes ++ tokens)

open Reading

theorem Scans.token {after text rest : List Char} {position : Position} {token : Token}
    {tokens : List (Located Token)} (spells : Spells text token (rest ++ after))
    (plain : token.Plain) (more : Scans after (position.past text) rest tokens) :
    Scans after position (text ++ rest) (⟨⟨position, position.past text⟩, token⟩ :: tokens) := by
  have hcovering : covering [⟨text, some token⟩] = text := List.append_nil text
  rw [← hcovering] at more
  have hscans := Scans.takes (.token spells plain) more
  rwa [hcovering] at hscans

theorem Scans.lineComment {after contents rest : List Char} {position : Position}
    {tokens : List (Located Token)} (inline : '\n' ∉ contents)
    (ends : ∀ c ∈ (rest ++ after).head?, c = '\n')
    (more : Scans after (position.past ('/' :: '/' :: contents)) rest tokens) :
    Scans after position ('/' :: '/' :: contents ++ rest)
      (locate position (⟨['/', '/'], some .comment⟩ :: commentLexeme contents false) ++ tokens) := by
  rw [← covering_lineComment] at more ⊢
  exact .takes (.lineComment inline ends) more

theorem Scans.blockComment {style : CommentStyle} {after inside rest : List Char}
    {position : Position} {tokens : List (Located Token)} (opens : style.Opens inside)
    (unclosed : ¬closer <:+: inside ++ ['*'])
    (more : Scans after (position.past ((opening style).text ++ inside ++ closer)) rest tokens) :
    Scans after position ((opening style).text ++ inside ++ closer ++ rest)
      (locate position (opening style :: closedLines (Text.lines inside)) ++ tokens) := by
  rw [← covering_blockComment] at more ⊢
  exact .takes (.blockComment opens unclosed) more

theorem Takes.exists_cons {lexemes : List Lexeme} {after : List Char} (h : Takes lexemes after) :
    ∃ c rest, covering lexemes = c :: rest := by
  cases h with
  | token spells =>
      obtain ⟨c, rest, htext⟩ := List.exists_cons_of_ne_nil spells.ne_nil
      exact ⟨c, rest, by rw [covering_cons, htext]; simp⟩
  | lineComment => exact ⟨_, _, covering_lineComment _⟩
  | @blockComment _ style => cases style <;> exact ⟨_, _, covering_blockComment _ _⟩

end RayCompiler

namespace RayCompiler.Lexer

open Reading

section Items

variable {position : Position} {c : Char} {rest after : List Char}

theorem items_congr {lexer other : Lexer} (h : lexer.next? = other.next?) :
    lexer.items = other.items := by
  cases hnext : other.next? with
  | none => rw [items_nil (h.trans hnext), items_nil hnext]
  | some pair => rw [items_cons (h.trans hnext), items_cons hnext]

theorem items_end (position : Position) :
    (Lexer.mk position [] [] false).items = [.ok (endAt position)] := by
  have hnext : (Lexer.mk position [] [] false).next? =
      some (.ok (endAt position), ⟨position, [], [], true⟩) := rfl
  rw [items_cons hnext, items_done]

theorem items_gap (h : isGap c) :
    (Lexer.mk position (c :: rest) [] false).items =
      (Lexer.mk (position.step c) rest [] false).items := by
  apply items_congr
  simp only [next?, List.takeWhile_cons_of_pos h, List.dropWhile_cons_of_pos h, Position.past_cons]

theorem next?_read {first : Located Token} {queue : List (Located Token)} (hgap : ¬isGap c)
    (hread : (ofText c rest).outcome = .ok after)
    (hfound : locate position (ofText c rest).lexemes = first :: queue) :
    (Lexer.mk position (c :: rest) [] false).next? =
      some (.ok first, ⟨position.past (ofText c rest).covered, after, queue, false⟩) := by
  simp [next?, List.takeWhile_cons_of_neg hgap, List.dropWhile_cons_of_neg hgap, hread, hfound]

theorem next?_failed {cause : LexError} (hgap : ¬isGap c)
    (hread : (ofText c rest).outcome = .error cause) :
    (Lexer.mk position (c :: rest) [] false).next? =
      some (.error ⟨.point position, cause⟩, ⟨position.past (ofText c rest).covered, [],
        locate position (ofText c rest).lexemes, true⟩) := by
  simp [next?, List.takeWhile_cons_of_neg hgap, List.dropWhile_cons_of_neg hgap, hread]

theorem items_read (hgap : ¬isGap c) (hread : (ofText c rest).outcome = .ok after) :
    (Lexer.mk position (c :: rest) [] false).items =
      (locate position (ofText c rest).lexemes).map .ok ++
        (Lexer.mk (position.past (ofText c rest).covered) after [] false).items := by
  obtain ⟨text, token, more, hlexemes⟩ := (progress_ofText c rest).spelled after hread
  obtain ⟨first, queue, hfound⟩ : ∃ first queue,
      locate position (ofText c rest).lexemes = first :: queue := by
    rw [hlexemes]
    exact ⟨_, _, rfl⟩
  rw [items_cons (next?_read hgap hread hfound), items_queue, hfound]
  rfl

theorem items_failed {cause : LexError} (hgap : ¬isGap c)
    (hread : (ofText c rest).outcome = .error cause) :
    ∃ later, (Lexer.mk position (c :: rest) [] false).items =
      .error ⟨.point position, cause⟩ :: later :=
  ⟨_, items_cons (next?_failed hgap hread)⟩

end Items

end RayCompiler.Lexer

namespace RayCompiler

open Reading

theorem Takes.not_isGap {lexemes : List Lexeme} {after rest : List Char} {c : Char}
    (h : Takes lexemes after) (htext : covering lexemes ++ after = c :: rest) : ¬isGap c := by
  intro hgap
  have hread := ofText_of_takes h htext
  rw [ofText_of_isGap hgap] at hread
  cases hread

theorem Scans.of_gap {after text : List Char} {position : Position} {c : Char}
    {tokens : List (Located Token)} (h : Scans after position (c :: text) tokens) (hc : isGap c) :
    Scans after (position.step c) text tokens := by
  generalize htext : c :: text = whole at h
  cases h with
  | nil => cases htext
  | gap blank more =>
      cases htext
      exact more
  | @takes lexemes rest _ _ taken more =>
      have hwhole : covering lexemes ++ (rest ++ after) = c :: (text ++ after) := by
        rw [← List.append_assoc, ← htext]
        rfl
      exact absurd hc (taken.not_isGap hwhole)

-- The lexer gives the tokens of the part it has scanned and goes on behind it.
theorem Scans.items {position : Position} {text after : List Char} {tokens : List (Located Token)}
    (h : Scans after position text tokens) :
    (Lexer.mk position (text ++ after) [] false).items =
      tokens.map .ok ++ (Lexer.mk (position.past text) after [] false).items := by
  induction h with
  | nil => rfl
  | gap blank _ ih => rw [List.cons_append, Lexer.items_gap blank, ih, Position.past_cons]
  | @takes lexemes text tokens position taken _ ih =>
      obtain ⟨c, rest, hcons⟩ := taken.exists_cons
      have htext : covering lexemes ++ (text ++ after) = c :: (rest ++ (text ++ after)) := by
        rw [hcons, List.cons_append]
      have hread := ofText_of_takes taken htext
      have hitems := @Lexer.items_read position c _ (text ++ after) (taken.not_isGap htext)
        (by rw [hread])
      rw [hread] at hitems
      rw [List.append_assoc, htext, hitems, Reading.covered, ← covering, ih, List.map_append,
        List.append_assoc, Position.past_append]

-- A text is scanned up to its end or up to where a reading fails. The induction is on the length of
-- the text that is left.
theorem exists_scans (position : Position) (text : List Char) :
    ∃ front rest tokens, text = front ++ rest ∧ Scans rest position front tokens ∧
      ∀ c more, rest = c :: more →
        ¬isGap c ∧ ∃ cause, (ofText c more).outcome = .error cause := by
  induction hn : text.length using Nat.strongRecOn generalizing position text with
  | ind n ih =>
      subst hn
      cases text with
      | nil => exact ⟨[], [], [], rfl, .nil, by simp⟩
      | cons c rest =>
          by_cases hgap : isGap c
          · obtain ⟨front, rest, tokens, rfl, hscans, hrest⟩ :=
              ih rest.length (by simp) (position.step c) rest rfl
            exact ⟨c :: front, rest, tokens, rfl, .gap hgap hscans, hrest⟩
          cases hread : (ofText c rest).outcome with
          | error cause =>
              refine ⟨[], c :: rest, [], rfl, .nil, ?_⟩
              rintro _ _ ⟨⟩
              exact ⟨hgap, cause, hread⟩
          | ok after =>
              obtain ⟨front, rest', tokens, rfl, hscans, hrest⟩ := ih after.length
                (Reading.length_after_lt hread) (position.past (ofText c rest).covered) after rfl
              refine ⟨(ofText c rest).covered ++ front, rest', _, ?_,
                .takes (taken_ofText c rest _ hread) hscans, hrest⟩
              rw [List.append_assoc, ofText_append hread]

-- What the lexer gives behind the part it has scanned: the end of input, or an error.
inductive Stops (position : Position) : List Char →
    List (Except (Located LexError) (Located Token)) → Prop where
  | ended : Stops position [] [.ok (endAt position)]
  | failed (spoils : Spoils cause rest) :
      Stops position rest (.error ⟨.point position, cause⟩ :: later)

theorem exists_stops (position : Position) (text : List Char) :
    ∃ front rest tokens items, text = front ++ rest ∧ Scans rest position front tokens ∧
      (Lexer.mk position text [] false).items = tokens.map .ok ++ items ∧
      Stops (position.past front) rest items := by
  obtain ⟨front, rest, tokens, rfl, hscans, hrest⟩ := exists_scans position text
  refine ⟨front, rest, tokens, _, rfl, hscans, hscans.items, ?_⟩
  cases rest with
  | nil =>
      rw [Lexer.items_end]
      exact .ended
  | cons c more =>
      obtain ⟨hgap, cause, hread⟩ := hrest c more rfl
      obtain ⟨later, hitems⟩ := @Lexer.items_failed (position.past front) _ _ _ hgap hread
      rw [hitems]
      exact .failed (spoils_ofText hgap hread)

-- A text that is scanned as a whole has the tokens of the scan.
theorem Scans.tokensFrom_eq {position : Position} {text : List Char}
    {tokens : List (Located Token)} (h : Scans [] position text tokens) :
    tokensFrom position text = .ok (tokens ++ [endAt (position.past text)]) := by
  have hitems := h.items
  rw [List.append_nil, Lexer.items_end] at hitems
  rw [← Lexer.mapM_items, hitems, Lexer.mapM_ok_append]
  rfl

theorem scans_of_tokensFrom {position : Position} {text : List Char}
    {tokens : List (Located Token)} (h : tokensFrom position text = .ok tokens) :
    ∃ found, Scans [] position text found ∧ tokens = found ++ [endAt (position.past text)] := by
  obtain ⟨front, rest, found, items, rfl, hscans, hitems, hstops⟩ := exists_stops position text
  rw [← Lexer.mapM_items, hitems, Lexer.mapM_ok_append] at h
  cases hstops with
  | ended =>
      cases h
      rw [List.append_nil]
      exact ⟨found, hscans, rfl⟩
  | failed => cases h

-- The first part of a text has the same tokens when nothing follows.
theorem Scans.truncate {position : Position} {text after : List Char}
    {tokens : List (Located Token)} (h : Scans after position text tokens) :
    Scans [] position text tokens := by
  induction h with
  | nil => exact .nil
  | gap blank _ ih => exact .gap blank ih
  | takes taken _ ih =>
      refine .takes ?_ ih
      rw [List.append_nil]
      exact taken.truncate

-- An error cuts a text cleanly: what stands before its place has just the tokens that came before
-- it, with the end of input at that place, and the rest shows what the error is about.
structure Source.Cut (source : Source) (tokens : List (Located Token)) (error : Located LexError)
    (front rest : List Char) : Prop where
  text : source.text.toList = front ++ rest
  offset : error.span.start.offset = (String.ofList front).utf8ByteSize
  tokens : tokenize ⟨source.name, String.ofList front⟩ = .ok (tokens ++ [endAt error.span.start])
  spoils : Spoils error.value rest

theorem eq_of_map_ok_append {tokens found : List (Located Token)} {error other : Located LexError}
    {later more : List (Except (Located LexError) (Located Token))}
    (h : tokens.map .ok ++ .error error :: later = found.map .ok ++ .error other :: more) :
    tokens = found ∧ error = other := by
  induction tokens generalizing found with
  | nil =>
      cases found with
      | nil =>
          cases h
          exact ⟨rfl, rfl⟩
      | cons first found => cases h
  | cons token tokens ih =>
      cases found with
      | nil => cases h
      | cons first found =>
          obtain ⟨hfirst, hmore⟩ := List.cons.inj h
          obtain ⟨rfl, rfl⟩ := ih hmore
          cases hfirst
          exact ⟨rfl, rfl⟩

theorem exists_cut_of_error {source : Source} {tokens : List (Located Token)}
    {error : Located LexError} {later : List (Except (Located LexError) (Located Token))}
    (h : (Lexer.ofSource source).items = tokens.map .ok ++ .error error :: later) :
    ∃ front rest, source.Cut tokens error front rest := by
  obtain ⟨front, rest, found, items, htext, hscans, hitems, hstops⟩ :=
    exists_stops .start source.text.toList
  have hsame := h.symm.trans hitems
  cases hstops with
  | ended =>
      have hm : .error error ∈ tokens.map .ok ++ .error error :: later := by simp
      rw [hsame] at hm
      simp at hm
  | failed spoils =>
      obtain ⟨rfl, rfl⟩ := eq_of_map_ok_append hsame
      refine ⟨front, rest, htext, ?_, ?_, spoils⟩
      · rw [Position.past_start]
        rfl
      · rw [tokenize, String.toList_ofList, hscans.truncate.tokensFrom_eq]
        rfl

-- A comment that is never closed, right behind a sign that might have been longer.
def abandonedSource : Source where
  name := "abandoned.ray"
  text := "//é\nx=/*/\n*"

def abandonedTokens : List (Located Token) :=
  [⟨⟨⟨0, 1, 1⟩, ⟨2, 1, 3⟩⟩, .comment⟩, ⟨⟨⟨2, 1, 3⟩, ⟨4, 1, 4⟩⟩, .text "é" false⟩,
    ⟨⟨⟨4, 1, 4⟩, ⟨5, 2, 1⟩⟩, .lineEnd⟩, ⟨⟨⟨5, 2, 1⟩, ⟨6, 2, 2⟩⟩, .name "x"⟩,
    ⟨⟨⟨6, 2, 2⟩, ⟨7, 2, 3⟩⟩, .symbol .assign⟩]

theorem cut_abandonedSource : ∃ later,
    (Lexer.ofSource abandonedSource).items =
      abandonedTokens.map .ok ++ .error ⟨.point ⟨7, 2, 3⟩, .unterminatedComment⟩ :: later ∧
    ∃ front rest, abandonedSource.Cut abandonedTokens ⟨.point ⟨7, 2, 3⟩, .unterminatedComment⟩
      front rest := by
  have hitems : (Lexer.ofSource abandonedSource).items =
      abandonedTokens.map .ok ++ .error ⟨.point ⟨7, 2, 3⟩, .unterminatedComment⟩ ::
        [⟨⟨⟨7, 2, 3⟩, ⟨9, 2, 5⟩⟩, .openComment .block⟩, ⟨⟨⟨9, 2, 5⟩, ⟨10, 2, 6⟩⟩, .text "/" true⟩,
          ⟨⟨⟨10, 2, 6⟩, ⟨11, 3, 1⟩⟩, .lineEnd⟩].map .ok := by
    decide +kernel
  exact ⟨_, hitems, exists_cut_of_error hitems⟩

end RayCompiler
