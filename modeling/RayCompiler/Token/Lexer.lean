import RayCompiler.Source.Basic
import RayCompiler.Text.Basic
import RayCompiler.Token.Progress

namespace RayCompiler

-- Characters that only keep tokens apart.
def isGap (c : Char) : Bool := Text.isBlank c && c != '\n'

-- The tokens that lexemes spell, where the first lexeme begins at the given place.
def locate (position : Position) : List Lexeme → List (Located Token)
  | [] => []
  | lexeme :: more =>
    let stop := position.past lexeme.text
    match lexeme.token with
    | some token => ⟨⟨position, stop⟩, token⟩ :: locate stop more
    | none => locate stop more

def endAt (position : Position) : Located Token := ⟨.point position, .endOfInput⟩

theorem length_locate_le (position : Position) (lexemes : List Lexeme) :
    (locate position lexemes).length ≤ lexemes.length := by
  induction lexemes generalizing position with
  | nil => simp [locate]
  | cons lexeme more ih =>
      have h := ih (position.past lexeme.text)
      unfold locate
      dsimp only
      split <;> simp only [List.length_cons] <;> omega

theorem length_body_le {text rest : List Char} {c : Char}
    (hbody : text.dropWhile isGap = c :: rest) : (c :: rest).length ≤ text.length := by
  rw [← hbody]
  exact (List.dropWhile_sublist isGap).length_le

theorem length_after_lt {text rest after : List Char} {c : Char}
    (hbody : text.dropWhile isGap = c :: rest) (hread : (Reading.ofText c rest).outcome = .ok after) :
    after.length < text.length :=
  Nat.lt_of_lt_of_le (Reading.length_after_lt hread) (length_body_le hbody)

-- The tokens of a text that begins at the given place, with the end of input as the last one,
-- or the first error. An error lies where the lexeme it spoils begins.
def tokensFrom (position : Position) (text : List Char) :
    Except (Located LexError) (List (Located Token)) :=
  let start := position.past (text.takeWhile isGap)
  match hbody : text.dropWhile isGap with
  | [] => .ok [endAt start]
  | c :: rest =>
    let reading := Reading.ofText c rest
    match hread : reading.outcome with
    | .error cause => .error ⟨.point start, cause⟩
    | .ok after =>
      have := length_after_lt hbody hread
      do
        let more ← tokensFrom (start.past reading.covered) after
        return locate start reading.lexemes ++ more
termination_by text.length

def tokenize (source : Source) : Except (Located LexError) (List (Located Token)) :=
  tokensFrom .start source.text.toList

-- A lexer gives its items one at a time. A comment is read whole, so its tokens wait in a queue.
structure Lexer where
  position : Position
  rest : List Char
  queue : List (Located Token)
  done : Bool

namespace Lexer

def ofSource (source : Source) : Lexer := ⟨.start, source.text.toList, [], false⟩

-- The next item and the lexer after it. An error comes before the tokens that were read with it;
-- those stay in the queue.
def next? (lexer : Lexer) : Option (Except (Located LexError) (Located Token) × Lexer) :=
  match lexer.queue with
  | token :: queue => some (.ok token, { lexer with queue := queue })
  | [] =>
    if lexer.done then none
    else
      let start := lexer.position.past (lexer.rest.takeWhile isGap)
      match lexer.rest.dropWhile isGap with
      | [] => some (.ok (endAt start), ⟨start, [], [], true⟩)
      | c :: rest =>
        let reading := Reading.ofText c rest
        let stop := start.past reading.covered
        match reading.outcome, locate start reading.lexemes with
        | .error cause, found => some (.error ⟨.point start, cause⟩, ⟨stop, [], found, true⟩)
        | .ok _, [] => none
        | .ok after, token :: queue => some (.ok token, ⟨stop, after, queue, false⟩)

-- The lexer after so many items. At its end it stays as it is.
def afterItems : Nat → Lexer → Lexer
  | 0, lexer => lexer
  | count + 1, lexer =>
    match lexer.next? with
    | some (_, later) => afterItems count later
    | none => lexer

-- A bound on the items a lexer still has: the waiting tokens, and one for each character to read
-- and the end of input.
def size (lexer : Lexer) : Nat :=
  lexer.queue.length + if lexer.done then 0 else lexer.rest.length + 1

theorem size_lt {lexer later : Lexer} {item : Except (Located LexError) (Located Token)}
    (h : lexer.next? = some (item, later)) : later.size < lexer.size := by
  unfold next? at h
  split at h
  · next token queue hq =>
      cases h
      simp only [size, hq, List.length_cons]
      omega
  split at h
  · cases h
  next hq hd =>
  have hsize : lexer.size = lexer.rest.length + 1 := by simp [size, hq, hd]
  rw [hsize]
  dsimp only at h
  split at h
  · cases h
    simp [size]
  next c rest hbody =>
  have hle := length_body_le hbody
  have hfound := length_locate_le (lexer.position.past (lexer.rest.takeWhile isGap))
    (Reading.ofText c rest).lexemes
  split at h
  · cases h
    have hlex := Reading.length_lexemes_le c rest
    simp only [size, ite_true]
    omega
  · cases h
  · next after token queue hread hl =>
      cases h
      have hlex := Reading.length_lexemes_add_le hread
      rw [hl, List.length_cons] at hfound
      simp only [size, Bool.false_eq_true, ite_false]
      omega

-- Everything a lexer gives, to its end.
def items (lexer : Lexer) : List (Except (Located LexError) (Located Token)) :=
  match h : lexer.next? with
  | none => []
  | some (item, later) =>
    have := size_lt h
    item :: later.items
termination_by lexer.size

end Lexer

end RayCompiler
