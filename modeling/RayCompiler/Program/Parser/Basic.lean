import RayCompiler.Program.Parser.KnownNames
import RayCompiler.Program.Parser.ParseError
import RayCompiler.Source.Span

namespace RayCompiler

namespace Parse

-- What stays the same during a parse: the last token of the list, which stands for everything
-- after the list, and the names the program introduces.
structure Context where
  last : Located Token
  known : KnownNames

-- The tokens still to read, the functions defined so far and the bytes of the strings so far.
structure State where
  rest : List (Located Token)
  defined : List String
  data : List UInt8

end Parse

abbrev Parse := ReaderT Parse.Context (StateT Parse.State (Except (Located ParseError)))

namespace Parse

variable {α : Type}

def current : Parse (Located Token) := do
  return (← get).rest.headD (← read).last

def peek : Parse Token := do
  return (← current).value

-- The token after the current one.
def peekSecond : Parse Token := do
  return ((← get).rest.getD 1 (← read).last).value

def advance : Parse (Located Token) := do
  let token ← current
  modify fun state => { state with rest := state.rest.tail }
  return token

def failAt (span : Span) (cause : ParseError) : Parse α :=
  throw ⟨span, cause⟩

def fail (cause : ParseError) : Parse α := do
  failAt (← current).span cause

-- The number of tokens left. A loop that reads a token in each round needs no more rounds.
def remaining : Parse Nat := do
  return (← get).rest.length

-- Reads the given token if it comes next.
def accept (token : Token) : Parse Bool := do
  if (← peek) = token then
    let _ ← advance
    return true
  else
    return false

def expect (token : Token) : Parse Unit := do
  if !(← accept token) then
    fail (.unexpected (.token token) (← peek))

def identifier : Parse (Located String) := do
  match ← peek with
  | .name name =>
    let token ← advance
    return ⟨token.span, name⟩
  | found => fail (.unexpected .identifier found)

-- Tokens that may stand between two statements.
def isTrivia : Token → Bool
  | .lineEnd => true
  | .comment => true
  | .openComment _ => true
  | .text _ _ => true
  | .symbol .semicolon => true
  | _ => false

def skipTrivia : Parse Unit := do
  let rest := (← get).rest.dropWhile (isTrivia ·.value)
  if rest.isEmpty && isTrivia (← read).last.value then
    failAt (← read).last.span .unending
  else
    modify fun state => { state with rest := rest }

-- Tokens before which a statement is over.
def isTerminator : Token → Bool
  | .lineEnd => true
  | .comment => true
  | .openComment _ => true
  | .symbol .semicolon => true
  | .symbol .closeCurly => true
  | .endOfInput => true
  | _ => false

-- Checks, without reading on, that the statement ends here.
def endOfStatement (construct : Construct) : Parse Unit := do
  let found ← peek
  if !isTerminator found then
    fail (.missingTerminator construct found)

def moreItems (item : Parse α) : Nat → Parse (List α)
  | 0 => fail .unending
  | rounds + 1 => do
    if ← accept (.symbol .comma) then
      let first ← item
      let others ← moreItems item rounds
      return first :: others
    else
      return []

-- One or more items with commas between them.
def commaList (item : Parse α) : Parse (List α) := do
  let first ← item
  let others ← moreItems item ((← remaining) + 1)
  return first :: others

-- A comma list in parentheses, which may be empty.
def parenthesized (item : Parse α) : Parse (List α) := do
  expect (.symbol .openParen)
  if ← accept (.symbol .closeParen) then
    return []
  else
    let items ← commaList item
    expect (.symbol .closeParen)
    return items

end Parse

end RayCompiler
