import RayCompiler.Program.Parser.Function

namespace RayCompiler

namespace Parse

-- The statements of a program: extern declarations and functions, up to the end of input.
def items (nested : Parse Function) : Nat → Parse (List Statement)
  | 0 => fail .unending
  | rounds + 1 => do
    skipTrivia
    let position := (← current).span.start
    match ← peek with
    | .endOfInput => return []
    | .keyword .external =>
      let first := Statement.externs position (← externList)
      return first :: (← items nested rounds)
    | .keyword .func =>
      let first := Statement.ofFunction position (← nested)
      return first :: (← items nested rounds)
    | found => fail (.expectedItem found)

end Parse

-- The program that a token list forms, or the first error. A program of n tokens has at most n
-- functions inside one another and at most n statements one after another.
def parse (tokens : List (Located Token)) : Except (Located ParseError) Program :=
  match tokens.getLast? with
  | none => .ok .empty
  | some last => do
    let size := tokens.length + 1
    let context : Parse.Context := ⟨last, .ofTokens (tokens.map (·.value))⟩
    let (statements, state) ← Parse.items (Parse.function size) size context ⟨tokens, [], []⟩
    return ⟨statements, state.data⟩

end RayCompiler
