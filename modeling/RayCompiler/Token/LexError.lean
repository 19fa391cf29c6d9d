import RayCompiler.Text.Quoted

namespace RayCompiler

-- Why a text cannot be split into tokens.
inductive LexError where
  | badCharacter (c : Char)
  | integerOverflow
  | unterminatedString
  | unterminatedComment
deriving DecidableEq

-- The largest integer a literal may denote.
def greatestInteger : Nat := 0x7fffffffffffffff

def LexError.message : LexError → String
  | .badCharacter c => "Bad character " ++ Text.quoteChar c ++ " in input stream"
  | .integerOverflow =>
    "Integer literal overflow, valid range is [0, " ++ toString greatestInteger ++ "]"
  | .unterminatedString => "Unterminated string literal"
  | .unterminatedComment => "Unterminated block comment"

end RayCompiler
