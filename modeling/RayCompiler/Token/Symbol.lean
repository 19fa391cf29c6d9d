namespace RayCompiler

inductive Symbol where
  | plus
  | minus
  | times
  | slash
  | assign
  | equal
  | arrow
  | ampersand
  | openParen
  | closeParen
  | openCurly
  | closeCurly
  | semicolon
  | comma
  | colon
  | question
deriving DecidableEq

namespace Symbol

def spelling : Symbol → List Char
  | plus => ['+']
  | minus => ['-']
  | times => ['*']
  | slash => ['/']
  | assign => ['=']
  | equal => ['=', '=']
  | arrow => ['=', '>']
  | ampersand => ['&']
  | openParen => ['(']
  | closeParen => [')']
  | openCurly => ['\x7b']
  | closeCurly => ['\x7d']
  | semicolon => [';']
  | comma => [',']
  | colon => [':']
  | question => ['?']

-- The symbols that no other lexeme begins with.
def alone : List Symbol :=
  [plus, minus, times, ampersand, openParen, closeParen, openCurly, closeCurly, semicolon, comma,
    colon, question]

-- The symbol that a character is by itself, whatever follows it.
def ofChar? (c : Char) : Option Symbol := alone.find? (·.spelling == [c])

theorem spelling_of_ofChar? {c : Char} {symbol : Symbol} (h : ofChar? c = some symbol) :
    symbol.spelling = [c] := by
  simpa using List.find?_some h

end Symbol

end RayCompiler
