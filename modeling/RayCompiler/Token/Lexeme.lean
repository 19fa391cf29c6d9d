import RayCompiler.Text.Lines
import RayCompiler.Token.Basic
import RayCompiler.Token.Integer
import RayCompiler.Token.LexError

namespace RayCompiler

-- A stretch of text and the token it spells. The end of a block comment may spell none.
structure Lexeme where
  text : List Char
  token : Option Token

-- What is read off the front of a text in one step: the lexemes, and then either the text after
-- them or the reason why reading stops. A comment gives several lexemes.
structure Reading where
  lexemes : List Lexeme
  outcome : Except LexError (List Char)

namespace Reading

def one (text : List Char) (token : Token) (rest : List Char) : Reading :=
  ⟨[⟨text, some token⟩], .ok rest⟩

def failed (cause : LexError) : Reading := ⟨[], .error cause⟩

def isWordChar (c : Char) : Bool := c.isAlphanum || c == '_'

def wordToken (word : String) : Token :=
  match Keyword.ofWord? word with
  | some keyword => .keyword keyword
  | none => .name word

def ofWord (text : List Char) : Reading :=
  one (text.takeWhile isWordChar) (wordToken (String.ofList (text.takeWhile isWordChar)))
    (text.dropWhile isWordChar)

def ofNumber (text : List Char) : Reading :=
  let digits := text.takeWhile Char.isDigit
  match Integer.ofDigits? digits with
  | some value => one digits (.number value) (text.dropWhile Char.isDigit)
  | none => failed .integerOverflow

def quote : Char := '\x22'

-- Reads a string literal, given the text after its opening quote. Nothing is escaped inside.
def ofString (text : List Char) : Reading :=
  let contents := text.takeWhile (· != quote)
  match text.dropWhile (· != quote) with
  | [] => failed .unterminatedString
  | closing :: rest =>
    one (quote :: contents ++ [closing]) (.string (String.ofList contents)) rest

-- Reads the symbols that begin with an equals sign, given the text after it.
def ofEquals : List Char → Reading
  | '=' :: rest => one ['=', '='] (.symbol .equal) rest
  | '>' :: rest => one ['=', '>'] (.symbol .arrow) rest
  | rest => one ['='] (.symbol .assign) rest

-- The text of a comment on one line spells a token unless it is empty.
def commentText (text : List Char) (block : Bool) : Option Token :=
  if text.isEmpty then none else some (.text (String.ofList text) block)

def commentLexeme (text : List Char) (block : Bool) : List Lexeme :=
  if text.isEmpty then [] else [⟨text, commentText text block⟩]

def ofLineComment (text : List Char) : Reading :=
  let contents := text.takeWhile (· != '\n')
  ⟨⟨['/', '/'], some .comment⟩ :: commentLexeme contents false, .ok (text.dropWhile (· != '\n'))⟩

-- The style of a block comment and its text, given what follows its first two characters.
-- The star of a closer does not count as a second star.
def openBlock : List Char → CommentStyle × List Char
  | '*' :: '/' :: rest => (.block, '*' :: '/' :: rest)
  | '*' :: rest => (.doc, rest)
  | rest => (.block, rest)

def opening : CommentStyle → Lexeme
  | .block => ⟨['/', '*'], some (.openComment .block)⟩
  | .doc => ⟨['/', '*', '*'], some (.openComment .doc)⟩

-- The text before the first closer and the text after it.
def splitClose? : List Char → Option (List Char × List Char)
  | [] => none
  | '*' :: '/' :: rest => some ([], rest)
  | c :: rest => (splitClose? rest).map fun (inside, after) => (c :: inside, after)

-- The lexemes of a block comment, line by line. The closer joins the text of the last line.
def closedLines : List (List Char) → List Lexeme
  | [] => []
  | [last] => [⟨last ++ ['*', '/'], commentText last true⟩]
  | line :: next :: more =>
    commentLexeme line true ++ ⟨['\n'], some .lineEnd⟩ :: closedLines (next :: more)

-- The lexemes of a block comment that is never closed: those of its complete lines.
def openLines : List (List Char) → List Lexeme
  | [] => []
  | [_] => []
  | line :: next :: more =>
    commentLexeme line true ++ ⟨['\n'], some .lineEnd⟩ :: openLines (next :: more)

def ofBlockComment (text : List Char) : Reading :=
  let (style, body) := openBlock text
  match splitClose? body with
  | some (inside, rest) => ⟨opening style :: closedLines (Text.lines inside), .ok rest⟩
  | none => ⟨opening style :: openLines (Text.lines body), .error .unterminatedComment⟩

-- Reads what begins with a slash, given the text after it.
def ofSlash : List Char → Reading
  | '/' :: rest => ofLineComment rest
  | '*' :: rest => ofBlockComment rest
  | rest => one ['/'] (.symbol .slash) rest

-- Reads the lexemes at the front of a text that begins with the character `c` and is not blank there.
def ofText (c : Char) (rest : List Char) : Reading :=
  if c = '\n' then one [c] .lineEnd rest
  else if c = '/' then ofSlash rest
  else if c = quote then ofString rest
  else if c = '=' then ofEquals rest
  else match Symbol.ofChar? c with
    | some symbol => one [c] (.symbol symbol) rest
    | none =>
      if c.isAlpha then ofWord (c :: rest)
      else if c.isDigit then ofNumber (c :: rest)
      else failed (.badCharacter c)

-- The text that the lexemes cover.
def covered (reading : Reading) : List Char := reading.lexemes.flatMap (·.text)

end Reading

end RayCompiler
