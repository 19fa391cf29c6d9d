import RayCompiler.Dump.Layout
import RayCompiler.Source.Basic
import RayCompiler.Source.Span
import RayCompiler.Token.Basic

namespace RayCompiler.Dump

-- A source on one line, without its text.
def source (source : Source) : String :=
  "Source \x7b name: " ++ Text.quoteText source.name ++ " \x7d"

def keyword : Keyword → String
  | .func => "Func"
  | .var => "Var"
  | .ret => "Return"
  | .external => "Extern"
  | .exit => "Exit"
  | .imports => "Import"

def symbol : Symbol → String
  | .plus => "Plus"
  | .minus => "Minus"
  | .times => "Times"
  | .slash => "Slash"
  | .assign => "Assign"
  | .equal => "Equal"
  | .arrow => "Arrow"
  | .ampersand => "Ampersand"
  | .openParen => "OpenParen"
  | .closeParen => "CloseParen"
  | .openCurly => "OpenCurly"
  | .closeCurly => "CloseCurly"
  | .semicolon => "Semicolon"
  | .comma => "Comma"
  | .colon => "Colon"
  | .question => "Question"

def commentStyle : CommentStyle → String
  | .block => "Block"
  | .doc => "Doc"

def token : Token → String
  | .name word => tuple "Id" [identifier word]
  | .keyword word => tuple "Keyword" [keyword word]
  | .number value => tuple "Number" [toString value.toInt]
  | .string contents => tuple "Str" [Text.quoteText contents]
  | .text contents block =>
    record "Text" [("text", Text.quoteText contents), ("multi_line", toString block)]
  | .comment => "Comment"
  | .openComment style => tuple "OpenComment" [commentStyle style]
  | .lineEnd => "LineEnd"
  | .endOfInput => "Eof"
  | .symbol sign => symbol sign

-- The tokens of the source with the given name, each with its place.
def tokens (name : String) (tokens : List (Located Token)) : String :=
  list (tokens.map fun found =>
    record "Located" [("location", found.span.render name), ("value", token found.value)])

end RayCompiler.Dump
