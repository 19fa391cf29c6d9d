import RayCompiler.Text.Quoted
import RayCompiler.Token.Keyword
import RayCompiler.Token.Symbol

namespace RayCompiler

-- How a block comment opens: with two characters, or with a second star for documentation.
inductive CommentStyle where
  | block
  | doc
deriving DecidableEq

-- Line ends and comments are tokens too, because they end statements and short function bodies.
inductive Token where
  | name (text : String)
  | keyword (keyword : Keyword)
  | number (value : Int64)
  | string (contents : String)
  | text (contents : String) (block : Bool)
  | comment
  | openComment (style : CommentStyle)
  | lineEnd
  | endOfInput
  | symbol (symbol : Symbol)
deriving DecidableEq

namespace Token

def ticked (word : String) : String := "`" ++ word ++ "`"

-- The token as error messages name it.
def describe : Token → String
  | .name word => "identifier " ++ ticked word
  | .keyword reserved => "keyword " ++ ticked reserved.word
  | .number value => "literal " ++ ticked (toString value.toInt)
  | .string contents => "string " ++ Text.quoteText contents
  | .text _ _ => "comment text"
  | .comment => ticked "//"
  | .openComment .block => ticked "/*"
  | .openComment .doc => ticked "/**"
  | .lineEnd => "end of line"
  | .endOfInput => "end of input"
  | .symbol sign => ticked (String.ofList sign.spelling)

end Token

end RayCompiler
