import RayCompiler.Text.ExtendingMark
import RayCompiler.Text.Unprintable

namespace RayCompiler.Text

-- How a character is written between two marks. The mark itself and the backslash get a backslash,
-- four controls have a letter, and what would not show clearly is given by its number.
def escape (mark c : Char) : String :=
  if c = '\x00' then "\\0"
  else if c = '\t' then "\\t"
  else if c = '\r' then "\\r"
  else if c = '\n' then "\\n"
  else if c = '\\' then "\\\\"
  else if c = mark then String.ofList ['\\', c]
  else if isExtendingMark c || isUnprintable c then "\\u\x7b" ++ hex c.toNat ++ "\x7d"
  else String.singleton c

-- A text between double quotes.
def quoteText (text : String) : String :=
  "\"" ++ String.join (text.toList.map (escape '\x22')) ++ "\""

-- A character between single quotes.
def quoteChar (c : Char) : String := "'" ++ escape '\x27' c ++ "'"

end RayCompiler.Text
