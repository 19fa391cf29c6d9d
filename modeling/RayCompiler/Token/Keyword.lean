namespace RayCompiler

inductive Keyword where
  | func
  | var
  | ret
  | external
  | exit
  | imports
deriving DecidableEq

namespace Keyword

def all : List Keyword := [func, var, ret, external, exit, imports]

def word : Keyword → String
  | func => "func"
  | var => "var"
  | ret => "return"
  | external => "extern"
  | exit => "exit"
  | imports => "import"

-- The keyword that a word spells. Case matters.
def ofWord? (word : String) : Option Keyword := all.find? (·.word == word)

theorem ofWord?_word (keyword : Keyword) : ofWord? keyword.word = some keyword := by
  cases keyword <;> decide

theorem ofWord?_eq_some_iff {word : String} {keyword : Keyword} :
    ofWord? word = some keyword ↔ keyword.word = word := by
  constructor
  · intro h
    simpa using List.find?_some h
  · rintro rfl
    exact ofWord?_word keyword

end Keyword

end RayCompiler
