import RayCompiler.Program.Parser
import RayCompiler.Proofs.Slot.Growth

namespace RayCompiler.Grammar

-- A place in a token list: the tokens from there on, and the bytes of the strings before it.
structure Cursor where
  rest : List (Located Token)
  data : List UInt8

inductive Trivia : Token → Prop where
  | lineEnd : Trivia .lineEnd
  | comment : Trivia .comment
  | openComment (style : CommentStyle) : Trivia (.openComment style)
  | text (contents : String) (block : Bool) : Trivia (.text contents block)
  | semicolon : Trivia (.symbol .semicolon)

-- Tokens that end a line, begin a comment or end the program.
inductive LineStop : Token → Prop where
  | lineEnd : LineStop .lineEnd
  | comment : LineStop .comment
  | openComment (style : CommentStyle) : LineStop (.openComment style)
  | endOfInput : LineStop .endOfInput

inductive Terminator : Token → Prop where
  | line (stop : LineStop token) : Terminator token
  | semicolon : Terminator (.symbol .semicolon)
  | closeCurly : Terminator (.symbol .closeCurly)

-- A statement may end here: the next token, which is not read, is a terminator.
def Cursor.Ends (here : Cursor) : Prop :=
  ∃ token, here.rest.head? = some token ∧ Terminator token.value

inductive NameAt : Cursor → Located String → Cursor → Prop where
  | name : NameAt ⟨⟨span, .name text⟩ :: rest, data⟩ ⟨span, text⟩ ⟨rest, data⟩

section Lists

variable {α : Type} (item : Cursor → α → Cursor → Prop)

-- One or more items with commas between them.
inductive ListAt : Cursor → List α → Cursor → Prop where
  | one (head : item here first after) : ListAt here [first] after
  | more (head : item here first ⟨⟨span, .symbol .comma⟩ :: rest, data⟩)
      (tail : ListAt ⟨rest, data⟩ others after) : ListAt here (first :: others) after

-- A list in parentheses, which may be empty.
inductive EnclosedAt : Cursor → List α → Cursor → Prop where
  | empty :
      EnclosedAt ⟨⟨opening, .symbol .openParen⟩ :: ⟨closing, .symbol .closeParen⟩ :: rest, data⟩ []
        ⟨rest, data⟩
  | list (inside : ListAt item ⟨rest, data⟩ items ⟨⟨closing, .symbol .closeParen⟩ :: after, later⟩) :
      EnclosedAt ⟨⟨opening, .symbol .openParen⟩ :: rest, data⟩ items ⟨after, later⟩

end Lists

section Operands

variable (known : KnownNames) (slots : SlotTable)

-- A name means a variable of the function if it is one, then an extern, then a function. A string
-- is added to the data, so its offset comes from the number of bytes before it.
inductive OperandAt : Cursor → Operand → Cursor → Prop where
  | literal : OperandAt ⟨⟨span, .number value⟩ :: rest, data⟩ (.literal value) ⟨rest, data⟩
  | string :
      OperandAt ⟨⟨span, .string contents⟩ :: rest, data⟩ (.data (Parse.dataOffset data))
        ⟨rest, data ++ contents.toUTF8.data.toList ++ [0]⟩
  | variable (found : slots.resolve? name = some slot) :
      OperandAt ⟨⟨span, .name name⟩ :: rest, data⟩ (.variable slot) ⟨rest, data⟩
  | external (missing : slots.resolve? name = none) (imported : name ∈ known.externs) :
      OperandAt ⟨⟨span, .name name⟩ :: rest, data⟩ (.external name) ⟨rest, data⟩
  | function (missing : slots.resolve? name = none) (other : name ∉ known.externs)
      (function : name ∈ known.functions) :
      OperandAt ⟨⟨span, .name name⟩ :: rest, data⟩ (.symbolAddress name) ⟨rest, data⟩
  | pointee (found : slots.resolve? name = some slot) :
      OperandAt ⟨⟨sign, .symbol .times⟩ :: ⟨span, .name name⟩ :: rest, data⟩ (.pointee slot)
        ⟨rest, data⟩
  | address (found : slots.resolve? name = some slot) :
      OperandAt ⟨⟨sign, .symbol .ampersand⟩ :: ⟨span, .name name⟩ :: rest, data⟩ (.address slot)
        ⟨rest, data⟩
  | symbolAddress (missing : slots.resolve? name = none)
      (symbol : name ∈ known.functions ∨ name ∈ known.externs) :
      OperandAt ⟨⟨sign, .symbol .ampersand⟩ :: ⟨span, .name name⟩ :: rest, data⟩
        (.symbolAddress name) ⟨rest, data⟩

-- One operand in parentheses, or none.
inductive OptionalAt : Cursor → Operand → Cursor → Prop where
  | absent :
      OptionalAt ⟨⟨opening, .symbol .openParen⟩ :: ⟨closing, .symbol .closeParen⟩ :: rest, data⟩
        .absent ⟨rest, data⟩
  | given (inside : OperandAt known slots ⟨rest, data⟩ value
        ⟨⟨closing, .symbol .closeParen⟩ :: after, later⟩) :
      OptionalAt ⟨⟨opening, .symbol .openParen⟩ :: rest, data⟩ value ⟨after, later⟩

-- The name of a call is a function, an extern or a variable.
inductive CallAt : Cursor → Call → Cursor → Prop where
  | call (callable : name ∈ known.functions ∨ name ∈ known.externs ∨ (slots.resolve? name).isSome)
      (inside : EnclosedAt (OperandAt known slots) ⟨rest, data⟩ operands after)
      (ends : after.Ends) :
      CallAt ⟨⟨span, .name name⟩ :: rest, data⟩ ⟨name, operands⟩ after

end Operands

-- A statement of a function that is no declaration of a function or extern, with the slots before
-- and after it. A variable is declared after its value is read, and each call takes a slot.
inductive ActionAt (known : KnownNames) (slots : SlotTable) :
    Cursor → Action → SlotTable → Cursor → Prop where
  | ret (inside : OptionalAt known slots ⟨rest, data⟩ value after) (ends : after.Ends) :
      ActionAt known slots ⟨⟨span, .keyword .ret⟩ :: rest, data⟩ (.ret value) slots after
  | exit (inside : OptionalAt known slots ⟨rest, data⟩ value after) (ends : after.Ends) :
      ActionAt known slots ⟨⟨span, .keyword .exit⟩ :: rest, data⟩ (.exit value) slots after
  | declare (list : ListAt NameAt ⟨rest, data⟩ names after) (ends : after.Ends)
      (distinct : (names.map (·.value)).Nodup)
      (fresh : ∀ name ∈ names, slots.resolve? name.value = none) :
      ActionAt known slots ⟨⟨span, .keyword .var⟩ :: rest, data⟩
        (.declare (names.map (·.value))) (slots.withVariables (names.map (·.value))) after
  | define (right : OperandAt known slots ⟨rest, data⟩ value after) (ends : after.Ends)
      (fresh : slots.resolve? name = none) :
      ActionAt known slots
        ⟨⟨span, .keyword .var⟩ :: ⟨nameSpan, .name name⟩ :: ⟨sign, .symbol .assign⟩ :: rest, data⟩
        (.define name value) (slots.withVariables [name]) after
  | defineCall (right : CallAt known slots ⟨rest, data⟩ call after)
      (fresh : slots.resolve? name = none) :
      ActionAt known slots
        ⟨⟨span, .keyword .var⟩ :: ⟨nameSpan, .name name⟩ :: ⟨sign, .symbol .assign⟩ :: rest, data⟩
        (.callAssign name call) (slots.withVariables [name]).reserve.2 after
  | assign (found : (slots.resolve? name).isSome)
      (right : OperandAt known slots ⟨rest, data⟩ value after) (ends : after.Ends) :
      ActionAt known slots ⟨⟨nameSpan, .name name⟩ :: ⟨sign, .symbol .assign⟩ :: rest, data⟩
        (.assign name value) slots after
  | assignCall (found : (slots.resolve? name).isSome)
      (right : CallAt known slots ⟨rest, data⟩ call after) :
      ActionAt known slots ⟨⟨nameSpan, .name name⟩ :: ⟨sign, .symbol .assign⟩ :: rest, data⟩
        (.callAssign name call) slots.reserve.2 after
  | call (statement : CallAt known slots here call after) :
      ActionAt known slots here (.call call) slots.reserve.2 after

-- Where statements stand one after another: in the whole program, between the braces of a
-- function, or behind its arrow.
inductive Place where
  | module
  | block (function : String)
  | arrow (function : String)

namespace Place

def function? : Place → Option String
  | .module => none
  | .block function => some function
  | .arrow function => some function

inductive Opens : Place → Token → Prop where
  | block : Opens (.block function) (.symbol .openCurly)
  | arrow : Opens (.arrow function) (.symbol .arrow)

inductive Skips : Place → Token → Prop where
  | module (trivia : Trivia token) : Skips .module token
  | block (trivia : Trivia token) : Skips (.block function) token
  | arrow : Skips (.arrow function) (.symbol .semicolon)

-- A brace is read with the block it closes. What ends the program or a short body is left to read.
inductive Stops : Place → Cursor → Cursor → Prop where
  | module : Stops .module ⟨⟨span, .endOfInput⟩ :: rest, data⟩ ⟨⟨span, .endOfInput⟩ :: rest, data⟩
  | block : Stops (.block function) ⟨⟨span, .symbol .closeCurly⟩ :: rest, data⟩ ⟨rest, data⟩
  | arrow (stop : LineStop token) :
      Stops (.arrow function) ⟨⟨span, token⟩ :: rest, data⟩ ⟨⟨span, token⟩ :: rest, data⟩

end Place

-- The statements at a place up to its end, with the slots of its function before and after them.
inductive StatementsAt (known : KnownNames) :
    Place → SlotTable → Cursor → List Statement → SlotTable → Cursor → Prop where
  | stop (stop : place.Stops here after) : StatementsAt known place slots here [] slots after
  | skip (skip : place.Skips token)
      (more : StatementsAt known place slots ⟨rest, data⟩ body later after) :
      StatementsAt known place slots ⟨⟨span, token⟩ :: rest, data⟩ body later after
  | externs (list : ListAt NameAt ⟨rest, data⟩ names middle) (ends : middle.Ends)
      (more : StatementsAt known place slots middle body later after) :
      StatementsAt known place slots ⟨⟨span, .keyword .external⟩ :: rest, data⟩
        (.externs span.start (names.map (·.value)) :: body) later after
  | function
      (list : EnclosedAt NameAt ⟨rest, data⟩ parameters ⟨⟨openSpan, opening⟩ :: inside, data'⟩)
      (distinct : (parameters.map (·.value)).Nodup) (owner : nested.function? = some name)
      (opens : nested.Opens opening)
      (statements : StatementsAt known nested ⟨parameters.map (·.value), []⟩ ⟨inside, data'⟩ body
        table middle)
      (more : StatementsAt known place slots middle others later after) :
      StatementsAt known place slots
        ⟨⟨span, .keyword .func⟩ :: ⟨nameSpan, .name name⟩ :: rest, data⟩
        (.function span.start name (parameters.map (·.value)) body table :: others) later after
  | action (owner : place.function? = some scope)
      (one : ActionAt known slots ⟨⟨span, token⟩ :: rest, data⟩ action between middle)
      (more : StatementsAt known place between middle body later after) :
      StatementsAt known place slots ⟨⟨span, token⟩ :: rest, data⟩
        (.action span.start scope action :: body) later after

end RayCompiler.Grammar

namespace RayCompiler

-- The names that the functions and the extern declarations of a program introduce.
def Program.introduced (program : Program) : KnownNames :=
  ⟨program.functions.map (·.name), program.externs.flatMap (·.2)⟩

-- The tokens form the program: they derive from the grammar with the names that the program itself
-- introduces, and every function has a name of its own, which no extern has.
structure Forms (tokens : List (Located Token)) (program : Program) : Prop where
  derivation : ∃ span, Grammar.StatementsAt program.introduced .module .empty ⟨tokens, []⟩
    program.statements .empty ⟨[⟨span, .endOfInput⟩], program.data⟩
  distinct : program.introduced.functions.Nodup
  apart : ∀ name ∈ program.introduced.functions, name ∉ program.introduced.externs

-- The end of input stands in the list once, as its last token.
def EndsOnce (tokens : List (Located Token)) : Prop :=
  ∃ front span, tokens = front ++ [⟨span, .endOfInput⟩] ∧ ∀ token ∈ front, token.value ≠ .endOfInput

end RayCompiler
