import RayCompiler.Proofs.Grammar.Operands

namespace RayCompiler.Grammar

-- The tokens that can stand inside a statement: neither trivia, nor a sign around a body, nor the end
-- of input.
def inPhrase : Token → Bool
  | .name _ => true
  | .number _ => true
  | .string _ => true
  | .keyword _ => true
  | .symbol symbol => symbol ∉ [.semicolon, .arrow, .openCurly, .closeCurly]
  | _ => false

theorem inPhrase.not_trivia {token : Token} (h : inPhrase token) : ¬Trivia token := by
  intro htrivia
  cases htrivia <;> cases h

-- Only such tokens stand between two places.
def Cursor.Phrase (here after : Cursor) : Prop :=
  ∃ used, here.rest = used ++ after.rest ∧ ∀ token ∈ used, inPhrase token.value

theorem Cursor.Phrase.trans {here middle after : Cursor} (h : here.Phrase middle)
    (h' : middle.Phrase after) : here.Phrase after := by
  obtain ⟨used, hused, hinside⟩ := h
  obtain ⟨used', hused', hinside'⟩ := h'
  refine ⟨used ++ used', by rw [hused, hused', List.append_assoc], ?_⟩
  intro token hm
  rcases List.mem_append.mp hm with hm | hm
  · exact hinside token hm
  · exact hinside' token hm

section Tokens

variable {span : Span} {token : Token} {rest : List (Located Token)} {data later : List UInt8}
  {here after : Cursor}

theorem Cursor.phrase_tail (h : inPhrase token) :
    Cursor.Phrase ⟨⟨span, token⟩ :: rest, data⟩ ⟨rest, later⟩ :=
  ⟨[⟨span, token⟩], rfl, by simpa using h⟩

theorem Cursor.Phrase.cons (h : Cursor.Phrase ⟨rest, data⟩ after) (htoken : inPhrase token) :
    Cursor.Phrase ⟨⟨span, token⟩ :: rest, data⟩ after :=
  (phrase_tail htoken).trans h

theorem Cursor.Phrase.tail (h : here.Phrase ⟨⟨span, token⟩ :: rest, data⟩)
    (htoken : inPhrase token) : here.Phrase ⟨rest, data⟩ :=
  h.trans (phrase_tail htoken)

end Tokens

theorem NameAt.phrase {here after : Cursor} {name : Located String} (h : NameAt here name after) :
    here.Phrase after := by
  cases h
  exact Cursor.phrase_tail rfl

section Lists

variable {α : Type} {item : Cursor → α → Cursor → Prop}

theorem ListAt.phrase (hitem : ∀ {here value after}, item here value after → here.Phrase after)
    {here after : Cursor} {items : List α} (h : ListAt item here items after) :
    here.Phrase after := by
  induction h with
  | one head => exact hitem head
  | more head _ ih => exact ((hitem head).tail rfl).trans ih

theorem EnclosedAt.phrase (hitem : ∀ {here value after}, item here value after → here.Phrase after)
    {here after : Cursor} {items : List α} (h : EnclosedAt item here items after) :
    here.Phrase after := by
  cases h with
  | empty => exact (Cursor.phrase_tail rfl).cons rfl
  | list inside => exact ((inside.phrase hitem).tail rfl).cons rfl

end Lists

-- The head of a function up to its body.
theorem EnclosedAt.phrase_head {rest : List (Located Token)} {data : List UInt8}
    {parameters : List (Located String)} {after : Cursor}
    (h : EnclosedAt NameAt ⟨rest, data⟩ parameters after) (span nameSpan : Span) (name : String) :
    Cursor.Phrase ⟨⟨span, .keyword .func⟩ :: ⟨nameSpan, .name name⟩ :: rest, data⟩ after :=
  ((h.phrase NameAt.phrase).cons rfl).cons rfl

variable {known : KnownNames} {slots : SlotTable}

theorem OperandAt.phrase {here after : Cursor} {operand : Operand}
    (h : OperandAt known slots here operand after) : here.Phrase after := by
  cases h with
  | pointee | address | symbolAddress => exact (Cursor.phrase_tail rfl).cons rfl
  | _ => exact Cursor.phrase_tail rfl

theorem OptionalAt.phrase {here after : Cursor} {operand : Operand}
    (h : OptionalAt known slots here operand after) : here.Phrase after := by
  obtain ⟨operands, henclosed, _⟩ := optionalAt_iff.mp h
  exact henclosed.phrase OperandAt.phrase

theorem CallAt.phrase {here after : Cursor} {call : Call}
    (h : CallAt known slots here call after) : here.Phrase after := by
  cases h with
  | call _ inside => exact (inside.phrase OperandAt.phrase).cons rfl

theorem ActionAt.phrase {later : SlotTable} {here after : Cursor} {action : Action}
    (h : ActionAt known slots here action later after) : here.Phrase after := by
  have hassigned : ∀ {rest data nameSpan name sign}, Cursor.Phrase ⟨rest, data⟩ after →
      Cursor.Phrase ⟨⟨nameSpan, .name name⟩ :: ⟨sign, .symbol .assign⟩ :: rest, data⟩ after :=
    fun right => (right.cons rfl).cons rfl
  cases h with
  | ret inside | exit inside => exact inside.phrase.cons rfl
  | declare list => exact (list.phrase NameAt.phrase).cons rfl
  | define right => exact (hassigned right.phrase).cons rfl
  | defineCall right => exact (hassigned right.phrase).cons rfl
  | assign _ right => exact hassigned right.phrase
  | assignCall _ right => exact hassigned right.phrase
  | call statement => exact statement.phrase

end RayCompiler.Grammar
