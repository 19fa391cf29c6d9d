import RayCompiler.Proofs.Grammar.Nesting

namespace RayCompiler

-- The bytes that a string takes up: its own in UTF-8, and a zero behind them.
def storedBytes (contents : String) : List UInt8 := contents.toUTF8.data.toList ++ [0]

theorem length_storedBytes (contents : String) :
    (storedBytes contents).length = contents.utf8ByteSize + 1 := by
  simp [storedBytes]

-- The contents of the string literals among tokens.
def stringsOf (tokens : List (Located Token)) : List String :=
  tokens.filterMap fun token =>
    match token.value with
    | .string contents => some contents
    | _ => none

theorem stringsOf_append (first second : List (Located Token)) :
    stringsOf (first ++ second) = stringsOf first ++ stringsOf second := List.filterMap_append

theorem stringsOf_eq_of_values {first second : List (Located Token)}
    (h : first.map (·.value) = second.map (·.value)) : stringsOf first = stringsOf second := by
  induction first generalizing second with
  | nil => rw [List.map_eq_nil_iff.mp h.symm]
  | cons token more ih =>
      cases second with
      | nil => cases h
      | cons other rest =>
          obtain ⟨hvalue, hmore⟩ := List.cons.inj h
          have hone : stringsOf [token] = stringsOf [other] := by
            simp only [stringsOf, List.filterMap_cons, hvalue]
          have hfirst := stringsOf_append [token] more
          have hsecond := stringsOf_append [other] rest
          rw [List.singleton_append] at hfirst hsecond
          rw [hfirst, hsecond, hone, ih hmore]

-- The bytes that strings take up together.
def storedSize (strings : List String) : Nat := (strings.map (·.utf8ByteSize + 1)).sum

theorem length_flatMap_storedBytes (strings : List String) :
    (strings.flatMap storedBytes).length = storedSize strings := by
  simp [List.length_flatMap, length_storedBytes, storedSize]

-- Where each string begins if they lie one behind another from the given offset on.
def offsetsFrom (start : Nat) : List String → List Nat
  | [] => []
  | contents :: more => start :: offsetsFrom (start + (contents.utf8ByteSize + 1)) more

theorem offsetsFrom_append (start : Nat) (first second : List String) :
    offsetsFrom start (first ++ second) =
      offsetsFrom start first ++ offsetsFrom (start + storedSize first) second := by
  induction first generalizing start with
  | nil => rfl
  | cons contents more ih =>
      simp only [List.cons_append, offsetsFrom, ih, storedSize, List.map_cons, List.sum_cons,
        Nat.add_assoc]

theorem offsetsFrom_eq (start : Nat) (strings : List String) :
    offsetsFrom start strings =
      (List.range strings.length).map fun index => start + storedSize (strings.take index) := by
  induction strings generalizing start with
  | nil => rfl
  | cons contents more ih =>
      rw [offsetsFrom, ih, List.length_cons, List.range_succ_eq_map, List.map_cons, List.map_map]
      simp [storedSize, Function.comp_def, Nat.add_assoc]

def Operand.offset? : Operand → Option Nat
  | .data offset => some offset
  | _ => none

namespace Statement

mutual

-- The operands of a statement in the order of the text, with those of the functions inside it.
def allOperands : Statement → List Operand
  | .action _ _ effect => effect.operands
  | .externs _ _ => []
  | .function _ _ _ body _ => allOperandsIn body

def allOperandsIn : List Statement → List Operand
  | [] => []
  | statement :: more => statement.allOperands ++ allOperandsIn more

end

mutual

theorem mem_allOperands {operand : Operand} (statement : Statement) :
    operand ∈ statement.allOperands ↔ operand ∈ statement.operands ∨
      ∃ function ∈ statement.functions, operand ∈ function.body.flatMap operands := by
  cases statement with
  | externs | action => simp [allOperands, operands, functions]
  | function position name parameters body slots =>
      have hbody := @mem_allOperandsIn operand body
      simpa [allOperands, operands, functions] using hbody

-- An operand belongs to a statement itself or to one of a function inside.
theorem mem_allOperandsIn {operand : Operand} (body : List Statement) :
    operand ∈ allOperandsIn body ↔ operand ∈ body.flatMap operands ∨
      ∃ function ∈ functionsIn body, operand ∈ function.body.flatMap operands := by
  cases body with
  | nil => simp [allOperandsIn, functionsIn]
  | cons statement more =>
      have hfirst := @mem_allOperands operand statement
      have hmore := @mem_allOperandsIn operand more
      simp only [allOperandsIn, functionsIn, List.flatMap_cons, List.mem_append, hfirst, hmore,
        or_and_right, exists_or]
      exact or_or_or_comm

end

end Statement

-- The offsets of the data that the operands of a program refer to, in the order of the text.
def Program.offsets (program : Program) : List Nat :=
  (Statement.allOperandsIn program.statements).filterMap Operand.offset?

end RayCompiler

namespace RayCompiler.Grammar

open Statement

variable {known : KnownNames} {slots : SlotTable}

-- Between two places some tokens are read. Their strings are added to the data, and the operands
-- refer to them in the same order, by words of 32 bits.
def Interns (here : Cursor) (operands : List Operand) (after : Cursor) : Prop :=
  ∃ tokens, here.rest = tokens ++ after.rest ∧
    after.data = here.data ++ (stringsOf tokens).flatMap storedBytes ∧
    operands.filterMap Operand.offset? =
      (offsetsFrom here.data.length (stringsOf tokens)).map (· % UInt32.size)

theorem Interns.refl (here : Cursor) : Interns here [] here := ⟨[], rfl, by simp [stringsOf], rfl⟩

theorem Interns.trans {here middle after : Cursor} {first second : List Operand}
    (h : Interns here first middle) (h' : Interns middle second after) :
    Interns here (first ++ second) after := by
  obtain ⟨tokens, hrest, hdata, hoffsets⟩ := h
  obtain ⟨others, hrest', hdata', hoffsets'⟩ := h'
  refine ⟨tokens ++ others, by rw [hrest, hrest', List.append_assoc], ?_, ?_⟩
  · rw [hdata', hdata, stringsOf_append, List.flatMap_append, List.append_assoc]
  · rw [List.filterMap_append, hoffsets, hoffsets', hdata, stringsOf_append, offsetsFrom_append,
      List.map_append, List.length_append, length_flatMap_storedBytes]

-- A token that is no string leaves the data as it is.
theorem interns_token {token : Located Token} (h : stringsOf [token] = [])
    (rest : List (Located Token)) (data : List UInt8) :
    Interns ⟨token :: rest, data⟩ [] ⟨rest, data⟩ :=
  ⟨[token], rfl, by simp [h], by simp [h, offsetsFrom]⟩

theorem Interns.cons {token : Located Token} {rest : List (Located Token)} {data : List UInt8}
    {operands : List Operand} {after : Cursor} (h : Interns ⟨rest, data⟩ operands after)
    (htoken : stringsOf [token] = []) : Interns ⟨token :: rest, data⟩ operands after :=
  (interns_token htoken rest data).trans h

theorem Interns.tail {token : Located Token} {rest : List (Located Token)} {data : List UInt8}
    {operands : List Operand} {here : Cursor} (h : Interns here operands ⟨token :: rest, data⟩)
    (htoken : stringsOf [token] = []) : Interns here operands ⟨rest, data⟩ := by
  have htail := h.trans (interns_token htoken rest data)
  rwa [List.append_nil] at htail

section Lists

variable {α : Type} {item : Cursor → α → Cursor → Prop} {operandsOf : α → List Operand}

theorem ListAt.interns
    (hitem : ∀ here value after, item here value after → Interns here (operandsOf value) after)
    {here after : Cursor} {items : List α} (h : ListAt item here items after) :
    Interns here (items.flatMap operandsOf) after := by
  induction h with
  | one head => simpa using hitem _ _ _ head
  | more head _ ih => exact ((hitem _ _ _ head).tail rfl).trans ih

theorem EnclosedAt.interns
    (hitem : ∀ here value after, item here value after → Interns here (operandsOf value) after)
    {here after : Cursor} {items : List α} (h : EnclosedAt item here items after) :
    Interns here (items.flatMap operandsOf) after := by
  cases h with
  | empty => exact (interns_token rfl _ _).cons rfl
  | list inside => exact ((inside.interns hitem).tail rfl).cons rfl

end Lists

theorem NameAt.interns_none (here : Cursor) (name : Located String) (after : Cursor)
    (h : NameAt here name after) : Interns here [] after := by
  cases h
  exact interns_token rfl _ _

theorem ListAt.interns_none {here after : Cursor} {names : List (Located String)}
    (h : ListAt NameAt here names after) : Interns here [] after := by
  have hnames := h.interns NameAt.interns_none
  rwa [flatMap_none] at hnames

theorem EnclosedAt.interns_none {here after : Cursor} {names : List (Located String)}
    (h : EnclosedAt NameAt here names after) : Interns here [] after := by
  have hnames := h.interns NameAt.interns_none
  rwa [flatMap_none] at hnames

theorem OperandAt.interns {here after : Cursor} {operand : Operand}
    (h : OperandAt known slots here operand after) : Interns here [operand] after := by
  cases h with
  | @string span contents rest data =>
      exact ⟨[⟨span, .string contents⟩], rfl, by simp [stringsOf, storedBytes], rfl⟩
  | pointee | address | symbolAddress => exact ⟨[_, _], rfl, by simp [stringsOf], rfl⟩
  | _ => exact ⟨[_], rfl, by simp [stringsOf], rfl⟩

theorem OptionalAt.interns {here after : Cursor} {operand : Operand}
    (h : OptionalAt known slots here operand after) : Interns here [operand] after := by
  cases h with
  | absent => exact ⟨[_, _], rfl, by simp [stringsOf], rfl⟩
  | given inside => exact (inside.interns.tail rfl).cons rfl

theorem CallAt.interns {here after : Cursor} {call : Call}
    (h : CallAt known slots here call after) : Interns here call.arguments after := by
  cases h with
  | call _ inside =>
      have hoperands := inside.interns fun _ _ _ one => one.interns
      rw [List.flatMap_singleton'] at hoperands
      exact hoperands.cons rfl

theorem ActionAt.interns {later : SlotTable} {here after : Cursor} {action : Action}
    (h : ActionAt known slots here action later after) : Interns here action.operands after := by
  cases h with
  | ret inside | exit inside => exact inside.interns.cons rfl
  | declare list => exact list.interns_none.cons rfl
  | define right => exact ((right.interns.cons rfl).cons rfl).cons rfl
  | defineCall right => exact ((right.interns.cons rfl).cons rfl).cons rfl
  | assign _ right => exact (right.interns.cons rfl).cons rfl
  | assignCall _ right => exact (right.interns.cons rfl).cons rfl
  | call statement => exact statement.interns

theorem Trivia.stringsOf_eq {token : Token} (h : Trivia token) (span : Span) :
    stringsOf [⟨span, token⟩] = [] := by
  cases h <;> rfl

theorem Place.Skips.stringsOf_eq {place : Place} {token : Token} (h : place.Skips token)
    (span : Span) : stringsOf [⟨span, token⟩] = [] := by
  cases h with
  | module trivia | block trivia => exact trivia.stringsOf_eq span
  | arrow => rfl

theorem Place.Opens.stringsOf_eq {place : Place} {token : Token} (h : place.Opens token)
    (span : Span) : stringsOf [⟨span, token⟩] = [] := by
  cases h <;> rfl

theorem Place.Stops.interns {place : Place} {here after : Cursor} (h : place.Stops here after) :
    Interns here [] after := by
  cases h with
  | module | arrow => exact .refl _
  | block => exact interns_token rfl _ _

-- All functions share one stretch of data, so the strings of a function inside another one lie
-- between those before and behind it.
theorem StatementsAt.interns {place : Place} {later : SlotTable} {here after : Cursor}
    {body : List Statement} (h : StatementsAt known place slots here body later after) :
    Interns here (allOperandsIn body) after := by
  induction h with
  | stop stop => exact stop.interns
  | skip skip _ ih => exact ih.cons (skip.stringsOf_eq _)
  | externs list _ _ ih => exact (list.interns_none.trans ih).cons rfl
  | function list _ _ opens _ _ ih ih' =>
      exact ((((list.interns_none.tail (opens.stringsOf_eq _)).trans ih).trans ih').cons rfl).cons rfl
  | action _ one _ ih => exact one.interns.trans ih

-- Actions stand only inside functions.
theorem StatementsAt.operands_eq_nil {place : Place} {later : SlotTable} {here after : Cursor}
    {body : List Statement} (h : StatementsAt known place slots here body later after)
    (hplace : place.function? = none) : body.flatMap operands = [] := by
  induction h with
  | stop => rfl
  | skip _ _ ih => exact ih hplace
  | externs _ _ _ ih => exact ih hplace
  | function _ _ _ _ _ _ _ ih => exact ih hplace
  | action owner =>
      rw [owner] at hplace
      cases hplace

end RayCompiler.Grammar

namespace RayCompiler

theorem Forms.mem_offsets {tokens : List (Located Token)} {program : Program}
    (h : Forms tokens program) {offset : Nat} : offset ∈ program.offsets ↔
      ∃ function ∈ program.functions,
        .data offset ∈ function.body.flatMap Statement.operands := by
  obtain ⟨_, derivation⟩ := h.derivation
  have hmem := @Statement.mem_allOperandsIn (.data offset) program.statements
  rw [derivation.operands_eq_nil rfl] at hmem
  have hoffset : ∀ operand : Operand, operand.offset? = some offset ↔ operand = .data offset := by
    intro operand
    cases operand <;> simp [Operand.offset?]
  simpa [Program.offsets, Program.functions, hoffset] using hmem

-- The data of a program are the strings of its text in order, and the operands refer to the places
-- where they begin, by words of 32 bits.
theorem Forms.strings {tokens : List (Located Token)} {program : Program} (h : Forms tokens program) :
    program.data = (stringsOf tokens).flatMap storedBytes ∧
      program.offsets = (List.range (stringsOf tokens).length).map fun index =>
        storedSize ((stringsOf tokens).take index) % UInt32.size := by
  obtain ⟨span, derivation⟩ := h.derivation
  obtain ⟨front, htokens, hdata, hoffsets⟩ := derivation.interns
  have hstrings : stringsOf tokens = stringsOf front := by
    have htokens : tokens = front ++ [⟨span, .endOfInput⟩] := htokens
    rw [htokens, stringsOf_append]
    exact List.append_nil _
  rw [hstrings]
  refine ⟨hdata, ?_⟩
  rw [Program.offsets, hoffsets, offsetsFrom_eq]
  simp

end RayCompiler
