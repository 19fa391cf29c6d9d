import RayCompiler.Proofs.Grammar.Actions

namespace RayCompiler

namespace Statement

mutual

-- The names of the functions that a statement defines, each one after those inside it.
def definitions : Statement → List String
  | .function _ name _ body _ => definitionsIn body ++ [name]
  | .externs _ _ => []
  | .action _ _ _ => []

def definitionsIn : List Statement → List String
  | [] => []
  | statement :: more => statement.definitions ++ definitionsIn more

end

mutual

theorem perm_definitions (statement : Statement) :
    statement.definitions.Perm (statement.functions.map (·.name)) := by
  cases statement with
  | externs => exact .refl _
  | action => exact .refl _
  | function position name parameters body slots =>
      have hbody := perm_definitionsIn body
      simp only [definitions, functions, List.map_cons]
      exact List.perm_append_singleton name _ |>.trans (hbody.cons name)

theorem perm_definitionsIn (body : List Statement) :
    (definitionsIn body).Perm ((functionsIn body).map (·.name)) := by
  cases body with
  | nil => exact .refl _
  | cons statement more =>
      simp only [definitionsIn, functionsIn, List.map_append]
      exact (perm_definitions statement).append (perm_definitionsIn more)

end

end Statement

def Function.definitions (function : Function) : List String :=
  Statement.definitionsIn function.body ++ [function.name]

end RayCompiler

namespace RayCompiler.Grammar

variable {known : KnownNames}

-- Functions may be defined after the given ones: their names are new, distinct and no externs.
def Fresh (known : KnownNames) (defined names : List String) : Prop :=
  names.Nodup ∧ ∀ name ∈ names, name ∉ known.externs ∧ name ∉ defined

theorem fresh_nil (known : KnownNames) (defined : List String) : Fresh known defined [] := by
  simp [Fresh]

theorem fresh_append {defined first second : List String} :
    Fresh known defined (first ++ second) ↔
      Fresh known defined first ∧ Fresh known (first.reverse ++ defined) second := by
  simp only [Fresh, List.nodup_append, List.mem_append, List.mem_reverse, not_or]
  constructor
  · rintro ⟨⟨hfirst, hsecond, hne⟩, hall⟩
    refine ⟨⟨hfirst, fun name hm => hall name (.inl hm)⟩, hsecond, fun name hm => ?_⟩
    exact ⟨(hall name (.inr hm)).1, fun hm' => hne name hm' name hm rfl, (hall name (.inr hm)).2⟩
  · rintro ⟨⟨hfirst, hall⟩, hsecond, hall'⟩
    refine ⟨⟨hfirst, hsecond, ?_⟩, ?_⟩
    · rintro name hm _ hm' rfl
      exact (hall' name hm').2.1 hm
    · rintro name (hm | hm)
      · exact hall name hm
      · exact ⟨(hall' name hm).1, (hall' name hm).2.2⟩

theorem fresh_singleton {defined : List String} {name : String} :
    Fresh known defined [name] ↔ name ∉ known.externs ∧ name ∉ defined := by
  simp [Fresh]

-- What a parser leaves behind when it stops at a place after it has defined functions.
def Cursor.Leaves (after : Cursor) (known : KnownNames) (defined names : List String)
    (state : Parse.State) : Prop :=
  Fresh known defined names ∧ state = after.state (names.reverse ++ defined)

theorem Cursor.leaves_nil {after : Cursor} {defined : List String} {state : Parse.State} :
    after.Leaves known defined [] state ↔ state = after.state defined := by
  simp [Leaves, fresh_nil]

-- Defining functions in two steps is defining them all.
theorem Cursor.leaves_append {after : Cursor} {defined first second : List String}
    {state : Parse.State} :
    after.Leaves known defined (first ++ second) state ↔
      Fresh known defined first ∧ after.Leaves known (first.reverse ++ defined) second state := by
  simp only [Leaves, fresh_append, List.reverse_append, List.append_assoc, and_assoc]

inductive FunctionAt (known : KnownNames) : Cursor → Function → Cursor → Prop where
  | function {place : Place}
      (list : EnclosedAt NameAt ⟨rest, data⟩ parameters ⟨⟨openSpan, opening⟩ :: inside, data'⟩)
      (distinct : (parameters.map (·.value)).Nodup) (owner : place.function? = some name)
      (opens : place.Opens opening)
      (statements : StatementsAt known place ⟨parameters.map (·.value), []⟩ ⟨inside, data'⟩ body
        table after) :
      FunctionAt known ⟨⟨span, .keyword .func⟩ :: ⟨nameSpan, .name name⟩ :: rest, data⟩
        ⟨name, parameters.map (·.value), body, table⟩ after

-- One statement at a place, with the slots of its function before and after it.
inductive StatementAt (known : KnownNames) (place : Place) (slots : SlotTable) :
    Cursor → Statement → SlotTable → Cursor → Prop where
  | externs (list : ListAt NameAt ⟨rest, data⟩ names after) (ends : after.Ends) :
      StatementAt known place slots ⟨⟨span, .keyword .external⟩ :: rest, data⟩
        (.externs span.start (names.map (·.value))) slots after
  | function (inner : FunctionAt known ⟨⟨span, .keyword .func⟩ :: rest, data⟩ function after) :
      StatementAt known place slots ⟨⟨span, .keyword .func⟩ :: rest, data⟩
        (.ofFunction span.start function) slots after
  | action (owner : place.function? = some scope)
      (one : ActionAt known slots ⟨⟨span, token⟩ :: rest, data⟩ action later after) :
      StatementAt known place slots ⟨⟨span, token⟩ :: rest, data⟩
        (.action span.start scope action) later after

-- Statements at a place are over, or come after a token to skip, or begin with a statement.
theorem statementsAt_iff {place : Place} {slots later : SlotTable} {here after : Cursor}
    {body : List Statement} :
    StatementsAt known place slots here body later after ↔
      (place.Stops here after ∧ body = [] ∧ later = slots) ∨
      (∃ span token rest data, here = ⟨⟨span, token⟩ :: rest, data⟩ ∧ place.Skips token ∧
        StatementsAt known place slots ⟨rest, data⟩ body later after) ∨
      ∃ statement more between middle, body = statement :: more ∧
        StatementAt known place slots here statement between middle ∧
        StatementsAt known place between middle more later after := by
  constructor
  · intro h
    cases h with
    | stop stop => exact .inl ⟨stop, rfl, rfl⟩
    | skip skip more => exact .inr (.inl ⟨_, _, _, _, rfl, skip, more⟩)
    | externs list ends more => exact .inr (.inr ⟨_, _, _, _, rfl, .externs list ends, more⟩)
    | function list distinct owner opens statements more =>
        exact .inr (.inr ⟨_, _, _, _, rfl,
          .function (.function list distinct owner opens statements), more⟩)
    | action owner one more => exact .inr (.inr ⟨_, _, _, _, rfl, .action owner one, more⟩)
  · rintro (⟨stop, rfl, rfl⟩ | ⟨_, _, _, _, rfl, skip, more⟩ | ⟨_, _, _, _, rfl, one, more⟩)
    · exact .stop stop
    · exact .skip skip more
    · cases one with
      | externs list ends => exact .externs list ends more
      | function inner =>
          cases inner with
          | function list distinct owner opens statements =>
              exact .function list distinct owner opens statements more
      | action owner one => exact .action owner one more

theorem Place.Stops.reaches {place : Place} {here after : Cursor} (h : place.Stops here after) :
    here.Reaches after := by
  cases h with
  | module => exact .refl _
  | block => exact (Cursor.passes_tail (by simp)).1
  | arrow => exact .refl _

theorem Place.Opens.ne_endOfInput {place : Place} {token : Token} (h : place.Opens token) :
    token ≠ .endOfInput := by
  cases h <;> simp

theorem Place.Skips.ne_endOfInput {place : Place} {token : Token} (h : place.Skips token) :
    token ≠ .endOfInput := by
  cases h with
  | module trivia => cases trivia <;> simp
  | block trivia => cases trivia <;> simp
  | arrow => simp

theorem function_passes {place : Place} {rest inside : List (Located Token)} {data data' : List UInt8}
    {parameters : List (Located String)} {span nameSpan openSpan : Span} {opening : Token}
    {name : String} {after : Cursor}
    (list : EnclosedAt NameAt ⟨rest, data⟩ parameters ⟨⟨openSpan, opening⟩ :: inside, data'⟩)
    (opens : place.Opens opening) (h : Cursor.Reaches ⟨inside, data'⟩ after) :
    Cursor.Passes ⟨⟨span, .keyword .func⟩ :: ⟨nameSpan, .name name⟩ :: rest, data⟩ after := by
  have hinside : Cursor.Passes ⟨⟨openSpan, opening⟩ :: inside, data'⟩ after :=
    Cursor.Passes.trans_reaches (Cursor.passes_tail opens.ne_endOfInput) h
  exact Cursor.Passes.cons (((list.passes NameAt.passes).trans hinside).cons (by simp)) (by simp)

theorem StatementsAt.reaches {place : Place} {slots later : SlotTable} {here after : Cursor}
    {body : List Statement} (h : StatementsAt known place slots here body later after) :
    here.Reaches after := by
  induction h with
  | stop stop => exact stop.reaches
  | skip skip _ ih => exact ((Cursor.passes_tail skip.ne_endOfInput).trans_reaches ih).1
  | externs list _ _ ih =>
      exact (((list.passes NameAt.passes).cons (by simp)).trans_reaches ih).1
  | function list _ _ opens _ _ ih ih' => exact ((function_passes list opens ih).trans_reaches ih').1
  | action _ one _ ih => exact (one.passes.trans_reaches ih).1

theorem FunctionAt.passes {here after : Cursor} {function : Function}
    (h : FunctionAt known here function after) : here.Passes after := by
  cases h with
  | function list _ _ opens statements => exact function_passes list opens statements.reaches

theorem StatementAt.passes {place : Place} {slots later : SlotTable} {here after : Cursor}
    {statement : Statement} (h : StatementAt known place slots here statement later after) :
    here.Passes after := by
  cases h with
  | externs list => exact (list.passes NameAt.passes).cons (by simp)
  | function inner => exact inner.passes
  | action _ one => exact one.passes

end RayCompiler.Grammar
