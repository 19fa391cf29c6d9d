import RayCompiler.Program.Parser
import RayCompiler.Proofs.Parser.Phrases

namespace RayCompiler.Parse

variable {context : Context} {bound : Nat} {slots : SlotTable}

section Trivia

-- The loop over trivia, one token in each round.
def skipping : Nat → Parse Unit
  | 0 => fail .unending
  | rounds + 1 => do
    if isTrivia (← peek) then
      let _ ← advance
      skipping rounds

theorem skipping_succ (rounds : Nat) (state : State) : skipping (rounds + 1) context state =
    if isTrivia (state.rest.headD context.last).value then
      skipping rounds context { state with rest := state.rest.tail }
    else .ok ((), state) := by
  rw [skipping, peek_bind_eq]
  split <;> rfl

theorem skipTrivia_run (state : State) : skipTrivia context state =
    if (state.rest.dropWhile (isTrivia ·.value)).isEmpty && isTrivia context.last.value then
      .error ⟨context.last.span, .unending⟩
    else .ok ((), { state with rest := state.rest.dropWhile (isTrivia ·.value) }) := by
  rw [skipTrivia, get_bind, read_bind]
  split <;> rfl

-- Skipping at once is skipping token by token, with one round more than there are tokens.
theorem skipTrivia_eq (state : State) :
    skipTrivia context state = skipping (state.rest.length + 1) context state := by
  obtain ⟨rest, defined, data⟩ := state
  rw [skipTrivia_run]
  induction rest with
  | nil =>
      rw [skipping_succ]
      cases hlast : isTrivia context.last.value with
      | false => simp [hlast]
      | true =>
          simp only [List.headD_nil, hlast]
          rfl
  | cons first rest ih =>
      rw [List.length_cons, skipping_succ]
      cases hfirst : isTrivia first.value with
      | false => simp [hfirst]
      | true =>
          simp only [List.headD_cons, hfirst, if_true, List.tail_cons, List.dropWhile_cons]
          exact ih

variable (hlast : isTrivia context.last.value = false)
include hlast

theorem skipping_advances :
    Advances context bound fun rounds (_ : Unit) => skipping rounds := by
  intro _ state _
  have hpassed := passed_tail context state
  simp only [skipping_succ]
  cases htoken : isTrivia (state.rest.headD context.last).value with
  | false => exact .ended (.ok (Nat.lt_succ_self _)) fun _ => rfl
  | true =>
      cases hpassed with
      | token fewer => exact .again () fewer fun _ => rfl
      | repeated _ last =>
          rw [← last, hlast] at htoken
          cases htoken

theorem skipTrivia_steady : Steady context bound skipTrivia := by
  intro state _
  rw [skipTrivia_eq]
  exact (skipping_advances hlast).endsBelow (Nat.lt_succ_self _) (Nat.lt_succ_self _) ()

end Trivia

section Bodies

variable {nested nested' : Parse Function} {scope : String}

theorem statement_run (state : State) : statement nested scope slots context state =
    (match (state.rest.headD context.last).value with
    | .keyword .external => do
      return (.externs (state.rest.headD context.last).span.start (← externList), slots)
    | .keyword .func => do
      return (.ofFunction (state.rest.headD context.last).span.start (← nested), slots)
    | _ => do
      let (action, slots) ← action slots
      return (.action (state.rest.headD context.last).span.start scope action, slots) :
    Parse (Statement × SlotTable)) context state := rfl

theorem items_run (rounds : Nat) (state : State) : items nested (rounds + 1) context state =
    (skipTrivia >>= fun _ => current >>= fun first => match first.value with
    | .endOfInput => pure []
    | .keyword .external => externList >>= fun names => items nested rounds >>= fun others =>
      pure (.externs first.span.start names :: others)
    | .keyword .func => nested >>= fun function => items nested rounds >>= fun others =>
      pure (.ofFunction first.span.start function :: others)
    | found => fail (.expectedItem found) : Parse (List Statement)) context state := rfl

theorem statement_consumes (hnested : Consumes context bound nested) :
    Consumes context bound (statement nested scope slots) := by
  intro state hbound
  have haction : EndsBelow state.rest.length ((action slots >>= fun pair =>
      (pure (.action (state.rest.headD context.last).span.start scope pair.1, pair.2) :
        Parse (Statement × SlotTable))) context state) := by
    apply (action_consumes state hbound).bind
    intro pair later hlater
    exact .ok hlater
  rw [statement_run]
  cases (state.rest.headD context.last).value with
  | keyword keyword =>
      cases keyword with
      | external =>
          apply (externList_consumes state hbound).bind
          intro names later hlater
          exact .ok hlater
      | func =>
          apply (hnested state hbound).bind
          intro function later hlater
          exact .ok hlater
      | _ => exact haction
  | _ => exact haction

-- A round that reads a statement.
theorem statement_round (hnested : Consumes context bound nested) {state here : State}
    (hle : here.rest.length ≤ state.rest.length) (hbound : here.rest.length < bound)
    {loop : Nat → SlotTable → Parse (List Statement × SlotTable)} :
    Round context loop state fun rounds => (statement nested scope slots >>= fun pair =>
      loop rounds pair.2 >>= fun others =>
        (pure (pair.1 :: others.1, others.2) : Parse (List Statement × SlotTable))) context here := by
  apply Round.bind (statement_consumes hnested here hbound)
  intro pair later hlater
  exact .next pair.2 (fun others => (pair.1 :: others.1, others.2)) (by omega) fun _ => rfl

variable (hlast : isTrivia context.last.value = false)
include hlast

theorem blockBody_advances (hnested : Consumes context bound nested) :
    Advances context bound (blockBody nested scope) := by
  intro slots state hbound
  apply Round.bind (skipTrivia_steady hlast state hbound)
  intro _ here hhere
  simp only [peek_bind_eq]
  cases (here.rest.headD context.last).value with
  | endOfInput => exact .ended (ends_fail (by simp)) fun _ => rfl
  | symbol symbol =>
      cases symbol with
      | closeCurly =>
          have hle := (passed_tail context here).length_le
          exact .ended (.ok (Nat.lt_of_le_of_lt hle hhere)) fun _ => rfl
      | _ => exact statement_round hnested (by omega) (by omega)
  | _ => exact statement_round hnested (by omega) (by omega)

-- A semicolon would be read for ever if it were the last token.
theorem arrowBody_advances (hnested : Consumes context bound nested) :
    Advances context bound (arrowBody nested scope) := by
  intro slots state hbound
  have hended : Round context (arrowBody nested scope) state fun _ => .ok (([], slots), state) :=
    .ended (.ok (Nat.lt_succ_self _)) fun _ => rfl
  have hpassed := passed_tail context state
  simp only [arrowBody, peek_bind_eq]
  cases htoken : (state.rest.headD context.last).value with
  | lineEnd => exact hended
  | comment => exact hended
  | openComment style => exact hended
  | endOfInput => exact hended
  | symbol symbol =>
      cases symbol with
      | semicolon =>
          rw [htoken] at hpassed
          cases hpassed with
          | token fewer => exact .again slots fewer fun _ => rfl
          | repeated _ last => simp [last, isTrivia] at hlast
      | _ => exact statement_round hnested (Nat.le_refl _) hbound
  | _ => exact statement_round hnested (Nat.le_refl _) hbound

theorem functionBody_steady (hnested : Consumes context bound nested) :
    Steady context bound (functionBody nested scope slots) := by
  intro state hbound
  have hbody : ∀ (opening : Token) (body : Nat → SlotTable → Parse (List Statement × SlotTable)),
      Advances context bound body → EndsBelow (state.rest.length + 1) ((expect opening >>= fun _ =>
        remaining >>= fun count => body (count + 1) slots) context state) := by
    intro opening body hbody
    apply (reads_expect _).bind
    intro _ later hlater
    have hle := hlater.length_le
    rw [remaining_bind_eq]
    exact EndsBelow.mono (hbody.endsBelow (Nat.lt_succ_self _) (by omega) slots) (by omega)
  rw [functionBody, peek_bind_eq]
  cases (state.rest.headD context.last).value with
  | symbol symbol =>
      cases symbol with
      | openCurly => exact hbody _ _ (blockBody_advances hlast hnested)
      | arrow => exact hbody _ _ (arrowBody_advances hlast hnested)
      | _ => exact ends_fail (by simp)
  | _ => exact ends_fail (by simp)

theorem functionWith_consumes (hnested : Consumes context bound nested) :
    Consumes context (bound + 1) (functionWith nested) := by
  intro state hbound
  apply (reads_expect _).bind
  intro _ named hnamed
  apply reads_identifier.bind
  intro name here hhere
  have hlt := hnamed.length_lt hhere (by simp)
  apply (parenthesized_steady identifier_isItem here (Nat.lt_succ_self _)).bind
  intro parameters opening hopening
  cases SlotTable.ofParameters (parameters.map (·.value)) with
  | error repeated => exact ends_fail (by simp)
  | ok slots =>
      apply (functionBody_steady hlast hnested opening (by omega)).bind
      intro body later hlater
      apply (register_steady later (Nat.lt_succ_self _)).bind
      intro _ last hlast
      exact .ok (by omega)

-- Each function reads a token of its own before it reads the functions inside it.
theorem function_consumes (depth : Nat) : Consumes context depth (function depth) := by
  induction depth with
  | zero =>
      intro state hbound
      omega
  | succ depth ih => exact functionWith_consumes hlast ih

theorem items_advances (hnested : Consumes context bound nested) :
    Advances context bound fun rounds (_ : Unit) => items nested rounds := by
  intro _ state hbound
  simp only [items_run]
  apply Round.bind (skipTrivia_steady hlast state hbound)
  intro _ here hhere
  have hitem : ∀ {β : Type} (parser : Parse β) (item : β → Statement),
      Consumes context bound parser →
      Round context (fun rounds (_ : Unit) => items nested rounds) state fun rounds =>
        (parser >>= fun first => items nested rounds >>= fun others =>
          (pure (item first :: others) : Parse (List Statement))) context here := by
    intro β parser item hparser
    apply Round.bind (hparser here (by omega))
    intro first later hlater
    exact .next () (item first :: ·) (by omega) fun _ => rfl
  simp only [current_bind_eq]
  cases (here.rest.headD context.last).value with
  | endOfInput => exact .ended (.ok hhere) fun _ => rfl
  | keyword keyword =>
      cases keyword with
      | external => exact hitem externList _ externList_consumes
      | func => exact hitem nested _ hnested
      | _ => exact .ended (ends_fail (by simp)) fun _ => rfl
  | _ => exact .ended (ends_fail (by simp)) fun _ => rfl

end Bodies

section Depth

variable {α β : Type} {nested nested' : Parse Function} {scope : String} {state : State}

-- Two parsers that cannot be told apart where fewer tokens are left than the bound says.
def Agree (context : Context) (bound : Nat) (parser parser' : Parse α) : Prop :=
  ∀ state, state.rest.length < bound → parser context state = parser' context state

theorem bind_congr_left {parser parser' : Parse α} {next : α → Parse β}
    (h : parser context state = parser' context state) :
    (parser >>= next) context state = (parser' >>= next) context state := by
  change (parser context state >>= _) = (parser' context state >>= _)
  rw [h]

theorem statement_agree (h : Agree context bound nested nested') :
    Agree context bound (statement nested scope slots) (statement nested' scope slots) := by
  intro state hbound
  rw [statement_run, statement_run]
  cases (state.rest.headD context.last).value with
  | keyword keyword =>
      cases keyword with
      | func => exact bind_congr_left (h state hbound)
      | _ => rfl
  | _ => rfl

-- A statement and the statements behind it.
theorem statements_agree (h : Agree context bound nested nested')
    (hnested : Consumes context bound nested)
    {body body' : SlotTable → Parse (List Statement × SlotTable)}
    (hbody : ∀ slots, Agree context bound (body slots) (body' slots))
    (hbound : state.rest.length < bound) :
    (statement nested scope slots >>= fun pair => body pair.2 >>= fun others =>
        (pure (pair.1 :: others.1, others.2) : Parse (List Statement × SlotTable))) context state =
      (statement nested' scope slots >>= fun pair => body' pair.2 >>= fun others =>
        (pure (pair.1 :: others.1, others.2) : Parse (List Statement × SlotTable))) context state := by
  rw [← bind_congr_left (statement_agree h state hbound)]
  apply (statement_consumes hnested state hbound).bind_congr
  intro pair later hlater
  exact bind_congr_left (hbody pair.2 later (by omega))

theorem arrowBody_agree (h : Agree context bound nested nested')
    (hnested : Consumes context bound nested) (rounds : Nat) (slots : SlotTable) :
    Agree context bound (arrowBody nested scope rounds slots)
      (arrowBody nested' scope rounds slots) := by
  induction rounds generalizing slots with
  | zero =>
      intro state _
      rfl
  | succ rounds ih =>
      intro state hbound
      have hle := (passed_tail context state).length_le
      rw [arrowBody, arrowBody, peek_bind_eq, peek_bind_eq]
      cases (state.rest.headD context.last).value with
      | symbol symbol =>
          cases symbol with
          | semicolon => exact ih slots _ (Nat.lt_of_le_of_lt hle hbound)
          | _ => exact statements_agree h hnested ih hbound
      | name | keyword | number | string | text => exact statements_agree h hnested ih hbound
      | _ => rfl

variable (hlast : isTrivia context.last.value = false)
include hlast

theorem blockBody_agree (h : Agree context bound nested nested')
    (hnested : Consumes context bound nested) (rounds : Nat) (slots : SlotTable) :
    Agree context bound (blockBody nested scope rounds slots)
      (blockBody nested' scope rounds slots) := by
  induction rounds generalizing slots with
  | zero =>
      intro state _
      rfl
  | succ rounds ih =>
      intro state hbound
      rw [blockBody, blockBody]
      apply (skipTrivia_steady hlast state hbound).bind_congr
      intro _ here hhere
      rw [peek_bind_eq, peek_bind_eq]
      cases (here.rest.headD context.last).value with
      | endOfInput => rfl
      | symbol symbol =>
          cases symbol with
          | closeCurly => rfl
          | _ => exact statements_agree h hnested ih (by omega)
      | _ => exact statements_agree h hnested ih (by omega)

theorem functionBody_agree (h : Agree context bound nested nested')
    (hnested : Consumes context bound nested) :
    Agree context bound (functionBody nested scope slots) (functionBody nested' scope slots) := by
  intro state hbound
  rw [functionBody, functionBody, peek_bind_eq, peek_bind_eq]
  have hbody : ∀ (opening : Token)
      (body body' : Nat → SlotTable → Parse (List Statement × SlotTable)),
      (∀ rounds, Agree context bound (body rounds slots) (body' rounds slots)) →
      (expect opening >>= fun _ => remaining >>= fun count => body (count + 1) slots) context state =
        (expect opening >>= fun _ => remaining >>= fun count => body' (count + 1) slots) context
          state := by
    intro opening body body' hbody
    apply (reads_expect _).bind_congr
    intro _ later hlater
    have hle := hlater.length_le
    exact hbody _ later (by omega)
  cases (state.rest.headD context.last).value with
  | symbol symbol =>
      cases symbol with
      | openCurly => exact hbody _ _ _ fun rounds => blockBody_agree hlast h hnested rounds slots
      | arrow => exact hbody _ _ _ fun rounds => arrowBody_agree h hnested rounds slots
      | _ => rfl
  | _ => rfl

-- A function reads the functions inside it only where fewer tokens are left.
theorem functionWith_agree (h : Agree context bound nested nested')
    (hnested : Consumes context bound nested) :
    Agree context (bound + 1) (functionWith nested) (functionWith nested') := by
  intro state hbound
  apply (reads_expect _).bind_congr
  intro _ named hnamed
  apply reads_identifier.bind_congr
  intro name here hhere
  have hlt := hnamed.length_lt hhere (by simp)
  apply (parenthesized_steady identifier_isItem here (Nat.lt_succ_self _)).bind_congr
  intro parameters opening hopening
  cases SlotTable.ofParameters (parameters.map (·.value)) with
  | error repeated => rfl
  | ok slots => exact bind_congr_left (functionBody_agree hlast h hnested opening (by omega))

theorem function_eq {depth depth' : Nat} (hdepth : state.rest.length < depth)
    (hdepth' : state.rest.length < depth') :
    function depth context state = function depth' context state := by
  induction depth generalizing depth' state with
  | zero => omega
  | succ depth ih =>
      cases depth' with
      | zero => omega
      | succ depth' =>
          have hinner : Agree context state.rest.length (function depth) (function depth') :=
            fun inner hlt => ih (by omega) (by omega)
          have hconsumes : Consumes context state.rest.length (function depth) :=
            fun inner hlt => function_consumes hlast depth inner (by omega)
          exact functionWith_agree hlast hinner hconsumes state (Nat.lt_succ_self _)

theorem items_agree (h : Agree context bound nested nested')
    (hnested : Consumes context bound nested) (rounds : Nat) :
    Agree context bound (items nested rounds) (items nested' rounds) := by
  induction rounds with
  | zero =>
      intro state _
      rfl
  | succ rounds ih =>
      intro state hbound
      rw [items_run, items_run]
      apply (skipTrivia_steady hlast state hbound).bind_congr
      intro _ here hhere
      rw [current_bind_eq, current_bind_eq]
      cases (here.rest.headD context.last).value with
      | keyword keyword =>
          cases keyword with
          | external =>
              apply (externList_consumes here (Nat.lt_succ_self _)).bind_congr
              intro names later hlater
              exact bind_congr_left (ih later (by omega))
          | func =>
              dsimp only
              rw [← bind_congr_left (h here (by omega))]
              apply (hnested here (by omega)).bind_congr
              intro function later hlater
              exact bind_congr_left (ih later (by omega))
          | _ => rfl
      | _ => rfl

end Depth

-- What makes a parse end, although the last token is repeated for ever: every round of a loop ends it
-- or reads a token of the list, and so does every function.
structure Advancing (context : Context) : Prop where
  trivia : ∀ state, skipTrivia context state = skipping (state.rest.length + 1) context state
  skips : ∀ bound, Advances context bound fun rounds (_ : Unit) => skipping rounds
  names : ∀ bound, Advances context bound fun rounds (_ : Unit) => moreItems identifier rounds
  operands : ∀ bound slots,
    Advances context bound fun rounds (_ : Unit) => moreItems (operand slots) rounds
  blocks : ∀ depth scope, Advances context depth (blockBody (function depth) scope)
  arrows : ∀ depth scope, Advances context depth (arrowBody (function depth) scope)
  items : ∀ depth, Advances context depth fun rounds (_ : Unit) => items (function depth) rounds
  functions : ∀ depth, Consumes context depth (function depth)

theorem advancing (hlast : isTrivia context.last.value = false) : Advancing context where
  trivia := skipTrivia_eq
  skips _ := skipping_advances hlast
  names _ := moreItems_advances identifier_isItem
  operands _ _ := moreItems_advances operand_isItem
  blocks depth _ := blockBody_advances hlast (function_consumes hlast depth)
  arrows depth _ := arrowBody_advances hlast (function_consumes hlast depth)
  items depth := items_advances hlast (function_consumes hlast depth)
  functions := function_consumes hlast

-- The program that a run of the parser gives.
def toProgram (run : Except (Located ParseError) (List Statement × State)) :
    Except (Located ParseError) Program :=
  run.map fun (statements, state) => ⟨statements, state.data⟩

theorem items_eq (hlast : isTrivia context.last.value = false) {state : State}
    {depth depth' rounds rounds' : Nat} (hdepth : state.rest.length < depth)
    (hdepth' : state.rest.length < depth') (hrounds : state.rest.length < rounds)
    (hrounds' : state.rest.length < rounds') :
    items (function depth) rounds context state =
      items (function depth') rounds' context state := by
  have hfunctions : Agree context (state.rest.length + 1) (function depth) (function depth') :=
    fun inner hlt => function_eq hlast (by omega) (by omega)
  have hconsumes : Consumes context (state.rest.length + 1) (function depth) :=
    fun inner hlt => function_consumes hlast depth inner (by omega)
  rw [items_agree hlast hfunctions hconsumes rounds state (Nat.lt_succ_self _)]
  exact (items_advances hlast (function_consumes hlast depth')).eq hrounds hrounds' hdepth' ()

end RayCompiler.Parse

namespace RayCompiler

open Parse Grammar

variable {tokens : List (Located Token)}

-- The parse of a token list comes to an end: it gives an answer, more levels of functions and more
-- rounds would not change it, and every round on the way makes progress.
structure ParseEnds (tokens : List (Located Token)) : Prop where
  answers : ∀ span, parse tokens ≠ .error ⟨span, .unending⟩
  unbounded : ∀ last ∈ tokens.getLast?, ∀ depth rounds, tokens.length < depth →
    tokens.length < rounds → parse tokens = toProgram (items (function depth) rounds
      ⟨last, .ofTokens (tokens.map (·.value))⟩ ⟨tokens, [], []⟩)
  progress : ∀ last ∈ tokens.getLast?, Advancing ⟨last, .ofTokens (tokens.map (·.value))⟩

theorem parse_eq_toProgram {last : Located Token} (h : tokens.getLast? = some last) :
    parse tokens = toProgram (items (function (tokens.length + 1)) (tokens.length + 1)
      ⟨last, .ofTokens (tokens.map (·.value))⟩ ⟨tokens, [], []⟩) := by
  rw [parse, h, toProgram]
  dsimp only
  generalize items (function (tokens.length + 1)) (tokens.length + 1)
    ⟨last, .ofTokens (tokens.map (·.value))⟩ ⟨tokens, [], []⟩ = run
  cases run <;> rfl

theorem Parse.Ends.toProgram_ne {success : List Statement → State → Prop}
    {run : Except (Located ParseError) (List Statement × State)} (h : Ends success run)
    (span : Span) : toProgram run ≠ .error ⟨span, .unending⟩ := by
  cases h with
  | ok => simp [toProgram, Except.map]
  | @error error other =>
      intro he
      cases he
      exact other rfl

-- The parser ends on every list whose last token is no trivia, with or without an end of input.
theorem parse_ends (h : ∀ last ∈ tokens.getLast?, ¬Trivia last.value) : ParseEnds tokens := by
  cases hlast : tokens.getLast? with
  | none =>
      refine ⟨?_, by simp [hlast], by simp [hlast]⟩
      intro span
      simp [parse, hlast]
  | some last =>
      let context : Context := ⟨last, .ofTokens (tokens.map (·.value))⟩
      have htrivia : isTrivia context.last.value = false := by
        simpa [← isTrivia_iff] using h last hlast
      have hrun := parse_eq_toProgram hlast
      constructor
      · intro span
        have hitems := items_advances htrivia (function_consumes htrivia (tokens.length + 1))
        have hends := @hitems.endsBelow _ _ _ _ _ ⟨tokens, [], []⟩ _ (Nat.lt_succ_self _)
          (Nat.lt_succ_self _) ()
        rw [hrun]
        exact hends.toProgram_ne span
      · intro other hother depth rounds hdepth hrounds
        cases hlast.symm.trans hother
        have hsame := @items_eq context htrivia ⟨tokens, [], []⟩ _ depth _ rounds
          (Nat.lt_succ_self _) hdepth (Nat.lt_succ_self _) hrounds
        rw [hrun]
        exact congrArg toProgram hsame
      · intro other hother
        cases hlast.symm.trans hother
        exact advancing htrivia

-- Two functions inside each other, and one brace at the end, which is repeated and closes both of them:
-- func f() { func g() { }
def unclosedTokens : List (Located Token) :=
  [.keyword .func, .name "f", .symbol .openParen, .symbol .closeParen, .symbol .openCurly,
    .keyword .func, .name "g", .symbol .openParen, .symbol .closeParen, .symbol .openCurly,
    .symbol .closeCurly].map (⟨.point .start, ·⟩)

theorem parseEnds_unclosedTokens : (∀ last ∈ unclosedTokens.getLast?, ¬Trivia last.value) ∧
    parse unclosedTokens = .error ⟨.point .start, .expectedItem (.symbol .closeCurly)⟩ ∧
    ParseEnds unclosedTokens := by
  have hlast : ∀ last ∈ unclosedTokens.getLast?, ¬Trivia last.value := by
    rintro _ ⟨⟩ ⟨⟩
  exact ⟨hlast, rfl, parse_ends hlast⟩

-- A line end at the end of the list would be skipped for ever.
example : parse [⟨.point .start, .lineEnd⟩] = .error ⟨.point .start, .unending⟩ := rfl

end RayCompiler
