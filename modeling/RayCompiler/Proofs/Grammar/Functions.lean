import RayCompiler.Proofs.Grammar.Statements

namespace RayCompiler.Grammar

variable {known : KnownNames}

inductive StartsAction : Token → Prop where
  | ret : StartsAction (.keyword .ret)
  | exit : StartsAction (.keyword .exit)
  | var : StartsAction (.keyword .var)
  | name (text : String) : StartsAction (.name text)

theorem ActionAt.starts {slots later : SlotTable} {span : Span} {token : Token}
    {rest : List (Located Token)} {data : List UInt8} {action : Action} {after : Cursor}
    (h : ActionAt known slots ⟨⟨span, token⟩ :: rest, data⟩ action later after) :
    StartsAction token := by
  cases h with
  | ret => exact .ret
  | exit => exact .exit
  | declare => exact .var
  | define => exact .var
  | defineCall => exact .var
  | assign => exact .name _
  | assignCall => exact .name _
  | call statement =>
      cases statement
      exact .name _

-- The first token of a statement.
inductive StartsStatement : Token → Prop where
  | externs : StartsStatement (.keyword .external)
  | function : StartsStatement (.keyword .func)
  | action (starts : StartsAction token) : StartsStatement token

theorem StatementAt.starts {place : Place} {slots later : SlotTable} {span : Span} {token : Token}
    {rest : List (Located Token)} {data : List UInt8} {statement : Statement} {after : Cursor}
    (h : StatementAt known place slots ⟨⟨span, token⟩ :: rest, data⟩ statement later after) :
    StartsStatement token := by
  cases h with
  | externs => exact .externs
  | function => exact .function
  | action _ one => exact .action one.starts

theorem StartsStatement.not_trivia {token : Token} (h : StartsStatement token) : ¬Trivia token := by
  intro ht
  cases h with
  | externs => cases ht
  | function => cases ht
  | action starts => cases starts <;> cases ht

-- Where trivia may stand, statements begin after all of it.
theorem statementsAt_dropWhile_iff {place : Place} {slots later : SlotTable} {after : Cursor}
    {body : List Statement} (hplace : ∀ {token}, Trivia token → place.Skips token)
    (hstop : ∀ {span token rest data next}, Trivia token →
      ¬place.Stops ⟨⟨span, token⟩ :: rest, data⟩ next)
    (rest : List (Located Token)) (data : List UInt8) :
    StatementsAt known place slots ⟨rest, data⟩ body later after ↔
      StatementsAt known place slots ⟨rest.dropWhile (Parse.isTrivia ·.value), data⟩ body later
        after := by
  induction rest with
  | nil => rfl
  | cons first rest ih =>
      obtain ⟨span, token⟩ := first
      cases ht : Parse.isTrivia token with
      | false => rw [List.dropWhile_cons_of_neg (by simp [ht])]
      | true =>
          have htrivia := Parse.isTrivia_iff.mp ht
          rw [List.dropWhile_cons_of_pos (by simp [ht]), ← ih]
          constructor
          · intro h
            rcases statementsAt_iff.mp h with ⟨stop, _⟩ | ⟨_, _, _, _, he, _, more⟩ |
              ⟨_, _, _, _, _, one, _⟩
            · exact absurd stop (hstop htrivia)
            · cases he
              exact more
            · exact absurd htrivia one.starts.not_trivia
          · exact fun h => .skip (hplace htrivia) h

theorem Cursor.Closed.dropWhile {rest : List (Located Token)} {data : List UInt8}
    (h : Cursor.Closed ⟨rest, data⟩) :
    Cursor.Closed ⟨rest.dropWhile (Parse.isTrivia ·.value), data⟩ := by
  induction rest with
  | nil => exact h
  | cons first rest ih =>
      cases ht : Parse.isTrivia first.value with
      | false =>
          rw [List.dropWhile_cons_of_neg (by simp [ht])]
          exact h
      | true =>
          rw [List.dropWhile_cons_of_pos (by simp [ht])]
          refine ih (Cursor.closed_tail h ?_)
          intro he
          simp [he, Parse.isTrivia] at ht

theorem Cursor.Closed.dropWhile_eq_cons {here : Cursor} (h : here.Closed) :
    ∃ span token left, here.rest.dropWhile (Parse.isTrivia ·.value) = ⟨span, token⟩ :: left ∧
      ¬Trivia token := by
  obtain ⟨span, token, left, he⟩ := (Cursor.Closed.dropWhile h).exists_cons
  have hleft := congrArg Cursor.rest he
  have hfalse := List.head?_dropWhile_not (Parse.isTrivia ·.value) here.rest
  dsimp only at hleft
  rw [hleft] at hfalse
  refine ⟨span, token, left, hleft, fun ht => ?_⟩
  simp [Parse.isTrivia_iff.mpr ht] at hfalse

end RayCompiler.Grammar

namespace RayCompiler.Parse

open Grammar Statement

variable {context : Context} {nested : Parse Function} {bound : Nat}

theorem skipTrivia_bind {β : Type} {here : Cursor} {defined : List String} {next : Unit → Parse β}
    (hc : here.Closed) :
    (skipTrivia >>= next) context (here.state defined) =
      next () context
        (Cursor.state ⟨here.rest.dropWhile (isTrivia ·.value), here.data⟩ defined) := by
  have hne : (here.rest.dropWhile (isTrivia ·.value)).isEmpty = false := by
    obtain ⟨_, hm, _⟩ := Cursor.Closed.dropWhile hc
    exact List.isEmpty_eq_false_iff.mpr (List.ne_nil_of_mem hm)
  apply bind_of_ok
  simp only [skipTrivia, get_bind, read_bind]
  change (if ((here.rest.dropWhile (isTrivia ·.value)).isEmpty &&
    isTrivia context.last.value) = true then _ else _ : Parse Unit) context (here.state defined) = _
  rw [hne]
  rfl

-- Where at most so many tokens are left, a parser succeeds exactly on the functions whose names may
-- be defined there.
def RecognizesFunctions (context : Context) (nested : Parse Function) (bound : Nat) : Prop :=
  ∀ (here : Cursor) (defined : List String) (result : Function × State), here.Closed →
    here.rest.length < bound → (nested context (here.state defined) = .ok result ↔
      ∃ after, FunctionAt context.known here result.1 after ∧
        after.Leaves context.known defined result.1.definitions result.2)

theorem externList_bind_ok_iff {β : Type} {span : Span} {rest : List (Located Token)}
    {data : List UInt8} {defined : List String} {next : List String → Parse β}
    {result : β × State} (hc : Cursor.Closed ⟨⟨span, .keyword .external⟩ :: rest, data⟩) :
    (externList >>= next) context
        (Cursor.state ⟨⟨span, .keyword .external⟩ :: rest, data⟩ defined) = .ok result ↔
      ∃ names middle, (ListAt NameAt ⟨rest, data⟩ names middle ∧ middle.Ends) ∧
        next (names.map (·.value)) context (middle.state defined) = .ok result := by
  have hrest := Cursor.closed_tail hc (by simp)
  rw [bind_ok_iff, externList, expect_bind]
  constructor
  · rintro ⟨_, _, h, hnext⟩
    obtain ⟨names, _, hnames, h⟩ := bind_ok_iff.mp h
    obtain ⟨middle, ⟨hlist, _⟩, rfl⟩ := (names_recognizes _ _ _ hrest).mp hnames
    obtain ⟨_, _, hstop, h⟩ := bind_ok_iff.mp h
    obtain ⟨hends, rfl⟩ :=
      (endOfStatement_ok_iff ((hlist.passes NameAt.passes).closed hrest)).mp hstop
    cases h
    exact ⟨names, middle, ⟨hlist, hends⟩, hnext⟩
  · rintro ⟨names, middle, ⟨hlist, hends⟩, hnext⟩
    have hmiddle := (hlist.passes NameAt.passes).closed hrest
    have hcomma : ¬middle.Begins (.symbol .comma) := by
      rintro ⟨_, _, hb⟩
      obtain ⟨rest, data⟩ := middle
      cases hb
      exact (ne_assign_of_ends hends).2 rfl
    refine ⟨_, _, ?_, hnext⟩
    refine bind_ok_iff.mpr ⟨names, _, (names_recognizes _ _ (names, middle.state defined)
      hrest).mpr ⟨middle, ⟨hlist, hcomma⟩, rfl⟩, ?_⟩
    exact bind_ok_iff.mpr ⟨(), _, (endOfStatement_ok_iff hmiddle).mpr ⟨hends, rfl⟩, rfl⟩

theorem definitions_ofFunction (position : Position) (function : Function) :
    (Statement.ofFunction position function).definitions = function.definitions := by
  simp [Statement.ofFunction, definitions, Function.definitions]

theorem statement_ok_iff (hnested : RecognizesFunctions context nested bound) {place : Place}
    {scope : String} (hplace : place.function? = some scope) {slots : SlotTable} {here : Cursor}
    {defined : List String} {result : (Statement × SlotTable) × State} (hc : here.Closed)
    (hb : here.rest.length < bound) :
    statement nested scope slots context (here.state defined) = .ok result ↔
      ∃ after, StatementAt context.known place slots here result.1.1 result.1.2 after ∧
        after.Leaves context.known defined result.1.1.definitions result.2 := by
  obtain ⟨⟨one, later⟩, state⟩ := result
  obtain ⟨span, token, rest, he⟩ := hc.exists_cons
  rw [he] at hc hb ⊢
  generalize here.data = data at hc hb ⊢
  have haction : token ≠ .keyword .external → token ≠ .keyword .func →
      ((action slots >>= fun pair => (pure (.action span.start scope pair.1, pair.2) :
        Parse (Statement × SlotTable))) context
          (Cursor.state ⟨⟨span, token⟩ :: rest, data⟩ defined) = .ok ((one, later), state) ↔
        ∃ after, StatementAt context.known place slots ⟨⟨span, token⟩ :: rest, data⟩ one later
          after ∧ after.Leaves context.known defined one.definitions state) := by
    intro hexternal hfunc
    rw [bind_ok_iff]
    constructor
    · rintro ⟨⟨found, next⟩, _, hfound, hresult⟩
      obtain ⟨after, hat, rfl⟩ := (action_recognizes _ _ _ hc).mp hfound
      cases hresult
      exact ⟨after, .action hplace hat, Cursor.leaves_nil.mpr rfl⟩
    · rintro ⟨after, hat, hleaves⟩
      cases hat with
      | externs => exact absurd rfl hexternal
      | function => exact absurd rfl hfunc
      | action owner found =>
          cases hplace.symm.trans owner
          exact ⟨(_, _), _, (action_recognizes _ _ (_, state) hc).mpr
            ⟨after, found, Cursor.leaves_nil.mp hleaves⟩, rfl⟩
  rw [statement, current_bind, peek_bind]
  cases token with
  | keyword keyword =>
      cases keyword with
      | external =>
          dsimp only
          rw [externList_bind_ok_iff hc]
          constructor
          · rintro ⟨names, after, ⟨hlist, hends⟩, hresult⟩
            cases hresult
            exact ⟨after, .externs hlist hends, Cursor.leaves_nil.mpr rfl⟩
          · rintro ⟨after, hat, hleaves⟩
            cases hat with
            | externs list ends =>
                cases Cursor.leaves_nil.mp hleaves
                exact ⟨_, after, ⟨list, ends⟩, rfl⟩
            | action _ one => cases one.starts
      | func =>
          dsimp only
          rw [bind_ok_iff]
          constructor
          · rintro ⟨function, _, hfunction, hresult⟩
            obtain ⟨after, hat, hleaves⟩ := (hnested _ _ _ hc hb).mp hfunction
            cases hresult
            exact ⟨after, .function hat, (definitions_ofFunction _ _).symm ▸ hleaves⟩
          · rintro ⟨after, hat, hleaves⟩
            cases hat with
            | function inner =>
                rw [definitions_ofFunction] at hleaves
                exact ⟨_, state, (hnested _ _ (_, state) hc hb).mpr ⟨after, inner, hleaves⟩, rfl⟩
            | action _ one => cases one.starts
      | _ => exact haction (by simp) (by simp)
  | _ => exact haction (by simp) (by simp)

-- A parser of the statements at a place, here for the tokens of a cursor with fewer than so many
-- tokens left.
def RecognizesStatements (context : Context) (place : Place) (bound : Nat)
    (parser : SlotTable → Parse (List Statement × SlotTable)) : Prop :=
  ∀ (slots : SlotTable) (here : Cursor) (defined : List String)
    (result : (List Statement × SlotTable) × State), here.Closed → here.rest.length < bound →
    (parser slots context (here.state defined) = .ok result ↔
      ∃ after, StatementsAt context.known place slots here result.1.1 result.1.2 after ∧
        after.Leaves context.known defined (definitionsIn result.1.1) result.2)

-- If the next token neither ends the statements nor is skipped, a statement is read and then the
-- others. The functions of the one are defined before those of the others.
theorem statement_bind_ok_iff (hnested : RecognizesFunctions context nested bound) {place : Place}
    {scope : String} (hplace : place.function? = some scope)
    {parser : SlotTable → Parse (List Statement × SlotTable)} {slots : SlotTable} {here : Cursor}
    {defined : List String} {result : (List Statement × SlotTable) × State} (hc : here.Closed)
    (hb : here.rest.length < bound)
    (hparser : RecognizesStatements context place here.rest.length parser)
    (hstop : ∀ after, ¬place.Stops here after)
    (hskip : ∀ span token rest data, here = ⟨⟨span, token⟩ :: rest, data⟩ → ¬place.Skips token) :
    (statement nested scope slots >>= fun pair => parser pair.2 >>= fun others =>
      (pure (pair.1 :: others.1, others.2) : Parse (List Statement × SlotTable))) context
        (here.state defined) = .ok result ↔
      ∃ after, StatementsAt context.known place slots here result.1.1 result.1.2 after ∧
        after.Leaves context.known defined (definitionsIn result.1.1) result.2 := by
  obtain ⟨⟨body, later⟩, state⟩ := result
  rw [bind_ok_iff]
  constructor
  · rintro ⟨⟨one, between⟩, _, hone, h⟩
    obtain ⟨middle, hat, hfresh, hstate⟩ := (statement_ok_iff hnested hplace hc hb).mp hone
    dsimp only at hat hfresh hstate
    subst hstate
    obtain ⟨⟨others, last⟩, _, hothers, hresult⟩ := bind_ok_iff.mp h
    obtain ⟨after, hmore, hleaves⟩ :=
      (hparser _ _ _ _ (hat.passes.closed hc) hat.passes.2).mp hothers
    cases hresult
    exact ⟨after, statementsAt_iff.mpr (.inr (.inr ⟨_, _, _, _, rfl, hat, hmore⟩)),
      Cursor.leaves_append.mpr ⟨hfresh, hleaves⟩⟩
  · rintro ⟨after, hat, hleaves⟩
    dsimp only at hat hleaves
    rcases statementsAt_iff.mp hat with ⟨stop, _⟩ | ⟨_, _, _, _, he, skip, _⟩ |
      ⟨one, others, between, middle, rfl, hone, hmore⟩
    · exact absurd stop (hstop after)
    · exact absurd skip (hskip _ _ _ _ he)
    · obtain ⟨hfresh, hleaves⟩ := Cursor.leaves_append.mp hleaves
      refine ⟨(one, between), middle.state (one.definitions.reverse ++ defined),
        (statement_ok_iff hnested hplace hc hb).mpr ⟨middle, hone, hfresh, rfl⟩, ?_⟩
      exact bind_ok_iff.mpr ⟨(others, later), state, (hparser _ _ _ (_, state)
        (hone.passes.closed hc) hone.passes.2).mpr ⟨after, hmore, hleaves⟩, rfl⟩

theorem statementsAt_of_stops {place : Place} {slots : SlotTable} {here next : Cursor}
    {defined : List String} {result : (List Statement × SlotTable) × State}
    (hstop : place.Stops here next) (honly : ∀ after, place.Stops here after → after = next)
    (hskip : ∀ span token rest data, here = ⟨⟨span, token⟩ :: rest, data⟩ →
      ¬place.Skips token ∧ ¬StartsStatement token) :
    result = (([], slots), next.state defined) ↔
      ∃ after, StatementsAt context.known place slots here result.1.1 result.1.2 after ∧
        after.Leaves context.known defined (definitionsIn result.1.1) result.2 := by
  obtain ⟨⟨body, later⟩, state⟩ := result
  constructor
  · rintro ⟨⟩
    exact ⟨next, .stop hstop, Cursor.leaves_nil.mpr rfl⟩
  · rintro ⟨after, hat, hleaves⟩
    dsimp only at hat hleaves
    rcases statementsAt_iff.mp hat with ⟨stop, rfl, rfl⟩ | ⟨_, _, _, _, he, skip, _⟩ |
      ⟨_, _, _, _, _, one, _⟩
    · cases honly after stop
      rw [Cursor.leaves_nil.mp hleaves]
    · exact absurd skip (hskip _ _ _ _ he).1
    · obtain ⟨rest, data⟩ := here
      cases rest with
      | nil => cases one
      | cons first rest => exact absurd one.starts (hskip _ _ _ _ rfl).2

theorem blockBody_recognizes (hnested : RecognizesFunctions context nested bound) (scope : String)
    (rounds : Nat) (hrounds : rounds ≤ bound) :
    RecognizesStatements context (.block scope) rounds (blockBody nested scope rounds) := by
  induction rounds with
  | zero =>
      intro slots here defined result _ hlt
      omega
  | succ rounds ih =>
      rintro slots here defined result hc hlt
      have hdrop := Cursor.Closed.dropWhile hc
      have hle : (here.rest.dropWhile (isTrivia ·.value)).length ≤ here.rest.length :=
        (List.dropWhile_sublist _).length_le
      rw [blockBody, skipTrivia_bind hc]
      have hsame : ∀ after, StatementsAt context.known (.block scope) slots here result.1.1
          result.1.2 after ↔ StatementsAt context.known (.block scope) slots
            ⟨here.rest.dropWhile (isTrivia ·.value), here.data⟩ result.1.1 result.1.2 after := by
        intro after
        refine statementsAt_dropWhile_iff (fun ht => .block ht) ?_ here.rest here.data
        rintro _ _ _ _ _ ht ⟨⟩
        cases ht
      simp only [hsame]
      obtain ⟨span, token, rest, he, htrivia⟩ := hc.dropWhile_eq_cons
      rw [he] at hdrop hle ⊢
      generalize here.data = data at *
      rw [peek_bind]
      have hone : token ≠ .symbol .closeCurly →
          ((statement nested scope slots >>= fun pair => blockBody nested scope rounds pair.2 >>=
            fun others => (pure (pair.1 :: others.1, others.2) :
              Parse (List Statement × SlotTable))) context
                (Cursor.state ⟨⟨span, token⟩ :: rest, data⟩ defined) = .ok result ↔
            ∃ after, StatementsAt context.known (.block scope) slots
              ⟨⟨span, token⟩ :: rest, data⟩ result.1.1 result.1.2 after ∧
              after.Leaves context.known defined (definitionsIn result.1.1) result.2) := by
        intro hclose
        refine statement_bind_ok_iff hnested rfl hdrop (by dsimp only; omega) ?_ ?_ ?_
        · intro slots' here' defined' result' hc' hlt'
          dsimp only at hlt'
          exact ih (by omega) slots' here' defined' result' hc' (by omega)
        · rintro after ⟨⟩
          exact hclose rfl
        · rintro _ _ _ _ ⟨⟩ ⟨⟩
          exact htrivia ‹_›
      cases token with
      | endOfInput =>
          dsimp only
          rw [fail_ok_iff, false_iff]
          rintro ⟨after, hat, _⟩
          rcases statementsAt_iff.mp hat with ⟨stop, _⟩ | ⟨_, _, _, _, he, skip, _⟩ |
            ⟨_, _, _, _, _, one, _⟩
          · cases stop
          · cases he
            exact skip.ne_endOfInput rfl
          · cases one.starts with
            | action starts => cases starts
      | symbol symbol =>
          cases symbol with
          | closeCurly =>
              dsimp only
              rw [advance_bind, pure_ok_iff]
              refine statementsAt_of_stops .block ?_ ?_
              · rintro after ⟨⟩
                rfl
              · rintro _ _ _ _ ⟨⟩
                refine ⟨fun skip => ?_, fun starts => ?_⟩
                · cases skip with
                  | block trivia => cases trivia
                · cases starts with
                  | action starts => cases starts
          | _ => exact hone (by simp)
      | _ => exact hone (by simp)

theorem arrowBody_recognizes (hnested : RecognizesFunctions context nested bound) (scope : String)
    (rounds : Nat) (hrounds : rounds ≤ bound) :
    RecognizesStatements context (.arrow scope) rounds (arrowBody nested scope rounds) := by
  induction rounds with
  | zero =>
      intro slots here defined result _ hlt
      omega
  | succ rounds ih =>
      rintro slots here defined result hc hlt
      obtain ⟨span, token, rest, he⟩ := hc.exists_cons
      rw [he] at hc hlt ⊢
      generalize here.data = data at *
      dsimp only [List.length_cons] at hlt
      rw [arrowBody, peek_bind]
      have hone : ¬LineStop token → token ≠ .symbol .semicolon →
          ((statement nested scope slots >>= fun pair => arrowBody nested scope rounds pair.2 >>=
            fun others => (pure (pair.1 :: others.1, others.2) :
              Parse (List Statement × SlotTable))) context
                (Cursor.state ⟨⟨span, token⟩ :: rest, data⟩ defined) = .ok result ↔
            ∃ after, StatementsAt context.known (.arrow scope) slots
              ⟨⟨span, token⟩ :: rest, data⟩ result.1.1 result.1.2 after ∧
              after.Leaves context.known defined (definitionsIn result.1.1) result.2) := by
        intro hline hsemicolon
        refine statement_bind_ok_iff hnested rfl hc (by dsimp only [List.length_cons]; omega) ?_ ?_ ?_
        · intro slots' here' defined' result' hc' hlt'
          dsimp only [List.length_cons] at hlt'
          exact ih (by omega) slots' here' defined' result' hc' (by omega)
        · rintro after ⟨⟩
          exact hline ‹_›
        · rintro _ _ _ _ ⟨⟩ ⟨⟩
          exact hsemicolon rfl
      have hover : LineStop token → (result = (([], slots),
          Cursor.state ⟨⟨span, token⟩ :: rest, data⟩ defined) ↔
            ∃ after, StatementsAt context.known (.arrow scope) slots
              ⟨⟨span, token⟩ :: rest, data⟩ result.1.1 result.1.2 after ∧
              after.Leaves context.known defined (definitionsIn result.1.1) result.2) := by
        intro hline
        refine statementsAt_of_stops (.arrow hline) ?_ ?_
        · rintro after ⟨⟩
          rfl
        · rintro _ _ _ _ ⟨⟩
          refine ⟨fun skip => ?_, fun starts => ?_⟩
          · cases skip
            cases hline
          · cases starts with
            | externs => cases hline
            | function => cases hline
            | action starts => cases starts <;> cases hline
      cases token with
      | lineEnd => exact pure_ok_iff.trans (hover .lineEnd)
      | comment => exact pure_ok_iff.trans (hover .comment)
      | openComment style => exact pure_ok_iff.trans (hover (.openComment style))
      | endOfInput => exact pure_ok_iff.trans (hover .endOfInput)
      | symbol symbol =>
          cases symbol with
          | semicolon =>
              dsimp only
              rw [advance_bind, ih (by omega) slots ⟨rest, data⟩ defined result
                (Cursor.closed_tail hc (by simp)) (by dsimp only; omega)]
              refine exists_congr fun after => and_congr_left fun _ => ?_
              constructor
              · exact fun h => .skip .arrow h
              · intro h
                rcases statementsAt_iff.mp h with ⟨stop, _⟩ | ⟨_, _, _, _, he, _, more⟩ |
                  ⟨_, _, _, _, _, one, _⟩
                · cases stop with
                  | arrow stop => cases stop
                · cases he
                  exact more
                · cases one.starts with
                  | action starts => cases starts
          | _ => exact hone (by rintro ⟨⟩) (by simp)
      | _ => exact hone (by rintro ⟨⟩) (by simp)

theorem functionBody_ok_iff (hnested : RecognizesFunctions context nested bound) {scope : String}
    {slots : SlotTable} {here : Cursor} {defined : List String}
    {result : (List Statement × SlotTable) × State} (hc : here.Closed)
    (hb : here.rest.length ≤ bound) :
    functionBody nested scope slots context (here.state defined) = .ok result ↔
      ∃ place span token rest data after, here = ⟨⟨span, token⟩ :: rest, data⟩ ∧
        place.function? = some scope ∧ place.Opens token ∧
        StatementsAt context.known place slots ⟨rest, data⟩ result.1.1 result.1.2 after ∧
        after.Leaves context.known defined (definitionsIn result.1.1) result.2 := by
  obtain ⟨span, token, rest, he⟩ := hc.exists_cons
  rw [he] at hc hb ⊢
  generalize here.data = data at *
  dsimp only [List.length_cons] at hb
  rw [functionBody, peek_bind]
  have hnone : token ≠ .symbol .openCurly → token ≠ .symbol .arrow →
      ∀ (place : Place) (span' : Span) (token' : Token) (rest' : List (Located Token))
        (data' : List UInt8), (⟨⟨span, token⟩ :: rest, data⟩ : Cursor) =
          ⟨⟨span', token'⟩ :: rest', data'⟩ → ¬place.Opens token' := by
    rintro hcurly harrow place _ _ _ _ ⟨⟩ opens
    cases opens with
    | block => exact hcurly rfl
    | arrow => exact harrow rfl
  by_cases hcurly : token = .symbol .openCurly
  · subst hcurly
    have hrest := Cursor.closed_tail hc (by simp)
    dsimp only
    rw [expect_bind, remaining_bind, blockBody_recognizes hnested scope (rest.length + 1) hb slots
      ⟨rest, data⟩ defined result hrest (Nat.lt_succ_self _)]
    constructor
    · rintro ⟨after, hat, hleaves⟩
      exact ⟨.block scope, _, _, _, _, after, rfl, rfl, .block, hat, hleaves⟩
    · rintro ⟨place, _, _, _, _, after, he, owner, opens, hat, hleaves⟩
      cases he
      cases opens
      cases owner
      exact ⟨after, hat, hleaves⟩
  · by_cases harrow : token = .symbol .arrow
    · subst harrow
      have hrest := Cursor.closed_tail hc (by simp)
      dsimp only
      rw [expect_bind, remaining_bind, arrowBody_recognizes hnested scope (rest.length + 1) hb slots
        ⟨rest, data⟩ defined result hrest (Nat.lt_succ_self _)]
      constructor
      · rintro ⟨after, hat, hleaves⟩
        exact ⟨.arrow scope, _, _, _, _, after, rfl, rfl, .arrow, hat, hleaves⟩
      · rintro ⟨place, _, _, _, _, after, he, owner, opens, hat, hleaves⟩
        cases he
        cases opens
        cases owner
        exact ⟨after, hat, hleaves⟩
    · split
      · exact absurd rfl hcurly
      · exact absurd rfl harrow
      · rw [fail_ok_iff, false_iff]
        rintro ⟨place, _, _, _, _, _, he, _, opens, _⟩
        exact hnone hcurly harrow place _ _ _ _ he opens

theorem register_ok_iff {name : Located String} {here : Cursor} {defined : List String}
    {result : Unit × State} :
    register name context (here.state defined) = .ok result ↔
      here.Leaves context.known defined [name.value] result.2 := by
  rw [Cursor.Leaves, fresh_singleton, register, read_bind]
  have hstate : (here.state defined).defined = defined := rfl
  by_cases hknown : name.value ∈ context.known.externs
  · simp [hknown]
  · by_cases hdefined : name.value ∈ defined
    · simp [hknown, hdefined, get_bind, hstate]
    · simp only [List.contains_eq_mem, hknown, decide_false, Bool.false_eq_true, if_false, get_bind,
        hstate, hdefined]
      obtain ⟨⟨⟩, state⟩ := result
      simp only [not_false_eq_true, and_self, true_and, List.reverse_cons,
        List.reverse_nil, List.nil_append, List.cons_append]
      constructor
      · rintro ⟨⟩
        rfl
      · rintro ⟨⟩
        rfl

theorem functionWith_recognizes (hnested : RecognizesFunctions context nested bound) :
    RecognizesFunctions context (functionWith nested) (bound + 1) := by
  rintro here defined ⟨function, state⟩ hc hb
  rw [functionWith, bind_ok_iff]
  constructor
  · rintro ⟨_, _, hfunc, h⟩
    obtain ⟨span, rest, he, hstate⟩ := (expect_ok_iff hc).mp hfunc
    dsimp only at hstate
    subst hstate
    generalize here.data = data at *
    subst he
    dsimp only [List.length_cons] at hb
    have hrest := Cursor.closed_tail hc (by simp)
    obtain ⟨name, _, hname, h⟩ := bind_ok_iff.mp h
    obtain ⟨middle, hat, hstate⟩ := (identifier_recognizes _ _ _ hrest).mp hname
    dsimp only at hat hstate
    subst hstate
    have hmiddle := hat.passes.closed hrest
    obtain ⟨parameters, _, hparameters, h⟩ := bind_ok_iff.mp h
    obtain ⟨opening, hlist, hstate⟩ := (enclosedNames_recognizes _ _ _ hmiddle).mp hparameters
    dsimp only at hlist hstate
    subst hstate
    have hpass := hat.passes.trans (hlist.passes NameAt.passes)
    have hopening := hpass.closed hrest
    cases hslots : SlotTable.ofParameters (parameters.map (·.value)) with
    | error duplicate =>
        rw [hslots] at h
        simp at h
    | ok slots =>
        rw [hslots] at h
        obtain ⟨hdistinct, rfl⟩ := SlotTable.ofParameters_eq_ok_iff.mp hslots
        obtain ⟨⟨body, table⟩, _, hbody, h⟩ := bind_ok_iff.mp h
        have hlt := hpass.2
        dsimp only at hlt
        obtain ⟨place, _, _, inside, data', after, he, owner, opens, hstatements, hfresh, hstate⟩ :=
          (functionBody_ok_iff hnested hopening (by omega)).mp hbody
        dsimp only at hstatements hfresh hstate
        subst hstate
        obtain ⟨_, _, hregister, hresult⟩ := bind_ok_iff.mp h
        have hleaves := register_ok_iff.mp hregister
        cases hresult
        subst he
        cases hat
        exact ⟨after, .function hlist hdistinct owner opens hstatements,
          Cursor.leaves_append.mpr ⟨hfresh, hleaves⟩⟩
  · rintro ⟨after, hat, hleaves⟩
    cases hat with
    | @function rest data parameters openSpan opening inside data' name body table _ span nameSpan
        place list distinct owner opens statements =>
        dsimp only [List.length_cons] at hb
        have hname := Cursor.closed_tail hc (by simp)
        have hparameters := Cursor.closed_tail hname (by simp)
        have hpass := list.passes NameAt.passes
        have hlt := hpass.2
        have hopening := hpass.closed hparameters
        dsimp only at hlt
        obtain ⟨hfresh, hleaves⟩ := Cursor.leaves_append.mp hleaves
        refine ⟨(), Cursor.state ⟨⟨nameSpan, .name name⟩ :: rest, data⟩ defined,
          (expect_ok_iff hc).mpr ⟨_, _, rfl, rfl⟩, ?_⟩
        refine bind_ok_iff.mpr ⟨⟨nameSpan, name⟩, Cursor.state ⟨rest, data⟩ defined, rfl, ?_⟩
        refine bind_ok_iff.mpr ⟨parameters, _, (enclosedNames_recognizes _ _ (_, _)
          hparameters).mpr ⟨_, list, rfl⟩, ?_⟩
        rw [SlotTable.ofParameters_eq_ok_iff.mpr ⟨distinct, rfl⟩]
        dsimp only
        refine bind_ok_iff.mpr ⟨(body, table),
          after.state ((definitionsIn body).reverse ++ defined), ?_, ?_⟩
        · refine (functionBody_ok_iff hnested hopening (by dsimp only; omega)).mpr
            ⟨place, _, _, _, _, after, rfl, owner, opens, statements, hfresh, rfl⟩
        · exact bind_ok_iff.mpr ⟨(), state, register_ok_iff.mpr hleaves, rfl⟩

-- Each level of functions reads tokens of its own, so the tokens that are left bound the levels.
theorem function_recognizes (context : Context) (depth : Nat) :
    RecognizesFunctions context (function depth) depth := by
  induction depth with
  | zero =>
      intro here defined result _ hlt
      omega
  | succ depth ih => exact functionWith_recognizes ih

end RayCompiler.Parse
