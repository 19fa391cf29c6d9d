import RayCompiler.Proofs.Grammar.Names

namespace RayCompiler.Grammar

variable {known : KnownNames} {slots : SlotTable}

-- A program is over or begins with a declaration, as no action stands outside the functions.
theorem statementsAt_module_iff {span : Span} {token : Token} {rest : List (Located Token)}
    {data : List UInt8} {body : List Statement} {after : Cursor} (ht : ¬Trivia token) :
    StatementsAt known .module slots ⟨⟨span, token⟩ :: rest, data⟩ body slots after ↔
      (token = .endOfInput ∧ body = [] ∧ after = ⟨⟨span, token⟩ :: rest, data⟩) ∨
      ∃ one more middle, body = one :: more ∧
        StatementAt known .module slots ⟨⟨span, token⟩ :: rest, data⟩ one slots middle ∧
        StatementsAt known .module slots middle more slots after := by
  rw [statementsAt_iff]
  constructor
  · rintro (⟨stop, rfl, _⟩ | ⟨_, _, _, _, he, skip, _⟩ | ⟨one, more, between, middle, rfl, hone, hmore⟩)
    · cases stop
      exact .inl ⟨rfl, rfl, rfl⟩
    · cases he
      cases skip
      exact absurd ‹_› ht
    · have hslots : between = slots := by
        cases hone with
        | externs => rfl
        | function => rfl
        | action owner => cases owner
      subst hslots
      exact .inr ⟨one, more, middle, rfl, hone, hmore⟩
  · rintro (⟨rfl, rfl, rfl⟩ | ⟨one, more, middle, rfl, hone, hmore⟩)
    · exact .inl ⟨.module, rfl, rfl⟩
    · exact .inr (.inr ⟨one, more, slots, middle, rfl, hone, hmore⟩)

end RayCompiler.Grammar

namespace RayCompiler.Parse

open Grammar Statement

variable {context : Context} {nested : Parse Function} {parser : Parse (List Statement)}
  {rounds bound : Nat} {slots : SlotTable} {span : Span} {rest : List (Located Token)}
  {data : List UInt8} {defined : List String} {result : List Statement × State}

-- A parser reads the statements of a program if fewer tokens are left than the bound says.
def RecognizesItems (context : Context) (bound : Nat) (parser : Parse (List Statement)) : Prop :=
  ∀ (slots : SlotTable) (here : Cursor) (defined : List String) (result : List Statement × State),
    here.Closed → here.rest.length < bound →
    (parser context (here.state defined) = .ok result ↔
      ∃ after, StatementsAt context.known .module slots here result.1 slots after ∧
        after.Leaves context.known defined (definitionsIn result.1) result.2)

theorem RecognizesItems.cons_ok_iff (hparser : RecognizesItems context rounds parser)
    {here middle : Cursor} (hc : here.Closed) (hlt : here.rest.length ≤ rounds) {first : Statement}
    (hat : StatementAt context.known .module slots here first slots middle) :
    (parser >>= fun more => (pure (first :: more) : Parse (List Statement))) context
        (middle.state defined) = .ok result ↔
      ∃ more after, result.1 = first :: more ∧
        StatementsAt context.known .module slots middle more slots after ∧
        after.Leaves context.known defined (definitionsIn more) result.2 := by
  have hpass := hat.passes
  have hlength := hpass.2
  have hmore := fun more state =>
    hparser slots middle defined (more, state) (hpass.closed hc) (by omega)
  rw [bind_ok_iff]
  constructor
  · rintro ⟨more, state, h, hresult⟩
    obtain ⟨after, hstatements, hleaves⟩ := (hmore more state).mp h
    cases hresult
    exact ⟨more, after, rfl, hstatements, hleaves⟩
  · rintro ⟨more, after, hfirst, hstatements, hleaves⟩
    refine ⟨more, result.2, (hmore more _).mpr ⟨after, hstatements, hleaves⟩, ?_⟩
    rw [← hfirst]
    rfl

theorem externItem_ok_iff (hparser : RecognizesItems context rounds parser)
    (hc : Cursor.Closed ⟨⟨span, .keyword .external⟩ :: rest, data⟩) (hlt : rest.length < rounds) :
    (externList >>= fun names => parser >>= fun more =>
        (pure (.externs span.start names :: more) : Parse (List Statement))) context
        (Cursor.state ⟨⟨span, .keyword .external⟩ :: rest, data⟩ defined) = .ok result ↔
      ∃ after, StatementsAt context.known .module slots ⟨⟨span, .keyword .external⟩ :: rest, data⟩
          result.1 slots after ∧
        after.Leaves context.known defined (definitionsIn result.1) result.2 := by
  obtain ⟨statements, state⟩ := result
  have hitem := fun names middle hat => @RecognizesItems.cons_ok_iff context parser rounds slots defined
    (statements, state) hparser _ middle hc hlt (.externs span.start names) hat
  simp only [statementsAt_module_iff (show ¬Trivia (.keyword .external) by rintro ⟨⟩)]
  rw [externList_bind_ok_iff hc]
  constructor
  · rintro ⟨names, middle, ⟨list, ends⟩, h⟩
    obtain ⟨more, after, rfl, hstatements, hleaves⟩ := (hitem _ middle (.externs list ends)).mp h
    exact ⟨after, .inr ⟨_, more, middle, rfl, .externs list ends, hstatements⟩, hleaves⟩
  · rintro ⟨after, ⟨he, _⟩ | ⟨first, more, middle, rfl, hat, hstatements⟩, hleaves⟩
    · cases he
    · cases hat with
      | action owner => cases owner
      | externs list ends =>
          exact ⟨_, middle, ⟨list, ends⟩, (hitem _ middle (.externs list ends)).mpr
            ⟨more, after, rfl, hstatements, hleaves⟩⟩

theorem functionItem_ok_iff (hnested : RecognizesFunctions context nested bound)
    (hparser : RecognizesItems context rounds parser)
    (hc : Cursor.Closed ⟨⟨span, .keyword .func⟩ :: rest, data⟩) (hlt : rest.length < rounds)
    (hrounds : rounds < bound) :
    (nested >>= fun function => parser >>= fun more =>
        (pure (.ofFunction span.start function :: more) : Parse (List Statement))) context
        (Cursor.state ⟨⟨span, .keyword .func⟩ :: rest, data⟩ defined) = .ok result ↔
      ∃ after, StatementsAt context.known .module slots ⟨⟨span, .keyword .func⟩ :: rest, data⟩
          result.1 slots after ∧
        after.Leaves context.known defined (definitionsIn result.1) result.2 := by
  obtain ⟨statements, state⟩ := result
  have hitem := fun function middle hat defined => @RecognizesItems.cons_ok_iff context parser rounds
    slots defined (statements, state) hparser _ middle hc hlt (.ofFunction span.start function) hat
  have hb : (⟨span, .keyword .func⟩ :: rest : List (Located Token)).length < bound := by
    dsimp only [List.length_cons]
    omega
  simp only [statementsAt_module_iff (show ¬Trivia (.keyword .func) by rintro ⟨⟩)]
  rw [bind_ok_iff]
  constructor
  · rintro ⟨function, _, hfunction, h⟩
    obtain ⟨middle, found, hfresh, hstate⟩ := (hnested _ _ _ hc hb).mp hfunction
    dsimp only at hstate
    rw [hstate] at h
    obtain ⟨more, after, rfl, hstatements, hleaves⟩ :=
      (hitem function middle (.function found) _).mp h
    refine ⟨after, .inr ⟨_, more, middle, rfl, .function found, hstatements⟩, ?_⟩
    rw [← definitions_ofFunction span.start] at hfresh hleaves
    exact Cursor.leaves_append.mpr ⟨hfresh, hleaves⟩
  · rintro ⟨after, ⟨he, _⟩ | ⟨first, more, middle, rfl, hat, hstatements⟩, hleaves⟩
    · cases he
    · obtain ⟨hfresh, hleaves⟩ := Cursor.leaves_append.mp hleaves
      cases hat with
      | action owner => cases owner
      | @function _ _ _ function _ found =>
          rw [definitions_ofFunction] at hfresh hleaves
          refine ⟨function, middle.state (function.definitions.reverse ++ defined),
            (hnested _ _ (_, _) hc hb).mpr ⟨middle, found, hfresh, rfl⟩, ?_⟩
          exact (hitem function middle (.function found) _).mpr
            ⟨more, after, rfl, hstatements, hleaves⟩

-- The rounds of the loop are bounded by the tokens that are left, as each round reads a statement.
theorem items_recognizes (hnested : RecognizesFunctions context nested bound) (rounds : Nat)
    (hrounds : rounds ≤ bound) : RecognizesItems context rounds (items nested rounds) := by
  induction rounds with
  | zero =>
      intro slots here defined result _ hlt
      omega
  | succ rounds ih =>
      intro slots here defined result hc hlt
      have hparser := ih (by omega)
      have hdrop := Cursor.Closed.dropWhile hc
      have hle : (here.rest.dropWhile (isTrivia ·.value)).length ≤ here.rest.length :=
        (List.dropWhile_sublist _).length_le
      rw [items, skipTrivia_bind hc]
      have hsame : ∀ after, StatementsAt context.known .module slots here result.1 slots after ↔
          StatementsAt context.known .module slots
            ⟨here.rest.dropWhile (isTrivia ·.value), here.data⟩ result.1 slots after := by
        intro after
        refine statementsAt_dropWhile_iff (fun ht => .module ht) ?_ here.rest here.data
        rintro _ _ _ _ _ ht ⟨⟩
        cases ht
      simp only [hsame]
      obtain ⟨span, token, rest, he, htrivia⟩ := hc.dropWhile_eq_cons
      rw [he] at hdrop hle ⊢
      generalize here.data = data at *
      dsimp only [List.length_cons] at hle
      rw [current_bind, peek_bind]
      have hnone : token ≠ .endOfInput → token ≠ .keyword .external → token ≠ .keyword .func →
          ¬∃ after, StatementsAt context.known .module slots ⟨⟨span, token⟩ :: rest, data⟩ result.1
            slots after ∧ after.Leaves context.known defined (definitionsIn result.1) result.2 := by
        rintro hend hexternal hfunc ⟨_, hat, _⟩
        rcases (statementsAt_module_iff htrivia).mp hat with ⟨rfl, _⟩ | ⟨_, _, _, _, one, _⟩
        · exact hend rfl
        · cases one with
          | externs => exact hexternal rfl
          | function => exact hfunc rfl
          | action owner => cases owner
      cases token with
      | endOfInput =>
          obtain ⟨statements, state⟩ := result
          dsimp only
          rw [pure_ok_iff]
          constructor
          · rintro ⟨⟩
            exact ⟨_, (statementsAt_module_iff htrivia).mpr (.inl ⟨rfl, rfl, rfl⟩),
              Cursor.leaves_nil.mpr rfl⟩
          · rintro ⟨after, hat, hleaves⟩
            rcases (statementsAt_module_iff htrivia).mp hat with ⟨_, hnil, rfl⟩ | ⟨_, _, _, _, one, _⟩
            · subst hnil
              rw [Cursor.leaves_nil.mp hleaves]
            · cases one with
              | action owner => cases owner
      | keyword keyword =>
          cases keyword with
          | external => exact externItem_ok_iff hparser hdrop (by omega)
          | func => exact functionItem_ok_iff hnested hparser hdrop (by omega) (by omega)
          | _ => exact iff_of_false fail_ok_iff.mp (hnone (by simp) (by simp) (by simp))
      | _ => exact iff_of_false fail_ok_iff.mp (hnone (by simp) (by simp) (by simp))

end RayCompiler.Parse

namespace RayCompiler

open Grammar Statement

variable {tokens : List (Located Token)} {program : Program}

theorem EndsOnce.closed (h : EndsOnce tokens) (data : List UInt8) :
    Cursor.Closed ⟨tokens, data⟩ := by
  obtain ⟨front, span, rfl, _⟩ := h
  exact ⟨⟨span, .endOfInput⟩, by simp, rfl⟩

theorem EndsOnce.eq_singleton (h : EndsOnce tokens) {used rest : List (Located Token)} {span : Span}
    (he : tokens = used ++ ⟨span, .endOfInput⟩ :: rest) : rest = [] := by
  obtain ⟨front, last, rfl, hfront⟩ := h
  rcases List.append_eq_append_iff.mp he with ⟨middle, hused, hlast⟩ | ⟨middle, hfront', hrest⟩
  · cases middle with
    | nil => exact (List.cons.inj hlast).2.symm
    | cons first middle => simp at hlast
  · cases middle with
    | nil => exact (List.cons.inj hrest).2.symm ▸ rfl
    | cons first middle =>
        refine absurd ?_ (hfront first (by simp [hfront']))
        rw [← (List.cons.inj hrest).1]

namespace Grammar

variable {known : KnownNames}

theorem StatementsAt.exists_stops {place : Place} {slots later : SlotTable} {here after : Cursor}
    {body : List Statement} (h : StatementsAt known place slots here body later after) :
    ∃ last, place.Stops last after := by
  induction h with
  | stop stop => exact ⟨_, stop⟩
  | skip _ _ ih => exact ih
  | externs _ _ _ ih => exact ih
  | function _ _ _ _ _ _ _ ih => exact ih
  | action _ _ _ ih => exact ih

-- The statements of a whole program leave only the end of input.
theorem StatementsAt.rest_eq (htokens : EndsOnce tokens) {slots later : SlotTable}
    {data : List UInt8} {body : List Statement} {after : Cursor}
    (h : StatementsAt known .module slots ⟨tokens, data⟩ body later after) :
    ∃ span, after.rest = [⟨span, .endOfInput⟩] := by
  obtain ⟨used, hused, _⟩ := h.reaches
  obtain ⟨_, stop⟩ := h.exists_stops
  cases stop with
  | @module span rest data =>
      exact ⟨span, by rw [htokens.eq_singleton hused]⟩

-- The names that a scan finds in the tokens are those that the statements introduce.
theorem StatementsAt.introduced_eq (htokens : EndsOnce tokens) {slots later : SlotTable}
    {after : Cursor} (h : StatementsAt known .module slots ⟨tokens, []⟩ program.statements later after) :
    program.introduced = .ofTokens (tokens.map (·.value)) := by
  obtain ⟨span, hrest⟩ := h.rest_eq htokens
  obtain ⟨hfunctions, hexterns⟩ := h.scan_eq
  simp only [Cursor.tokens, hrest, List.map_cons, List.map_nil, KnownNames.functionNames,
    KnownNames.externNames, List.append_nil] at hfunctions hexterns
  rw [KnownNames.ofTokens, hfunctions, hexterns]
  rfl

end Grammar

theorem parse_ok_iff_statementsAt (htokens : EndsOnce tokens) :
    parse tokens = .ok program ↔
      ∃ after, StatementsAt (.ofTokens (tokens.map (·.value))) .module .empty ⟨tokens, []⟩
        program.statements .empty after ∧ after.data = program.data ∧
        Fresh (.ofTokens (tokens.map (·.value))) [] (definitionsIn program.statements) := by
  obtain ⟨last, hlast⟩ : ∃ last, tokens.getLast? = some last := by
    obtain ⟨front, span, rfl, _⟩ := htokens
    exact ⟨_, List.getLast?_concat⟩
  have hitems : ∀ result : List Statement × Parse.State,
      Parse.items (Parse.function (tokens.length + 1)) (tokens.length + 1)
        ⟨last, .ofTokens (tokens.map (·.value))⟩ (Cursor.state ⟨tokens, []⟩ []) = .ok result ↔
      ∃ after, StatementsAt (.ofTokens (tokens.map (·.value))) .module .empty ⟨tokens, []⟩ result.1
        .empty after ∧ after.Leaves (.ofTokens (tokens.map (·.value))) []
          (definitionsIn result.1) result.2 := by
    intro result
    exact Parse.items_recognizes (Parse.function_recognizes _ _) _ (Nat.le_refl _) _ _ _ _
      (htokens.closed []) (Nat.lt_succ_self _)
  obtain ⟨statements, data⟩ := program
  rw [parse, hlast]
  dsimp only
  constructor
  · intro h
    cases hrun : Parse.items (Parse.function (tokens.length + 1)) (tokens.length + 1)
        ⟨last, .ofTokens (tokens.map (·.value))⟩ ⟨tokens, [], []⟩ with
    | error error =>
        rw [hrun] at h
        cases h
    | ok result =>
        rw [hrun] at h
        cases h
        obtain ⟨after, hat, hfresh, hstate⟩ := (hitems result).mp hrun
        exact ⟨after, hat, by rw [hstate]; rfl, hfresh⟩
  · rintro ⟨after, hat, rfl, hfresh⟩
    have hrun := (hitems (statements, after.state ((definitionsIn statements).reverse ++ []))).mpr
      ⟨after, hat, hfresh, rfl⟩
    change (Parse.items _ _ _ (Cursor.state ⟨tokens, []⟩ []) >>= _) = _
    rw [hrun]
    rfl

theorem forms_of_parse (htokens : EndsOnce tokens) (h : parse tokens = .ok program) :
    Forms tokens program := by
  obtain ⟨after, hat, hdata, hdistinct, hapart⟩ := (parse_ok_iff_statementsAt htokens).mp h
  have hperm := perm_definitionsIn program.statements
  rw [← hat.introduced_eq htokens] at hat hapart
  obtain ⟨span, hrest⟩ := hat.rest_eq htokens
  refine ⟨⟨span, ?_⟩, hperm.nodup_iff.mp hdistinct, ?_⟩
  · rw [← hrest, ← hdata]
    exact hat
  · exact fun name hm => (hapart name (hperm.mem_iff.mpr hm)).1

theorem parse_of_forms (htokens : EndsOnce tokens) (h : Forms tokens program) :
    parse tokens = .ok program := by
  obtain ⟨⟨span, hat⟩, hdistinct, hapart⟩ := h
  have hperm := perm_definitionsIn program.statements
  have hnames := hat.introduced_eq htokens
  rw [hnames] at hat
  refine (parse_ok_iff_statementsAt htokens).mpr ⟨_, hat, rfl, hperm.nodup_iff.mpr hdistinct, ?_⟩
  intro name hm
  rw [← hnames]
  exact ⟨hapart name (hperm.mem_iff.mp hm), by simp⟩

-- The parser accepts exactly the programs that the grammar and its conditions describe, and gives
-- the one program that the tokens form.
theorem parse_eq_ok_iff_forms (htokens : EndsOnce tokens) :
    parse tokens = .ok program ↔ Forms tokens program :=
  ⟨forms_of_parse htokens, parse_of_forms htokens⟩

-- A function with a one-line function inside it, each of which calls the other:
-- func f(a) { func g() => f(1) (end of line) var x = g() }
def nestedTokens : List (Located Token) :=
  [.keyword .func, .name "f", .symbol .openParen, .name "a", .symbol .closeParen, .symbol .openCurly,
    .keyword .func, .name "g", .symbol .openParen, .symbol .closeParen, .symbol .arrow, .name "f",
    .symbol .openParen, .number 1, .symbol .closeParen, .lineEnd, .keyword .var, .name "x",
    .symbol .assign, .name "g", .symbol .openParen, .symbol .closeParen, .symbol .closeCurly,
    .endOfInput].map (⟨.point .start, ·⟩)

def nestedProgram : Program :=
  ⟨[.function .start "f" ["a"]
    [.function .start "g" [] [.action .start "g" (.call ⟨"f", [.literal 1]⟩)] ⟨[], [.result 0]⟩,
      .action .start "f" (.callAssign "x" ⟨"g", []⟩)] ⟨["a"], [.variable "x", .result 0]⟩], []⟩

theorem endsOnce_nestedTokens : EndsOnce nestedTokens :=
  ⟨nestedTokens.dropLast, .point .start, rfl, by decide⟩

theorem forms_nestedTokens : EndsOnce nestedTokens ∧ Forms nestedTokens nestedProgram :=
  ⟨endsOnce_nestedTokens, (parse_eq_ok_iff_forms endsOnce_nestedTokens).mp rfl⟩

end RayCompiler
