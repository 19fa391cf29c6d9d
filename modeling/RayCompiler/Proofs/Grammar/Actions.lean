import RayCompiler.Proofs.Grammar.Operands

namespace RayCompiler.Grammar

variable {known : KnownNames} {slots : SlotTable}

-- The next two tokens are a name and an opening parenthesis.
def Cursor.CallAhead (here : Cursor) : Prop :=
  ∃ span name paren rest, here.rest = ⟨span, .name name⟩ :: ⟨paren, .symbol .openParen⟩ :: rest

theorem CallAt.callAhead {here after : Cursor} {call : Call}
    (h : CallAt known slots here call after) : here.CallAhead := by
  cases h with
  | call _ inside _ => cases inside <;> exact ⟨_, _, _, _, rfl⟩

theorem OperandAt.not_callAhead {here after : Cursor} {operand : Operand}
    (h : OperandAt known slots here operand after) (he : after.Ends) : ¬here.CallAhead := by
  rintro ⟨_, _, _, _, hb⟩
  obtain ⟨token, ht, hterm⟩ := he
  cases h <;> cases hb
  all_goals
    cases ht
    cases hterm with
    | line stop => cases stop

-- The right side of an assignment. A name before a parenthesis is always a call.
inductive ValueAt (known : KnownNames) (slots : SlotTable) : Cursor → Parse.Value → Cursor → Prop where
  | call (call : CallAt known slots here target after) : ValueAt known slots here (.call target) after
  | operand (operand : OperandAt known slots here value after) (other : ¬here.CallAhead) :
      ValueAt known slots here (.operand value) after

theorem ValueAt.passes {here after : Cursor} {value : Parse.Value}
    (h : ValueAt known slots here value after) : here.Passes after := by
  cases h with
  | call call => exact call.passes
  | operand operand => exact operand.passes

theorem ActionAt.passes {here after : Cursor} {action : Action} {later : SlotTable}
    (h : ActionAt known slots here action later after) : here.Passes after := by
  cases h with
  | ret inside => exact inside.passes.cons (by simp)
  | exit inside => exact inside.passes.cons (by simp)
  | declare list => exact (list.passes NameAt.passes).cons (by simp)
  | define right =>
      exact Cursor.Passes.cons (Cursor.Passes.cons (right.passes.cons (by simp)) (by simp)) (by simp)
  | defineCall right =>
      exact Cursor.Passes.cons (Cursor.Passes.cons (right.passes.cons (by simp)) (by simp)) (by simp)
  | assign _ right => exact Cursor.Passes.cons (right.passes.cons (by simp)) (by simp)
  | assignCall _ right => exact Cursor.Passes.cons (right.passes.cons (by simp)) (by simp)
  | call statement => exact statement.passes

end RayCompiler.Grammar

namespace RayCompiler.Parse

open Grammar

variable {context : Context} {slots : SlotTable}

theorem value_recognizes : Recognizes context (value slots) (ValueAt context.known slots) := by
  rintro here defined ⟨result, state⟩ hc
  have hcall : here.CallAhead → (value slots context (here.state defined) =
      (call slots >>= fun target => (pure (.call target) : Parse Value)) context
        (here.state defined)) := by
    rintro ⟨span, name, paren, rest, hb⟩
    obtain ⟨_, data⟩ := here
    cases hb
    rfl
  have hoperand : ¬here.CallAhead → (value slots context (here.state defined) =
      (operand slots >>= fun value => (pure (.operand value) : Parse Value)) context
        (here.state defined)) := by
    intro hnot
    obtain ⟨span, token, rest, he⟩ := hc.exists_cons
    rw [he] at hc hnot ⊢
    cases rest with
    | nil =>
        obtain ⟨_, hm, hend⟩ := hc
        cases List.mem_singleton.mp hm
        cases hend
        rfl
    | cons second rest =>
        obtain ⟨paren, token'⟩ := second
        simp only [value, peek_bind, peekSecond_bind]
        split
        · exact absurd ⟨_, _, _, _, rfl⟩ hnot
        · rfl
  by_cases ha : here.CallAhead
  · rw [hcall ha, bind_ok_iff]
    constructor
    · rintro ⟨target, _, htarget, hresult⟩
      obtain ⟨after, hat, rfl⟩ := (call_recognizes _ _ _ hc).mp htarget
      cases hresult
      exact ⟨after, .call hat, rfl⟩
    · rintro ⟨after, hat, hs⟩
      cases hat with
      | call hat => exact ⟨_, _, (call_recognizes _ _ (_, state) hc).mpr ⟨after, hat, hs⟩, rfl⟩
      | operand _ other => exact absurd ha other
  · rw [hoperand ha, bind_ok_iff]
    constructor
    · rintro ⟨value, _, hvalue, hresult⟩
      obtain ⟨after, hat, rfl⟩ := (operand_recognizes _ _ _ hc).mp hvalue
      cases hresult
      exact ⟨after, .operand hat ha, rfl⟩
    · rintro ⟨after, hat, hs⟩
      cases hat with
      | call hat => exact absurd hat.callAhead ha
      | operand hat =>
          exact ⟨_, _, (operand_recognizes _ _ (_, state) hc).mpr ⟨after, hat, hs⟩, rfl⟩

theorem declare_ok_iff {name : Located String} {state : State} {result : SlotTable × State} :
    declare slots name context state = .ok result ↔
      slots.resolve? name.value = none ∧ result = (slots.withVariables [name.value], state) := by
  unfold declare
  rw [SlotTable.resolve?_eq_none_iff]
  by_cases hm : .variable name.value ∈ slots.occupants
  · have hnone : slots.declare? name.value = none := by
      simp [SlotTable.declare?, SlotTable.resolve?_isSome_iff.mpr hm]
    rw [hnone]
    simp [hm]
  · have hsome := SlotTable.declare?_eq_some_iff.mpr ⟨hm, rfl, rfl⟩
    rw [hsome]
    simp [hm]

-- Names are declared one after another, so a name may not repeat an earlier one of its own list.
theorem foldlM_declare_ok_iff (names : List (Located String)) (slots : SlotTable) (state : State)
    (result : SlotTable × State) :
    names.foldlM declare slots context state = .ok result ↔
      (names.map (·.value)).Nodup ∧ (∀ name ∈ names, slots.resolve? name.value = none) ∧
        result = (slots.withVariables (names.map (·.value)), state) := by
  induction names generalizing slots with
  | nil => simp
  | cons first more ih =>
      rw [List.foldlM_cons, bind_ok_iff]
      have hfree : ∀ name : String, (slots.withVariables [first.value]).resolve? name = none ↔
          slots.resolve? name = none ∧ name ≠ first.value := by
        intro name
        simp only [SlotTable.resolve?_eq_none_iff, SlotTable.mem_occupants_withVariables, not_or,
          List.mem_singleton, ne_eq]
      constructor
      · rintro ⟨_, _, hfirst, hmore⟩
        obtain ⟨hnone, hpair⟩ := declare_ok_iff.mp hfirst
        cases hpair
        obtain ⟨hd, hf, rfl⟩ := (ih _).mp hmore
        refine ⟨?_, ?_, by simp [SlotTable.withVariables_withVariables]⟩
        · rw [List.map_cons, List.nodup_cons]
          refine ⟨?_, hd⟩
          intro hm
          obtain ⟨name, hm, he⟩ := List.mem_map.mp hm
          exact ((hfree _).mp (hf name hm)).2 he
        · intro name hm
          rcases List.mem_cons.mp hm with rfl | hm
          · exact hnone
          · exact ((hfree _).mp (hf name hm)).1
      · rintro ⟨hd, hf, rfl⟩
        rw [List.map_cons, List.nodup_cons] at hd
        refine ⟨_, _, declare_ok_iff.mpr ⟨hf first (by simp), rfl⟩, (ih _).mpr ⟨hd.2, ?_, ?_⟩⟩
        · intro name hm
          refine (hfree _).mpr ⟨hf name (List.mem_cons_of_mem _ hm), ?_⟩
          intro he
          exact hd.1 (he ▸ List.mem_map_of_mem hm)
        · simp [SlotTable.withVariables_withVariables]

-- The code after the sign of an assignment: the value, and the end of the statement.
theorem valueAt_ends_iff {here after : Cursor} {value : Value} :
    (ValueAt context.known slots here value after ∧ after.Ends) ↔
      match value with
      | .call call => CallAt context.known slots here call after
      | .operand operand => OperandAt context.known slots here operand after ∧ after.Ends := by
  constructor
  · rintro ⟨hat, hends⟩
    cases hat with
    | call call => exact call
    | operand operand => exact ⟨operand, hends⟩
  · intro h
    cases value with
    | call call => exact ⟨.call h, h.ends⟩
    | operand operand => exact ⟨.operand h.1 (h.1.not_callAhead h.2), h.2⟩

theorem value_endOfStatement_bind_ok_iff {β : Type} {construct : Construct} {next : Value → Parse β}
    {here : Cursor} {defined : List String} {result : β × State} (hc : here.Closed) :
    (value slots >>= fun value => endOfStatement construct >>= fun _ => next value) context
        (here.state defined) = .ok result ↔
      ∃ value after, (ValueAt context.known slots here value after ∧ after.Ends) ∧
        next value context (after.state defined) = .ok result := by
  rw [bind_ok_iff]
  constructor
  · rintro ⟨value, _, hvalue, h⟩
    obtain ⟨after, hat, rfl⟩ := (value_recognizes _ _ _ hc).mp hvalue
    obtain ⟨_, _, hstop, hnext⟩ := bind_ok_iff.mp h
    obtain ⟨hends, rfl⟩ := (endOfStatement_ok_iff (hat.passes.closed hc)).mp hstop
    exact ⟨value, after, ⟨hat, hends⟩, hnext⟩
  · rintro ⟨value, after, ⟨hat, hends⟩, hnext⟩
    refine ⟨value, _, (value_recognizes _ _ (value, after.state defined) hc).mpr
      ⟨after, hat, rfl⟩, ?_⟩
    exact bind_ok_iff.mpr ⟨(), _, (endOfStatement_ok_iff (hat.passes.closed hc)).mpr
      ⟨hends, rfl⟩, hnext⟩

theorem names_bind_of_not_comma {β : Type} {span : Span} {name : String} {token : Located Token}
    {rest : List (Located Token)} {data : List UInt8} {defined : List String}
    {next : List (Located String) → Parse β} (hc : Cursor.Closed ⟨token :: rest, data⟩)
    (ht : token.value ≠ .symbol .comma) :
    (commaList identifier >>= next) context
        (Cursor.state ⟨⟨span, .name name⟩ :: token :: rest, data⟩ defined) =
      next [⟨span, name⟩] context (Cursor.state ⟨token :: rest, data⟩ defined) := by
  apply bind_of_ok
  have hclosed : Cursor.Closed ⟨⟨span, .name name⟩ :: token :: rest, data⟩ := by
    obtain ⟨last, hm, he⟩ := hc
    exact ⟨last, List.mem_cons_of_mem _ hm, he⟩
  refine (names_recognizes _ _ (_, _) hclosed).mpr ⟨_, ⟨.one .name, ?_⟩, rfl⟩
  rintro ⟨_, _, hb⟩
  cases hb
  exact ht rfl

theorem definition_ok_iff {span nameSpan sign : Span} {name : String} {rest : List (Located Token)}
    {data : List UInt8} {defined : List String} {result : (Action × SlotTable) × State}
    (hc : Cursor.Closed ⟨⟨sign, .symbol .assign⟩ :: rest, data⟩) :
    declaration slots context (Cursor.state ⟨⟨span, .keyword .var⟩ :: ⟨nameSpan, .name name⟩ ::
        ⟨sign, .symbol .assign⟩ :: rest, data⟩ defined) = .ok result ↔
      ∃ value after, (ValueAt context.known slots ⟨rest, data⟩ value after ∧ after.Ends) ∧
        slots.resolve? name = none ∧
        result = (define (slots.withVariables [name]) name value, after.state defined) := by
  rw [declaration, expect_bind, names_bind_of_not_comma hc (by simp), peek_bind, if_pos rfl]
  dsimp only
  rw [expect_bind, value_endOfStatement_bind_ok_iff (Cursor.closed_tail hc (by simp))]
  constructor
  · rintro ⟨value, after, hvalue, h⟩
    obtain ⟨_, _, hdeclare, hresult⟩ := bind_ok_iff.mp h
    obtain ⟨hfresh, hpair⟩ := declare_ok_iff.mp hdeclare
    cases hpair
    exact ⟨value, after, hvalue, hfresh, pure_ok_iff.mp hresult⟩
  · rintro ⟨value, after, hvalue, hfresh, rfl⟩
    exact ⟨value, after, hvalue, bind_ok_iff.mpr ⟨_, _, declare_ok_iff.mpr ⟨hfresh, rfl⟩, rfl⟩⟩

theorem ne_assign_of_ends {span : Span} {token : Token} {rest : List (Located Token)}
    {data : List UInt8} (h : Cursor.Ends ⟨⟨span, token⟩ :: rest, data⟩) :
    token ≠ .symbol .assign ∧ token ≠ .symbol .comma := by
  obtain ⟨_, hh, hterm⟩ := h
  cases hh
  constructor <;> rintro rfl <;> cases hterm with
  | line stop => cases stop

-- A single name before an assignment sign is the only list of names that may have a value.
theorem declaration_ok_iff {span : Span} {rest : List (Located Token)} {data : List UInt8}
    {defined : List String} {result : (Action × SlotTable) × State}
    (hc : Cursor.Closed ⟨⟨span, .keyword .var⟩ :: rest, data⟩) :
    declaration slots context (Cursor.state ⟨⟨span, .keyword .var⟩ :: rest, data⟩ defined) =
        .ok result ↔
      ∃ after, ActionAt context.known slots ⟨⟨span, .keyword .var⟩ :: rest, data⟩ result.1.1
        result.1.2 after ∧ result.2 = after.state defined := by
  obtain ⟨⟨action, later⟩, state⟩ := result
  have hrest := Cursor.closed_tail hc (by simp)
  constructor
  · intro h
    have hfull := h
    rw [declaration, expect_bind] at h
    obtain ⟨names, _, hnames, h⟩ := bind_ok_iff.mp h
    obtain ⟨middle, ⟨hlist, _⟩, rfl⟩ := (names_recognizes _ _ _ hrest).mp hnames
    have hmiddle := (hlist.passes NameAt.passes).closed hrest
    obtain ⟨span', token, rest', he⟩ := hmiddle.exists_cons
    rw [he, peek_bind] at h
    by_cases ht : token = .symbol .assign
    · subst ht
      rw [if_pos rfl] at h
      cases hlist with
      | more _ tail =>
          obtain ⟨_, _, rfl⟩ := tail.exists_cons
          exact absurd h (by simp)
      | one head =>
          cases head
          cases he
          obtain ⟨value, after, hvalue, hfresh, hresult⟩ := (definition_ok_iff hmiddle).mp hfull
          rw [valueAt_ends_iff] at hvalue
          cases value with
          | call call =>
              cases hresult
              exact ⟨after, .defineCall hvalue hfresh, rfl⟩
          | operand operand =>
              cases hresult
              exact ⟨after, .define hvalue.1 hvalue.2 hfresh, rfl⟩
    · rw [if_neg ht, ← he] at h
      obtain ⟨_, _, hstop, h⟩ := bind_ok_iff.mp h
      obtain ⟨hends, hstate⟩ := (endOfStatement_ok_iff hmiddle).mp hstop
      dsimp only at hstate
      subst hstate
      obtain ⟨_, _, hfold, hresult⟩ := bind_ok_iff.mp h
      obtain ⟨hdistinct, hfresh, hpair⟩ := (foldlM_declare_ok_iff _ _ _ _).mp hfold
      cases hpair
      cases hresult
      exact ⟨middle, .declare hlist hends hdistinct hfresh, rfl⟩
  · rintro ⟨after, hat, hs⟩
    dsimp only at hs hat
    subst hs
    cases hat with
    | @declare _ _ names _ _ list ends distinct fresh =>
        have hafter := (list.passes NameAt.passes).closed hrest
        obtain ⟨span', token, rest', he⟩ := hafter.exists_cons
        have hother := ne_assign_of_ends (he ▸ ends)
        have hcomma : ¬after.Begins (.symbol .comma) := by
          rintro ⟨_, _, hb⟩
          rw [he] at hb
          cases hb
          exact hother.2 rfl
        rw [declaration, expect_bind, bind_of_ok ((names_recognizes _ _ (names, after.state defined)
          hrest).mpr ⟨after, ⟨list, hcomma⟩, rfl⟩), he, peek_bind, if_neg hother.1, ← he]
        refine bind_ok_iff.mpr ⟨(), _, (endOfStatement_ok_iff hafter).mpr ⟨ends, rfl⟩, ?_⟩
        exact bind_ok_iff.mpr ⟨_, _, (foldlM_declare_ok_iff _ _ _ _).mpr
          ⟨distinct, fresh, rfl⟩, rfl⟩
    | @define _ _ value _ _ _ _ _ right ends fresh =>
        exact (definition_ok_iff (Cursor.closed_tail hrest (by simp))).mpr
          ⟨.operand value, after, valueAt_ends_iff.mpr ⟨right, ends⟩, fresh, rfl⟩
    | @defineCall _ _ call _ _ _ _ _ right fresh =>
        exact (definition_ok_iff (Cursor.closed_tail hrest (by simp))).mpr
          ⟨.call call, after, valueAt_ends_iff.mpr right, fresh, rfl⟩
    | call statement => cases statement

theorem assignment_ok_iff {nameSpan sign : Span} {name : String} {rest : List (Located Token)}
    {data : List UInt8} {defined : List String} {result : (Action × SlotTable) × State}
    (hc : Cursor.Closed ⟨⟨nameSpan, .name name⟩ :: ⟨sign, .symbol .assign⟩ :: rest, data⟩) :
    assignment slots context
        (Cursor.state ⟨⟨nameSpan, .name name⟩ :: ⟨sign, .symbol .assign⟩ :: rest, data⟩ defined) =
        .ok result ↔
      ∃ after, ActionAt context.known slots
        ⟨⟨nameSpan, .name name⟩ :: ⟨sign, .symbol .assign⟩ :: rest, data⟩ result.1.1 result.1.2
          after ∧ result.2 = after.state defined := by
  obtain ⟨⟨action, later⟩, state⟩ := result
  have hright := Cursor.closed_tail (Cursor.closed_tail hc (by simp)) (by simp)
  have hname : identifier context
      (Cursor.state ⟨⟨nameSpan, .name name⟩ :: ⟨sign, .symbol .assign⟩ :: rest, data⟩ defined) =
        .ok (⟨nameSpan, name⟩, Cursor.state ⟨⟨sign, .symbol .assign⟩ :: rest, data⟩ defined) := rfl
  rw [assignment, bind_of_ok hname]
  by_cases hfound : (slots.resolve? name).isSome
  · rw [if_pos hfound, expect_bind, value_endOfStatement_bind_ok_iff hright]
    constructor
    · rintro ⟨value, after, hvalue, hresult⟩
      rw [valueAt_ends_iff] at hvalue
      cases value with
      | call call =>
          cases hresult
          exact ⟨after, .assignCall hfound hvalue, rfl⟩
      | operand operand =>
          cases hresult
          exact ⟨after, .assign hfound hvalue.1 hvalue.2, rfl⟩
    · rintro ⟨after, hat, hs⟩
      dsimp only at hs hat
      subst hs
      cases hat with
      | @assign _ _ _ value _ _ _ _ right ends =>
          exact ⟨.operand value, after, valueAt_ends_iff.mpr ⟨right, ends⟩, rfl⟩
      | @assignCall _ _ _ call _ _ _ _ right =>
          exact ⟨.call call, after, valueAt_ends_iff.mpr right, rfl⟩
      | call statement =>
          obtain ⟨_, _, _, _, hb⟩ := statement.callAhead
          cases hb
  · rw [if_neg hfound, failAt_ok_iff]
    refine ⟨False.elim, ?_⟩
    rintro ⟨after, hat, _⟩
    cases hat with
    | assign found => exact hfound found
    | assignCall found => exact hfound found
    | call statement =>
        obtain ⟨_, _, _, _, hb⟩ := statement.callAhead
        cases hb

theorem action_recognizes :
    Recognizes context (action slots) fun here result after =>
      ActionAt context.known slots here result.1 result.2 after := by
  rintro here defined ⟨⟨result, later⟩, state⟩ hc
  obtain ⟨span, token, rest, he⟩ := hc.exists_cons
  rw [he] at hc ⊢
  generalize here.data = data at hc ⊢
  rw [action, peek_bind]
  cases token with
  | keyword keyword =>
      have hrest := Cursor.closed_tail hc (by simp)
      cases keyword with
      | ret =>
          dsimp only
          rw [advance_bind, bind_ok_iff]
          constructor
          · rintro ⟨value, _, hvalue, hresult⟩
            obtain ⟨after, ⟨hat, hends⟩, rfl⟩ :=
              (singleArgument_recognizes .ret _ _ _ hrest).mp hvalue
            cases hresult
            exact ⟨after, .ret hat hends, rfl⟩
          · rintro ⟨after, hat, hs⟩
            cases hat with
            | ret inside ends =>
                exact ⟨_, _, (singleArgument_recognizes .ret _ _ (_, state) hrest).mpr
                  ⟨after, ⟨inside, ends⟩, hs⟩, rfl⟩
            | call statement => cases statement
      | exit =>
          dsimp only
          rw [advance_bind, bind_ok_iff]
          constructor
          · rintro ⟨value, _, hvalue, hresult⟩
            obtain ⟨after, ⟨hat, hends⟩, rfl⟩ :=
              (singleArgument_recognizes .exit _ _ _ hrest).mp hvalue
            cases hresult
            exact ⟨after, .exit hat hends, rfl⟩
          · rintro ⟨after, hat, hs⟩
            cases hat with
            | exit inside ends =>
                exact ⟨_, _, (singleArgument_recognizes .exit _ _ (_, state) hrest).mpr
                  ⟨after, ⟨inside, ends⟩, hs⟩, rfl⟩
            | call statement => cases statement
      | var => exact declaration_ok_iff hc
      | _ =>
          dsimp only
          rw [fail_ok_iff]
          refine ⟨False.elim, ?_⟩
          rintro ⟨after, hat, _⟩
          cases hat with
          | call statement => cases statement
  | name name =>
      have hrest := Cursor.closed_tail hc (by simp)
      obtain ⟨span', token', rest', he'⟩ := hrest.exists_cons
      simp only [Cursor.mk.injEq, and_true] at he'
      subst he'
      dsimp only
      rw [peekSecond_bind]
      by_cases ht : token' = .symbol .assign
      · subst ht
        rw [if_pos rfl]
        exact assignment_ok_iff hc
      · rw [if_neg ht, bind_ok_iff]
        constructor
        · rintro ⟨call, _, hcall, hresult⟩
          obtain ⟨after, hat, rfl⟩ := (call_recognizes _ _ _ hc).mp hcall
          cases hresult
          exact ⟨after, .call hat, rfl⟩
        · rintro ⟨after, hat, hs⟩
          cases hat with
          | assign => exact absurd rfl ht
          | assignCall => exact absurd rfl ht
          | call statement =>
              exact ⟨_, _, (call_recognizes _ _ (_, state) hc).mpr ⟨after, statement, hs⟩, rfl⟩
  | _ =>
      dsimp only
      rw [fail_ok_iff]
      refine ⟨False.elim, ?_⟩
      rintro ⟨after, hat, _⟩
      cases hat with
      | call statement => cases statement

end RayCompiler.Parse
