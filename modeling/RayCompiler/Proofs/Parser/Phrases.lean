import RayCompiler.Program.Parser.Function
import RayCompiler.Proofs.Parser.Progress

namespace RayCompiler.Parse

variable {context : Context} {bound : Nat} {slots : SlotTable} {state : State} {size : Nat}

theorem identifier_isItem : IsItem context identifier where
  steady _ _ _ := reads_identifier.endsBelow
  refuses _ hdry hcomma := reads_identifier.endsBelow_zero hdry (by simp [hcomma])

-- A list of names does not begin where another token is repeated for ever.
theorem names_dry (hdry : state.rest = []) (hlast : ∀ name, context.last.value ≠ .name name) :
    EndsBelow 0 (commaList identifier context state) :=
  (reads_identifier.endsBelow_zero hdry fun name => hlast name.value).bind_of_zero

theorem endsBelow_resolved {name : Located String} {found : Option Operand}
    (h : state.rest.length < size) : EndsBelow size (resolved name found context state) := by
  cases found with
  | none => exact ends_failAt (by simp)
  | some operand => exact .ok h

theorem operand_steady : Steady context bound (operand slots) := by
  intro state _
  have hle := (passed_tail context state).length_le
  rw [operand, read_bind, advance_bind_eq]
  generalize { state with rest := state.rest.tail } = later at hle ⊢
  have hname : ∀ find : Located String → Option Operand, EndsBelow (state.rest.length + 1)
      ((identifier >>= fun name => resolved name (find name)) context later) := by
    intro find
    apply reads_identifier.bind
    intro name last hlast
    have hle' := hlast.length_le
    exact endsBelow_resolved (by omega)
  cases (state.rest.headD context.last).value with
  | number value => exact .ok (by omega)
  | string contents => exact .ok (Nat.lt_succ_of_le hle)
  | name name => exact endsBelow_resolved (by omega)
  | symbol symbol =>
      cases symbol with
      | times => exact hname _
      | ampersand => exact hname _
      | _ => exact ends_failAt (by simp)
  | _ => exact ends_failAt (by simp)

theorem operand_isItem : IsItem context (operand slots) where
  steady _ := operand_steady
  refuses state hdry hcomma := by
    rw [operand, read_bind, advance_bind_eq, hdry]
    simp only [List.headD_nil, hcomma]
    exact ends_failAt (by simp)

theorem arguments_steady {limit : Option Nat} {construct : Construct} :
    Steady context bound (arguments slots limit construct) := by
  intro state _
  apply (parenthesized_steady operand_isItem state (Nat.lt_succ_self _)).bind
  intro operands later hlater
  have hends : EndsBelow (state.rest.length + 1)
      ((endOfStatement construct >>= fun _ => pure operands) context later) := by
    apply (endsBelow_endOfStatement construct).bind
    intro _ last hlast
    exact .ok (by omega)
  split
  · split
    · exact EndsBelow.bind_of_zero (ends_fail (by simp))
    · exact hends
  · exact hends

-- Arguments behind a token that is read, and nothing behind one that is repeated.
theorem endsBelow_arguments {limit : Option Nat} {construct : Construct} {token : Token}
    {later : State} (h : Passed context state token later) (htoken : token ≠ .symbol .openParen) :
    EndsBelow state.rest.length (arguments slots limit construct context later) := by
  cases h with
  | token fewer => exact EndsBelow.mono (arguments_steady later (Nat.lt_succ_self _)) fewer
  | repeated dry last =>
      rw [← last] at htoken
      exact (parenthesized_dry dry htoken).bind_of_zero

theorem call_consumes : Consumes context bound (call slots) := by
  intro state _
  apply reads_identifier.bind
  intro name later hlater
  rw [read_bind]
  split
  · apply (endsBelow_arguments hlater (by simp)).bind
    intro operands last hlast
    exact .ok hlast
  · exact ends_failAt (by simp)

theorem value_steady : Steady context bound (value slots) := by
  intro state _
  have hcall : EndsBelow (state.rest.length + 1)
      ((call slots >>= fun made => pure (Value.call made)) context state) := by
    apply (call_consumes.steady state (Nat.lt_succ_self _)).bind
    intro _ later hlater
    exact .ok hlater
  have hoperand : EndsBelow (state.rest.length + 1)
      ((operand slots >>= fun found => pure (Value.operand found)) context state) := by
    apply (operand_steady state (Nat.lt_succ_self _)).bind
    intro _ later hlater
    exact .ok hlater
  rw [value, peek_bind_eq, peekSecond_bind_eq]
  cases (state.rest.headD context.last).value with
  | name name =>
      cases (state.rest.getD 1 context.last).value with
      | symbol symbol =>
          cases symbol with
          | openParen => exact hcall
          | _ => exact hoperand
      | _ => exact hoperand
  | _ => exact hoperand

theorem endsBelow_declare {name : Located String} (h : state.rest.length < size) :
    EndsBelow size (declare slots name context state) := by
  fun_cases declare slots name with
  | case1 => exact .ok h
  | case2 => exact ends_failAt (by simp)

theorem endsBelow_foldlM_declare {names : List (Located String)} (h : state.rest.length < size) :
    EndsBelow size (names.foldlM declare slots context state) := by
  induction names generalizing slots state with
  | nil => exact .ok h
  | cons name more ih =>
      rw [List.foldlM_cons]
      apply (endsBelow_declare h).bind
      intro table later hlater
      exact ih hlater

theorem declaration_consumes : Consumes context bound (declaration slots) := by
  intro state _
  apply (reads_expect _).bind
  intro _ later hlater
  cases hlater with
  | repeated dry last => exact (names_dry dry (by simp [last])).bind_of_zero
  | token fewer =>
      apply (commaList_steady identifier_isItem later (Nat.lt_succ_self _)).bind
      intro names behind hbehind
      rw [peek_bind_eq]
      split
      · split
        · apply (reads_expect _).bind
          intro _ right hright
          have hle := hright.length_le
          apply (value_steady right (Nat.lt_succ_self _)).bind
          intro value last hlast
          apply (endsBelow_endOfStatement .variableDeclaration).bind
          intro _ final hfinal
          apply (endsBelow_declare (Nat.lt_succ_self _)).bind
          intro table final' hfinal'
          exact .ok (by omega)
        · exact ends_fail (by simp)
      · apply (endsBelow_endOfStatement .variableDeclaration).bind
        intro _ last hlast
        apply (endsBelow_foldlM_declare (Nat.lt_succ_self _)).bind
        intro table final hfinal
        exact .ok (by omega)

theorem assignment_consumes : Consumes context bound (assignment slots) := by
  intro state _
  apply reads_identifier.bind
  intro name later hlater
  split
  · apply (reads_expect _).bind
    intro _ right hright
    have hlt := hlater.length_lt hright (by simp)
    apply (value_steady right (Nat.lt_succ_self _)).bind
    intro value behind hbehind
    apply (endsBelow_endOfStatement .assignment).bind
    intro _ last hlast
    exact .ok (by omega)
  · exact ends_failAt (by simp)

theorem action_consumes : Consumes context bound (action slots) := by
  intro state hbound
  have hpassed := passed_tail context state
  have hsingle : ∀ (token : Token) (construct : Construct) (result : Operand → Action),
      (state.rest.headD context.last).value = token → token ≠ .symbol .openParen →
      EndsBelow state.rest.length ((advance >>= fun _ => singleArgument slots construct >>=
        fun value => (pure (result value, slots) : Parse (Action × SlotTable))) context state) := by
    intro token construct result htoken hne
    rw [htoken] at hpassed
    rw [advance_bind_eq, singleArgument, bind_assoc]
    apply (endsBelow_arguments hpassed hne).bind
    intro value last hlast
    exact .ok hlast
  have hname : EndsBelow state.rest.length
      ((if (state.rest.getD 1 context.last).value = .symbol .assign then assignment slots
        else call slots >>= fun made => pure (.call made, slots.reserve.2) :
          Parse (Action × SlotTable)) context state) := by
    split
    · exact assignment_consumes state hbound
    · apply (call_consumes state hbound).bind
      intro made later hlater
      exact .ok hlater
  rw [action, peek_bind_eq]
  cases htoken : (state.rest.headD context.last).value with
  | keyword keyword =>
      cases keyword with
      | ret => exact hsingle _ .ret .ret htoken (by simp)
      | exit => exact hsingle _ .exit .exit htoken (by simp)
      | var => exact declaration_consumes state hbound
      | _ => exact ends_fail (by simp)
  | name name => exact hname
  | _ => exact ends_fail (by simp)

theorem externList_consumes : Consumes context bound externList := by
  intro state _
  apply (reads_expect _).bind
  intro _ later hlater
  cases hlater with
  | repeated dry last => exact (names_dry dry (by simp [last])).bind_of_zero
  | token fewer =>
      apply (commaList_steady identifier_isItem later (Nat.lt_succ_self _)).bind
      intro names behind hbehind
      apply (endsBelow_endOfStatement .externDeclaration).bind
      intro _ last hlast
      exact .ok (by omega)

theorem register_steady {name : Located String} : Steady context bound (register name) := by
  intro state _
  rw [register, read_bind]
  split
  · exact ends_failAt (by simp)
  · rw [get_bind]
    split
    · exact ends_failAt (by simp)
    · exact .ok (Nat.lt_succ_self _)

end RayCompiler.Parse
