import RayCompiler.Proofs.Grammar.Lists

namespace RayCompiler.Grammar

variable {known : KnownNames} {slots : SlotTable}

theorem OperandAt.passes {here after : Cursor} {operand : Operand}
    (h : OperandAt known slots here operand after) : here.Passes after := by
  cases h with
  | pointee => exact Cursor.Passes.cons (Cursor.passes_tail (by simp)) (by simp)
  | address => exact Cursor.Passes.cons (Cursor.passes_tail (by simp)) (by simp)
  | symbolAddress => exact Cursor.Passes.cons (Cursor.passes_tail (by simp)) (by simp)
  | _ => exact Cursor.passes_tail (by simp)

theorem OperandAt.not_begins_closeParen {here after : Cursor} {operand : Operand}
    (h : OperandAt known slots here operand after) : ¬here.Begins (.symbol .closeParen) := by
  rintro ⟨_, _, hb⟩
  cases h <;> cases hb

theorem OptionalAt.passes {here after : Cursor} {operand : Operand}
    (h : OptionalAt known slots here operand after) : here.Passes after := by
  cases h with
  | absent => exact Cursor.Passes.cons (Cursor.passes_tail (by simp)) (by simp)
  | given inside =>
      exact Cursor.Passes.cons (inside.passes.trans (Cursor.passes_tail (by simp))) (by simp)

theorem CallAt.passes {here after : Cursor} {call : Call} (h : CallAt known slots here call after) :
    here.Passes after := by
  cases h with
  | call _ inside _ => exact (inside.passes OperandAt.passes).cons (by simp)

theorem CallAt.ends {here after : Cursor} {call : Call} (h : CallAt known slots here call after) :
    after.Ends := by
  cases h with
  | call _ _ ends => exact ends

-- An enclosed list of at most one operand is one operand or none.
theorem optionalAt_iff {here after : Cursor} {operand : Operand} :
    OptionalAt known slots here operand after ↔
      ∃ operands, EnclosedAt (OperandAt known slots) here operands after ∧ operands.length ≤ 1 ∧
        operand = operands.headD .absent := by
  constructor
  · intro h
    cases h with
    | absent => exact ⟨[], .empty, by simp, rfl⟩
    | given inside => exact ⟨[operand], .list (.one inside), by simp, rfl⟩
  · rintro ⟨operands, henclosed, hlen, rfl⟩
    cases henclosed with
    | empty => exact .absent
    | list inside =>
        cases inside with
        | one head => exact .given head
        | more _ tail =>
            obtain ⟨first, others, rfl⟩ := tail.exists_cons
            simp only [List.length_cons] at hlen
            omega

end RayCompiler.Grammar

namespace RayCompiler.Parse

open Grammar

variable {context : Context} {slots : SlotTable}

theorem valueOf?_eq_some_iff {known : KnownNames} {name : String} {operand : Operand} :
    valueOf? known slots name = some operand ↔
      (∃ slot, slots.resolve? name = some slot ∧ operand = .variable slot) ∨
      (slots.resolve? name = none ∧ name ∈ known.externs ∧ operand = .external name) ∨
      (slots.resolve? name = none ∧ name ∉ known.externs ∧ name ∈ known.functions ∧
        operand = .symbolAddress name) := by
  unfold valueOf?
  cases slots.resolve? name with
  | some slot => simp [eq_comm]
  | none =>
      by_cases he : name ∈ known.externs <;> by_cases hf : name ∈ known.functions <;>
        simp [he, hf, eq_comm]

theorem addressOf?_eq_some_iff {known : KnownNames} {name : String} {operand : Operand} :
    addressOf? known slots name = some operand ↔
      (∃ slot, slots.resolve? name = some slot ∧ operand = .address slot) ∨
      (slots.resolve? name = none ∧ (name ∈ known.functions ∨ name ∈ known.externs) ∧
        operand = .symbolAddress name) := by
  unfold addressOf?
  cases slots.resolve? name with
  | some slot => simp [eq_comm]
  | none =>
      by_cases he : name ∈ known.externs <;> by_cases hf : name ∈ known.functions <;>
        simp [KnownNames.contains, he, hf, eq_comm]

theorem resolved_ok_iff {name : Located String} {found : Option Operand} {state : State}
    {result : Operand × State} :
    resolved name found context state = .ok result ↔ found = some result.1 ∧ result.2 = state := by
  obtain ⟨operand, state'⟩ := result
  cases found with
  | none => simp [resolved]
  | some other =>
      change (pure other : Parse Operand) context state = .ok (operand, state') ↔ _
      rw [pure_ok_iff, Prod.mk.injEq, Option.some.injEq, eq_comm]

theorem operand_recognizes :
    Recognizes context (operand slots) (OperandAt context.known slots) := by
  rintro here defined ⟨result, state⟩ hc
  obtain ⟨span, token, rest, he⟩ := hc.exists_cons
  rw [he] at hc ⊢
  generalize here.data = data at hc ⊢
  constructor
  · intro h
    rw [operand, read_bind, advance_bind] at h
    dsimp only at h
    cases token with
    | number value =>
        simp only [pure_ok_iff, Prod.mk.injEq] at h
        obtain ⟨rfl, rfl⟩ := h
        exact ⟨_, .literal, rfl⟩
    | string contents =>
        cases h
        exact ⟨_, .string, rfl⟩
    | name name =>
        obtain ⟨hfound, rfl⟩ := resolved_ok_iff.mp h
        rcases valueOf?_eq_some_iff.mp hfound with ⟨slot, hs, rfl⟩ | ⟨hn, hx, rfl⟩ |
          ⟨hn, hx, hf, rfl⟩
        · exact ⟨_, .variable hs, rfl⟩
        · exact ⟨_, .external hn hx, rfl⟩
        · exact ⟨_, .function hn hx hf, rfl⟩
    | symbol symbol =>
        have hrest := Cursor.closed_tail hc (by simp)
        cases symbol with
        | times =>
            obtain ⟨name, middle, hname, h⟩ := bind_ok_iff.mp h
            obtain ⟨after, hat, rfl⟩ := (identifier_recognizes _ _ _ hrest).mp hname
            obtain ⟨hfound, rfl⟩ := resolved_ok_iff.mp h
            obtain ⟨slot, hs, rfl⟩ := Option.map_eq_some_iff.mp hfound
            cases hat
            exact ⟨_, .pointee hs, rfl⟩
        | ampersand =>
            obtain ⟨name, middle, hname, h⟩ := bind_ok_iff.mp h
            obtain ⟨after, hat, rfl⟩ := (identifier_recognizes _ _ _ hrest).mp hname
            obtain ⟨hfound, rfl⟩ := resolved_ok_iff.mp h
            cases hat
            rcases addressOf?_eq_some_iff.mp hfound with ⟨slot, hs, rfl⟩ | ⟨hn, hx, rfl⟩
            · exact ⟨_, .address hs, rfl⟩
            · exact ⟨_, .symbolAddress hn hx, rfl⟩
        | _ => simp at h
    | _ => simp at h
  · rintro ⟨after, hat, hs⟩
    dsimp only at hs
    subst hs
    rw [operand, read_bind, advance_bind]
    dsimp only
    cases hat with
    | literal => rfl
    | string => rfl
    | «variable» found =>
        exact resolved_ok_iff.mpr ⟨valueOf?_eq_some_iff.mpr (.inl ⟨_, found, rfl⟩), rfl⟩
    | external missing imported =>
        exact resolved_ok_iff.mpr
          ⟨valueOf?_eq_some_iff.mpr (.inr (.inl ⟨missing, imported, rfl⟩)), rfl⟩
    | function missing other function =>
        exact resolved_ok_iff.mpr
          ⟨valueOf?_eq_some_iff.mpr (.inr (.inr ⟨missing, other, function, rfl⟩)), rfl⟩
    | pointee found =>
        exact bind_ok_iff.mpr ⟨⟨_, _⟩, _, rfl, resolved_ok_iff.mpr
          ⟨Option.map_eq_some_iff.mpr ⟨_, found, rfl⟩, rfl⟩⟩
    | address found =>
        exact bind_ok_iff.mpr ⟨⟨_, _⟩, _, rfl, resolved_ok_iff.mpr
          ⟨addressOf?_eq_some_iff.mpr (.inl ⟨_, found, rfl⟩), rfl⟩⟩
    | symbolAddress missing symbol =>
        exact bind_ok_iff.mpr ⟨⟨_, _⟩, _, rfl, resolved_ok_iff.mpr
          ⟨addressOf?_eq_some_iff.mpr (.inr ⟨missing, symbol, rfl⟩), rfl⟩⟩

theorem operands_recognizes :
    Recognizes context (parenthesized (operand slots))
      (EnclosedAt (OperandAt context.known slots)) :=
  parenthesized_recognizes operand_recognizes OperandAt.passes OperandAt.not_begins_closeParen

theorem arguments_recognizes (limit : Option Nat) (construct : Construct) :
    Recognizes context (arguments slots limit construct) fun here operands after =>
      EnclosedAt (OperandAt context.known slots) here operands after ∧
        (∀ count, limit = some count → operands.length ≤ count) ∧ after.Ends := by
  rintro here defined ⟨operands, state⟩ hc
  constructor
  · intro h
    obtain ⟨items, _, hitems, h⟩ := bind_ok_iff.mp h
    obtain ⟨after, henclosed, rfl⟩ := (operands_recognizes _ _ _ hc).mp hitems
    have hafter := (henclosed.passes OperandAt.passes).closed hc
    have hbound : ∀ count, limit = some count → items.length ≤ count := by
      rintro count rfl
      by_contra hlt
      simp only [Nat.not_le.mp hlt, if_true] at h
      obtain ⟨_, _, hfail, _⟩ := bind_ok_iff.mp h
      exact fail_ok_iff.mp hfail
    have hend : (endOfStatement construct >>= fun _ => (pure items : Parse (List Operand))) context
        (after.state defined) = .ok (operands, state) := by
      cases limit with
      | none => exact h
      | some count =>
          simp only [Nat.not_lt.mpr (hbound count rfl), if_false] at h
          exact h
    obtain ⟨_, _, hstop, hresult⟩ := bind_ok_iff.mp hend
    obtain ⟨hends, rfl⟩ := (endOfStatement_ok_iff hafter).mp hstop
    cases hresult
    exact ⟨after, ⟨henclosed, hbound, hends⟩, rfl⟩
  · rintro ⟨after, ⟨henclosed, hbound, hends⟩, hs⟩
    dsimp only at hs henclosed hbound
    subst hs
    have hafter := (henclosed.passes OperandAt.passes).closed hc
    have hend : (endOfStatement construct >>= fun _ => (pure operands : Parse (List Operand)))
        context (after.state defined) = .ok (operands, after.state defined) :=
      bind_ok_iff.mpr ⟨(), _, (endOfStatement_ok_iff hafter).mpr ⟨hends, rfl⟩, rfl⟩
    refine bind_ok_iff.mpr ⟨operands, _, (operands_recognizes _ _ _ hc).mpr
      ⟨after, henclosed, rfl⟩, ?_⟩
    cases limit with
    | none => exact hend
    | some count =>
        simp only [Nat.not_lt.mpr (hbound count rfl), if_false]
        exact hend

theorem singleArgument_recognizes (construct : Construct) :
    Recognizes context (singleArgument slots construct) fun here value after =>
      OptionalAt context.known slots here value after ∧ after.Ends := by
  rintro here defined ⟨value, state⟩ hc
  constructor
  · intro h
    obtain ⟨operands, _, hoperands, hresult⟩ := bind_ok_iff.mp h
    obtain ⟨after, ⟨henclosed, hbound, hends⟩, rfl⟩ :=
      (arguments_recognizes (some 1) construct _ _ _ hc).mp hoperands
    cases hresult
    exact ⟨after, ⟨optionalAt_iff.mpr ⟨operands, henclosed, hbound 1 rfl, rfl⟩, hends⟩, rfl⟩
  · rintro ⟨after, ⟨hopt, hends⟩, hs⟩
    dsimp only at hs hopt
    subst hs
    obtain ⟨operands, henclosed, hlen, rfl⟩ := optionalAt_iff.mp hopt
    refine bind_ok_iff.mpr ⟨operands, _, (arguments_recognizes (some 1) construct _ _
      (operands, after.state defined) hc).mpr ⟨after, ⟨henclosed, ?_, hends⟩, rfl⟩, rfl⟩
    rintro count ⟨⟩
    exact hlen

theorem call_recognizes : Recognizes context (call slots) (CallAt context.known slots) := by
  rintro here defined ⟨result, state⟩ hc
  have hcallable : ∀ name : String, (context.known.contains name || (slots.resolve? name).isSome) =
      true ↔ name ∈ context.known.functions ∨ name ∈ context.known.externs ∨
        (slots.resolve? name).isSome := by
    intro name
    simp [KnownNames.contains, or_assoc]
  constructor
  · intro h
    obtain ⟨name, _, hname, h⟩ := bind_ok_iff.mp h
    obtain ⟨middle, hat, rfl⟩ := (identifier_recognizes _ _ _ hc).mp hname
    have hmiddle := hat.passes.closed hc
    rw [read_bind] at h
    split at h
    · next hcall =>
        obtain ⟨operands, _, hoperands, hresult⟩ := bind_ok_iff.mp h
        obtain ⟨after, ⟨henclosed, _, hends⟩, rfl⟩ :=
          (arguments_recognizes none .call _ _ _ hmiddle).mp hoperands
        cases hresult
        cases hat
        exact ⟨after, .call ((hcallable _).mp hcall) henclosed hends, rfl⟩
    · simp at h
  · rintro ⟨after, hat, hs⟩
    dsimp only at hs hat
    subst hs
    cases hat with
    | @call name rest data operands _ span callable inside ends =>
        refine bind_ok_iff.mpr ⟨⟨span, name⟩, Cursor.state ⟨rest, data⟩ defined, rfl, ?_⟩
        rw [read_bind, if_pos ((hcallable name).mpr callable)]
        exact bind_ok_iff.mpr ⟨operands, _, (arguments_recognizes none .call _ _
          (operands, after.state defined) (Cursor.closed_tail hc (by simp))).mpr
            ⟨after, ⟨inside, by simp, ends⟩, rfl⟩, rfl⟩

end RayCompiler.Parse
