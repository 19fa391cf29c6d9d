import RayCompiler.Proofs.Grammar.Basic

namespace RayCompiler.Grammar

def Cursor.state (here : Cursor) (defined : List String) : Parse.State :=
  ⟨here.rest, defined, here.data⟩

-- The end of input is still to come.
def Cursor.Closed (here : Cursor) : Prop := ∃ token ∈ here.rest, token.value = .endOfInput

def Cursor.Begins (here : Cursor) (token : Token) : Prop :=
  ∃ span rest, here.rest = ⟨span, token⟩ :: rest

-- Reading on from one place to another never goes past the end of input.
def Cursor.Reaches (here after : Cursor) : Prop :=
  ∃ used, here.rest = used ++ after.rest ∧ ∀ token ∈ used, token.value ≠ .endOfInput

-- Reading on with at least one token read.
def Cursor.Passes (here after : Cursor) : Prop :=
  here.Reaches after ∧ after.rest.length < here.rest.length

theorem Cursor.Reaches.refl (here : Cursor) : here.Reaches here :=
  ⟨[], rfl, by simp⟩

theorem Cursor.Reaches.trans {here middle after : Cursor} (h : here.Reaches middle)
    (h' : middle.Reaches after) : here.Reaches after := by
  obtain ⟨used, hr, hu⟩ := h
  obtain ⟨used', hr', hu'⟩ := h'
  refine ⟨used ++ used', by rw [hr, hr', List.append_assoc], ?_⟩
  intro token hm
  rcases List.mem_append.mp hm with hm | hm
  · exact hu token hm
  · exact hu' token hm

theorem Cursor.Reaches.length_le {here after : Cursor} (h : here.Reaches after) :
    after.rest.length ≤ here.rest.length := by
  obtain ⟨used, hr, _⟩ := h
  simp [hr]

theorem Cursor.Reaches.closed {here after : Cursor} (h : here.Reaches after) (hc : here.Closed) :
    after.Closed := by
  obtain ⟨used, hr, hu⟩ := h
  obtain ⟨token, hm, he⟩ := hc
  rw [hr] at hm
  rcases List.mem_append.mp hm with hm | hm
  · exact absurd he (hu token hm)
  · exact ⟨token, hm, he⟩

theorem Cursor.Passes.closed {here after : Cursor} (h : here.Passes after) (hc : here.Closed) :
    after.Closed :=
  h.1.closed hc

theorem Cursor.Passes.trans_reaches {here middle after : Cursor} (h : here.Passes middle)
    (h' : middle.Reaches after) : here.Passes after :=
  ⟨h.1.trans h', Nat.lt_of_le_of_lt h'.length_le h.2⟩

theorem Cursor.Passes.trans {here middle after : Cursor} (h : here.Passes middle)
    (h' : middle.Passes after) : here.Passes after :=
  h.trans_reaches h'.1

theorem Cursor.passes_tail {token : Located Token} {rest : List (Located Token)}
    {data later : List UInt8} (h : token.value ≠ .endOfInput) :
    Cursor.Passes ⟨token :: rest, data⟩ ⟨rest, later⟩ :=
  ⟨⟨[token], rfl, by simpa using h⟩, by simp⟩

theorem Cursor.Passes.cons {token : Located Token} {rest : List (Located Token)}
    {data : List UInt8} {after : Cursor} (h : Cursor.Passes ⟨rest, data⟩ after)
    (ht : token.value ≠ .endOfInput) : Cursor.Passes ⟨token :: rest, data⟩ after :=
  (passes_tail ht).trans h

theorem Cursor.closed_tail {token : Located Token} {rest : List (Located Token)}
    {data : List UInt8} (h : Cursor.Closed ⟨token :: rest, data⟩) (ht : token.value ≠ .endOfInput) :
    Cursor.Closed ⟨rest, data⟩ :=
  (passes_tail ht).closed h

theorem Cursor.Closed.exists_cons {here : Cursor} (h : here.Closed) :
    ∃ span token rest, here = ⟨⟨span, token⟩ :: rest, here.data⟩ := by
  obtain ⟨rest, data⟩ := here
  obtain ⟨_, hm, _⟩ := h
  cases rest with
  | nil => cases hm
  | cons first rest => exact ⟨first.span, first.value, rest, rfl⟩

end RayCompiler.Grammar

namespace RayCompiler.Parse

open Grammar

section Runs

variable {α β : Type} {context : Context} {state : State}

theorem bind_ok_iff {parser : Parse α} {next : α → Parse β} {result : β × State} :
    (parser >>= next) context state = .ok result ↔
      ∃ a middle, parser context state = .ok (a, middle) ∧ next a context middle = .ok result := by
  change (parser context state >>= fun pair => next pair.1 context pair.2) = _ ↔ _
  cases parser context state with
  | error error => simp [bind, Except.bind]
  | ok pair =>
      obtain ⟨a, middle⟩ := pair
      constructor
      · exact fun h => ⟨a, middle, rfl, h⟩
      · rintro ⟨_, _, he, h⟩
        cases he
        exact h

theorem bind_of_ok {parser : Parse α} {next : α → Parse β} {a : α} {middle : State}
    (h : parser context state = .ok (a, middle)) :
    (parser >>= next) context state = next a context middle := by
  change (parser context state >>= fun pair => next pair.1 context pair.2) = _
  rw [h]
  rfl

@[simp] theorem pure_ok_iff {a : α} {result : α × State} :
    (pure a : Parse α) context state = .ok result ↔ result = (a, state) := by
  change Except.ok (a, state) = _ ↔ _
  simp [eq_comm]

@[simp] theorem failAt_ok_iff {span : Span} {cause : ParseError} {result : α × State} :
    (failAt span cause : Parse α) context state = .ok result ↔ False := by
  constructor
  · intro h
    cases h
  · exact False.elim

@[simp] theorem fail_ok_iff {cause : ParseError} {result : α × State} :
    (fail cause : Parse α) context state = .ok result ↔ False := by
  constructor
  · intro h
    cases h
  · exact False.elim

theorem read_bind {next : Context → Parse β} :
    ((read : Parse Context) >>= next) context state = next context context state := rfl

theorem get_bind {next : State → Parse β} :
    ((get : Parse State) >>= next) context state = next state context state := rfl

variable {span : Span} {token : Token} {rest : List (Located Token)} {data : List UInt8}
  {defined : List String}

theorem current_bind {next : Located Token → Parse β} :
    (current >>= next) context (Cursor.state ⟨⟨span, token⟩ :: rest, data⟩ defined) =
      next ⟨span, token⟩ context (Cursor.state ⟨⟨span, token⟩ :: rest, data⟩ defined) := rfl

theorem peek_bind {next : Token → Parse β} :
    (peek >>= next) context (Cursor.state ⟨⟨span, token⟩ :: rest, data⟩ defined) =
      next token context (Cursor.state ⟨⟨span, token⟩ :: rest, data⟩ defined) := rfl

theorem peekSecond_bind {first : Located Token} {next : Token → Parse β} :
    (peekSecond >>= next) context (Cursor.state ⟨first :: ⟨span, token⟩ :: rest, data⟩ defined) =
      next token context (Cursor.state ⟨first :: ⟨span, token⟩ :: rest, data⟩ defined) := rfl

theorem advance_bind {next : Located Token → Parse β} :
    (advance >>= next) context (Cursor.state ⟨⟨span, token⟩ :: rest, data⟩ defined) =
      next ⟨span, token⟩ context (Cursor.state ⟨rest, data⟩ defined) := rfl

theorem remaining_bind {here : Cursor} {next : Nat → Parse β} :
    (remaining >>= next) context (here.state defined) =
      next here.rest.length context (here.state defined) := rfl

theorem accept_bind_of_eq {next : Bool → Parse β} :
    (accept token >>= next) context (Cursor.state ⟨⟨span, token⟩ :: rest, data⟩ defined) =
      next true context (Cursor.state ⟨rest, data⟩ defined) := by
  have h : accept token context (Cursor.state ⟨⟨span, token⟩ :: rest, data⟩ defined) =
      .ok (true, Cursor.state ⟨rest, data⟩ defined) := by
    simp only [accept, peek_bind, if_true]
    rfl
  exact bind_of_ok h

theorem accept_bind_of_ne {wanted : Token} {next : Bool → Parse β} (hne : token ≠ wanted) :
    (accept wanted >>= next) context (Cursor.state ⟨⟨span, token⟩ :: rest, data⟩ defined) =
      next false context (Cursor.state ⟨⟨span, token⟩ :: rest, data⟩ defined) := by
  have h : accept wanted context (Cursor.state ⟨⟨span, token⟩ :: rest, data⟩ defined) =
      .ok (false, Cursor.state ⟨⟨span, token⟩ :: rest, data⟩ defined) := by
    simp only [accept, peek_bind, hne, if_false]
    rfl
  exact bind_of_ok h

end Runs

variable {α β : Type} {context : Context}

-- Where the end of input is still to come, a parser succeeds exactly on the phrases of a kind, reads
-- the phrase and defines no function.
def Recognizes (context : Context) (parser : Parse α) (phrase : Cursor → α → Cursor → Prop) : Prop :=
  ∀ (here : Cursor) (defined : List String) (result : α × State), here.Closed →
    (parser context (here.state defined) = .ok result ↔
      ∃ after, phrase here result.1 after ∧ result.2 = after.state defined)

theorem expect_ok_iff {wanted : Token} {here : Cursor} {defined : List String}
    {result : Unit × State} (hc : here.Closed) :
    expect wanted context (here.state defined) = .ok result ↔
      ∃ span rest, here = ⟨⟨span, wanted⟩ :: rest, here.data⟩ ∧
        result.2 = Cursor.state ⟨rest, here.data⟩ defined := by
  obtain ⟨span, token, rest, he⟩ := hc.exists_cons
  rw [he]
  obtain ⟨⟨⟩, state⟩ := result
  by_cases ht : token = wanted
  · subst ht
    simp only [expect, accept_bind_of_eq, Bool.not_true, Bool.false_eq_true, if_false, pure_ok_iff,
      Prod.mk.injEq, true_and]
    constructor
    · exact fun h => ⟨span, rest, rfl, h⟩
    · rintro ⟨_, _, h, hs⟩
      cases h
      exact hs
  · simp only [expect, accept_bind_of_ne ht, Bool.not_false, if_true, peek_bind, fail_ok_iff,
      false_iff, not_exists, not_and]
    rintro _ _ h
    cases h
    exact absurd rfl ht

theorem expect_bind {span : Span} {token : Token} {rest : List (Located Token)} {data : List UInt8}
    {defined : List String} {next : Unit → Parse β} :
    (expect token >>= next) context (Cursor.state ⟨⟨span, token⟩ :: rest, data⟩ defined) =
      next () context (Cursor.state ⟨rest, data⟩ defined) := by
  have h : expect token context (Cursor.state ⟨⟨span, token⟩ :: rest, data⟩ defined) =
      .ok ((), Cursor.state ⟨rest, data⟩ defined) := by
    simp only [expect, accept_bind_of_eq]
    rfl
  exact bind_of_ok h

theorem identifier_recognizes : Recognizes context identifier NameAt := by
  rintro here defined ⟨name, state⟩ hc
  obtain ⟨span, token, rest, he⟩ := hc.exists_cons
  rw [he]
  constructor
  · intro h
    simp only [identifier, peek_bind] at h
    split at h
    · simp only [advance_bind, pure_ok_iff, Prod.mk.injEq] at h
      obtain ⟨rfl, rfl⟩ := h
      exact ⟨_, .name, rfl⟩
    · simp at h
  · rintro ⟨after, hp, hs⟩
    cases hp
    rw [show state = _ from hs]
    rfl

theorem isTerminator_iff {token : Token} : isTerminator token = true ↔ Terminator token := by
  constructor
  · intro h
    cases token with
    | lineEnd => exact .line .lineEnd
    | comment => exact .line .comment
    | openComment style => exact .line (.openComment style)
    | endOfInput => exact .line .endOfInput
    | symbol symbol =>
        cases symbol with
        | semicolon => exact .semicolon
        | closeCurly => exact .closeCurly
        | _ => simp [isTerminator] at h
    | _ => simp [isTerminator] at h
  · intro h
    cases h with
    | line stop => cases stop <;> rfl
    | semicolon => rfl
    | closeCurly => rfl

theorem isTrivia_iff {token : Token} : isTrivia token = true ↔ Trivia token := by
  constructor
  · intro h
    cases token with
    | lineEnd => exact .lineEnd
    | comment => exact .comment
    | openComment style => exact .openComment style
    | text contents block => exact .text contents block
    | symbol symbol =>
        cases symbol with
        | semicolon => exact .semicolon
        | _ => simp [isTrivia] at h
    | _ => simp [isTrivia] at h
  · intro h
    cases h <;> rfl

theorem endOfStatement_ok_iff {construct : Construct} {here : Cursor} {defined : List String}
    {result : Unit × State} (hc : here.Closed) :
    endOfStatement construct context (here.state defined) = .ok result ↔
      here.Ends ∧ result.2 = here.state defined := by
  obtain ⟨span, token, rest, he⟩ := hc.exists_cons
  rw [he]
  obtain ⟨⟨⟩, state⟩ := result
  have hends : Cursor.Ends ⟨⟨span, token⟩ :: rest, here.data⟩ ↔ isTerminator token = true := by
    simp [Cursor.Ends, isTerminator_iff]
  rw [hends]
  cases ht : isTerminator token with
  | true =>
      simp only [endOfStatement, peek_bind, ht, Bool.not_true, Bool.false_eq_true, if_false,
        pure_ok_iff, Prod.mk.injEq, true_and]
  | false =>
      simp only [endOfStatement, peek_bind, ht, Bool.not_false, if_true, fail_ok_iff,
        Bool.false_eq_true, false_and]

end RayCompiler.Parse
