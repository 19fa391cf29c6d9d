import RayCompiler.Proofs.Grammar.Recognition

namespace RayCompiler.Parse

variable {α β : Type}

-- A run that ends by itself: it fails for a reason of its own, and not because a bound on its rounds
-- is used up, or it succeeds as described.
inductive Ends (success : α → State → Prop) : Except (Located ParseError) (α × State) → Prop where
  | ok (holds : success result later) : Ends success (.ok (result, later))
  | error (other : error.value ≠ .unending) : Ends success (.error error)

-- If the run succeeds, fewer tokens are left than the given number. With no token to begin with there
-- cannot be fewer, so it fails.
abbrev EndsBelow (size : Nat) : Except (Located ParseError) (α × State) → Prop :=
  Ends fun _ later => later.rest.length < size

-- Where fewer tokens are left than the bound says, the parser ends and puts no token back.
def Steady (context : Context) (bound : Nat) (parser : Parse α) : Prop :=
  ∀ state, state.rest.length < bound → EndsBelow (state.rest.length + 1) (parser context state)

-- Where fewer tokens are left than the bound says, the parser fails or reads a token of the list. The
-- last token, repeated, is none of the list.
def Consumes (context : Context) (bound : Nat) (parser : Parse α) : Prop :=
  ∀ state, state.rest.length < bound → EndsBelow state.rest.length (parser context state)

section Runs

variable {context : Context} {state : State} {size : Nat} {success : α → State → Prop}
  {success' : β → State → Prop}

theorem EndsBelow.mono {outcome : Except (Located ParseError) (α × State)} {size' : Nat}
    (h : EndsBelow size outcome) (hle : size ≤ size') : EndsBelow size' outcome := by
  cases h with
  | ok fewer => exact .ok (Nat.lt_of_lt_of_le fewer hle)
  | error other => exact .error other

theorem Consumes.steady {bound : Nat} {parser : Parse α} (h : Consumes context bound parser) :
    Steady context bound parser :=
  fun state hbound => EndsBelow.mono (h state hbound) (Nat.le_succ _)

theorem bind_of_error {parser : Parse α} {next : α → Parse β} {error : Located ParseError}
    (h : parser context state = .error error) : (parser >>= next) context state = .error error := by
  change (parser context state >>= fun pair => next pair.1 context pair.2) = _
  rw [h]
  rfl

theorem Ends.bind {parser : Parse α} {next : α → Parse β}
    (h : Ends success (parser context state))
    (hnext : ∀ result later, success result later → Ends success' (next result context later)) :
    Ends success' ((parser >>= next) context state) := by
  cases hrun : parser context state with
  | error error =>
      rw [bind_of_error hrun]
      rw [hrun] at h
      cases h with
      | error other => exact .error other
  | ok pair =>
      obtain ⟨result, later⟩ := pair
      rw [bind_of_ok hrun]
      rw [hrun] at h
      cases h with
      | ok holds => exact hnext result later holds

-- What comes next matters only where the parser succeeds.
theorem Ends.bind_congr {parser : Parse α} {next next' : α → Parse β}
    (h : Ends success (parser context state))
    (hnext : ∀ result later, success result later →
      next result context later = next' result context later) :
    (parser >>= next) context state = (parser >>= next') context state := by
  cases hrun : parser context state with
  | error error => rw [bind_of_error hrun, bind_of_error hrun]
  | ok pair =>
      obtain ⟨result, later⟩ := pair
      rw [bind_of_ok hrun, bind_of_ok hrun]
      rw [hrun] at h
      cases h with
      | ok holds => exact hnext result later holds

-- What cannot succeed cannot succeed with more behind it.
theorem EndsBelow.bind_of_zero {parser : Parse α} {next : α → Parse β}
    (h : EndsBelow 0 (parser context state)) : Ends success' ((parser >>= next) context state) :=
  Ends.bind h fun _ _ fewer => absurd fewer (Nat.not_lt_zero _)

theorem ends_failAt {span : Span} {cause : ParseError} (h : cause ≠ .unending) :
    Ends success ((failAt span cause : Parse α) context state) := .error h

theorem ends_fail {cause : ParseError} (h : cause ≠ .unending) :
    Ends success ((fail cause : Parse α) context state) := .error h

theorem current_bind_eq {next : Located Token → Parse β} :
    (current >>= next) context state = next (state.rest.headD context.last) context state := rfl

theorem peek_bind_eq {next : Token → Parse β} :
    (peek >>= next) context state = next (state.rest.headD context.last).value context state := rfl

theorem peekSecond_bind_eq {next : Token → Parse β} :
    (peekSecond >>= next) context state =
      next (state.rest.getD 1 context.last).value context state := rfl

theorem advance_bind_eq {next : Located Token → Parse β} :
    (advance >>= next) context state =
      next (state.rest.headD context.last) context { state with rest := state.rest.tail } := rfl

theorem remaining_bind_eq {next : Nat → Parse β} :
    (remaining >>= next) context state = next state.rest.length context state := rfl

theorem accept_eq (token : Token) : accept token context state =
    if (state.rest.headD context.last).value = token then
      .ok (true, { state with rest := state.rest.tail })
    else .ok (false, state) := by
  rw [accept, peek_bind_eq]
  split <;> rfl

-- Where a parser stands after it has read a token: there is one token less in the list, or the list
-- was read up before and its last token, repeated, is the one that was read.
inductive Passed (context : Context) (state : State) (token : Token) (later : State) : Prop where
  | token (fewer : later.rest.length < state.rest.length) : Passed context state token later
  | repeated (dry : later.rest = []) (last : context.last.value = token) :
      Passed context state token later

theorem passed_tail (context : Context) (state : State) :
    Passed context state (state.rest.headD context.last).value
      { state with rest := state.rest.tail } := by
  cases hrest : state.rest with
  | nil => exact .repeated rfl rfl
  | cons first rest =>
      apply Passed.token
      simp [hrest]

theorem Passed.length_le {token : Token} {later : State} (h : Passed context state token later) :
    later.rest.length ≤ state.rest.length := by
  cases h with
  | token fewer => omega
  | repeated dry => simp [dry]

theorem Passed.last_eq {token : Token} {later : State} (h : Passed context state token later)
    (hdry : state.rest = []) : context.last.value = token := by
  cases h with
  | token fewer => simp [hdry] at fewer
  | repeated _ last => exact last

-- The repeated token is one and the same: of two different tokens in a row the first is in the list.
theorem Passed.length_lt {first second : Token} {middle later : State}
    (h : Passed context state first middle) (h' : Passed context middle second later)
    (hne : first ≠ second) : later.rest.length < state.rest.length := by
  have hle := h'.length_le
  cases h with
  | token fewer => omega
  | repeated dry last => exact absurd (last.symm.trans (h'.last_eq dry)) hne

-- If the run succeeds, it has read one token, which its result tells.
abbrev Reads (context : Context) (state : State) (token : α → Token) :
    Except (Located ParseError) (α × State) → Prop :=
  Ends fun result later => Passed context state (token result) later

theorem Reads.endsBelow {token : α → Token} {outcome : Except (Located ParseError) (α × State)}
    (h : Reads context state token outcome) : EndsBelow (state.rest.length + 1) outcome := by
  cases h with
  | ok passed => exact .ok (Nat.lt_succ_of_le passed.length_le)
  | error other => exact .error other

-- Nothing is read where another token is repeated for ever.
theorem Reads.endsBelow_zero {token : α → Token}
    {outcome : Except (Located ParseError) (α × State)} (h : Reads context state token outcome)
    (hdry : state.rest = []) (hlast : ∀ result, context.last.value ≠ token result) :
    EndsBelow 0 outcome := by
  cases h with
  | ok passed => exact absurd (passed.last_eq hdry) (hlast _)
  | error other => exact .error other

theorem reads_expect (token : Token) :
    Reads context state (fun _ => token) (expect token context state) := by
  have hpassed := passed_tail context state
  have haccept := @accept_eq context state token
  split at haccept
  · next h =>
      rw [h] at hpassed
      rw [expect, bind_of_ok haccept]
      exact .ok hpassed
  · rw [expect, bind_of_ok haccept]
    exact .error (by simp)

theorem reads_identifier : Reads context state (.name ·.value) (identifier context state) := by
  have hpassed := passed_tail context state
  rw [identifier, peek_bind_eq]
  cases htoken : (state.rest.headD context.last).value with
  | name text =>
      rw [htoken] at hpassed
      exact .ok hpassed
  | _ => exact ends_fail (by simp)

theorem endsBelow_endOfStatement (construct : Construct) :
    EndsBelow (state.rest.length + 1) (endOfStatement construct context state) := by
  rw [endOfStatement, peek_bind_eq]
  split
  · exact ends_fail (by simp)
  · exact .ok (Nat.lt_succ_self _)

end Runs

section Loops

variable {σ : Type} {context : Context} {bound : Nat}

-- One round of a loop from the given state, where the run says what comes of it for each number of
-- rounds behind it: the loop has ended, whatever that number is, or it goes on where fewer tokens are
-- left.
inductive Round (context : Context) (loop : Nat → σ → Parse α) (state : State)
    (run : Nat → Except (Located ParseError) (α × State)) : Prop where
  | ended (ends : EndsBelow (state.rest.length + 1) outcome) (eq : ∀ rounds, run rounds = outcome) :
      Round context loop state run
  | next (entry : σ) (finish : α → α) (fewer : later.rest.length < state.rest.length)
      (eq : ∀ rounds, run rounds =
        (loop rounds entry >>= fun result => pure (finish result)) context later) :
      Round context loop state run

-- Every round of the loop ends it or reads a token of the list.
def Advances (context : Context) (bound : Nat) (loop : Nat → σ → Parse α) : Prop :=
  ∀ (entry : σ) (state : State), state.rest.length < bound →
    Round context loop state fun rounds => loop (rounds + 1) entry context state

variable {loop : Nat → σ → Parse α} {state here : State}

theorem Round.bind {success : β → State → Prop} {parser : Parse β} {next : Nat → β → Parse α}
    (h : Ends success (parser context here))
    (hnext : ∀ result later, success result later →
      Round context loop state fun rounds => next rounds result context later) :
    Round context loop state fun rounds => (parser >>= next rounds) context here := by
  cases hrun : parser context here with
  | error error =>
      rw [hrun] at h
      cases h with
      | error other => exact .ended (.error other) fun _ => bind_of_error hrun
  | ok pair =>
      obtain ⟨result, later⟩ := pair
      rw [hrun] at h
      simp only [bind_of_ok hrun]
      cases h with
      | ok holds => exact hnext result later holds

theorem Round.again {later : State} {run : Nat → Except (Located ParseError) (α × State)}
    (entry : σ) (fewer : later.rest.length < state.rest.length)
    (eq : ∀ rounds, run rounds = loop rounds entry context later) :
    Round context loop state run := by
  refine .next entry id fewer fun rounds => ?_
  simp only [id, bind_pure, eq]

-- More rounds than tokens are enough. The induction is on the rounds, as each one that goes on reads
-- a token.
theorem Advances.endsBelow (h : Advances context bound loop) {rounds : Nat}
    (hrounds : state.rest.length < rounds) (hbound : state.rest.length < bound) (entry : σ) :
    EndsBelow (state.rest.length + 1) (loop rounds entry context state) := by
  induction rounds generalizing state entry with
  | zero => omega
  | succ rounds ih =>
      cases h entry state hbound with
      | ended ends eq =>
          rw [eq]
          exact ends
      | @next later entry' finish fewer eq =>
          rw [eq]
          apply (ih (by omega) (by omega) entry').bind
          intro result last hlast
          exact .ok (by omega)

-- Beyond that, the number of rounds does not matter.
theorem Advances.eq (h : Advances context bound loop) {rounds rounds' : Nat}
    (hrounds : state.rest.length < rounds) (hrounds' : state.rest.length < rounds')
    (hbound : state.rest.length < bound) (entry : σ) :
    loop rounds entry context state = loop rounds' entry context state := by
  induction rounds generalizing rounds' state entry with
  | zero => omega
  | succ rounds ih =>
      cases rounds' with
      | zero => omega
      | succ rounds' =>
          cases h entry state hbound with
          | ended _ eq => rw [eq, eq]
          | @next later entry' finish fewer eq =>
              have hsame : loop rounds entry' context later = loop rounds' entry' context later :=
                ih (by omega) (by omega) (by omega) entry'
              rw [eq, eq]
              change (loop rounds entry' context later >>= _) = (loop rounds' entry' context later >>= _)
              rw [hsame]

-- The items of a list may be names or operands: an item puts no token back, and no item begins with
-- a comma.
structure IsItem (context : Context) (item : Parse α) : Prop where
  steady : ∀ bound, Steady context bound item
  refuses : ∀ state, state.rest = [] → context.last.value = .symbol .comma →
    EndsBelow 0 (item context state)

theorem moreItems_advances {item : Parse α} (h : IsItem context item) :
    Advances context bound fun rounds (_ : Unit) => moreItems item rounds := by
  intro _ state _
  have hrun := @accept_eq context state (.symbol .comma)
  have hpassed := passed_tail context state
  split at hrun
  · next hcomma =>
      rw [hcomma] at hpassed
      simp only [moreItems, bind_of_ok hrun, if_true]
      cases hpassed with
      | token fewer =>
          apply Round.bind (h.steady _ _ (Nat.lt_succ_self _))
          intro first later hlater
          exact .next () (first :: ·) (by omega) fun _ => rfl
      | repeated dry last =>
          apply Round.bind (h.refuses _ dry last)
          intro _ _ hlater
          omega
  · simp only [moreItems, bind_of_ok hrun, Bool.false_eq_true, if_false]
    exact .ended (.ok (Nat.lt_succ_self _)) fun _ => rfl

theorem commaList_steady {item : Parse α} (h : IsItem context item) :
    Steady context bound (commaList item) := by
  intro state _
  apply (h.steady _ state (Nat.lt_succ_self _)).bind
  intro first later hlater
  rw [remaining_bind_eq]
  apply ((moreItems_advances h).endsBelow (Nat.lt_succ_self _) (Nat.lt_succ_self _) ()).bind
  intro others last hlast
  exact .ok (by omega)

theorem parenthesized_steady {item : Parse α} (h : IsItem context item) :
    Steady context bound (parenthesized item) := by
  intro state _
  apply (reads_expect _).bind
  intro _ inside hinside
  have hle := hinside.length_le
  have hrun := @accept_eq context inside (.symbol .closeParen)
  have hle' := (passed_tail context inside).length_le
  split at hrun
  · rw [bind_of_ok hrun]
    exact .ok (Nat.lt_succ_of_le (Nat.le_trans hle' hle))
  · rw [bind_of_ok hrun]
    apply (commaList_steady h inside (Nat.lt_succ_self _)).bind
    intro items closing hclosing
    apply (reads_expect _).bind
    intro _ later hlater
    have hle'' := hlater.length_le
    exact .ok (by omega)

-- Parentheses do not open where another token is repeated for ever.
theorem parenthesized_dry {item : Parse α} (hdry : state.rest = [])
    (hlast : context.last.value ≠ .symbol .openParen) :
    EndsBelow 0 (parenthesized item context state) :=
  ((reads_expect _).endsBelow_zero hdry fun _ => hlast).bind_of_zero

end Loops

end RayCompiler.Parse
