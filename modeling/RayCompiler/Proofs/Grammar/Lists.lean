import RayCompiler.Proofs.Grammar.Recognition

namespace RayCompiler.Grammar

variable {α : Type} {item : Cursor → α → Cursor → Prop}

theorem NameAt.passes {here after : Cursor} {name : Located String} (h : NameAt here name after) :
    here.Passes after := by
  cases h
  exact Cursor.passes_tail (by simp)

theorem ListAt.passes (hitem : ∀ {here a after}, item here a after → here.Passes after)
    {here after : Cursor} {items : List α} (h : ListAt item here items after) :
    here.Passes after := by
  induction h with
  | one head => exact hitem head
  | more head _ ih => exact (hitem head).trans (ih.cons (by simp))

theorem EnclosedAt.passes (hitem : ∀ {here a after}, item here a after → here.Passes after)
    {here after : Cursor} {items : List α} (h : EnclosedAt item here items after) :
    here.Passes after := by
  cases h with
  | empty => exact Cursor.Passes.cons (Cursor.passes_tail (by simp)) (by simp)
  | list inside =>
      exact Cursor.Passes.cons ((inside.passes hitem).trans (Cursor.passes_tail (by simp))) (by simp)

-- What follows the first item of a list: nothing, or a comma and the other items.
inductive OthersAt (item : Cursor → α → Cursor → Prop) : Cursor → List α → Cursor → Prop where
  | nil : OthersAt item here [] here
  | comma (tail : ListAt item ⟨rest, data⟩ others after) :
      OthersAt item ⟨⟨span, .symbol .comma⟩ :: rest, data⟩ others after

theorem listAt_cons_iff {here after : Cursor} {first : α} {others : List α} :
    ListAt item here (first :: others) after ↔
      ∃ middle, item here first middle ∧ OthersAt item middle others after := by
  constructor
  · intro h
    cases h with
    | one head => exact ⟨_, head, .nil⟩
    | more head tail => exact ⟨_, head, .comma tail⟩
  · rintro ⟨middle, head, ho⟩
    cases ho with
    | nil => exact .one head
    | comma tail => exact .more head tail

theorem ListAt.exists_cons {here after : Cursor} {items : List α}
    (h : ListAt item here items after) : ∃ first others, items = first :: others := by
  cases h with
  | one => exact ⟨_, _, rfl⟩
  | more => exact ⟨_, _, rfl⟩

end RayCompiler.Grammar

namespace RayCompiler.Parse

open Grammar

variable {α : Type} {context : Context} {parser : Parse α} {item : Cursor → α → Cursor → Prop}

-- The parser takes a comma whenever there is one, so a list it reads is not followed by a comma.
-- Each round reads an item, so the tokens that are left bound the rounds.
theorem moreItems_ok_iff (hparser : Recognizes context parser item)
    (hitem : ∀ {here a after}, item here a after → here.Passes after)
    (rounds : Nat) (here : Cursor) (defined : List String) (result : List α × State)
    (hc : here.Closed) (hrounds : here.rest.length < rounds) :
    moreItems parser rounds context (here.state defined) = .ok result ↔
      ∃ after, (OthersAt item here result.1 after ∧ ¬after.Begins (.symbol .comma)) ∧
        result.2 = after.state defined := by
  induction rounds generalizing here result with
  | zero => omega
  | succ rounds ih =>
      obtain ⟨span, token, rest, he⟩ := hc.exists_cons
      obtain ⟨items, state⟩ := result
      rw [he] at hc hrounds ⊢
      simp only [List.length_cons] at hrounds
      by_cases ht : token = .symbol .comma
      · subst ht
        have hrest := Cursor.closed_tail hc (by simp)
        simp only [moreItems, accept_bind_of_eq, if_true, bind_ok_iff, pure_ok_iff]
        constructor
        · rintro ⟨first, between, hfirst, others, last, hothers, hresult⟩
          cases hresult
          obtain ⟨middle, hone, rfl⟩ := (hparser _ _ _ hrest).mp hfirst
          have hpass := hitem hone
          have hlt := hpass.2
          obtain ⟨after, ⟨htail, hstop⟩, hs⟩ :=
            (ih middle _ (hpass.closed hrest) (by dsimp only at hlt; omega)).mp hothers
          exact ⟨after, ⟨.comma (listAt_cons_iff.mpr ⟨middle, hone, htail⟩), hstop⟩, hs⟩
        · rintro ⟨after, ⟨hlist, hstop⟩, hs⟩
          cases hlist with
          | nil => exact absurd ⟨span, rest, rfl⟩ hstop
          | comma tail =>
              obtain ⟨first, others, hitems⟩ := tail.exists_cons
              subst hitems
              obtain ⟨middle, hone, htail⟩ := listAt_cons_iff.mp tail
              have hpass := hitem hone
              have hlt := hpass.2
              refine ⟨first, middle.state defined, (hparser _ _ _ hrest).mpr ⟨middle, hone, rfl⟩,
                others, state, ?_, rfl⟩
              exact (ih middle (others, state) (hpass.closed hrest) (by dsimp only at hlt; omega)).mpr
                ⟨after, ⟨htail, hstop⟩, hs⟩
      · simp only [moreItems, accept_bind_of_ne ht, Bool.false_eq_true, if_false, pure_ok_iff,
          Prod.mk.injEq]
        constructor
        · rintro ⟨rfl, rfl⟩
          refine ⟨_, ⟨.nil, ?_⟩, rfl⟩
          rintro ⟨_, _, hb⟩
          cases hb
          exact ht rfl
        · rintro ⟨after, ⟨hlist, _⟩, hs⟩
          cases hlist with
          | nil => exact ⟨rfl, hs⟩
          | comma => exact absurd rfl ht

theorem commaList_recognizes (hparser : Recognizes context parser item)
    (hitem : ∀ {here a after}, item here a after → here.Passes after) :
    Recognizes context (commaList parser) fun here items after =>
      ListAt item here items after ∧ ¬after.Begins (.symbol .comma) := by
  rintro here defined ⟨items, state⟩ hc
  simp only [commaList, bind_ok_iff, pure_ok_iff]
  constructor
  · rintro ⟨first, _, hfirst, count, between, hcount, others, last, hothers, hresult⟩
    cases hresult
    obtain ⟨middle, hone, rfl⟩ := (hparser _ _ _ hc).mp hfirst
    cases hcount
    obtain ⟨after, ⟨htail, hstop⟩, hs⟩ := (moreItems_ok_iff hparser hitem _ middle defined _
      ((hitem hone).closed hc) (Nat.lt_succ_self _)).mp hothers
    exact ⟨after, ⟨listAt_cons_iff.mpr ⟨middle, hone, htail⟩, hstop⟩, hs⟩
  · rintro ⟨after, ⟨hlist, hstop⟩, hs⟩
    obtain ⟨first, others, hitems⟩ := hlist.exists_cons
    subst hitems
    obtain ⟨middle, hone, htail⟩ := listAt_cons_iff.mp hlist
    refine ⟨first, middle.state defined, (hparser _ _ _ hc).mpr ⟨middle, hone, rfl⟩,
      middle.rest.length, middle.state defined, rfl, others, state, ?_, rfl⟩
    exact (moreItems_ok_iff hparser hitem _ middle defined (others, state)
      ((hitem hone).closed hc) (Nat.lt_succ_self _)).mpr ⟨after, ⟨htail, hstop⟩, hs⟩

-- An item in parentheses does not begin with a closing one, so the parser tells the empty list apart
-- by its second token.
theorem parenthesized_recognizes (hparser : Recognizes context parser item)
    (hitem : ∀ {here a after}, item here a after → here.Passes after)
    (hclose : ∀ {here a after}, item here a after → ¬here.Begins (.symbol .closeParen)) :
    Recognizes context (parenthesized parser) (EnclosedAt item) := by
  rintro here defined ⟨items, state⟩ hc
  simp only [parenthesized, bind_ok_iff, expect_ok_iff hc]
  constructor
  · rintro ⟨⟨⟩, _, ⟨span, rest, he, rfl⟩, hnext⟩
    rw [he] at hc ⊢
    have hrest := Cursor.closed_tail hc (by simp)
    obtain ⟨span', token, rest', he'⟩ := hrest.exists_cons
    simp only [Cursor.mk.injEq, and_true] at he'
    subst he'
    by_cases ht : token = .symbol .closeParen
    · subst ht
      obtain ⟨_, _, ha, hnext⟩ := hnext
      cases ha
      simp only [if_true, pure_ok_iff, Prod.mk.injEq] at hnext
      obtain ⟨rfl, rfl⟩ := hnext
      exact ⟨_, .empty, rfl⟩
    · rw [← bind_ok_iff, accept_bind_of_ne ht] at hnext
      simp only [Bool.false_eq_true, if_false, bind_ok_iff, pure_ok_iff] at hnext
      obtain ⟨_, _, hlist, ⟨⟩, _, hend, hresult⟩ := hnext
      obtain ⟨middle, ⟨hlist, _⟩, rfl⟩ := (commaList_recognizes hparser hitem _ _ _ hrest).mp hlist
      obtain ⟨_, after, hm, rfl⟩ := (expect_ok_iff ((hlist.passes hitem).closed hrest)).mp hend
      cases hresult
      rw [hm] at hlist
      exact ⟨_, .list hlist, rfl⟩
  · rintro ⟨after, henclosed, hs⟩
    cases henclosed with
    | @empty _ _ rest data =>
        refine ⟨(), _, ⟨_, _, rfl, rfl⟩, ?_⟩
        rw [← bind_ok_iff, accept_bind_of_eq]
        simp only [if_true, pure_ok_iff, Prod.mk.injEq, true_and]
        exact hs
    | @list rest data _ _ _ _ _ inside =>
        have hrest := Cursor.closed_tail hc (by simp)
        obtain ⟨span', token, rest', he'⟩ := hrest.exists_cons
        simp only [Cursor.mk.injEq, and_true] at he'
        subst he'
        have ht : token ≠ .symbol .closeParen := by
          rintro rfl
          obtain ⟨first, others, hitems⟩ := inside.exists_cons
          subst hitems
          obtain ⟨_, hone, _⟩ := listAt_cons_iff.mp inside
          exact hclose hone ⟨_, _, rfl⟩
        have hnot : ∀ span after later,
            ¬Cursor.Begins ⟨⟨span, .symbol .closeParen⟩ :: after, later⟩ (.symbol .comma) := by
          rintro _ _ _ ⟨_, _, hb⟩
          cases hb
        refine ⟨(), _, ⟨_, _, rfl, rfl⟩, ?_⟩
        rw [← bind_ok_iff, accept_bind_of_ne ht]
        simp only [Bool.false_eq_true, if_false, bind_ok_iff, pure_ok_iff]
        refine ⟨items, _, (commaList_recognizes hparser hitem _ _ (items, _) hrest).mpr
          ⟨_, ⟨inside, hnot _ _ _⟩, rfl⟩, (), state, ?_, rfl⟩
        exact (expect_ok_iff ((inside.passes hitem).closed hrest)).mpr ⟨_, _, rfl, hs⟩

theorem names_recognizes :
    Recognizes context (commaList identifier) fun here names after =>
      ListAt NameAt here names after ∧ ¬after.Begins (.symbol .comma) :=
  commaList_recognizes identifier_recognizes NameAt.passes

theorem enclosedNames_recognizes :
    Recognizes context (parenthesized identifier) (EnclosedAt NameAt) := by
  refine parenthesized_recognizes identifier_recognizes NameAt.passes ?_
  rintro _ _ _ h ⟨_, _, hb⟩
  cases h
  cases hb

end RayCompiler.Parse
