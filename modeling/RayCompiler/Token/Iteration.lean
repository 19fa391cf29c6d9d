import RayCompiler.Token.Lexer

namespace RayCompiler.Lexer

theorem items_nil {lexer : Lexer} (h : lexer.next? = none) : lexer.items = [] := by
  unfold items
  split
  · rfl
  · next hs => simp [h] at hs

theorem items_cons {lexer later : Lexer} {item : Except (Located LexError) (Located Token)}
    (h : lexer.next? = some (item, later)) : lexer.items = item :: later.items := by
  rw [items]
  split
  · next hs => simp [h] at hs
  · next hs =>
      rw [h] at hs
      cases hs
      rfl

-- Tokens in the queue come first, whether or not the lexer is done.
theorem items_queue (position : Position) (rest : List Char) (queue : List (Located Token))
    (done : Bool) :
    (Lexer.mk position rest queue done).items =
      queue.map .ok ++ (Lexer.mk position rest [] done).items := by
  induction queue with
  | nil => rfl
  | cons token more ih =>
      have hnext : (Lexer.mk position rest (token :: more) done).next? =
          some (.ok token, ⟨position, rest, more, done⟩) := rfl
      rw [items_cons hnext, ih]
      rfl

theorem items_done (position : Position) (rest : List Char) :
    (Lexer.mk position rest [] true).items = [] := items_nil rfl

theorem mapM_ok_append (tokens : List (Located Token))
    (items : List (Except (Located LexError) (Located Token))) :
    (tokens.map Except.ok ++ items).mapM id = (tokens ++ ·) <$> items.mapM id := by
  induction tokens with
  | nil => simp
  | cons token more ih =>
      rw [List.map_cons, List.cons_append, List.mapM_cons, ih]
      cases items.mapM id <;> rfl

-- Taking the items up to the first error gives the tokens of the text.
theorem mapM_items (position : Position) (rest : List Char) :
    (Lexer.mk position rest [] false).items.mapM id = tokensFrom position rest := by
  induction hn : rest.length using Nat.strongRecOn generalizing position rest with
  | ind n ih =>
      subst hn
      rw [tokensFrom]
      split
      · next hbody =>
          have hnext : (Lexer.mk position rest [] false).next? =
              some (.ok (endAt (position.past (rest.takeWhile isGap))),
                ⟨position.past (rest.takeWhile isGap), [], [], true⟩) := by
            simp [next?, hbody]
          rw [items_cons hnext, items_done]
          rfl
      next c body hbody =>
      dsimp only
      split
      · next cause hread =>
          have hnext : (Lexer.mk position rest [] false).next? =
              some (.error ⟨.point (position.past (rest.takeWhile isGap)), cause⟩,
                ⟨(position.past (rest.takeWhile isGap)).past (Reading.ofText c body).covered, [],
                  locate (position.past (rest.takeWhile isGap)) (Reading.ofText c body).lexemes,
                  true⟩) := by
            simp [next?, hbody, hread]
          rw [items_cons hnext]
          rfl
      · next after hread =>
          obtain ⟨text, token, more, hlex⟩ := (Reading.progress_ofText c body).spelled after hread
          have hsmall := ih after.length (length_after_lt hbody hread)
            ((position.past (rest.takeWhile isGap)).past (Reading.ofText c body).covered) after rfl
          obtain ⟨first, queue, hfound⟩ : ∃ first queue,
              locate (position.past (rest.takeWhile isGap)) (Reading.ofText c body).lexemes =
                first :: queue := by
            rw [hlex]
            exact ⟨_, _, rfl⟩
          have hnext : (Lexer.mk position rest [] false).next? =
              some (.ok first,
                ⟨(position.past (rest.takeWhile isGap)).past (Reading.ofText c body).covered, after,
                  queue, false⟩) := by
            simp [next?, hbody, hread, hfound]
          rw [items_cons hnext, items_queue, ← List.cons_append, ← List.map_cons, mapM_ok_append,
            hsmall, hfound]
          rfl

-- The items of a source, up to the first error, are its tokens.
theorem mapM_items_ofSource (source : Source) :
    (ofSource source).items.mapM id = tokenize source :=
  mapM_items .start source.text.toList

end RayCompiler.Lexer
