namespace RayCompiler.Text

-- The pieces of a text: the first one, and then one after each mark. The marks belong to no piece.
def split (mark : Char) : List Char → List (List Char)
  | [] => [[]]
  | c :: rest =>
    if c = mark then [] :: split mark rest
    else match split mark rest with
      | [] => [[c]]
      | piece :: more => (c :: piece) :: more

theorem split_ne_nil (mark : Char) (text : List Char) : split mark text ≠ [] := by
  induction text with
  | nil => simp [split]
  | cons c rest ih =>
      unfold split
      split
      · simp
      · split <;> simp

-- The pieces with marks between them give the text back.
theorem intercalate_split (mark : Char) (text : List Char) :
    [mark].intercalate (split mark text) = text := by
  induction text with
  | nil => simp [split]
  | cons c rest ih =>
      have hne := split_ne_nil mark rest
      unfold split
      split
      · next hc =>
          subst hc
          cases hl : split c rest with
          | nil => exact absurd hl hne
          | cons piece more => rw [hl] at ih; simpa [List.intercalate, List.intersperse] using ih
      · cases hl : split mark rest with
        | nil => exact absurd hl hne
        | cons piece more =>
            rw [hl] at ih
            cases more with
            | nil => simpa [List.intercalate, List.intersperse] using ih
            | cons next others => simpa [List.intercalate, List.intersperse] using ih

theorem notMem_of_mem_split {mark : Char} {text piece : List Char} (h : piece ∈ split mark text) :
    mark ∉ piece := by
  induction text generalizing piece with
  | nil => simp_all [split]
  | cons c rest ih =>
      unfold split at h
      split at h
      · rcases List.mem_cons.mp h with rfl | h
        · simp
        · exact ih h
      · next hc =>
          split at h
          · next he => exact absurd he (split_ne_nil mark rest)
          · next first more he =>
              rw [he] at ih
              rcases List.mem_cons.mp h with rfl | h
              · have hfirst := @ih first (by simp)
                simpa [Ne.symm hc] using hfirst
              · exact ih (by simp [h])

theorem split_append_mark (mark : Char) (first second : List Char) :
    split mark (first ++ mark :: second) = split mark first ++ split mark second := by
  induction first with
  | nil => simp [split]
  | cons c first ih =>
      rw [List.cons_append, split, split, ih]
      by_cases hc : c = mark
      · rw [if_pos hc, if_pos hc, List.cons_append]
      · rw [if_neg hc, if_neg hc]
        cases hsplit : split mark first with
        | nil => exact absurd hsplit (split_ne_nil mark first)
        | cons piece more => rfl

theorem split_of_notMem {mark : Char} {text : List Char} (h : mark ∉ text) :
    split mark text = [text] := by
  induction text with
  | nil => rfl
  | cons c rest ih =>
      have hc : c ≠ mark := fun he => h (by simp [he])
      have hrest := ih fun hm => h (by simp [hm])
      rw [split, if_neg hc, hrest]

theorem split_append_cons {mark : Char} {piece : List Char} (h : mark ∉ piece) (rest : List Char) :
    split mark (piece ++ mark :: rest) = piece :: split mark rest := by
  rw [split_append_mark, split_of_notMem h, List.singleton_append]

end RayCompiler.Text
