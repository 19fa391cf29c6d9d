import RayCompiler.Proofs.Grammar.Recasting

namespace RayCompiler.Grammar

open Statement

variable {known : KnownNames} {slots later : SlotTable}

-- Tokens before which a short body is over.
def stopsLine : Token → Bool
  | .lineEnd => true
  | .comment => true
  | .openComment _ => true
  | .endOfInput => true
  | _ => false

theorem LineStop.stopsLine {token : Token} (h : LineStop token) : stopsLine token := by
  cases h <;> rfl

-- How many braces are open behind a token.
def bracesBehind (depth : Nat) : Token → Nat
  | .symbol .openCurly => depth + 1
  | .symbol .closeCurly => depth - 1
  | _ => depth

-- What is left from the first token on that stops the line outside all braces, where so many of them
-- are open.
def restOfLine (depth : Nat) : List (Located Token) → List (Located Token)
  | [] => []
  | token :: rest =>
    if depth = 0 ∧ stopsLine token.value then token :: rest
    else restOfLine (bracesBehind depth token.value) rest

section Lines

variable {span : Span} {token : Token} {rest : List (Located Token)}

theorem restOfLine_stop (h : LineStop token) :
    restOfLine 0 (⟨span, token⟩ :: rest) = ⟨span, token⟩ :: rest := by
  rw [restOfLine, if_pos ⟨rfl, h.stopsLine⟩]

theorem restOfLine_cons (h : stopsLine token = false) (depth : Nat) :
    restOfLine depth (⟨span, token⟩ :: rest) = restOfLine (bracesBehind depth token) rest := by
  rw [restOfLine, if_neg (by simp [h])]

theorem inPhrase.stopsLine (h : inPhrase token) : stopsLine token = false := by
  cases token <;> first | rfl | cases h

theorem inPhrase.bracesBehind (h : inPhrase token) (depth : Nat) : bracesBehind depth token = depth := by
  cases token with
  | symbol symbol => cases symbol <;> first | rfl | cases h
  | _ => rfl

theorem Cursor.Phrase.restOfLine_eq {here after : Cursor} (h : here.Phrase after) (depth : Nat) :
    restOfLine depth here.rest = restOfLine depth after.rest := by
  obtain ⟨used, hused, hinside⟩ := h
  rw [hused]
  clear hused
  induction used with
  | nil => rfl
  | cons first used ih =>
      have hfirst := hinside first List.mem_cons_self
      rw [List.cons_append, restOfLine_cons (inPhrase.stopsLine hfirst),
        inPhrase.bracesBehind hfirst]
      exact ih fun token hm => hinside token (List.mem_cons_of_mem _ hm)

end Lines

-- How many braces are open at a place in a function, if so many are open around the function.
def Place.depth (around : Nat) : Place → Nat
  | .block _ => around + 1
  | _ => around

theorem Place.Opens.restOfLine_eq {place : Place} {token : Token} (h : place.Opens token)
    (span : Span) (rest : List (Located Token)) (depth : Nat) :
    restOfLine depth (⟨span, token⟩ :: rest) = restOfLine (place.depth depth) rest := by
  cases h <;> exact restOfLine_cons rfl depth

theorem Place.Skips.ne_arrow {place : Place} {token : Token} (h : place.Skips token) :
    token ≠ .symbol .arrow := by
  cases h with
  | module trivia | block trivia => cases trivia <;> simp
  | arrow => simp

theorem Place.Skips.restOfLine_eq {place : Place} {token : Token} (h : place.Skips token)
    (hplace : place.function? ≠ none) (span : Span) (rest : List (Located Token)) (depth : Nat) :
    restOfLine (place.depth depth) (⟨span, token⟩ :: rest) = restOfLine (place.depth depth) rest := by
  cases h with
  | module => exact absurd rfl hplace
  | arrow => exact restOfLine_cons rfl depth
  | block trivia =>
      rw [restOfLine, if_neg (by simp [Place.depth])]
      cases trivia <;> rfl

theorem Place.Stops.restOfLine_eq {place : Place} {here after : Cursor} (h : place.Stops here after)
    (hplace : place.function? ≠ none) (depth : Nat) :
    restOfLine (place.depth depth) here.rest = restOfLine depth after.rest := by
  cases h with
  | module => exact absurd rfl hplace
  | arrow => rfl
  | block => exact restOfLine_cons rfl _

-- Statements close the braces that they open, and only between those do they go on behind the end of
-- a line.
theorem StatementsAt.restOfLine_eq {place : Place} {here after : Cursor} {body : List Statement}
    (h : StatementsAt known place slots here body later after) (hplace : place.function? ≠ none)
    (depth : Nat) : restOfLine (place.depth depth) here.rest = restOfLine depth after.rest := by
  induction h generalizing depth with
  | stop stop => exact stop.restOfLine_eq hplace depth
  | skip skip _ ih => rw [skip.restOfLine_eq hplace, ← ih hplace]
  | externs list _ _ ih =>
      rw [← ih hplace]
      exact ((list.phrase NameAt.phrase).cons rfl).restOfLine_eq _
  | function list _ owner opens _ _ ih ih' =>
      rw [(list.phrase_head _ _ _).restOfLine_eq, opens.restOfLine_eq, ih (by simp [owner]),
        ih' hplace]
  | action _ one _ ih => rw [one.phrase.restOfLine_eq, ih hplace]

-- The tokens tell by themselves where a short body is over.
theorem StatementsAt.restOfLine_arrow {here after : Cursor} {body : List Statement} {name : String}
    (h : StatementsAt known (.arrow name) slots here body later after) :
    restOfLine 0 here.rest = after.rest := by
  have hrest := h.restOfLine_eq (by simp [Place.function?]) 0
  obtain ⟨_, stop⟩ := h.exists_stops
  cases stop with
  | arrow stop => rwa [restOfLine_stop stop] at hrest

-- A short body that is over at the end of a line can stand between braces.
theorem StatementsAt.between_braces {place : Place} {here after : Cursor} {body : List Statement}
    {name : String} (h : StatementsAt known place slots here body later after)
    (hplace : place = .arrow name) {span closing : Span} {rest : List (Located Token)}
    (hafter : after.rest = ⟨span, .lineEnd⟩ :: ⟨closing, .symbol .closeCurly⟩ :: rest) :
    StatementsAt known (.block name) slots here body later ⟨rest, after.data⟩ := by
  induction h with
  | stop stop =>
      subst hplace
      cases stop with
      | arrow =>
          cases hafter
          exact .skip (.block .lineEnd) (.stop .block)
  | skip skip _ ih =>
      have hmore := ih hplace hafter
      subst hplace
      cases skip with
      | arrow => exact .skip (.block .semicolon) hmore
  | externs list ends _ ih => exact .externs list ends (ih hplace hafter)
  | function list distinct owner opens statements _ _ ih =>
      exact .function list distinct owner opens statements (ih hplace hafter)
  | action owner one _ ih =>
      rw [hplace] at owner
      exact .action owner one (ih hplace hafter)

-- Two lists before or behind a place where they differ: the same tokens up to there, or up to the end.
def Moves (tail tail' rest rest' : List (Located Token)) : Prop :=
  Follows tail tail' rest rest' ∨ Follows [] [] rest rest'

theorem follows_of_values {rest rest' : List (Located Token)}
    (h : rest'.map (·.value) = rest.map (·.value)) : Follows [] [] rest rest' := by
  have hfollows := @follows_append [] [] rest rest' h
  rwa [List.append_nil, List.append_nil] at hfollows

section Moves

variable {tail' rest other inside : List (Located Token)} {span sign : Span} {token : Token}

theorem Moves.cons {tail : List (Located Token)} (h : Moves tail tail' (⟨span, token⟩ :: rest) other) :
    (∃ span' rest', other = ⟨span', token⟩ :: rest' ∧ Moves tail tail' rest rest') ∨
      ⟨span, token⟩ :: rest = tail ∧ other = tail' := by
  rcases h with h | h
  · cases h with
    | ends => exact .inr ⟨rfl, rfl⟩
    | token more => exact .inl ⟨_, _, rfl, .inl more⟩
  · obtain ⟨span', rest', rfl, hrest⟩ := h.uncons (Nat.zero_le _)
    exact .inl ⟨_, _, rfl, .inr hrest⟩

theorem Moves.uncons (h : Moves (⟨sign, .symbol .arrow⟩ :: inside) tail' (⟨span, token⟩ :: rest) other)
    (htoken : token ≠ .symbol .arrow) :
    ∃ span' rest', other = ⟨span', token⟩ :: rest' ∧
      Moves (⟨sign, .symbol .arrow⟩ :: inside) tail' rest rest' := by
  rcases h.cons with hmore | ⟨htail, _⟩
  · exact hmore
  · cases htail
    exact absurd rfl htoken

theorem Moves.eq_nil (h : Moves (⟨sign, .symbol .arrow⟩ :: inside) tail' [] other) : other = [] := by
  rcases h with h | h
  · cases h
  · exact h.eq_of_ends

theorem Moves.keepsEnd (h : Moves (⟨sign, .symbol .arrow⟩ :: inside) tail' rest other) :
    KeepsEnd rest other := by
  rintro data ⟨⟨span, token⟩, hhead, hterminator⟩ data'
  obtain ⟨more, rfl⟩ := List.head?_eq_some_iff.mp hhead
  obtain ⟨span', rest', rfl, _⟩ := h.uncons (by
    rintro rfl
    cases hterminator with
    | line stop => cases stop)
  exact ⟨_, rfl, hterminator⟩

theorem Moves.split {used : List (Located Token)}
    (h : Moves (⟨sign, .symbol .arrow⟩ :: inside) tail' (used ++ rest) other)
    (hused : ∀ token ∈ used, inPhrase token.value) :
    ∃ used' rest', other = used' ++ rest' ∧ used'.map (·.value) = used.map (·.value) ∧
      Moves (⟨sign, .symbol .arrow⟩ :: inside) tail' rest rest' := by
  induction used generalizing other with
  | nil => exact ⟨[], other, rfl, rfl, h⟩
  | cons first used ih =>
      have hfirst := hused first List.mem_cons_self
      obtain ⟨span', rest', rfl, hrest⟩ := h.uncons (by
        intro he
        rw [he] at hfirst
        cases hfirst)
      obtain ⟨used', rest', rfl, hvalues, hmoves⟩ :=
        ih hrest fun token hm => hused token (List.mem_cons_of_mem _ hm)
      exact ⟨⟨span', first.value⟩ :: used', rest', rfl, congrArg (_ :: ·) hvalues, hmoves⟩

-- A phrase is read again on either side of the place where the lists differ.
theorem Relocates.moves {α γ : Type} {view : α → γ} {phrase : Cursor → α → Cursor → Prop}
    (hphrase : ∀ {tail tail'}, KeepsEnd tail tail' → Relocates tail tail' view phrase phrase)
    (hinside : ∀ {here value after}, phrase here value after → here.Phrase after)
    {here after : Cursor} {value : α} (h : phrase here value after)
    (hmoves : Moves (⟨sign, .symbol .arrow⟩ :: inside) tail' here.rest other) (data : List UInt8) :
    ∃ value' rest' data', phrase ⟨other, data⟩ value' ⟨rest', data'⟩ ∧ view value' = view value ∧
      Moves (⟨sign, .symbol .arrow⟩ :: inside) tail' after.rest rest' := by
  obtain ⟨used, hused, hplain⟩ := hinside h
  rw [hused] at hmoves
  obtain ⟨used', rest', rfl, hvalues, hrest⟩ := hmoves.split hplain
  obtain ⟨value', data', h', hview⟩ := Relocates.again hphrase h hused hvalues hrest.keepsEnd data
  exact ⟨value', rest', data', h', hview, hrest⟩

end Moves

-- The tokens of a short body, between braces.
theorem StatementsAt.brace {text text' rest rest' : List (Located Token)} {ending closing : Span}
    {data : List UInt8} {after : Cursor} {body : List Statement} {name : String}
    (h : StatementsAt known (.arrow name) slots ⟨text ++ rest, data⟩ body later after)
    (hline : restOfLine 0 (text ++ rest) = rest)
    (htext : text'.map (·.value) = text.map (·.value)) (data' : List UInt8) :
    after.rest = rest ∧ ∃ body' last, StatementsAt known (.block name) slots
        ⟨text' ++ ⟨ending, .lineEnd⟩ :: ⟨closing, .symbol .closeCurly⟩ :: rest', data'⟩ body' later
        ⟨rest', last⟩ ∧ shapes body' = shapes body := by
  have hafter : after.rest = rest := h.restOfLine_arrow.symm.trans hline
  refine ⟨hafter, ?_⟩
  obtain ⟨body', after', h', hshapes, hfollows⟩ := h.relocate (.refl known) ⟨ending, _, rfl⟩
    (by simp [Place.function?]) ⟨_, data'⟩ (Nat.le_of_eq (by rw [hafter])) (follows_append htext)
  rw [hafter] at hfollows
  exact ⟨body', _, h'.between_braces rfl hfollows.eq_of_ends, hshapes⟩

-- A short body with what follows it, and the same tokens with braces around the body.
inductive Rebraces : List (Located Token) → List (Located Token) → Prop where
  | braces (line : restOfLine 0 (text ++ rest) = rest)
      (inside : text'.map (·.value) = text.map (·.value))
      (behind : rest'.map (·.value) = rest.map (·.value)) :
      Rebraces (⟨sign, .symbol .arrow⟩ :: (text ++ rest)) (⟨opening, .symbol .openCurly⟩ ::
        (text' ++ ⟨ending, .lineEnd⟩ :: ⟨closing, .symbol .closeCurly⟩ :: rest'))

-- The induction goes over the statements around the body and in it. The two lists are the same before
-- the sign and behind the body, and there the statements are read as before.
theorem StatementsAt.rebrace {place : Place} {here after : Cursor} {body : List Statement}
    (h : StatementsAt known place slots here body later after)
    {tail tail' : List (Located Token)} (hbraces : Rebraces tail tail') {other : Cursor}
    (hmoves : Moves tail tail' here.rest other.rest) :
    ∃ body' after', StatementsAt known place slots other body' later after' ∧
      shapes body' = shapes body ∧ Moves tail tail' after.rest after'.rest := by
  obtain ⟨hline, htext, hrest⟩ := hbraces
  induction h generalizing other with
  | stop stop =>
      obtain ⟨_, data'⟩ := other
      cases stop with
      | module =>
          obtain ⟨_, _, rfl, _⟩ := hmoves.uncons (by simp)
          exact ⟨_, _, .stop .module, rfl, hmoves⟩
      | block =>
          obtain ⟨_, _, rfl, hmore⟩ := hmoves.uncons (by simp)
          exact ⟨_, _, .stop .block, rfl, hmore⟩
      | arrow stop =>
          obtain ⟨_, _, rfl, _⟩ := hmoves.uncons (by rintro rfl; cases stop)
          exact ⟨_, _, .stop (.arrow stop), rfl, hmoves⟩
  | skip skip more ih =>
      obtain ⟨_, data'⟩ := other
      obtain ⟨_, rest', rfl, hmore⟩ := hmoves.uncons skip.ne_arrow
      obtain ⟨body', after', more', hshapes, hafter⟩ := @ih ⟨rest', data'⟩ hmore
      exact ⟨_, _, .skip skip more', hshapes, hafter⟩
  | externs list ends more ih =>
      obtain ⟨_, data'⟩ := other
      obtain ⟨_, _, rfl, hlist⟩ := hmoves.uncons (by simp)
      obtain ⟨names', middle', data'', list', hnames, hmiddle⟩ := Relocates.moves
        (fun _ => ListAt.relocates NameAt.relocates NameAt.passes)
        (fun list => list.phrase NameAt.phrase) list hlist data'
      obtain ⟨body', after', more', hshapes, hafter⟩ := @ih ⟨middle', data''⟩ hmiddle
      refine ⟨_, _, .externs list' (hmiddle.keepsEnd ends _) more', ?_, hafter⟩
      simp only [shapes, shape, hnames, hshapes]
  | function list distinct owner opens statements more ih ih' =>
      obtain ⟨_, data'⟩ := other
      obtain ⟨_, _, rfl, hname⟩ := hmoves.uncons (by simp)
      obtain ⟨_, _, rfl, hlist⟩ := hname.uncons (by simp)
      obtain ⟨parameters', head, data'', list', hnames, hopening⟩ := Relocates.moves
        (fun _ => EnclosedAt.relocates NameAt.relocates NameAt.passes)
        (fun list => list.phrase NameAt.phrase) list hlist data'
      rw [← hnames] at distinct
      rcases hopening.cons with ⟨_, inside', rfl, hinside⟩ | ⟨htail, rfl⟩
      · obtain ⟨inner', middle', statements', hinner, hmiddle⟩ := @ih ⟨inside', data''⟩ hinside
        obtain ⟨body', after', more', hshapes, hafter⟩ := ih' hmiddle
        rw [← hnames] at statements'
        refine ⟨_, _, .function list' distinct owner opens statements' more', ?_, hafter⟩
        simp only [shapes, shape, hnames, hinner, hshapes]
      -- Here the sign itself is the one that opens the body.
      · cases htail
        cases opens with
        | arrow =>
            cases owner
            obtain ⟨hmiddle, inner', last, statements', hinner⟩ :=
              statements.brace hline htext data''
            have hbehind := follows_of_values hrest
            rw [← hmiddle] at hbehind
            obtain ⟨body', after', more', hshapes, hafter⟩ := @ih' ⟨_, last⟩ (.inr hbehind)
            rw [← hnames] at statements'
            refine ⟨_, _, .function list' distinct rfl .block statements' more', ?_, hafter⟩
            simp only [shapes, shape, hnames, hinner, hshapes]
  | action owner one more ih =>
      obtain ⟨_, data'⟩ := other
      obtain ⟨action', middle', data'', one', hshape, hmiddle⟩ := Relocates.moves
        (fun hkeeps => ActionAt.relocates (.refl known) hkeeps) (fun one => one.phrase) one hmoves data'
      obtain ⟨_, _, rfl, _⟩ := hmoves.uncons (by rintro rfl; cases one.starts)
      obtain ⟨body', after', more', hshapes, hafter⟩ := @ih ⟨middle', data''⟩ hmiddle
      refine ⟨_, _, .action owner one' more', ?_, hafter⟩
      simp only [shapes, shape, hshape, hshapes]

-- A function with a short body: its head ends the tokens before the sign, and its statements are read
-- from the text behind the sign.
inductive ShortAt (known : KnownNames) (sign : Span) (text rest : List (Located Token)) :
    List (Located Token) → Function → Prop where
  | short
      (list : EnclosedAt NameAt ⟨head ++ ⟨sign, .symbol .arrow⟩ :: (text ++ rest), data⟩ parameters
        ⟨⟨sign, .symbol .arrow⟩ :: (text ++ rest), data'⟩)
      (statements : StatementsAt known (.arrow name) ⟨parameters.map (·.value), []⟩
        ⟨text ++ rest, data'⟩ body table ⟨rest, last⟩) :
      ShortAt known sign text rest
        (front ++ ⟨span, .keyword .func⟩ :: ⟨nameSpan, .name name⟩ :: head)
        ⟨name, parameters.map (·.value), body, table⟩

section Signs

variable {sign : Span} {text rest front behind : List (Located Token)} {function : Function}

theorem ShortAt.append (h : ShortAt known sign text rest front function)
    (earlier : List (Located Token)) : ShortAt known sign text rest (earlier ++ front) function := by
  cases h with
  | short list statements =>
      rw [← List.append_assoc]
      exact .short list statements

theorem ShortAt.restOfLine_eq (h : ShortAt known sign text rest front function) :
    restOfLine 0 (text ++ rest) = rest := by
  cases h with
  | short _ statements => exact statements.restOfLine_arrow

-- Where a token stands in a list with a part cut off its front: in that part, or behind it.
theorem split_token {used : List (Located Token)} {token : Located Token}
    (h : front ++ token :: behind = used ++ rest) :
    (∃ between, used = front ++ token :: between ∧ behind = between ++ rest) ∨
      ∃ front', front = used ++ front' ∧ rest = front' ++ token :: behind := by
  rcases List.append_eq_append_iff.mp h with ⟨between, rfl, hbetween⟩ | ⟨front', rfl, hrest⟩
  · cases between with
    | nil => exact .inr ⟨[], by simp, hbetween.symm⟩
    | cons first between =>
        obtain ⟨rfl, hbehind⟩ := List.cons.inj hbetween
        exact .inl ⟨between, rfl, hbehind⟩
  · exact .inr ⟨front', rfl, hrest⟩

-- The sign of a body stands in no phrase, so it comes behind one that begins in front of it.
theorem Cursor.Phrase.split_sign {here after : Cursor} (h : here.Phrase after)
    (hhere : here.rest = front ++ ⟨sign, .symbol .arrow⟩ :: behind) :
    ∃ used front', front = used ++ front' ∧ here.rest = used ++ after.rest ∧
      after.rest = front' ++ ⟨sign, .symbol .arrow⟩ :: behind := by
  obtain ⟨used, hused, hinside⟩ := h
  rcases split_token (hhere.symm.trans hused) with ⟨between, rfl, _⟩ | ⟨front', rfl, hafter⟩
  · have hsign := hinside _ (List.mem_append_right front List.mem_cons_self)
    cases hsign
  · exact ⟨used, front', rfl, hused, hafter⟩

theorem ne_of_suffix (h : rest <:+ behind) (first : Located Token) :
    rest ≠ front ++ first :: behind := by
  rintro rfl
  have hlength := h.length_le
  rw [List.length_append, List.length_cons] at hlength
  omega

-- Every sign of a short body among the tokens of statements opens the body of a function of theirs.
-- The induction goes over the statements of a place and of the functions inside it.
theorem StatementsAt.exists_shortAt {place : Place} {here after : Cursor} {body : List Statement}
    (h : StatementsAt known place slots here body later after)
    (hhere : here.rest = front ++ ⟨sign, .symbol .arrow⟩ :: behind)
    (hbehind : after.rest <:+ behind) :
    ∃ function ∈ functionsIn body, ∃ text rest, behind = text ++ rest ∧
      ShortAt known sign text rest front function := by
  induction h generalizing front with
  | stop stop =>
      cases stop with
      | module | arrow => exact absurd hhere (ne_of_suffix hbehind _)
      | block =>
          cases front with
          | nil => cases hhere
          | cons first front => exact absurd (List.cons.inj hhere).2 (ne_of_suffix hbehind _)
  | skip skip _ ih =>
      cases front with
      | nil =>
          cases hhere
          exact absurd rfl skip.ne_arrow
      | cons first front =>
          obtain ⟨function, hm, text, rest, hsplit, hshort⟩ := ih (List.cons.inj hhere).2 hbehind
          exact ⟨function, hm, text, rest, hsplit, hshort.append [first]⟩
  | externs list _ _ ih =>
      obtain ⟨used, front', rfl, _, hmiddle⟩ :=
        ((list.phrase NameAt.phrase).cons rfl).split_sign hhere
      obtain ⟨function, hm, text, rest, hsplit, hshort⟩ := ih hmiddle hbehind
      exact ⟨function, by simpa [functionsIn, functions] using hm, text, rest, hsplit,
        hshort.append used⟩
  | action _ one _ ih =>
      obtain ⟨used, front', rfl, _, hmiddle⟩ := one.phrase.split_sign hhere
      obtain ⟨function, hm, text, rest, hsplit, hshort⟩ := ih hmiddle hbehind
      exact ⟨function, by simpa [functionsIn, functions] using hm, text, rest, hsplit,
        hshort.append used⟩
  | function list _ owner opens statements _ ih ih' =>
      obtain ⟨used, front', rfl, hused, hopening⟩ := (list.phrase_head _ _ _).split_sign hhere
      obtain ⟨inside, hinside, _⟩ := statements.reaches
      cases front' with
      | nil =>
          cases hopening
          cases opens with
          | arrow =>
              cases owner
              obtain ⟨head, hhead, _⟩ := list.phrase NameAt.phrase
              dsimp only at hused hhead hinside
              subst hhead hinside
              have hfront : _ :: _ :: head ++ _ = used ++ _ := hused
              cases List.append_cancel_right hfront
              rw [List.append_nil]
              refine ⟨_, List.mem_cons_self, inside, _, rfl, ?_⟩
              change ShortAt known sign inside _ ([] ++ _) _
              exact .short list statements
      | cons first front' =>
          obtain ⟨rfl, hfront⟩ := List.cons.inj hopening
          rcases split_token (hfront.symm.trans hinside) with
            ⟨between, _, hsuffix⟩ | ⟨front, rfl, hmiddle⟩
          · obtain ⟨function, hm, text, rest, hsplit, hshort⟩ := ih hfront ⟨between, hsuffix.symm⟩
            refine ⟨function, by simp [functionsIn, functions, hm], text, rest, hsplit, ?_⟩
            exact (hshort.append [_]).append used
          · obtain ⟨function, hm, text, rest, hsplit, hshort⟩ := ih' hmiddle hbehind
            refine ⟨function, by simp [functionsIn, functions, hm], text, rest, hsplit, ?_⟩
            exact ((hshort.append inside).append [_]).append used

end Signs

end RayCompiler.Grammar
