import RayCompiler.Proofs.Grammar.Phrases
import RayCompiler.Proofs.Grammar.Relocation
import RayCompiler.Proofs.Listing.Places

namespace RayCompiler

theorem Operand.isSome_offset?_of_shape {first second : Operand}
    (h : first.shape = second.shape) : first.offset?.isSome = second.offset?.isSome := by
  cases first <;> cases second <;> first | rfl | cases h

theorem Operand.eq_of_shape {first second : Operand} (hshape : first.shape = second.shape)
    (hoffset : first.offset? = second.offset?) : first = second := by
  cases first <;> cases second <;> simp_all [shape, offset?]

-- Operands of the same shapes that refer to the same offsets in order are the same.
theorem Operand.eq_of_shapes {first second : List Operand}
    (hshapes : first.map shape = second.map shape)
    (hoffsets : first.filterMap offset? = second.filterMap offset?) : first = second := by
  induction first generalizing second with
  | nil => exact (List.map_eq_nil_iff.mp hshapes.symm).symm
  | cons operand more ih =>
      cases second with
      | nil => cases hshapes
      | cons other others =>
          obtain ⟨hshape, hmore⟩ := List.cons.inj hshapes
          have hkind := isSome_offset?_of_shape hshape
          cases hoperand : operand.offset? with
          | none =>
              have hother : other.offset? = none := by simpa [hoperand] using hkind
              rw [List.filterMap_cons_none hoperand, List.filterMap_cons_none hother] at hoffsets
              rw [eq_of_shape hshape (hoperand.trans hother.symm), ih hmore hoffsets]
          | some offset =>
              obtain ⟨offset', hother⟩ : ∃ offset', other.offset? = some offset' := by
                rw [← Option.isSome_iff_exists, ← hkind, hoperand]
                rfl
              rw [List.filterMap_cons_some hoperand, List.filterMap_cons_some hother] at hoffsets
              obtain ⟨rfl, hrest⟩ := List.cons.inj hoffsets
              rw [eq_of_shape hshape (hoperand.trans hother.symm), ih hmore hrest]

namespace Action

-- An action with other operands in the places of its own.
def withOperands : Action → List Operand → Action
  | .define name _, [value] => .define name value
  | .assign name _, [value] => .assign name value
  | .call made, arguments => .call ⟨made.callee, arguments⟩
  | .callAssign name made, arguments => .callAssign name ⟨made.callee, arguments⟩
  | .ret _, [value] => .ret value
  | .exit _, [value] => .exit value
  | effect, _ => effect

theorem shape_withOperands (effect : Action) : effect.shape.withOperands effect.operands = effect := by
  cases effect <;> rfl

theorem operands_shape (effect : Action) :
    effect.shape.operands = effect.operands.map Operand.shape := by
  cases effect <;> rfl

-- An action is known by its shape and the offsets of its strings.
theorem eq_of_shape {first second : Action} (hshape : first.shape = second.shape)
    (hoffsets : first.operands.filterMap Operand.offset? =
      second.operands.filterMap Operand.offset?) : first = second := by
  have hoperands : first.operands = second.operands := by
    refine Operand.eq_of_shapes ?_ hoffsets
    rw [← operands_shape, hshape, operands_shape]
  rw [← shape_withOperands first, hshape, hoperands, shape_withOperands]

end Action

end RayCompiler

namespace RayCompiler.Grammar

open Statement

variable {known : KnownNames} {slots : SlotTable}

-- No trivia stands between two places.
def Cursor.Unbroken (here after : Cursor) : Prop :=
  ∃ used, here.rest = used ++ after.rest ∧ ∀ token ∈ used, ¬Trivia token.value

theorem Cursor.Phrase.unbroken {here after : Cursor} (h : here.Phrase after) :
    here.Unbroken after := by
  obtain ⟨used, hused, hinside⟩ := h
  exact ⟨used, hused, fun token hm => inPhrase.not_trivia (hinside token hm)⟩

-- The same tokens with other comments: a token keeps its line and column, a line end or the beginning
-- of a comment may stand elsewhere and may have more text behind it, and the text of a comment may
-- be another one.
inductive Recast : List (Located Token) → List (Located Token) → Prop where
  | nil : Recast [] []
  | token (place : span'.start.shown = span.start.shown) (more : Recast rest rest') :
      Recast (⟨span, token⟩ :: rest) (⟨span', token⟩ :: rest')
  | stop (trivia : Trivia token) (stop : LineStop token)
      (texts : ∀ extra ∈ extras, ∃ contents block, extra.value = .text contents block)
      (more : Recast rest rest') :
      Recast (⟨span, token⟩ :: rest) (⟨span', token⟩ :: (extras ++ rest'))
  | text (more : Recast rest rest') :
      Recast (⟨span, .text contents block⟩ :: rest) (⟨span', .text contents' block'⟩ :: rest')

theorem Recast.uncons {span : Span} {token : Token} {rest other : List (Located Token)}
    (h : Recast (⟨span, token⟩ :: rest) other) (htoken : ¬Trivia token) :
    ∃ span' rest', other = ⟨span', token⟩ :: rest' ∧ span'.start.shown = span.start.shown ∧
      Recast rest rest' := by
  cases h with
  | token place more => exact ⟨_, _, rfl, place, more⟩
  | stop trivia => exact absurd trivia htoken
  | text => exact absurd (.text _ _) htoken

theorem Recast.keepsEnd {tail tail' : List (Located Token)} (h : Recast tail tail') :
    KeepsEnd tail tail' := by
  rintro data ⟨token, hhead, hterminator⟩ data'
  cases h with
  | nil => cases hhead
  | token place more =>
      cases hhead
      exact ⟨_, rfl, hterminator⟩
  | stop trivia stop => exact ⟨_, rfl, .line stop⟩
  | text more =>
      cases hhead
      cases hterminator with
      | line stop => cases stop

-- Tokens before the next trivia are the same ones in both lists.
theorem Recast.split {used tail other : List (Located Token)} (h : Recast (used ++ tail) other)
    (hplain : ∀ token ∈ used, ¬Trivia token.value) :
    ∃ used' tail', other = used' ++ tail' ∧ used'.map (·.value) = used.map (·.value) ∧
      Recast tail tail' := by
  induction used generalizing other with
  | nil => exact ⟨[], other, rfl, rfl, h⟩
  | cons first used ih =>
      obtain ⟨span', rest', rfl, _, hrest⟩ := h.uncons (hplain first List.mem_cons_self)
      obtain ⟨used', tail', rfl, hvalues, htail⟩ :=
        ih hrest fun token hm => hplain token (List.mem_cons_of_mem _ hm)
      exact ⟨⟨span', first.value⟩ :: used', tail', rfl, congrArg (_ :: ·) hvalues, htail⟩

-- The strings of the same tokens have the same bytes and the same offsets.
theorem Interns.data_eq {here after other after' : Cursor} {operands operands' : List Operand}
    (h : Interns here operands after) (h' : Interns other operands' after')
    {used used' : List (Located Token)} (hused : here.rest = used ++ after.rest)
    (hused' : other.rest = used' ++ after'.rest)
    (hvalues : used'.map (·.value) = used.map (·.value)) (hdata : other.data = here.data) :
    after'.data = after.data ∧
      operands'.filterMap Operand.offset? = operands.filterMap Operand.offset? := by
  obtain ⟨tokens, htokens, hbytes, hoffsets⟩ := h
  obtain ⟨tokens', htokens', hbytes', hoffsets'⟩ := h'
  cases List.append_cancel_right (htokens.symm.trans hused)
  cases List.append_cancel_right (htokens'.symm.trans hused')
  have hstrings := stringsOf_eq_of_values hvalues
  exact ⟨by rw [hbytes', hbytes, hdata, hstrings], by rw [hoffsets', hoffsets, hdata, hstrings]⟩

-- A phrase is read again from the same tokens, if a statement may end behind them as before.
theorem Relocates.again {α γ : Type} {view : α → γ} {phrase : Cursor → α → Cursor → Prop}
    (hphrase : ∀ {tail tail'}, KeepsEnd tail tail' → Relocates tail tail' view phrase phrase)
    {here after : Cursor} {value : α} (h : phrase here value after)
    {used used' rest' : List (Located Token)} (hused : here.rest = used ++ after.rest)
    (hvalues : used'.map (·.value) = used.map (·.value)) (hkeeps : KeepsEnd after.rest rest')
    (data : List UInt8) :
    ∃ value' data', phrase ⟨used' ++ rest', data⟩ value' ⟨rest', data'⟩ ∧ view value' = view value := by
  have hfollows : Follows after.rest rest' here.rest (used' ++ rest') :=
    hused ▸ follows_append hvalues
  obtain ⟨value', ⟨last, data'⟩, h', hview, hafter⟩ :=
    (hphrase hkeeps) ⟨used' ++ rest', data⟩ h (Nat.le_refl _) hfollows
  obtain rfl : last = rest' := hafter.eq_of_ends
  exact ⟨value', data', h', hview⟩

-- A phrase without trivia is read again from the recast tokens, with the same offsets of strings.
theorem Relocates.recast {α γ : Type} {view : α → γ} {operandsOf : α → List Operand}
    {phrase : Cursor → α → Cursor → Prop}
    (hphrase : ∀ {tail tail'}, KeepsEnd tail tail' → Relocates tail tail' view phrase phrase)
    (hunbroken : ∀ {here value after}, phrase here value after → here.Unbroken after)
    (hinterns : ∀ {here value after}, phrase here value after →
      Interns here (operandsOf value) after)
    {here after : Cursor} {value : α} (h : phrase here value after) {other : List (Located Token)}
    (hrecast : Recast here.rest other) :
    ∃ value' rest', phrase ⟨other, here.data⟩ value' ⟨rest', after.data⟩ ∧ view value' = view value ∧
      (operandsOf value').filterMap Operand.offset? = (operandsOf value).filterMap Operand.offset? ∧
      Recast after.rest rest' := by
  obtain ⟨used, hused, hplain⟩ := hunbroken h
  rw [hused] at hrecast
  obtain ⟨used', rest', rfl, hvalues, hrest⟩ := hrecast.split hplain
  obtain ⟨value', data', h', hview⟩ :=
    Relocates.again hphrase h hused hvalues hrest.keepsEnd here.data
  obtain ⟨rfl, hoffsets⟩ := (hinterns h).data_eq (hinterns h') hused rfl hvalues rfl
  exact ⟨value', rest', h', hview, hoffsets, hrest⟩

section Statements

variable {other : List (Located Token)}

theorem ListAt.recast {here after : Cursor} {names : List (Located String)}
    (h : ListAt NameAt here names after) (hrecast : Recast here.rest other) :
    ∃ names' rest', ListAt NameAt ⟨other, here.data⟩ names' ⟨rest', after.data⟩ ∧
      names'.map (·.value) = names.map (·.value) ∧ Recast after.rest rest' := by
  obtain ⟨names', rest', h', hview, _, hrest⟩ := Relocates.recast
    (fun _ => ListAt.relocates NameAt.relocates NameAt.passes)
    (fun list => (list.phrase NameAt.phrase).unbroken) (fun list => list.interns_none) h hrecast
  exact ⟨names', rest', h', hview, hrest⟩

theorem EnclosedAt.recast {here after : Cursor} {names : List (Located String)}
    (h : EnclosedAt NameAt here names after) (hrecast : Recast here.rest other) :
    ∃ names' rest', EnclosedAt NameAt ⟨other, here.data⟩ names' ⟨rest', after.data⟩ ∧
      names'.map (·.value) = names.map (·.value) ∧ Recast after.rest rest' := by
  obtain ⟨names', rest', h', hview, _, hrest⟩ := Relocates.recast
    (fun _ => EnclosedAt.relocates NameAt.relocates NameAt.passes)
    (fun list => (list.phrase NameAt.phrase).unbroken) (fun list => list.interns_none) h hrecast
  exact ⟨names', rest', h', hview, hrest⟩

theorem ActionAt.recast {later : SlotTable} {here after : Cursor} {action : Action}
    (h : ActionAt known slots here action later after) (hrecast : Recast here.rest other) :
    ∃ rest', ActionAt known slots ⟨other, here.data⟩ action later ⟨rest', after.data⟩ ∧
      Recast after.rest rest' := by
  obtain ⟨action', rest', h', hshape, hoffsets, hrest⟩ := Relocates.recast
    (fun hkeeps => ActionAt.relocates (.refl known) hkeeps) (fun one => one.phrase.unbroken)
    (fun one => one.interns) h hrecast
  rw [Action.eq_of_shape hshape hoffsets] at h'
  exact ⟨rest', h', hrest⟩

-- Where other trivia than a semicolon is skipped, the text of a comment is skipped too.
theorem Place.Skips.text {place : Place} {token : Token} (h : place.Skips token)
    (htoken : token ≠ .symbol .semicolon) (contents : String) (block : Bool) :
    place.Skips (.text contents block) := by
  cases h with
  | module => exact .module (.text _ _)
  | block => exact .block (.text _ _)
  | arrow => exact absurd rfl htoken

theorem StatementsAt.behind_texts {place : Place} {later : SlotTable} {after : Cursor}
    {body : List Statement} {rest extras : List (Located Token)} {data : List UInt8}
    (hskips : ∀ contents block, place.Skips (.text contents block))
    (htexts : ∀ extra ∈ extras, ∃ contents block, extra.value = .text contents block)
    (h : StatementsAt known place slots ⟨rest, data⟩ body later after) :
    StatementsAt known place slots ⟨extras ++ rest, data⟩ body later after := by
  induction extras with
  | nil => exact h
  | cons extra extras ih =>
      obtain ⟨contents, block, htext⟩ := htexts extra List.mem_cons_self
      refine .skip ?_ (ih fun other hm => htexts other (List.mem_cons_of_mem _ hm))
      rw [htext]
      exact hskips contents block

theorem Place.Stops.recast {place : Place} {here after : Cursor} (h : place.Stops here after)
    (hrecast : Recast here.rest other) :
    ∃ rest', place.Stops ⟨other, here.data⟩ ⟨rest', after.data⟩ ∧ Recast after.rest rest' := by
  cases h with
  | module =>
      obtain ⟨_, _, rfl, _, _⟩ := hrecast.uncons (by rintro ⟨⟩)
      exact ⟨_, .module, hrecast⟩
  | block =>
      obtain ⟨_, rest', rfl, _, hrest⟩ := hrecast.uncons (by rintro ⟨⟩)
      exact ⟨rest', .block, hrest⟩
  | arrow stop =>
      refine ⟨other, ?_, hrecast⟩
      cases hrecast with
      | token => exact .arrow stop
      | stop => exact .arrow stop
      | text => cases stop

-- The induction goes over the statements of a place and of the functions inside it. Only where trivia
-- is skipped do the lists differ by more than places, and more text is skipped there.
theorem StatementsAt.recast {place : Place} {later : SlotTable} {here after : Cursor}
    {body : List Statement} (h : StatementsAt known place slots here body later after)
    (hrecast : Recast here.rest other) :
    ∃ body' rest', StatementsAt known place slots ⟨other, here.data⟩ body' later
        ⟨rest', after.data⟩ ∧ shownAll body' = shownAll body ∧ Recast after.rest rest' := by
  induction h generalizing other with
  | stop stop =>
      obtain ⟨rest', stop', hrest⟩ := stop.recast hrecast
      exact ⟨_, _, .stop stop', rfl, hrest⟩
  | skip skip more ih =>
      cases hrecast with
      | token place more =>
          obtain ⟨body', rest', more', hshown, hrest⟩ := ih more
          exact ⟨_, _, .skip skip more', hshown, hrest⟩
      | stop trivia stop texts more =>
          obtain ⟨body', rest', more', hshown, hrest⟩ := ih more
          have hskips := skip.text (by rintro rfl; cases stop)
          exact ⟨_, _, .skip skip (more'.behind_texts hskips texts), hshown, hrest⟩
      | text more =>
          obtain ⟨body', rest', more', hshown, hrest⟩ := ih more
          exact ⟨_, _, .skip (skip.text (by simp) _ _) more', hshown, hrest⟩
  | externs list ends more ih =>
      obtain ⟨span', _, rfl, hplace, hlist⟩ := hrecast.uncons (by rintro ⟨⟩)
      obtain ⟨names', middle', list', hnames, hmiddle⟩ := list.recast hlist
      obtain ⟨body', rest', more', hshown, hrest⟩ := ih hmiddle
      refine ⟨_, _, .externs list' (hmiddle.keepsEnd ends _) more', ?_, hrest⟩
      simp only [shownAll, shown, hnames, hplace, hshown]
  | function list distinct owner opens statements more ih ih' =>
      obtain ⟨span', _, rfl, hplace, hname⟩ := hrecast.uncons (by rintro ⟨⟩)
      obtain ⟨nameSpan', _, rfl, _, hlist⟩ := hname.uncons (by rintro ⟨⟩)
      obtain ⟨parameters', _, list', hnames, hopening⟩ := list.recast hlist
      have hopen := hopening.uncons (by cases opens <;> rintro ⟨⟩)
      obtain ⟨openSpan', inside', rfl, _, hinside⟩ := hopen
      obtain ⟨inner', middle', statements', hinner, hmiddle⟩ := ih hinside
      obtain ⟨body', rest', more', hshown, hrest⟩ := ih' hmiddle
      rw [← hnames] at distinct statements'
      refine ⟨_, _, .function list' distinct owner opens statements' more', ?_, hrest⟩
      simp only [shownAll, shown, hnames, hplace, hinner, hshown]
  | action owner one more ih =>
      obtain ⟨middle', one', hmiddle⟩ := one.recast hrecast
      obtain ⟨span', _, rfl, hplace, _⟩ :=
        hrecast.uncons (StartsStatement.action one.starts).not_trivia
      obtain ⟨body', rest', more', hshown, hrest⟩ := ih hmiddle
      refine ⟨_, _, .action owner one' more', ?_, hrest⟩
      simp only [shownAll, shown, hplace, hshown]

end Statements

end RayCompiler.Grammar

namespace RayCompiler

open Grammar

-- Tokens with other comments form a program of which the same is shown.
theorem Forms.recast {tokens tokens' : List (Located Token)} {program : Program}
    (h : Forms tokens program) (htokens : EndsOnce tokens') (hrecast : Recast tokens tokens') :
    ∃ other, Forms tokens' other ∧ program.LooksLike other := by
  obtain ⟨⟨span, derivation⟩, hdistinct, hapart⟩ := h
  obtain ⟨body', rest', derivation', hshown, _⟩ := derivation.recast hrecast
  have hlooks : program.LooksLike ⟨body', program.data⟩ := ⟨hshown, rfl⟩
  obtain ⟨span', rfl⟩ := derivation'.rest_eq htokens
  rw [← hlooks.introduced] at derivation' hdistinct hapart
  exact ⟨⟨body', program.data⟩, ⟨⟨span', derivation'⟩, hdistinct, hapart⟩, hlooks⟩

end RayCompiler
