import RayCompiler.Proofs.Grammar.Functions

namespace RayCompiler.KnownNames

theorem functionNames_cons {token : Token} {rest : List Token} (h : token ≠ .keyword .func) :
    functionNames (token :: rest) = functionNames rest := by
  rw [functionNames]
  rintro _ _ rfl
  exact absurd rfl h

theorem externNames_cons {token : Token} {rest : List Token} (h : token ≠ .keyword .external) :
    externNames (token :: rest) = externNames rest := by
  rw [externNames]
  rintro rfl
  exact absurd rfl h

end RayCompiler.KnownNames

namespace RayCompiler.Grammar

open KnownNames Statement

variable {known : KnownNames}

def Cursor.tokens (here : Cursor) : List Token := here.rest.map (·.value)

-- Reading on passes no keyword that introduces names.
def Cursor.SameNames (here after : Cursor) : Prop :=
  functionNames here.tokens = functionNames after.tokens ∧
    externNames here.tokens = externNames after.tokens

theorem Cursor.SameNames.trans {here middle after : Cursor} (h : here.SameNames middle)
    (h' : middle.SameNames after) : here.SameNames after :=
  ⟨h.1.trans h'.1, h.2.trans h'.2⟩

theorem Cursor.sameNames_tail {span : Span} {token : Token} {rest : List (Located Token)}
    {data later : List UInt8} (hfunc : token ≠ .keyword .func)
    (hexternal : token ≠ .keyword .external) :
    Cursor.SameNames ⟨⟨span, token⟩ :: rest, data⟩ ⟨rest, later⟩ :=
  ⟨functionNames_cons hfunc, externNames_cons hexternal⟩

theorem Cursor.SameNames.cons {span : Span} {token : Token} {rest : List (Located Token)}
    {data : List UInt8} {after : Cursor} (h : Cursor.SameNames ⟨rest, data⟩ after)
    (hfunc : token ≠ .keyword .func) (hexternal : token ≠ .keyword .external) :
    Cursor.SameNames ⟨⟨span, token⟩ :: rest, data⟩ after :=
  (sameNames_tail hfunc hexternal).trans h

theorem NameAt.sameNames {here after : Cursor} {name : Located String}
    (h : NameAt here name after) : here.SameNames after := by
  cases h
  exact Cursor.sameNames_tail (by simp) (by simp)

section Lists

variable {α : Type} {item : Cursor → α → Cursor → Prop}

theorem ListAt.sameNames (hitem : ∀ {here value after}, item here value after → here.SameNames after)
    {here after : Cursor} {items : List α} (h : ListAt item here items after) :
    here.SameNames after := by
  induction h with
  | one head => exact hitem head
  | more head _ ih =>
      exact (hitem head).trans (ih.cons (by simp) (by simp))

theorem EnclosedAt.sameNames
    (hitem : ∀ {here value after}, item here value after → here.SameNames after)
    {here after : Cursor} {items : List α} (h : EnclosedAt item here items after) :
    here.SameNames after := by
  cases h with
  | empty => exact (Cursor.sameNames_tail (by simp) (by simp)).cons (by simp) (by simp)
  | list inside =>
      refine Cursor.SameNames.cons ((inside.sameNames hitem).trans ?_) (by simp) (by simp)
      exact Cursor.sameNames_tail (by simp) (by simp)

end Lists

section Operands

variable {slots : SlotTable}

theorem OperandAt.sameNames {here after : Cursor} {operand : Operand}
    (h : OperandAt known slots here operand after) : here.SameNames after := by
  cases h with
  | pointee | address | symbolAddress =>
      exact (Cursor.sameNames_tail (by simp) (by simp)).cons (by simp) (by simp)
  | _ => exact Cursor.sameNames_tail (by simp) (by simp)

theorem OptionalAt.sameNames {here after : Cursor} {operand : Operand}
    (h : OptionalAt known slots here operand after) : here.SameNames after := by
  cases h with
  | absent => exact (Cursor.sameNames_tail (by simp) (by simp)).cons (by simp) (by simp)
  | given inside =>
      refine Cursor.SameNames.cons (inside.sameNames.trans ?_) (by simp) (by simp)
      exact Cursor.sameNames_tail (by simp) (by simp)

theorem CallAt.sameNames {here after : Cursor} {call : Call}
    (h : CallAt known slots here call after) : here.SameNames after := by
  cases h with
  | call _ inside => exact (inside.sameNames OperandAt.sameNames).cons (by simp) (by simp)

theorem ActionAt.sameNames {later : SlotTable} {here after : Cursor} {action : Action}
    (h : ActionAt known slots here action later after) : here.SameNames after := by
  cases h with
  | ret inside => exact inside.sameNames.cons (by simp) (by simp)
  | exit inside => exact inside.sameNames.cons (by simp) (by simp)
  | declare list => exact (list.sameNames NameAt.sameNames).cons (by simp) (by simp)
  | define right =>
      exact ((right.sameNames.cons (by simp) (by simp)).cons (by simp) (by simp)).cons (by simp)
        (by simp)
  | defineCall right =>
      exact ((right.sameNames.cons (by simp) (by simp)).cons (by simp) (by simp)).cons (by simp)
        (by simp)
  | assign _ right => exact (right.sameNames.cons (by simp) (by simp)).cons (by simp) (by simp)
  | assignCall _ right => exact (right.sameNames.cons (by simp) (by simp)).cons (by simp) (by simp)
  | call statement => exact statement.sameNames

end Operands

theorem Place.Opens.sameNames {place : Place} {span : Span} {token : Token}
    {rest : List (Located Token)} {data : List UInt8} (h : place.Opens token) :
    Cursor.SameNames ⟨⟨span, token⟩ :: rest, data⟩ ⟨rest, data⟩ := by
  cases h <;> exact Cursor.sameNames_tail (by simp) (by simp)

theorem Place.Skips.sameNames {place : Place} {span : Span} {token : Token}
    {rest : List (Located Token)} {data : List UInt8} (h : place.Skips token) :
    Cursor.SameNames ⟨⟨span, token⟩ :: rest, data⟩ ⟨rest, data⟩ := by
  cases h with
  | module trivia => cases trivia <;> exact Cursor.sameNames_tail (by simp) (by simp)
  | block trivia => cases trivia <;> exact Cursor.sameNames_tail (by simp) (by simp)
  | arrow => exact Cursor.sameNames_tail (by simp) (by simp)

theorem Place.Stops.sameNames {place : Place} {here after : Cursor} (h : place.Stops here after) :
    here.SameNames after := by
  cases h with
  | module => exact ⟨rfl, rfl⟩
  | block => exact Cursor.sameNames_tail (by simp) (by simp)
  | arrow => exact ⟨rfl, rfl⟩

-- The scan for the names of an extern declaration stops where the declaration does.
theorem ListAt.listedNames_eq {here after : Cursor} {names : List (Located String)}
    (h : ListAt NameAt here names after) (ends : after.Ends) :
    listedNames here.tokens = names.map (·.value) := by
  induction h with
  | one head =>
      cases head with
      | @name span text rest data =>
          obtain ⟨next, hnext, hterm⟩ := ends
          cases rest with
          | nil => cases hnext
          | cons following rest =>
              cases hnext
              rw [Cursor.tokens, List.map_cons, List.map_cons, listedNames]
              · rfl
              · rintro _ he
                rw [(List.cons.inj he).1] at hterm
                cases hterm with
                | line stop => cases stop
  | more head _ ih =>
      cases head
      exact congrArg (_ :: ·) (ih ends)

-- The scan over the tokens finds the names of the functions and externs in the order of the text.
theorem StatementsAt.scan_eq {place : Place} {slots later : SlotTable} {here after : Cursor}
    {body : List Statement} (h : StatementsAt known place slots here body later after) :
    functionNames here.tokens = (functionsIn body).map (·.name) ++ functionNames after.tokens ∧
      externNames here.tokens = (declarationsIn body).flatMap (·.2) ++ externNames after.tokens := by
  induction h with
  | stop stop => exact stop.sameNames
  | skip skip _ ih => exact ⟨skip.sameNames.1.trans ih.1, skip.sameNames.2.trans ih.2⟩
  | externs list ends _ ih =>
      have hsame := list.sameNames NameAt.sameNames
      refine ⟨(functionNames_cons (by simp)).trans (hsame.1.trans ih.1), ?_⟩
      simp only [Cursor.tokens, List.map_cons, externNames, declarationsIn, declarations,
        List.singleton_append, List.flatMap_cons, List.append_assoc]
      rw [← ListAt.listedNames_eq list ends, ← Cursor.tokens]
      exact congrArg _ (hsame.2.trans ih.2)
  | function list _ _ opens _ _ ih ih' =>
      have hsame := (list.sameNames NameAt.sameNames).trans opens.sameNames
      constructor
      · simp only [Cursor.tokens, List.map_cons, functionNames, functionsIn, Statement.functions,
          List.map_append, List.cons_append, List.append_assoc]
        exact congrArg _ (hsame.1.trans (ih.1.trans (congrArg _ ih'.1)))
      · simp only [declarationsIn, declarations, List.flatMap_append, List.append_assoc]
        refine (externNames_cons (by simp)).trans ((externNames_cons (by simp)).trans ?_)
        exact hsame.2.trans (ih.2.trans (congrArg _ ih'.2))
  | action _ one _ ih => exact ⟨one.sameNames.1.trans ih.1, one.sameNames.2.trans ih.2⟩

end RayCompiler.Grammar
