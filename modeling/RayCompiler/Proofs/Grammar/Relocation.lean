import RayCompiler.Proofs.Grammar.Strings

namespace RayCompiler

-- An operand without the offset of a string.
def Operand.shape : Operand → Operand
  | .data _ => .data 0
  | operand => operand

def Call.shape (call : Call) : Call := ⟨call.callee, call.arguments.map Operand.shape⟩

def Action.shape : Action → Action
  | .define name value => .define name value.shape
  | .declare names => .declare names
  | .assign name value => .assign name value.shape
  | .call made => .call made.shape
  | .callAssign name made => .callAssign name made.shape
  | .ret value => .ret value.shape
  | .exit value => .exit value.shape

namespace Statement

mutual

-- A statement without its places in the text and the offsets of its strings.
def shape : Statement → Statement
  | .externs _ names => .externs .start names
  | .function _ name parameters body slots => .function .start name parameters (shapes body) slots
  | .action _ scope effect => .action .start scope effect.shape

def shapes : List Statement → List Statement
  | [] => []
  | statement :: more => statement.shape :: shapes more

end

-- The names that a statement introduces do not depend on what its shape leaves out.
mutual

theorem introduces_shape (statement : Statement) :
    statement.shape.functions.map (·.name) = statement.functions.map (·.name) ∧
      statement.shape.declarations.flatMap (·.2) = statement.declarations.flatMap (·.2) := by
  cases statement with
  | externs | action => exact ⟨rfl, rfl⟩
  | function position name parameters body slots =>
      obtain ⟨hfunctions, hdeclarations⟩ := introduces_shapes body
      exact ⟨congrArg (name :: ·) hfunctions, hdeclarations⟩

theorem introduces_shapes (body : List Statement) :
    (functionsIn (shapes body)).map (·.name) = (functionsIn body).map (·.name) ∧
      (declarationsIn (shapes body)).flatMap (·.2) = (declarationsIn body).flatMap (·.2) := by
  cases body with
  | nil => exact ⟨rfl, rfl⟩
  | cons statement more =>
      obtain ⟨hfunctions, hdeclarations⟩ := introduces_shape statement
      obtain ⟨hfunctions', hdeclarations'⟩ := introduces_shapes more
      simp only [shapes, functionsIn, declarationsIn, List.map_append, List.flatMap_append,
        hfunctions, hdeclarations, hfunctions', hdeclarations', and_self]

end

end Statement

end RayCompiler

namespace RayCompiler.Grammar

open Statement

-- The same tokens up to two ends, whatever their places in the text are.
inductive Follows (tail tail' : List (Located Token)) :
    List (Located Token) → List (Located Token) → Prop where
  | ends : Follows tail tail' tail tail'
  | token (more : Follows tail tail' rest rest') :
      Follows tail tail' (⟨span, token⟩ :: rest) (⟨span', token⟩ :: rest')

theorem follows_append {tail tail' used used' : List (Located Token)}
    (h : used'.map (·.value) = used.map (·.value)) :
    Follows tail tail' (used ++ tail) (used' ++ tail') := by
  induction used generalizing used' with
  | nil =>
      rw [List.map_eq_nil_iff.mp h]
      exact .ends
  | cons first used ih =>
      obtain ⟨first', rest', rfl, hfirst, hrest⟩ := List.map_eq_cons_iff.mp h
      obtain ⟨span', token'⟩ := first'
      cases hfirst
      exact .token (ih hrest)

theorem Follows.length_le {tail tail' rest rest' : List (Located Token)}
    (h : Follows tail tail' rest rest') : tail.length ≤ rest.length := by
  induction h with
  | ends => exact Nat.le_refl _
  | token _ ih => exact Nat.le_succ_of_le ih

theorem Follows.eq_of_ends {tail tail' other : List (Located Token)}
    (h : Follows tail tail' tail other) : other = tail' := by
  cases h with
  | ends => rfl
  | token more => exact absurd more.length_le (Nat.not_succ_le_self _)

-- A token before the end has its like at the other place.
theorem Follows.uncons {tail tail' rest other : List (Located Token)} {span : Span} {token : Token}
    (h : Follows tail tail' (⟨span, token⟩ :: rest) other) (hlength : tail.length ≤ rest.length) :
    ∃ span' rest', other = ⟨span', token⟩ :: rest' ∧ Follows tail tail' rest rest' := by
  cases h with
  | ends => exact absurd hlength (Nat.not_succ_le_self _)
  | token more => exact ⟨_, _, rfl, more⟩

-- Two sets of names that contain the same ones.
structure SameNames (known known' : KnownNames) : Prop where
  functions : ∀ name, name ∈ known'.functions ↔ name ∈ known.functions
  externs : ∀ name, name ∈ known'.externs ↔ name ∈ known.externs

theorem SameNames.refl (known : KnownNames) : SameNames known known :=
  ⟨fun _ => Iff.rfl, fun _ => Iff.rfl⟩

section Relocation

variable {tail tail' : List (Located Token)} {known known' : KnownNames} {slots later : SlotTable}

-- Wherever the same tokens stand up to the end, a phrase of this kind can be read from them again,
-- with the same view of its result.
def Relocates {α γ : Type} (tail tail' : List (Located Token)) (view : α → γ)
    (phrase phrase' : Cursor → α → Cursor → Prop) : Prop :=
  ∀ {here value after} (other : Cursor), phrase here value after →
    tail.length ≤ after.rest.length → Follows tail tail' here.rest other.rest →
    ∃ value' after', phrase' other value' after' ∧ view value' = view value ∧
      Follows tail tail' after.rest after'.rest

theorem NameAt.relocates : Relocates tail tail' (·.value) NameAt NameAt := by
  rintro _ _ _ ⟨rest', data'⟩ ⟨⟩ hlength hfollows
  obtain ⟨span', rest', rfl, hrest⟩ := hfollows.uncons hlength
  exact ⟨_, _, .name, rfl, hrest⟩

section Behind

variable {α γ : Type} {view : α → γ} {phrase phrase' : Cursor → α → Cursor → Prop} {value : α}
  {after : Cursor} {rest other : List (Located Token)} {data : List UInt8}

-- A phrase behind a token is read again behind the like of that token.
theorem Relocates.behind (hphrase : Relocates tail tail' view phrase phrase') (data' : List UInt8)
    (h : phrase ⟨rest, data⟩ value after) (hpasses : after.rest.length ≤ rest.length)
    (hlength : tail.length ≤ after.rest.length) {span : Span} {token : Token}
    (hfollows : Follows tail tail' (⟨span, token⟩ :: rest) other) :
    ∃ span' rest' value' after', other = ⟨span', token⟩ :: rest' ∧
      phrase' ⟨rest', data'⟩ value' after' ∧ view value' = view value ∧
      Follows tail tail' after.rest after'.rest := by
  obtain ⟨span', rest', rfl, hrest⟩ := hfollows.uncons (hlength.trans hpasses)
  obtain ⟨value', after', h', hview, hafter⟩ := hphrase ⟨rest', data'⟩ h hlength hrest
  exact ⟨_, _, _, _, rfl, h', hview, hafter⟩

-- The right side of an assignment behind the name on its left side.
theorem Relocates.assigned (hphrase : Relocates tail tail' view phrase phrase') (data' : List UInt8)
    (h : phrase ⟨rest, data⟩ value after) (hpasses : after.rest.length ≤ rest.length)
    (hlength : tail.length ≤ after.rest.length) {nameSpan sign : Span} {name : String}
    (hfollows : Follows tail tail'
      (⟨nameSpan, .name name⟩ :: ⟨sign, .symbol .assign⟩ :: rest) other) :
    ∃ nameSpan' sign' rest' value' after',
      other = ⟨nameSpan', .name name⟩ :: ⟨sign', .symbol .assign⟩ :: rest' ∧
      phrase' ⟨rest', data'⟩ value' after' ∧ view value' = view value ∧
      Follows tail tail' after.rest after'.rest := by
  obtain ⟨nameSpan', _, rfl, hsign⟩ :=
    hfollows.uncons (Nat.le_succ_of_le (hlength.trans hpasses))
  obtain ⟨sign', rest', value', after', rfl, h', hview, hafter⟩ :=
    hphrase.behind data' h hpasses hlength hsign
  exact ⟨_, _, _, _, _, rfl, h', hview, hafter⟩

end Behind

section Lists

variable {α γ : Type} {view : α → γ} {item item' : Cursor → α → Cursor → Prop}

theorem ListAt.relocates (hitem : Relocates tail tail' view item item')
    (hpasses : ∀ {here value after}, item here value after → here.Passes after) :
    Relocates tail tail' (List.map view) (ListAt item) (ListAt item') := by
  intro here items after other h
  induction h generalizing other with
  | one head =>
      intro hlength hfollows
      obtain ⟨value', after', head', hview, hafter⟩ := hitem other head hlength hfollows
      exact ⟨_, _, .one head', by simp [hview], hafter⟩
  | more head others ih =>
      intro hlength hfollows
      have hbehind := hlength.trans (others.passes hpasses).1.length_le
      obtain ⟨value', ⟨between, data'⟩, head', hview, hcomma⟩ :=
        hitem other head (Nat.le_succ_of_le hbehind) hfollows
      obtain ⟨span', rest', rfl, hrest⟩ := hcomma.uncons hbehind
      obtain ⟨items', after', others', hviews, hafter⟩ := ih ⟨rest', data'⟩ hlength hrest
      exact ⟨_, _, .more head' others', by simp [hview, hviews], hafter⟩

theorem EnclosedAt.relocates (hitem : Relocates tail tail' view item item')
    (hpasses : ∀ {here value after}, item here value after → here.Passes after) :
    Relocates tail tail' (List.map view) (EnclosedAt item) (EnclosedAt item') := by
  rintro _ _ _ ⟨rest', data'⟩ h hlength hfollows
  cases h with
  | empty =>
      obtain ⟨_, _, rfl, hclosing⟩ := hfollows.uncons (Nat.le_succ_of_le hlength)
      obtain ⟨_, _, rfl, hrest⟩ := hclosing.uncons hlength
      exact ⟨_, _, .empty, rfl, hrest⟩
  | list inside =>
      have hclose := Nat.le_succ_of_le hlength
      obtain ⟨_, rest', rfl, hrest⟩ :=
        hfollows.uncons (hclose.trans (inside.passes hpasses).1.length_le)
      obtain ⟨items', ⟨closing, data''⟩, inside', hviews, hclosing⟩ :=
        (ListAt.relocates hitem hpasses) ⟨rest', data'⟩ inside hclose hrest
      obtain ⟨_, _, rfl, hafter⟩ := hclosing.uncons hlength
      exact ⟨_, _, .list inside', hviews, hafter⟩

end Lists

theorem OperandAt.relocates (hknown : SameNames known known') :
    Relocates tail tail' Operand.shape (OperandAt known slots) (OperandAt known' slots) := by
  rintro _ _ _ ⟨rest', data'⟩ h hlength hfollows
  cases h with
  | pointee found =>
      obtain ⟨_, _, rfl, hname⟩ := hfollows.uncons (Nat.le_succ_of_le hlength)
      obtain ⟨_, _, rfl, hrest⟩ := hname.uncons hlength
      exact ⟨_, _, .pointee found, rfl, hrest⟩
  | address found =>
      obtain ⟨_, _, rfl, hname⟩ := hfollows.uncons (Nat.le_succ_of_le hlength)
      obtain ⟨_, _, rfl, hrest⟩ := hname.uncons hlength
      exact ⟨_, _, .address found, rfl, hrest⟩
  | symbolAddress missing symbol =>
      obtain ⟨_, _, rfl, hname⟩ := hfollows.uncons (Nat.le_succ_of_le hlength)
      obtain ⟨_, _, rfl, hrest⟩ := hname.uncons hlength
      refine ⟨_, _, .symbolAddress missing ?_, rfl, hrest⟩
      rwa [hknown.functions, hknown.externs]
  | literal =>
      obtain ⟨_, _, rfl, hrest⟩ := hfollows.uncons hlength
      exact ⟨_, _, .literal, rfl, hrest⟩
  | string =>
      obtain ⟨_, _, rfl, hrest⟩ := hfollows.uncons hlength
      exact ⟨_, _, .string, rfl, hrest⟩
  | «variable» found =>
      obtain ⟨_, _, rfl, hrest⟩ := hfollows.uncons hlength
      exact ⟨_, _, .variable found, rfl, hrest⟩
  | external missing imported =>
      obtain ⟨_, _, rfl, hrest⟩ := hfollows.uncons hlength
      exact ⟨_, _, .external missing ((hknown.externs _).mpr imported), rfl, hrest⟩
  | function missing notExtern function =>
      obtain ⟨_, _, rfl, hrest⟩ := hfollows.uncons hlength
      refine ⟨_, _, .function missing ?_ ((hknown.functions _).mpr function), rfl, hrest⟩
      rwa [hknown.externs]

theorem OptionalAt.relocates (hknown : SameNames known known') :
    Relocates tail tail' Operand.shape (OptionalAt known slots) (OptionalAt known' slots) := by
  rintro _ _ _ ⟨rest', data'⟩ h hlength hfollows
  cases h with
  | absent =>
      obtain ⟨_, _, rfl, hclosing⟩ := hfollows.uncons (Nat.le_succ_of_le hlength)
      obtain ⟨_, _, rfl, hrest⟩ := hclosing.uncons hlength
      exact ⟨_, _, .absent, rfl, hrest⟩
  | given inside =>
      have hclose := Nat.le_succ_of_le hlength
      obtain ⟨_, rest', rfl, hrest⟩ := hfollows.uncons (hclose.trans inside.passes.1.length_le)
      obtain ⟨value', ⟨closing, data''⟩, inside', hview, hclosing⟩ :=
        (OperandAt.relocates hknown) ⟨rest', data'⟩ inside hclose hrest
      obtain ⟨_, _, rfl, hafter⟩ := hclosing.uncons hlength
      exact ⟨_, _, .given inside', hview, hafter⟩

-- A statement may end at the new end wherever it may at the old one.
def KeepsEnd (tail tail' : List (Located Token)) : Prop :=
  ∀ {data}, Cursor.Ends ⟨tail, data⟩ → ∀ data', Cursor.Ends ⟨tail', data'⟩

theorem Cursor.Ends.relocate (hkeeps : KeepsEnd tail tail') {here other : Cursor} (h : here.Ends)
    (hfollows : Follows tail tail' here.rest other.rest) : other.Ends := by
  obtain ⟨rest, data⟩ := here
  obtain ⟨rest', data'⟩ := other
  cases hfollows with
  | ends => exact hkeeps h data'
  | token more =>
      obtain ⟨token, hhead, hterminator⟩ := h
      cases hhead
      exact ⟨_, rfl, hterminator⟩

theorem CallAt.relocates (hknown : SameNames known known') (hkeeps : KeepsEnd tail tail') :
    Relocates tail tail' Call.shape (CallAt known slots) (CallAt known' slots) := by
  rintro _ _ _ ⟨rest', data'⟩ h hlength hfollows
  cases h with
  | call callable inside ends =>
      obtain ⟨_, _, operands', after', rfl, inside', hviews, hafter⟩ :=
        Relocates.behind (EnclosedAt.relocates (OperandAt.relocates hknown) OperandAt.passes) data' inside
          (inside.passes OperandAt.passes).1.length_le hlength hfollows
      refine ⟨_, _, .call ?_ inside' (ends.relocate hkeeps hafter), ?_, hafter⟩
      · rwa [hknown.functions, hknown.externs]
      · simp only [Call.shape, hviews]

theorem ActionAt.relocates (hknown : SameNames known known') (hkeeps : KeepsEnd tail tail') :
    Relocates tail tail' Action.shape (fun here action => ActionAt known slots here action later)
      (fun here action => ActionAt known' slots here action later) := by
  rintro _ _ _ ⟨rest', data'⟩ h hlength hfollows
  cases h with
  | ret inside ends =>
      obtain ⟨_, _, _, _, rfl, inside', hview, hafter⟩ :=
        Relocates.behind (OptionalAt.relocates hknown) data' inside inside.passes.1.length_le
          hlength hfollows
      exact ⟨_, _, .ret inside' (ends.relocate hkeeps hafter), by simp [Action.shape, hview], hafter⟩
  | exit inside ends =>
      obtain ⟨_, _, _, _, rfl, inside', hview, hafter⟩ :=
        Relocates.behind (OptionalAt.relocates hknown) data' inside inside.passes.1.length_le
          hlength hfollows
      exact ⟨_, _, .exit inside' (ends.relocate hkeeps hafter), by simp [Action.shape, hview], hafter⟩
  | declare list ends distinct fresh =>
      obtain ⟨_, _, names', _, rfl, list', hview, hafter⟩ :=
        Relocates.behind (ListAt.relocates NameAt.relocates NameAt.passes) data' list
          (list.passes NameAt.passes).1.length_le hlength hfollows
      have hfresh : ∀ text ∈ names'.map (·.value), slots.resolve? text = none := by
        rw [hview]
        simpa using fresh
      rw [← hview] at distinct ⊢
      exact ⟨_, _, .declare list' (ends.relocate hkeeps hafter) distinct (by simpa using hfresh), rfl,
        hafter⟩
  | define right ends fresh =>
      have hvalue := right.passes.1.length_le
      obtain ⟨_, _, rfl, hname⟩ :=
        hfollows.uncons (Nat.le_succ_of_le (Nat.le_succ_of_le (hlength.trans hvalue)))
      obtain ⟨_, _, _, _, _, rfl, right', hview, hafter⟩ :=
        Relocates.assigned (OperandAt.relocates hknown) data' right hvalue hlength hname
      exact ⟨_, _, .define right' (ends.relocate hkeeps hafter) fresh, by simp [Action.shape, hview],
        hafter⟩
  | defineCall right fresh =>
      have hvalue := right.passes.1.length_le
      obtain ⟨_, _, rfl, hname⟩ :=
        hfollows.uncons (Nat.le_succ_of_le (Nat.le_succ_of_le (hlength.trans hvalue)))
      obtain ⟨_, _, _, _, _, rfl, right', hview, hafter⟩ :=
        Relocates.assigned (CallAt.relocates hknown hkeeps) data' right hvalue hlength hname
      exact ⟨_, _, .defineCall right' fresh, by simp [Action.shape, hview], hafter⟩
  | assign found right ends =>
      obtain ⟨_, _, _, _, _, rfl, right', hview, hafter⟩ :=
        Relocates.assigned (OperandAt.relocates hknown) data' right right.passes.1.length_le
          hlength hfollows
      exact ⟨_, _, .assign found right' (ends.relocate hkeeps hafter), by simp [Action.shape, hview],
        hafter⟩
  | assignCall found right =>
      obtain ⟨_, _, _, _, _, rfl, right', hview, hafter⟩ :=
        Relocates.assigned (CallAt.relocates hknown hkeeps) data' right right.passes.1.length_le
          hlength hfollows
      exact ⟨_, _, .assignCall found right', by simp [Action.shape, hview], hafter⟩
  | call statement =>
      obtain ⟨_, _, statement', hview, hafter⟩ :=
        (CallAt.relocates hknown hkeeps) ⟨rest', data'⟩ statement hlength hfollows
      exact ⟨_, _, .call statement', by simp [Action.shape, hview], hafter⟩

-- The new end has to be one where every kind of statement and every short body may end.
def EndsLine (tail : List (Located Token)) : Prop := ∃ span more, tail = ⟨span, .lineEnd⟩ :: more

theorem EndsLine.keepsEnd (h : EndsLine tail') : KeepsEnd tail tail' := by
  obtain ⟨span, more, rfl⟩ := h
  exact fun _ _ => ⟨_, rfl, .line .lineEnd⟩

theorem Place.Stops.relocate (hline : EndsLine tail') {place : Place} {here after : Cursor}
    (h : place.Stops here after) (hplace : place.function? ≠ none) (other : Cursor)
    (hlength : tail.length ≤ after.rest.length) (hfollows : Follows tail tail' here.rest other.rest) :
    ∃ after', place.Stops other after' ∧ Follows tail tail' after.rest after'.rest := by
  obtain ⟨rest', data'⟩ := other
  cases h with
  | module => exact absurd rfl hplace
  | block =>
      obtain ⟨_, _, rfl, hrest⟩ := hfollows.uncons hlength
      exact ⟨_, .block, hrest⟩
  | arrow stop =>
      cases hfollows with
      | ends =>
          obtain ⟨span, more, rfl⟩ := hline
          exact ⟨_, .arrow .lineEnd, .ends⟩
      | token more => exact ⟨_, .arrow stop, .token more⟩

-- The head of a function up to the token that opens its body.
theorem EnclosedAt.relocate_head {rest inside : List (Located Token)} {data data' : List UInt8}
    {parameters : List (Located String)} {span nameSpan openSpan : Span} {opening : Token}
    {name : String} {other : Cursor}
    (list : EnclosedAt NameAt ⟨rest, data⟩ parameters ⟨⟨openSpan, opening⟩ :: inside, data'⟩)
    (hlength : tail.length ≤ inside.length)
    (hfollows : Follows tail tail'
      (⟨span, .keyword .func⟩ :: ⟨nameSpan, .name name⟩ :: rest) other.rest) :
    ∃ span' nameSpan' openSpan' rest' parameters' inside' data'',
      other.rest = ⟨span', .keyword .func⟩ :: ⟨nameSpan', .name name⟩ :: rest' ∧
      EnclosedAt NameAt ⟨rest', other.data⟩ parameters' ⟨⟨openSpan', opening⟩ :: inside', data''⟩ ∧
      parameters'.map (·.value) = parameters.map (·.value) ∧ Follows tail tail' inside inside' := by
  have hopen : tail.length ≤ (⟨openSpan, opening⟩ :: inside).length := Nat.le_succ_of_le hlength
  have hrest := hopen.trans (list.passes NameAt.passes).1.length_le
  obtain ⟨span', _, hother, hname⟩ := hfollows.uncons (Nat.le_succ_of_le hrest)
  obtain ⟨nameSpan', rest', rfl, hparameters⟩ := hname.uncons hrest
  obtain ⟨parameters', ⟨_, data''⟩, list', hview, hopening⟩ :=
    (EnclosedAt.relocates NameAt.relocates NameAt.passes) ⟨rest', other.data⟩ list hopen hparameters
  obtain ⟨openSpan', inside', rfl, hinside⟩ := hopening.uncons hlength
  exact ⟨_, _, _, _, _, _, _, hother, list', hview, hinside⟩

-- The induction goes over the body of a function and of the functions inside it. The end of the whole
-- program is never among what is read again.
theorem StatementsAt.relocate (hknown : SameNames known known') (hline : EndsLine tail')
    {place : Place} {here after : Cursor} {body : List Statement}
    (h : StatementsAt known place slots here body later after) (hplace : place.function? ≠ none)
    (other : Cursor) (hlength : tail.length ≤ after.rest.length)
    (hfollows : Follows tail tail' here.rest other.rest) :
    ∃ body' after', StatementsAt known' place slots other body' later after' ∧
      shapes body' = shapes body ∧ Follows tail tail' after.rest after'.rest := by
  induction h generalizing other with
  | stop stop =>
      obtain ⟨after', stop', hafter⟩ := stop.relocate hline hplace other hlength hfollows
      exact ⟨_, _, .stop stop', rfl, hafter⟩
  | skip skip more ih =>
      obtain ⟨rest', data'⟩ := other
      obtain ⟨_, _, rfl, hrest⟩ := hfollows.uncons (hlength.trans more.reaches.length_le)
      obtain ⟨body', after', more', hshapes, hafter⟩ := ih hplace ⟨_, data'⟩ hlength hrest
      exact ⟨_, _, .skip skip more', hshapes, hafter⟩
  | externs list ends more ih =>
      obtain ⟨rest', data'⟩ := other
      have hmiddle := hlength.trans more.reaches.length_le
      obtain ⟨_, _, names', middle', rfl, list', hview, hmore⟩ :=
        Relocates.behind (ListAt.relocates NameAt.relocates NameAt.passes) data' list
          (list.passes NameAt.passes).1.length_le hmiddle hfollows
      obtain ⟨body', after', more', hshapes, hafter⟩ := ih hplace middle' hlength hmore
      refine ⟨_, _, .externs list' (ends.relocate hline.keepsEnd hmore) more', ?_, hafter⟩
      simp only [shapes, shape, hview, hshapes]
  | function list distinct owner opens statements more ih ih' =>
      obtain ⟨rest', data'⟩ := other
      have hmiddle := hlength.trans more.reaches.length_le
      obtain ⟨_, _, _, _, parameters', inside', _, rfl, list', hview, hinside⟩ :=
        list.relocate_head (hmiddle.trans statements.reaches.length_le) hfollows
      obtain ⟨inner', middle', statements', hinner, hmore⟩ :=
        ih (by simp [owner]) ⟨inside', _⟩ hmiddle hinside
      obtain ⟨body', after', more', hshapes, hafter⟩ := ih' hplace middle' hlength hmore
      rw [← hview] at distinct statements'
      refine ⟨_, _, .function list' distinct owner opens statements' more', ?_, hafter⟩
      simp only [shapes, shape, hview, hinner, hshapes]
  | action owner one more ih =>
      obtain ⟨rest', data'⟩ := other
      have hmiddle := hlength.trans more.reaches.length_le
      obtain ⟨_, _, rfl, hrest⟩ := hfollows.uncons (hmiddle.trans (Nat.le_of_lt_succ one.passes.2))
      obtain ⟨action', middle', one', hview, hmore⟩ :=
        (ActionAt.relocates hknown hline.keepsEnd) ⟨_, data'⟩ one hmiddle (.token hrest)
      obtain ⟨body', after', more', hshapes, hafter⟩ := ih hplace middle' hlength hmore
      refine ⟨_, _, .action owner one' more', ?_, hafter⟩
      simp only [shapes, shape, hview, hshapes]

-- One top-level statement, read again.
theorem StatementAt.relocate (hknown : SameNames known known') (hline : EndsLine tail')
    {here after : Cursor} {statement : Statement}
    (h : StatementAt known .module slots here statement later after) (other : Cursor)
    (hlength : tail.length ≤ after.rest.length)
    (hfollows : Follows tail tail' here.rest other.rest) :
    ∃ statement' after', StatementAt known' .module slots other statement' later after' ∧
      statement'.shape = statement.shape ∧ Follows tail tail' after.rest after'.rest := by
  obtain ⟨rest', data'⟩ := other
  cases h with
  | externs list ends =>
      obtain ⟨_, _, names', after', rfl, list', hview, hafter⟩ :=
        Relocates.behind (ListAt.relocates NameAt.relocates NameAt.passes) data' list
          (list.passes NameAt.passes).1.length_le hlength hfollows
      refine ⟨_, _, .externs list' (ends.relocate hline.keepsEnd hafter), ?_, hafter⟩
      simp only [shape, hview]
  | function inner =>
      cases inner with
      | function list distinct owner opens statements =>
          obtain ⟨_, _, _, _, parameters', inside', _, rfl, list', hview, hinside⟩ :=
            list.relocate_head (hlength.trans statements.reaches.length_le) hfollows
          obtain ⟨body', after', statements', hbody, hafter⟩ :=
            statements.relocate hknown hline (by simp [owner]) ⟨inside', _⟩ hlength hinside
          rw [← hview] at distinct statements'
          refine ⟨_, _, .function (.function list' distinct owner opens statements'), ?_, hafter⟩
          simp only [ofFunction, shape, hview, hbody]
  | action owner => cases owner

end Relocation

end RayCompiler.Grammar
