import RayCompiler.Proofs.Grammar.Bracing
import RayCompiler.Proofs.Reordering

namespace RayCompiler

namespace Statement

mutual

-- A statement without its places in the text.
def unplaced : Statement → Statement
  | .externs _ names => .externs .start names
  | .function _ name parameters body slots => .function .start name parameters (unplacedAll body) slots
  | .action _ scope effect => .action .start scope effect

def unplacedAll : List Statement → List Statement
  | [] => []
  | statement :: more => statement.unplaced :: unplacedAll more

end

mutual

theorem allOperands_shape (statement : Statement) :
    statement.shape.allOperands = statement.allOperands.map Operand.shape := by
  cases statement with
  | externs => rfl
  | action position scope effect => exact effect.operands_shape
  | function position name parameters body slots => exact allOperandsIn_shapes body

theorem allOperandsIn_shapes (body : List Statement) :
    allOperandsIn (shapes body) = (allOperandsIn body).map Operand.shape := by
  cases body with
  | nil => rfl
  | cons statement more =>
      rw [shapes, allOperandsIn, allOperands_shape statement, allOperandsIn_shapes more,
        allOperandsIn, List.map_append]

end

mutual

theorem unplaced_eq_of_shape (first second : Statement) (hshape : first.shape = second.shape)
    (hoperands : first.allOperands = second.allOperands) : first.unplaced = second.unplaced := by
  cases first with
  | externs position names =>
      cases second with
      | externs =>
          cases hshape
          rfl
      | _ => cases hshape
  | function position name parameters body slots =>
      cases second with
      | function position' name' parameters' body' slots' =>
          obtain ⟨rfl, rfl, hbody, rfl⟩ :
              name = name' ∧ parameters = parameters' ∧ shapes body = shapes body' ∧ slots = slots' := by
            simpa [shape] using hshape
          rw [unplaced, unplaced, unplacedAll_eq_of_shapes body body' hbody hoperands]
      | _ => cases hshape
  | action position scope effect =>
      cases second with
      | action position' scope' effect' =>
          obtain ⟨rfl, heffect⟩ : scope = scope' ∧ effect.shape = effect'.shape := by
            simpa [shape] using hshape
          have hsame : effect = effect' := Action.eq_of_shape heffect (congrArg _ hoperands)
          rw [unplaced, unplaced, hsame]
      | _ => cases hshape

-- Statements of the same shapes with the same operands differ in nothing but their places.
theorem unplacedAll_eq_of_shapes (first second : List Statement) (hshapes : shapes first = shapes second)
    (hoperands : allOperandsIn first = allOperandsIn second) :
    unplacedAll first = unplacedAll second := by
  cases first with
  | nil =>
      cases second with
      | nil => rfl
      | cons => cases hshapes
  | cons statement more =>
      cases second with
      | nil => cases hshapes
      | cons other others =>
          obtain ⟨hshape, hmore⟩ := List.cons.inj hshapes
          have hlength : statement.allOperands.length = other.allOperands.length := by
            have hmaps := congrArg (List.length ∘ allOperands) hshape
            simpa [allOperands_shape] using hmaps
          obtain ⟨hstatement, hothers⟩ := List.append_inj hoperands hlength
          rw [unplacedAll, unplacedAll, unplaced_eq_of_shape statement other hshape hstatement,
            unplacedAll_eq_of_shapes more others hmore hothers]

end

end Statement

-- A program without the places of its statements in the text.
def Program.unplaced (program : Program) : Program :=
  ⟨Statement.unplacedAll program.statements, program.data⟩

open Grammar

variable {tokens again : List (Located Token)} {program other : Program}

-- The strings of a program in order tell its data and where each operand points.
theorem Forms.unplaced_eq (h : Forms tokens program) (h' : Forms again other)
    (hshapes : Statement.shapes other.statements = Statement.shapes program.statements)
    (hstrings : stringsOf again = stringsOf tokens) : other.unplaced = program.unplaced := by
  obtain ⟨hdata, hoffsets⟩ := h.strings
  obtain ⟨hdata', hoffsets'⟩ := h'.strings
  rw [hstrings] at hdata' hoffsets'
  have hoperands : Statement.allOperandsIn other.statements =
      Statement.allOperandsIn program.statements := by
    refine Operand.eq_of_shapes ?_ (hoffsets'.trans hoffsets.symm)
    rw [← Statement.allOperandsIn_shapes, hshapes, Statement.allOperandsIn_shapes]
  rw [Program.unplaced, Program.unplaced, hdata', ← hdata,
    Statement.unplacedAll_eq_of_shapes _ _ hshapes hoperands]

-- The tokens of a list in which a body stands between braces, in a line of its own.
def braced (front text rest : List (Located Token)) : List Token :=
  front.map (·.value) ++ .symbol .openCurly ::
    (text.map (·.value) ++ .lineEnd :: .symbol .closeCurly :: rest.map (·.value))

section Braced

variable {front text rest : List (Located Token)} {sign : Span}

theorem exists_rebraces (hagain : again.map (·.value) = braced front text rest)
    (hline : restOfLine 0 (text ++ rest) = rest) : ∃ front' tail',
      again = front' ++ tail' ∧ front'.map (·.value) = front.map (·.value) ∧
      Rebraces (⟨sign, .symbol .arrow⟩ :: (text ++ rest)) tail' := by
  obtain ⟨front', _, rfl, hfront, hopening⟩ := List.map_eq_append_iff.mp hagain
  obtain ⟨⟨opening, _⟩, _, rfl, rfl, hinside⟩ := List.map_eq_cons_iff.mp hopening
  obtain ⟨text', _, rfl, htext, hending⟩ := List.map_eq_append_iff.mp hinside
  obtain ⟨⟨ending, _⟩, _, rfl, rfl, hclosing⟩ := List.map_eq_cons_iff.mp hending
  obtain ⟨⟨closing, _⟩, rest', rfl, rfl, hrest⟩ := List.map_eq_cons_iff.mp hclosing
  exact ⟨front', _, rfl, hfront, .braces hline htext hrest⟩

theorem stringsOf_braced (hagain : again.map (·.value) = braced front text rest) :
    stringsOf again = stringsOf (front ++ ⟨sign, .symbol .arrow⟩ :: (text ++ rest)) := by
  have hvalues : again.map (·.value) = (front ++ ⟨sign, .symbol .openCurly⟩ ::
      (text ++ ⟨sign, .lineEnd⟩ :: ⟨sign, .symbol .closeCurly⟩ :: rest)).map (·.value) := by
    rw [hagain, braced]
    simp
  rw [stringsOf_eq_of_values hvalues]
  simp [stringsOf]

-- A program with a short body forms the same one, up to places, with braces around the body.
theorem Forms.exists_braced (h : Forms tokens program)
    (hsplit : tokens = front ++ ⟨sign, .symbol .arrow⟩ :: (text ++ rest))
    (hline : restOfLine 0 (text ++ rest) = rest)
    (hagain : again.map (·.value) = braced front text rest) :
    ∃ other, EndsOnce again ∧ Forms again other ∧ other.unplaced = program.unplaced := by
  have hstrings := @stringsOf_braced _ _ _ _ sign hagain
  obtain ⟨front', tail', rfl, hfront, hbraces⟩ := @exists_rebraces _ _ _ _ sign hagain hline
  obtain ⟨span, derivation⟩ := h.derivation
  have hmoves : Moves _ tail' tokens (front' ++ tail') := .inl (hsplit ▸ follows_append hfront)
  obtain ⟨body', ⟨last, data'⟩, derivation', hshapes, hafter⟩ :=
    @StatementsAt.rebrace _ _ _ _ _ _ _ derivation _ _ hbraces ⟨front' ++ tail', []⟩ hmoves
  obtain ⟨span', _, rfl, hend⟩ := hafter.uncons (by simp)
  cases hend.eq_nil
  have hknown : Program.introduced ⟨body', data'⟩ = program.introduced := by
    refine Program.introduced_eq_of_shapes ?_
    rw [← Statement.shapes_eq, ← Statement.shapes_eq, hshapes]
  rw [← hknown] at derivation'
  have hforms : Forms (front' ++ tail') ⟨body', data'⟩ :=
    ⟨⟨span', derivation'⟩, hknown ▸ h.distinct, hknown ▸ h.apart⟩
  obtain ⟨used, hused, hends⟩ := derivation'.reaches
  exact ⟨_, ⟨used, span', hused, hends⟩, hforms, h.unplaced_eq hforms hshapes (hsplit ▸ hstrings)⟩

end Braced

-- Every sign of a short body in an accepted list opens the body of a function, and the statements of
-- the body may as well stand between braces.
theorem parse_braced (htokens : EndsOnce tokens) (h : parse tokens = .ok program) :
    (∀ front sign behind, tokens = front ++ ⟨sign, .symbol .arrow⟩ :: behind →
      ∃ function ∈ program.functions, ∃ text rest, behind = text ++ rest ∧
        ShortAt program.introduced sign text rest front function) ∧
    ∀ (front text rest again : List (Located Token)) (sign : Span) (function : Function),
      tokens = front ++ ⟨sign, .symbol .arrow⟩ :: (text ++ rest) →
      ShortAt program.introduced sign text rest front function →
      again.map (·.value) = braced front text rest →
      ∃ other, parse again = .ok other ∧ other.unplaced = program.unplaced := by
  have hforms := forms_of_parse htokens h
  constructor
  · intro front sign behind hsplit
    obtain ⟨span, derivation⟩ := hforms.derivation
    obtain ⟨used, hused, _⟩ := derivation.reaches
    refine derivation.exists_shortAt hsplit ?_
    rcases split_token (hsplit.symm.trans hused) with ⟨between, _, hbehind⟩ | ⟨front', _, hlast⟩
    · exact ⟨between, hbehind.symm⟩
    · cases front' with
      | nil => cases hlast
      | cons first front' => simp at hlast
  · intro front text rest again sign function hsplit hshort hagain
    obtain ⟨other, hends, hother, hsame⟩ :=
      hforms.exists_braced hsplit hshort.restOfLine_eq hagain
    exact ⟨other, parse_of_forms hends hother, hsame⟩

-- A short body with an empty statement, a block over two lines, a string and a comment at its end:
-- func main() => ; func g() { exit("a") (end of line) } g() // (text)
def shortTokens : List (Located Token) :=
  [.keyword .func, .name "main", .symbol .openParen, .symbol .closeParen, .symbol .arrow,
    .symbol .semicolon, .keyword .func, .name "g", .symbol .openParen, .symbol .closeParen,
    .symbol .openCurly, .keyword .exit, .symbol .openParen, .string "a", .symbol .closeParen, .lineEnd,
    .symbol .closeCurly, .name "g", .symbol .openParen, .symbol .closeParen, .comment,
    .text "end" false, .endOfInput].map (⟨.point .start, ·⟩)

def shortFunction : Function :=
  ⟨"main", [], [.function .start "g" [] [.action .start "g" (.exit (.data 0))] ⟨[], []⟩,
    .action .start "main" (.call ⟨"g", []⟩)], ⟨[], [.result 0]⟩⟩

def shortProgram : Program := ⟨[.ofFunction .start shortFunction], [97, 0]⟩

def longTokens : List (Located Token) :=
  (braced (shortTokens.take 4) ((shortTokens.drop 5).take 15) (shortTokens.drop 20)).map
    (⟨.point .start, ·⟩)

theorem shortAt_shortTokens : ShortAt shortProgram.introduced (.point .start)
    ((shortTokens.drop 5).take 15) (shortTokens.drop 20) (shortTokens.take 4) shortFunction := by
  have hexit : ActionAt shortProgram.introduced ⟨[], []⟩ ⟨shortTokens.drop 11, []⟩
      (.exit (.data 0)) ⟨[], []⟩ ⟨shortTokens.drop 15, [97, 0]⟩ :=
    .exit (.given .string) ⟨_, rfl, .line .lineEnd⟩
  have hcall : ActionAt shortProgram.introduced ⟨[], []⟩ ⟨shortTokens.drop 17, [97, 0]⟩
      (.call ⟨"g", []⟩) ⟨[], [.result 0]⟩ ⟨shortTokens.drop 20, [97, 0]⟩ :=
    .call (.call (by decide) .empty ⟨_, rfl, .line .comment⟩)
  have hbody : StatementsAt shortProgram.introduced (.arrow "main") ⟨[], []⟩
      ⟨shortTokens.drop 5, []⟩ shortFunction.body ⟨[], [.result 0]⟩ ⟨shortTokens.drop 20, [97, 0]⟩ :=
    .skip .arrow (.function .empty .nil rfl .block
      (.action rfl hexit (.skip (.block .lineEnd) (.stop .block)))
      (.action rfl hcall (.stop (.arrow .comment))))
  exact @ShortAt.short _ _ _ _ [_, _] [] [] [] "main" _ _ _ [] _ _ .empty hbody

theorem parse_longTokens : EndsOnce shortTokens ∧ parse shortTokens = .ok shortProgram ∧
    ∃ other, parse longTokens = .ok other ∧ other.unplaced = shortProgram.unplaced := by
  have htokens : EndsOnce shortTokens := ⟨shortTokens.dropLast, .point .start, rfl, by decide⟩
  have hparse : parse shortTokens = .ok shortProgram := rfl
  exact ⟨htokens, hparse, (parse_braced htokens hparse).2 _ _ _ longTokens _ _ rfl
    shortAt_shortTokens rfl⟩

end RayCompiler
