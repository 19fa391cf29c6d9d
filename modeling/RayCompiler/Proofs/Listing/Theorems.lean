import RayCompiler.Proofs.Listing.Domain
import RayCompiler.Proofs.Listing.Resolution
import Mathlib.Data.List.Induction

namespace RayCompiler.Program

variable {program : Program}

-- The names of all extern declarations in the order of the text, each with the place of its
-- declaration.
def declared (program : Program) : List (Position × String) :=
  program.externs.flatMap fun declaration => declaration.2.map (declaration.1, ·)

-- The first name of a list that stands there for a second time, and its place.
def Repeats (names : List (Position × String)) (position : Position) (name : String) : Prop :=
  ∃ before after, names = before ++ (position, name) :: after ∧
    (before.map (·.2)).Nodup ∧ name ∈ before.map (·.2)

theorem declared_names : program.declared.map (·.2) = program.introduced.externs := by
  simp [declared, introduced, List.map_flatMap, Function.comp_def]

def addDeclared (imports : List String) (pair : Position × String) :
    Except AssembleError (List String) :=
  addImport pair.1 imports pair.2

theorem imports_eq : program.imports = program.declared.foldlM addDeclared [] := by
  rw [imports, declared]
  generalize ([] : List String) = imports
  induction program.externs generalizing imports with
  | nil => rfl
  | cons declaration more ih =>
      rw [List.foldlM_cons, List.flatMap_cons, List.foldlM_append, List.foldlM_map]
      exact congrArg _ (funext ih)

theorem foldlM_addDeclared_of_nodup (names : List (Position × String)) (seen : List String)
    (h : (seen ++ names.map (·.2)).Nodup) :
    names.foldlM addDeclared seen = .ok (seen ++ names.map (·.2)) := by
  induction names generalizing seen with
  | nil => simp [pure, Except.pure]
  | cons pair more ih =>
      have hsplit : seen ++ (pair :: more).map (·.2) = seen ++ [pair.2] ++ more.map (·.2) := by simp
      rw [hsplit] at h ⊢
      have hnew : pair.2 ∉ seen := by
        intro hm
        have hapart := (List.nodup_append.mp (List.nodup_append.mp h).1).2.2
        exact hapart pair.2 hm pair.2 (by simp) rfl
      have hstep : addDeclared seen pair = .ok (seen ++ [pair.2]) := by
        simp [addDeclared, addImport, hnew]
      rw [List.foldlM_cons, hstep, Frame.ok_bind]
      exact ih (seen ++ [pair.2]) h

theorem foldlM_addDeclared_of_repeats {names : List (Position × String)} {position : Position}
    {name : String} (h : Repeats names position name) :
    names.foldlM addDeclared [] = .error (.duplicateExtern name position) := by
  obtain ⟨before, after, rfl, hnodup, hm⟩ := h
  have hbefore := foldlM_addDeclared_of_nodup before [] (by simpa using hnodup)
  rw [List.foldlM_append, hbefore, Frame.ok_bind, List.foldlM_cons]
  have hstep : addDeclared ([] ++ before.map (·.2)) (position, name) =
      .error (.duplicateExtern name position) := by
    unfold addDeclared addImport
    rw [if_pos (by simpa using hm)]
  rw [hstep]
  rfl

theorem exists_repeats (names : List (Position × String)) (h : ¬(names.map (·.2)).Nodup) :
    ∃ position name, Repeats names position name := by
  induction names using List.reverseRecOn with
  | nil => simp at h
  | append_singleton names last ih =>
      by_cases hnodup : (names.map (·.2)).Nodup
      · refine ⟨last.1, last.2, names, [], rfl, hnodup, ?_⟩
        by_contra hm
        refine h ?_
        rw [List.map_append]
        refine List.nodup_append.mpr ⟨hnodup, by simp, ?_⟩
        rintro other ho _ hn rfl
        simp only [List.map_cons, List.map_nil, List.mem_singleton] at hn
        exact hm (hn ▸ ho)
      · obtain ⟨position, name, before, after, he, hrest⟩ := ih hnodup
        exact ⟨position, name, before, after ++ [last], by rw [he]; simp, hrest⟩

end RayCompiler.Program

namespace RayCompiler

open Program

variable {tokens : List (Located Token)} {program : Program}

-- The names that have a symbol in a listing.
def Program.symbols (program : Program) : List String :=
  program.declared.map (·.2) ++ program.functions.map (·.name)

theorem symbols_eq (program : Program) :
    program.symbols = program.introduced.externs ++ program.introduced.functions := by
  rw [Program.symbols, Program.declared_names]
  rfl

theorem Forms.functions_resolved (h : Forms tokens program) :
    ∀ function ∈ program.functions, function.Resolved program.symbols := by
  refine h.resolved ?_
  rw [symbols, declared_names]
  rintro name (hm | hm)
  · exact List.mem_append_right _ hm
  · exact List.mem_append_left _ hm

theorem Program.imports_of_nodup (h : (program.declared.map (·.2)).Nodup) :
    program.imports = .ok (program.declared.map (·.2)) := by
  rw [imports_eq]
  simpa using foldlM_addDeclared_of_nodup program.declared [] (by simpa using h)

theorem Program.imports_ok_iff {found : List String} :
    program.imports = .ok found ↔
      (program.declared.map (·.2)).Nodup ∧ found = program.declared.map (·.2) := by
  by_cases h : (program.declared.map (·.2)).Nodup
  · simp only [imports_of_nodup h, h, Except.ok.injEq, true_and]
    exact eq_comm
  · obtain ⟨position, name, hrepeats⟩ := exists_repeats _ h
    simp [imports_eq, foldlM_addDeclared_of_repeats hrepeats, h]

-- The listing of a program whose functions all have code.
def Program.listing (program : Program) : Listing where
  imports := program.declared.map (·.2)
  blocks := program.functions.map (·.block program.symbols)
  data := program.data

-- Which programs have a listing, parsed or not.
structure Program.Assembles (program : Program) : Prop where
  distinct : (program.declared.map (·.2)).Nodup
  entry : entryPoint ∈ program.functions.map (·.name)
  accepts : ∀ function ∈ program.functions,
    (function.frame program.symbols).AcceptsAll 0 function.body

theorem Program.assemble_ok_iff {found : Listing} :
    program.assemble = .ok found ↔ program.Assembles ∧ found = program.listing := by
  have hblocks := fun blocks => @Frame.mapM_ok_iff _ _ (·.assemble program.symbols) _ _
    program.functions (fun _ _ _ => Function.assemble_ok_iff) blocks
  have hassembles : program.Assembles ↔ _ :=
    ⟨fun h => And.intro h.distinct (And.intro h.entry h.accepts), fun h => ⟨h.1, h.2.1, h.2.2⟩⟩
  rw [assemble, except_bind_eq_ok_of fun _ => imports_ok_iff, hassembles, and_assoc, and_assoc]
  refine and_congr_right fun _ => ?_
  by_cases hentry : entryPoint ∈ program.functions.map (·.name)
  · simp only [List.contains_iff_mem.mpr hentry, Bool.not_true, Bool.false_eq_true, if_false,
      hentry, true_and]
    rw [← symbols, except_bind_eq_ok_of hblocks, except_pure_eq_ok]
    rfl
  · have hcontains : (program.functions.map (·.name)).contains entryPoint = false := by
      simpa using hentry
    simp only [hcontains, hentry, false_and, iff_false]
    rintro ⟨⟩

theorem Forms.assemble_of_nodup (h : Forms tokens program)
    (hnodup : (program.declared.map (·.2)).Nodup) :
    (program.assemble = .error .missingEntryPoint ∧
      ∀ function ∈ program.functions, function.name ≠ entryPoint) ∨
    program.assemble = .ok program.listing ∧
      ∃ function ∈ program.functions, function.name = entryPoint := by
  by_cases hentry : entryPoint ∈ program.functions.map (·.name)
  · have haccepts := fun function hm => (h.functions_resolved function hm).body.acceptsAll
    exact .inr ⟨assemble_ok_iff.mpr ⟨⟨hnodup, hentry, haccepts⟩, rfl⟩, by simpa using hentry⟩
  · refine .inl ⟨?_, by simpa using hentry⟩
    have hcontains : (program.functions.map (·.name)).contains entryPoint = false := by
      simpa using hentry
    rw [assemble, imports_of_nodup hnodup, Frame.ok_bind]
    simp only [hcontains]
    rfl

theorem Program.generate_of_repeats {position : Position} {name : String}
    (h : Repeats program.declared position name) :
    program.generate = .error (.duplicateExtern name position) := by
  rw [generate, assemble, imports_eq, foldlM_addDeclared_of_repeats h]
  rfl

theorem Program.Repeats.not_nodup {names : List (Position × String)} {position : Position}
    {name : String} (h : Repeats names position name) : ¬(names.map (·.2)).Nodup := by
  intro hnodup
  have hok := foldlM_addDeclared_of_nodup names [] (by simpa using hnodup)
  rw [foldlM_addDeclared_of_repeats h] at hok
  cases hok

-- A parsed program has a listing, or repeats an extern, or lacks its entry point.
theorem Forms.generate_cases (h : Forms tokens program) :
    (∃ position name, Repeats program.declared position name ∧
      program.generate = .error (.duplicateExtern name position)) ∨
    (program.declared.map (·.2)).Nodup ∧
      ((program.generate = .error .missingEntryPoint ∧
        ∀ function ∈ program.functions, function.name ≠ entryPoint) ∨
      (∃ text, program.generate = .ok text) ∧
        ∃ function ∈ program.functions, function.name = entryPoint) := by
  by_cases hnodup : (program.declared.map (·.2)).Nodup
  · refine .inr ⟨hnodup, ?_⟩
    rcases h.assemble_of_nodup hnodup with ⟨hnone, hentry⟩ | ⟨hok, hentry⟩
    · refine .inl ⟨?_, hentry⟩
      rw [generate, hnone]
      rfl
    · refine .inr ⟨?_, hentry⟩
      rw [generate, hok]
      exact ⟨_, rfl⟩
  · obtain ⟨position, name, hrepeats⟩ := exists_repeats _ hnodup
    exact .inl ⟨position, name, hrepeats, generate_of_repeats hrepeats⟩

-- The generator trusts the parser: on a parsed program it never misses a slot or a callee, and its
-- two errors are exactly a repeated extern and a missing entry point.
theorem generate_of_parse (htokens : EndsOnce tokens) (h : parse tokens = .ok program) :
    (∀ name position, program.generate = .error (.duplicateExtern name position) ↔
      Repeats program.declared position name) ∧
    ((∃ name position, program.generate = .error (.duplicateExtern name position)) ↔
      ¬(program.declared.map (·.2)).Nodup) ∧
    (program.generate = .error .missingEntryPoint ↔
      (program.declared.map (·.2)).Nodup ∧
        ∀ function ∈ program.functions, function.name ≠ entryPoint) ∧
    ((∃ text, program.generate = .ok text) ↔
      (program.declared.map (·.2)).Nodup ∧
        ∃ function ∈ program.functions, function.name = entryPoint) ∧
    (∀ function wanted, program.generate ≠ .error (.unknownSlot function wanted)) ∧
    (∀ function name, program.generate ≠ .error (.unknownCallee function name)) ∧
    program.generate ≠ .error .writeFailed := by
  rcases (forms_of_parse htokens h).generate_cases with ⟨position, name, hrepeats, hgenerate⟩ |
    ⟨hnodup, ⟨hgenerate, hentry⟩ | ⟨⟨text, hgenerate⟩, function, hm, hentry⟩⟩
  · have hnot := hrepeats.not_nodup
    refine ⟨fun other place => ⟨fun he => ?_, generate_of_repeats⟩, ?_⟩
    · rw [hgenerate] at he
      cases he
      exact hrepeats
    · simp [hgenerate, hnot]
  · refine ⟨fun other place => ⟨fun he => ?_, fun hr => absurd hnodup hr.not_nodup⟩, ?_⟩
    · rw [hgenerate] at he
      cases he
    · simpa [hgenerate, hnodup] using hentry
  · refine ⟨fun other place => ⟨fun he => ?_, fun hr => absurd hnodup hr.not_nodup⟩, ?_⟩
    · rw [hgenerate] at he
      cases he
    · simpa [hgenerate, hnodup] using ⟨function, hm, hentry⟩

-- One extern declared inside a function and again after it:
-- func main() => extern p (end of line) extern q, p
def repeatedTokens : List (Located Token) :=
  [.keyword .func, .name "main", .symbol .openParen, .symbol .closeParen, .symbol .arrow,
    .keyword .external, .name "p", .lineEnd, .keyword .external, .name "q", .symbol .comma, .name "p",
    .endOfInput].mapIdx fun column token => ⟨.point ⟨column, 1, column + 1⟩, token⟩

def repeatedProgram : Program :=
  ⟨[.function ⟨0, 1, 1⟩ "main" [] [.externs ⟨5, 1, 6⟩ ["p"]] .empty,
    .externs ⟨8, 1, 9⟩ ["q", "p"]], []⟩

theorem endsOnce_repeatedTokens : EndsOnce repeatedTokens :=
  ⟨repeatedTokens.dropLast, .point ⟨12, 1, 13⟩, rfl, by decide⟩

theorem generate_repeatedTokens : EndsOnce repeatedTokens ∧
    parse repeatedTokens = .ok repeatedProgram ∧
    repeatedProgram.generate = .error (.duplicateExtern "p" ⟨8, 1, 9⟩) := by
  have hparse : parse repeatedTokens = .ok repeatedProgram := rfl
  refine ⟨endsOnce_repeatedTokens, hparse, ?_⟩
  refine ((generate_of_parse endsOnce_repeatedTokens hparse).1 "p" ⟨8, 1, 9⟩).mpr ?_
  exact ⟨[(⟨5, 1, 6⟩, "p"), (⟨8, 1, 9⟩, "q")], [], rfl, by decide, by decide⟩

end RayCompiler
