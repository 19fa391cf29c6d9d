import RayCompiler.Proofs.Grammar.Strings
import RayCompiler.Proofs.Linking
import RayCompiler.Proofs.Listing.Loads
import RayCompiler.Proofs.Listing.Readback

namespace RayCompiler

open Text RayCompiler.Frame

theorem Block.lines_infix_textLines {listing : Listing} {block : Block} (h : block ∈ listing.blocks) :
    block.lines.map Line.text <:+: listing.textLines := by
  have hblock : block.lines.map Line.text <:+: block.textLines :=
    List.infix_append_of_infix_right (List.infix_refl _)
  apply List.infix_append_of_infix_left
  apply List.infix_append_of_infix_right
  exact hblock.trans (List.infix_of_mem_flatten (List.mem_map_of_mem h))

-- What the lines of a listing show of a function's operands: each of them is loaded somewhere, the
-- code of each load stands there in one stretch, and reading that code gives the operand back, unless
-- the operand is a symbol with the name of a register.
structure Function.Shows (function : Function) (symbols lines : List String) : Prop where
  loaded : ∀ operand ∈ function.body.flatMap Statement.operands,
    ∃ register, (operand, register) ∈ function.loads
  written : ∀ operand register, (operand, register) ∈ function.loads → ∃ code,
    (function.frame symbols).load register operand = .ok code ∧ Operand.linesOfCode code <:+: lines
  readable : ∀ operand ∈ function.body.flatMap Statement.operands, operand ≠ .absent →
    ∀ register code, (function.frame symbols).load register operand = .ok code →
      (Operand.ofText? (Operand.linesOfCode code) = some (operand, register) ↔
        ¬operand.NamesRegister)

section Compiled

variable {source : Source} {program : Program} {listing : Listing} {function : Function}
  {operand : Operand}

theorem Compiled.gives (h : Compiled source program listing) (hm : function ∈ program.functions)
    (hoperand : operand ∈ function.body.flatMap Statement.operands) :
    operand = .absent ∨ (function.frame program.symbols).Gives operand :=
  (h.resolved function hm).body.gives hoperand

theorem Compiled.isWord_of_operand (h : Compiled source program listing)
    (hm : function ∈ program.functions)
    (hoperand : operand ∈ function.body.flatMap Statement.operands) {name : String}
    (hname : operand = .external name ∨ operand = .symbolAddress name) : IsWord name := by
  have ⟨tokens, htokens, hprogram, _⟩ := h
  refine isWord_of_mem_symbols htokens hprogram ?_
  rcases hname with rfl | rfl
  · exact (h.gives hm hoperand).resolve_left (by simp)
  · exact (h.gives hm hoperand).resolve_left (by simp)

theorem Compiled.load_eq (h : Compiled source program listing) (hm : function ∈ program.functions)
    (hoperand : operand ∈ function.body.flatMap Statement.operands) (register : Register) :
    (function.frame program.symbols).load register operand = .ok (loading register operand) := by
  refine load_ok_iff.mpr ⟨?_, rfl⟩
  rcases h.gives hm hoperand with rfl | hgives
  · exact covers_absent _
  · exact hgives.covers

theorem Compiled.shows (h : Compiled source program listing) (hm : function ∈ program.functions) :
    function.Shows program.symbols (linesOf listing.render) := by
  refine ⟨fun operand => Function.exists_loads, ?_, ?_⟩
  · intro operand register hloads
    have hcode := ((Function.loading_infix_lines program.symbols hloads).map Line.text).trans
      (Block.lines_infix_textLines (h.block_mem hm))
    refine ⟨_, h.load_eq hm (Function.mem_operands_of_loads hloads) register, ?_⟩
    rw [h.linesOf_render]
    apply List.infix_append_of_infix_left
    rwa [List.map_map] at hcode
  · intro operand hoperand hpresent register code hload
    rw [h.load_eq hm hoperand register] at hload
    cases hload
    exact Operand.ofText?_loading hpresent (fun name => h.isWord_of_operand hm hoperand) register

-- The operands of a program are those of its functions.
theorem Forms.mem_allOperandsIn {tokens : List (Located Token)} (h : Forms tokens program) :
    operand ∈ Statement.allOperandsIn program.statements ↔
      ∃ function ∈ program.functions, operand ∈ function.body.flatMap Statement.operands := by
  obtain ⟨_, derivation⟩ := h.derivation
  rw [Statement.mem_allOperandsIn, derivation.operands_eq_nil rfl]
  simp only [List.not_mem_nil, false_or, Program.functions]

end Compiled

theorem compile_shows {source : Source} {text : String} (h : compile source = .ok text) :
    ∃ program listing, Compiled source program listing ∧ text = listing.render ∧
      (∀ operand, operand ∈ Statement.allOperandsIn program.statements ↔
        ∃ function ∈ program.functions, operand ∈ function.body.flatMap Statement.operands) ∧
      ∀ function ∈ program.functions, function.Shows program.symbols (linesOf text) := by
  obtain ⟨program, listing, hcompiled, rfl⟩ := compile_eq_ok_iff.mp h
  obtain ⟨_, hforms⟩ := hcompiled.forms
  exact ⟨program, listing, hcompiled, rfl, fun _ => hforms.mem_allOperandsIn,
    fun _ => hcompiled.shows⟩

theorem shows_linkedText : compile linkedSource = .ok linkedText ∧
    ∃ program listing, Compiled linkedSource program listing ∧ linkedText = listing.render ∧
      (∀ operand, operand ∈ Statement.allOperandsIn program.statements ↔
        ∃ function ∈ program.functions, operand ∈ function.body.flatMap Statement.operands) ∧
      ∀ function ∈ program.functions, function.Shows program.symbols (linesOf linkedText) := by
  have hcompile : compile linkedSource = .ok linkedText := by decide +kernel
  exact ⟨hcompile, compile_shows hcompile⟩

-- An extern with the name of a register.
def registerSource : Source where
  name := "register.ray"
  text := "func main()\x7breturn(rax)\x7dextern rax"

-- Each token with its column and its length.
def registerTokens : List (Located Token) :=
  [(1, 4, .keyword .func), (6, 4, .name "main"), (10, 1, .symbol .openParen),
    (11, 1, .symbol .closeParen), (12, 1, .symbol .openCurly), (13, 6, .keyword .ret),
    (19, 1, .symbol .openParen), (20, 3, .name "rax"), (23, 1, .symbol .closeParen),
    (24, 1, .symbol .closeCurly), (25, 6, .keyword .external), (32, 3, .name "rax")].map
    (fun (column, width, token) =>
      ⟨⟨⟨column - 1, 1, column⟩, ⟨column + width - 1, 1, column + width⟩⟩, token⟩) ++
    [endAt ⟨34, 1, 35⟩]

def registerMain : Function where
  name := "main"
  parameters := []
  body := [.action ⟨12, 1, 13⟩ "main" (.ret (.external "rax"))]
  slots := .empty

def registerProgram : Program where
  statements := [.ofFunction ⟨0, 1, 1⟩ registerMain, .externs ⟨24, 1, 25⟩ ["rax"]]
  data := []

theorem compiled_registerSource :
    Compiled registerSource registerProgram registerProgram.listing :=
  ⟨registerTokens, by decide +kernel, rfl, rfl⟩

-- The extern is loaded by an access through the register.
theorem unreadable_registerMain :
    Compiled registerSource registerProgram registerProgram.listing ∧
      registerMain ∈ registerProgram.functions ∧
      (.external "rax", .rax) ∈ registerMain.loads ∧
      (registerMain.frame registerProgram.symbols).load .rax (.external "rax") =
        .ok [.load .rax (.symbol "rax")] ∧
      Operand.linesOfCode [.load .rax (.symbol "rax")] = ["\tmov     rax, [rax]"] ∧
      Instruction.ofText? "\tmov     rax, [rax]" = some (.load .rax (.through .rax)) ∧
      Operand.ofText? ["\tmov     rax, [rax]"] ≠ some (.external "rax", .rax) := by
  have hmain : registerProgram.functions = [registerMain] := rfl
  refine ⟨compiled_registerSource, ?_, by decide, rfl, by decide, by decide, by decide⟩
  rw [hmain]
  exact List.mem_singleton_self _

end RayCompiler
