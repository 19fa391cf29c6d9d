import RayCompiler.Proofs.Grammar.Nesting
import RayCompiler.Proofs.Listing.Reading
import RayCompiler.Proofs.Listing.Theorems

namespace RayCompiler

open Text

-- The remarks of a block are about what stands inside its function.
theorem remark_mem_symbols {program : Program} {function : Function} (hm : function ∈ program.functions)
    {statement : Statement} (hbody : statement ∈ function.body) {frame : Frame} {number : Nat}
    {line : Line} (hline : line ∈ statement.lines frame number) (hremark : line.code? = none)
    {name : String} (hnames : line.Names name) : name ∈ program.symbols := by
  obtain ⟨hfunctions, hdeclarations⟩ := Statement.inside_subset_of_mem_functionsIn _ hm
  obtain ⟨hfunctions', hdeclarations'⟩ := Statement.subset_of_mem hbody
  rw [symbols_eq, List.mem_append]
  cases statement with
  | externs position names =>
      simp only [Statement.lines, List.mem_cons, List.not_mem_nil, or_false] at hline
      rcases hline with rfl | rfl
      · cases hnames
      · refine .inl (List.mem_flatMap.mpr ⟨(position, names), ?_, hnames⟩)
        exact hdeclarations (hdeclarations' (by simp [Statement.declarations]))
  | function position other parameters body slots =>
      simp only [Statement.lines, List.mem_cons, List.not_mem_nil, or_false] at hline
      rcases hline with rfl | rfl
      · cases hnames
      · cases hnames
        refine .inr (List.mem_map.mpr ⟨⟨name, parameters, body, slots⟩, ?_, rfl⟩)
        exact hfunctions (hfunctions' (by simp [Statement.functions]))
  | action position scope action =>
      rcases List.mem_cons.mp hline with rfl | hline
      · cases hnames
      · obtain ⟨code, _, rfl⟩ := List.mem_map.mp hline
        cases hremark

namespace Program

variable {program : Program} {function : Function} {name : String}

-- The names that stand in the text of a listing: those of its symbols, and those that its operands
-- bring in.
def Writes (program : Program) (name : String) : Prop :=
  name ∈ program.symbols ∨ ∃ function ∈ program.functions,
    ∃ operand ∈ function.body.flatMap Statement.operands,
      operand = .external name ∨ operand = .symbolAddress name

-- Every name in the text of the listing is one that the text of a source can spell.
def Worded (program : Program) : Prop := ∀ name, program.Writes name → IsWord name

namespace Assembles

theorem writes_of_mem_code (h : program.Assembles) (hm : function ∈ program.functions)
    {instruction : Instruction} (hcode : instruction ∈ (function.block program.symbols).code)
    (hnames : instruction.Names name) : program.Writes name := by
  have hadmits := function.admits_code (h.accepts function hm) instruction hcode
  rcases hnames with rfl | haddress
  · exact .inl hadmits
  · cases hadmits.reads haddress with
    | slot holds =>
        obtain ⟨_, _, he⟩ := holds
        cases he
    | external given => exact .inr ⟨function, hm, _, given, .inl rfl⟩
    | symbolAddress given => exact .inr ⟨function, hm, _, given, .inr rfl⟩

theorem writes (h : program.Assembles) (hnames : program.listing.Names name) :
    program.Writes name := by
  cases hnames with
  | imported given => exact .inl (List.mem_append_left _ given)
  | block given =>
      obtain ⟨function, hm, rfl⟩ := List.mem_map.mp given
      exact .inl (List.mem_append_right _ (List.mem_map_of_mem hm))
  | @line block line name given inside names =>
      obtain ⟨function, hm, rfl⟩ := List.mem_map.mp given
      cases hcode : line.code? with
      | some instruction =>
          cases line with
          | instruction code => exact h.writes_of_mem_code hm (Block.mem_code.mpr inside) names
          | _ => cases hcode
      | none =>
          simp only [Function.block, List.mem_append, List.mem_map] at inside
          rcases inside with (⟨_, _, rfl⟩ | inside) | ⟨_, _, rfl⟩
          · cases hcode
          · obtain ⟨before, statement, after, hbody, hline⟩ :=
              Statement.exists_statement_of_mem inside
            have hstatement : statement ∈ function.body := by simp [hbody]
            exact .inl (remark_mem_symbols hm hstatement hline hcode names)
          · cases hcode

theorem listing_worded (h : program.Assembles) (hwords : program.Worded) :
    program.listing.Worded :=
  ⟨fun _ hm => hwords _ (h.writes (.imported hm)), fun _ hm => hwords _ (h.writes (.block hm))⟩

theorem linesOf_render (h : program.Assembles) (hwords : program.Worded) :
    linesOf program.listing.render = program.listing.textLines ++ [""] :=
  Listing.linesOf_render fun _ hnames => (hwords _ (h.writes hnames)).inline

-- The text of a listing has one passage for each function, in order.
theorem passages_eq (h : program.Assembles) (hwords : program.Worded) :
    passages (linesOf program.listing.render) =
      program.functions.map fun function => (function.block program.symbols).passage := by
  rw [h.linesOf_render hwords, Listing.passages_textLines (h.listing_worded hwords), listing,
    List.map_map]
  rfl

end Assembles

end Program

end RayCompiler
