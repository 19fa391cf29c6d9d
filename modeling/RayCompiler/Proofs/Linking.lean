import RayCompiler.Proofs.Compilation
import RayCompiler.Proofs.Grammar.Scan
import RayCompiler.Proofs.Listing.Passages

namespace RayCompiler

namespace KnownNames

theorem mem_of_mem_functionNames {tokens : List Token} {name : String}
    (h : name ∈ functionNames tokens) : .name name ∈ tokens := by
  fun_induction functionNames tokens with
  | case1 => simp at h
  | case2 other rest ih =>
      rcases List.mem_cons.mp h with rfl | h
      · simp
      · simp [ih h]
  | case3 first rest _ ih => simp [ih h]

theorem mem_of_mem_listedNames {tokens : List Token} {name : String}
    (h : name ∈ listedNames tokens) : .name name ∈ tokens := by
  fun_induction listedNames tokens with
  | case1 other rest ih =>
      rcases List.mem_cons.mp h with rfl | h
      · simp
      · simp [ih h]
  | case2 other rest => simp [List.mem_singleton.mp h]
  | case3 => simp at h

theorem mem_of_mem_externNames {tokens : List Token} {name : String}
    (h : name ∈ externNames tokens) : .name name ∈ tokens := by
  fun_induction externNames tokens with
  | case1 => simp at h
  | case2 rest ih =>
      rcases List.mem_append.mp h with h | h
      · simp [mem_of_mem_listedNames h]
      · simp [ih h]
  | case3 first rest _ ih => simp [ih h]

end KnownNames

namespace Frame

variable {frame : Frame}

theorem Resolves.gives {number : Nat} {action : Action} (h : frame.Resolves number action)
    {operand : Operand} (hm : operand ∈ action.operands) :
    operand = .absent ∨ frame.Gives operand := by
  cases action with
  | define | assign =>
      rw [List.mem_singleton.mp hm]
      exact .inr h.2
  | declare => simp [Action.operands] at hm
  | call => exact .inr (Calls.gives h operand hm)
  | callAssign => exact .inr (h.2.gives operand hm)
  | ret | exit =>
      rw [List.mem_singleton.mp hm]
      exact h

theorem ResolvesAll.gives {number : Nat} {body : List Statement} (h : frame.ResolvesAll number body)
    {operand : Operand} (hm : operand ∈ body.flatMap Statement.operands) :
    operand = .absent ∨ frame.Gives operand := by
  induction body generalizing number with
  | nil => simp at hm
  | cons statement more ih =>
      rw [List.flatMap_cons, List.mem_append] at hm
      rcases hm with hm | hm
      · cases statement with
        | externs | function => simp [Statement.operands] at hm
        | action position scope action => exact (h.1 position scope action rfl).gives hm
      · exact ih h.2 hm

end Frame

section Compiled

variable {source : Source} {program : Program} {listing : Listing}

theorem Compiled.data_eq (h : Compiled source program listing) : listing.data = program.data := by
  rw [h.assembles.2]
  rfl

theorem Compiled.exists_function (h : Compiled source program listing) {block : Block}
    (hm : block ∈ listing.blocks) :
    ∃ function ∈ program.functions, block = function.block program.symbols := by
  rw [h.blocks_eq] at hm
  obtain ⟨function, hfunction, he⟩ := List.mem_map.mp hm
  exact ⟨function, hfunction, he.symm⟩

-- Every operand of a compiled program that names a symbol names one of the program.
theorem Compiled.mem_symbols_of_writes (h : Compiled source program listing) {name : String}
    (hwrites : program.Writes name) : name ∈ program.symbols := by
  rcases hwrites with hsymbol | ⟨function, hm, operand, hoperand, hname⟩
  · exact hsymbol
  · have hgives := (h.resolved function hm).body.gives hoperand
    rcases hname with rfl | rfl
    · exact hgives.resolve_left (by simp)
    · exact hgives.resolve_left (by simp)

-- Every symbol that an instruction names is one of the program.
theorem Compiled.name_mem_symbols (h : Compiled source program listing) {function : Function}
    (hm : function ∈ program.functions) {instruction : Instruction}
    (hcode : instruction ∈ (function.block program.symbols).code) {name : String}
    (hnames : instruction.Names name) : name ∈ program.symbols :=
  h.mem_symbols_of_writes (h.assembles.1.writes_of_mem_code hm hcode hnames)

-- Every string that an instruction names begins inside the data.
theorem Compiled.offset_lt (h : Compiled source program listing) {function : Function}
    (hm : function ∈ program.functions) {instruction : Instruction}
    (hcode : instruction ∈ (function.block program.symbols).code) {offset : Nat}
    (haddress : instruction.address? = some (.data offset)) : offset < program.data.length := by
  have hadmits := function.admits_code (h.assembles.1.accepts function hm) instruction hcode
  obtain ⟨_, hforms⟩ := h.forms
  obtain ⟨_, derivation⟩ := hforms.derivation
  obtain ⟨_, _, middle, hat, hgrows⟩ := derivation.derivation_of_mem hm
  cases hadmits.reads haddress with
  | slot holds =>
      obtain ⟨_, _, he⟩ := holds
      cases he
  | data given =>
      have hlt := hat.stores.within _ given offset rfl
      have hle := hgrows.length_le
      dsimp only at hle
      omega

theorem isWord_of_mem_symbols {tokens : List (Located Token)}
    (htokens : tokenize source = .ok tokens) (h : parse tokens = .ok program) {name : String}
    (hm : name ∈ program.symbols) : IsWord name := by
  have hends := endsOnce_tokenize htokens
  have hscan := (forms_of_parse hends h).introduced_eq hends
  rw [symbols_eq, hscan, List.mem_append] at hm
  rcases hm with hm | hm
  · exact isWord_of_mem_tokenize htokens (KnownNames.mem_of_mem_externNames hm)
  · exact isWord_of_mem_tokenize htokens (KnownNames.mem_of_mem_functionNames hm)

end Compiled

open Text

-- The lines of a text that bring the externs of a program in, make its functions public and label
-- them.
structure Program.Declares (program : Program) (lines : List String) : Prop where
  imported : lines.filterMap (after? "extrn ") = program.introduced.externs
  exported : lines.filterMap (after? "public ") = program.introduced.functions
  published : published lines = program.introduced.functions
  labelled : lines.filterMap label? =
    program.introduced.functions ++ if program.data.isEmpty then [] else [dataLabel]

-- No two symbols have the same name, and one of them is the entry point.
structure Program.Distinct (program : Program) : Prop where
  externs : program.introduced.externs.Nodup
  functions : program.introduced.functions.Nodup
  apart : ∀ name ∈ program.introduced.functions, name ∉ program.introduced.externs
  entry : program.introduced.functions.count Program.entryPoint = 1
  data : dataLabel ∉ program.introduced.externs ∧ dataLabel ∉ program.introduced.functions

-- Everything that the code of a listing names is brought in or labelled by a line of the text.
structure Listing.Closed (listing : Listing) (lines : List String) : Prop where
  symbols : ∀ block ∈ listing.blocks, ∀ instruction ∈ block.code, ∀ name,
    instruction.Names name → name ∈ lines.filterMap (after? "extrn ") ∨ name ∈ lines.filterMap label?
  data : ∀ block ∈ listing.blocks, ∀ instruction ∈ block.code, ∀ offset,
    instruction.address? = some (.data offset) →
      offset < listing.data.length ∧ dataLabel ∈ lines.filterMap label?

section Lines

variable {source : Source} {program : Program} {listing : Listing}

theorem Compiled.isWord (h : Compiled source program listing) {name : String}
    (hm : name ∈ program.symbols) : IsWord name := by
  have ⟨tokens, htokens, hprogram, _⟩ := h
  exact isWord_of_mem_symbols htokens hprogram hm

theorem Compiled.worded (h : Compiled source program listing) : program.Worded :=
  fun _ hwrites => h.isWord (h.mem_symbols_of_writes hwrites)

theorem Compiled.listing_worded (h : Compiled source program listing) : listing.Worded := by
  rw [h.assembles.2]
  exact h.assembles.1.listing_worded h.worded

theorem Compiled.linesOf_render (h : Compiled source program listing) :
    linesOf listing.render = listing.textLines ++ [""] := by
  rw [h.assembles.2]
  exact h.assembles.1.linesOf_render h.worded

theorem Compiled.passages_eq (h : Compiled source program listing) :
    passages (linesOf listing.render) =
      program.functions.map fun function => (function.block program.symbols).passage := by
  rw [h.assembles.2]
  exact h.assembles.1.passages_eq h.worded

theorem Compiled.passage_mem (h : Compiled source program listing) {function : Function}
    (hm : function ∈ program.functions) :
    (function.block program.symbols).passage ∈ passages (linesOf listing.render) := by
  rw [h.passages_eq]
  exact List.mem_map_of_mem hm

theorem Compiled.code?_passage (h : Compiled source program listing) {function : Function}
    (hm : function ∈ program.functions) :
    code? (function.block program.symbols).passage.lines =
      some ((function.block program.symbols).code.map Instruction.seen) :=
  code?_lines fun _ hcode _ hnames => h.worded _ (h.assembles.1.writes_of_mem_code hm hcode hnames)

theorem Compiled.declares (h : Compiled source program listing) :
    program.Declares (linesOf listing.render) := by
  have hworded := h.listing_worded
  have himports : listing.imports = program.introduced.externs := by
    rw [h.assembles.2]
    exact Program.declared_names
  have hblocks : listing.blocks.map (·.name) = program.introduced.functions := by
    rw [h.blocks_eq, List.map_map]
    rfl
  rw [h.linesOf_render]
  refine ⟨?_, ?_, ?_, ?_⟩
  · rw [Listing.filterMap_imported hworded, himports]
  · rw [Listing.filterMap_exported hworded, hblocks]
  · rw [Listing.published_textLines hworded, hblocks]
  · rw [Listing.filterMap_labelled hworded, hblocks, h.data_eq]

theorem Compiled.distinct (h : Compiled source program listing) : program.Distinct := by
  have ⟨tokens, htokens, hprogram, _⟩ := h
  have hforms := forms_of_parse (endsOnce_tokenize htokens) hprogram
  have hassembles := h.assembles.1
  have hdata : dataLabel ∉ program.symbols := fun hm =>
    (isWord_of_mem_symbols htokens hprogram hm).ne_dataLabel rfl
  rw [symbols_eq, List.mem_append, not_or] at hdata
  refine ⟨?_, hforms.distinct, hforms.apart, ?_, hdata⟩
  · rw [← Program.declared_names]
    exact hassembles.distinct
  · exact List.count_eq_one_of_mem hforms.distinct hassembles.entry

theorem Compiled.closed (h : Compiled source program listing) :
    listing.Closed (linesOf listing.render) := by
  have hdeclares := h.declares
  constructor
  · intro block hblock instruction hcode name hnames
    obtain ⟨function, hm, rfl⟩ := h.exists_function hblock
    have hsymbol := h.name_mem_symbols hm hcode hnames
    rw [symbols_eq, List.mem_append] at hsymbol
    rw [hdeclares.imported, hdeclares.labelled, List.mem_append]
    rcases hsymbol with hsymbol | hsymbol
    · exact .inl hsymbol
    · exact .inr (.inl hsymbol)
  · intro block hblock instruction hcode offset haddress
    obtain ⟨function, hm, rfl⟩ := h.exists_function hblock
    have hlt := h.offset_lt hm hcode haddress
    have hsome : program.data.isEmpty = false := by
      rw [List.isEmpty_eq_false_iff, ← List.length_pos_iff]
      omega
    rw [h.data_eq, hdeclares.labelled, hsome]
    exact ⟨hlt, by simp⟩

end Lines

-- A listing declares what the text of the program introduces, in its order, each symbol once, and its
-- code uses nothing else.
theorem compile_closed {source : Source} {text : String} (h : compile source = .ok text) :
    ∃ tokens program listing, tokenize source = .ok tokens ∧ parse tokens = .ok program ∧
      program.assemble = .ok listing ∧ text = listing.render ∧
      program.FollowsText (tokens.map (·.value)) ∧ program.Declares (linesOf text) ∧
      program.Distinct ∧ listing.Closed (linesOf text) := by
  obtain ⟨program, listing, hcompiled, rfl⟩ := compile_eq_ok_iff.mp h
  have ⟨tokens, htokens, hprogram, hlisting⟩ := hcompiled
  have hends := endsOnce_tokenize htokens
  exact ⟨tokens, program, listing, htokens, hprogram, hlisting, rfl,
    (forms_of_parse hends hprogram).followsText hends, hcompiled.declares, hcompiled.distinct,
    hcompiled.closed⟩

-- A function and an extern inside the entry point, a string, and a use of each symbol before its
-- declaration.
def linkedSource : Source where
  name := "linked.ray"
  text := "func main()\x7bg(\"a\");func g(x)=>f(x,q)\nextern f\nreturn(&main)\x7dextern q"

def linkedText : String :=
  "format ELF64\n\nextrn f\nextrn q\n\nsection '.text' executable\n\n" ++
    "; --- main ---\npublic main\nmain:\n\tpush    rbp\n\tmov     rbp, rsp\n\tsub     rsp, 0x10\n" ++
    "\t; 1:13\n\tlea     rdi, [__data+0]\n\txor     eax, eax\n\tcall    g\n" ++
    "\tmov     [rbp-0x8], rax\n\t; 1:20\n\t; func g\n\t; 2:1\n\t; extern f\n\t; 3:1\n" ++
    "\tlea     rax, [main]\n\tmov     rsp, rbp\n\tpop     rbp\n\tret\n\n" ++
    "; --- g ---\npublic g\ng:\n\tpush    rbp\n\tmov     rbp, rsp\n\tsub     rsp, 0x10\n" ++
    "\tmov     [rbp-0x8], rdi\n\t; 1:31\n\tmov     rdi, [rbp-0x8]\n\tmov     rsi, [q]\n" ++
    "\txor     eax, eax\n\tcall    f\n\tmov     [rbp-0x10], rax\n\txor     eax, eax\n" ++
    "\tmov     rsp, rbp\n\tpop     rbp\n\tret\n\n" ++
    "section '.data' writeable\n\n__data:\n\tdb      97, 0\n"

theorem closed_linkedText : compile linkedSource = .ok linkedText ∧
    ∃ tokens program listing, tokenize linkedSource = .ok tokens ∧ parse tokens = .ok program ∧
      program.assemble = .ok listing ∧ linkedText = listing.render ∧
      program.FollowsText (tokens.map (·.value)) ∧ program.Declares (linesOf linkedText) ∧
      program.Distinct ∧ listing.Closed (linesOf linkedText) := by
  have hcompile : compile linkedSource = .ok linkedText := by decide +kernel
  exact ⟨hcompile, compile_closed hcompile⟩

end RayCompiler
