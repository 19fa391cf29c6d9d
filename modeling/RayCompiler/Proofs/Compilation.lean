import RayCompiler.Compile
import RayCompiler.Proofs.Listing.Theorems
import RayCompiler.Proofs.Token.Spelling

namespace RayCompiler

-- A source, the program it is parsed to, and the listing of the program.
def Compiled (source : Source) (program : Program) (listing : Listing) : Prop :=
  ∃ tokens, tokenize source = .ok tokens ∧ parse tokens = .ok program ∧
    program.assemble = .ok listing

theorem mapError_eq_ok {ε ε' α : Type} {first : Except ε α} {wrap : ε → ε'} {result : α} :
    first.mapError wrap = .ok result ↔ first = .ok result := by
  cases first <;> simp [Except.mapError]

theorem compile_eq_ok_iff {source : Source} {text : String} :
    compile source = .ok text ↔
      ∃ program listing, Compiled source program listing ∧ text = listing.render := by
  simp only [compile, Program.generate, except_bind_eq_ok, mapError_eq_ok]
  constructor
  · rintro ⟨tokens, htokens, program, hprogram, listing, hlisting, htext⟩
    cases htext
    exact ⟨program, listing, ⟨tokens, htokens, hprogram, hlisting⟩, rfl⟩
  · rintro ⟨program, listing, ⟨tokens, htokens, hprogram, hlisting⟩, rfl⟩
    exact ⟨tokens, htokens, program, hprogram, listing, hlisting, rfl⟩

theorem Compiled.unique {source : Source} {program other : Program} {listing written : Listing}
    (h : Compiled source program listing) (hother : Compiled source other written) :
    program = other ∧ listing = written := by
  obtain ⟨tokens, htokens, hprogram, hlisting⟩ := h
  obtain ⟨tokens', htokens', hprogram', hlisting'⟩ := hother
  cases htokens.symm.trans htokens'
  cases hprogram.symm.trans hprogram'
  exact ⟨rfl, Except.ok.inj (hlisting.symm.trans hlisting')⟩

theorem Compiled.forms {source : Source} {program : Program} {listing : Listing}
    (h : Compiled source program listing) : ∃ tokens, Forms tokens program := by
  obtain ⟨tokens, htokens, hprogram, _⟩ := h
  exact ⟨tokens, forms_of_parse (endsOnce_tokenize htokens) hprogram⟩

theorem Compiled.resolved {source : Source} {program : Program} {listing : Listing}
    (h : Compiled source program listing) :
    ∀ function ∈ program.functions, function.Resolved program.symbols := by
  obtain ⟨_, hforms⟩ := h.forms
  exact hforms.functions_resolved

theorem Compiled.assembles {source : Source} {program : Program} {listing : Listing}
    (h : Compiled source program listing) : program.Assembles ∧ listing = program.listing := by
  obtain ⟨_, _, _, hlisting⟩ := h
  exact Program.assemble_ok_iff.mp hlisting

-- The listing of a program has one block for each function, in the order of the text.
theorem Compiled.blocks_eq {source : Source} {program : Program} {listing : Listing}
    (h : Compiled source program listing) :
    listing.blocks = program.functions.map (·.block program.symbols) := by
  rw [h.assembles.2]
  rfl

theorem Compiled.block_mem {source : Source} {program : Program} {listing : Listing}
    (h : Compiled source program listing) {function : Function}
    (hm : function ∈ program.functions) : function.block program.symbols ∈ listing.blocks := by
  rw [h.blocks_eq]
  exact List.mem_map_of_mem hm

-- A call with seven arguments. The last one is taken through a pointer.
def seventhSource : Source where
  name := "seventh.ray"
  text := "func f(a,b,c,d,e,g,h)\x7breturn(h)\x7dfunc main()\x7bvar x=5;var p=&x;" ++
    "var y=f(1,2,3,4,5,6,*p);return(y)\x7d"

-- Each token with its column and its length.
def seventhTokens : List (Located Token) :=
  [(1, 4, .keyword .func), (6, 1, .name "f"), (7, 1, .symbol .openParen), (8, 1, .name "a"),
    (9, 1, .symbol .comma), (10, 1, .name "b"), (11, 1, .symbol .comma), (12, 1, .name "c"),
    (13, 1, .symbol .comma), (14, 1, .name "d"), (15, 1, .symbol .comma), (16, 1, .name "e"),
    (17, 1, .symbol .comma), (18, 1, .name "g"), (19, 1, .symbol .comma), (20, 1, .name "h"),
    (21, 1, .symbol .closeParen), (22, 1, .symbol .openCurly), (23, 6, .keyword .ret),
    (29, 1, .symbol .openParen), (30, 1, .name "h"), (31, 1, .symbol .closeParen),
    (32, 1, .symbol .closeCurly), (33, 4, .keyword .func), (38, 4, .name "main"),
    (42, 1, .symbol .openParen), (43, 1, .symbol .closeParen), (44, 1, .symbol .openCurly),
    (45, 3, .keyword .var), (49, 1, .name "x"), (50, 1, .symbol .assign), (51, 1, .number 5),
    (52, 1, .symbol .semicolon), (53, 3, .keyword .var), (57, 1, .name "p"), (58, 1, .symbol .assign),
    (59, 1, .symbol .ampersand), (60, 1, .name "x"), (61, 1, .symbol .semicolon),
    (62, 3, .keyword .var), (66, 1, .name "y"), (67, 1, .symbol .assign), (68, 1, .name "f"),
    (69, 1, .symbol .openParen), (70, 1, .number 1), (71, 1, .symbol .comma), (72, 1, .number 2),
    (73, 1, .symbol .comma), (74, 1, .number 3), (75, 1, .symbol .comma), (76, 1, .number 4),
    (77, 1, .symbol .comma), (78, 1, .number 5), (79, 1, .symbol .comma), (80, 1, .number 6),
    (81, 1, .symbol .comma), (82, 1, .symbol .times), (83, 1, .name "p"), (84, 1, .symbol .closeParen),
    (85, 1, .symbol .semicolon), (86, 6, .keyword .ret), (92, 1, .symbol .openParen),
    (93, 1, .name "y"), (94, 1, .symbol .closeParen), (95, 1, .symbol .closeCurly)].map
    (fun (column, width, token) =>
      ⟨⟨⟨column - 1, 1, column⟩, ⟨column + width - 1, 1, column + width⟩⟩, token⟩) ++
    [endAt ⟨95, 1, 96⟩]

def seventhCallee : Function where
  name := "f"
  parameters := ["a", "b", "c", "d", "e", "g", "h"]
  body := [.action ⟨22, 1, 23⟩ "f" (.ret (.variable 6))]
  slots := ⟨["a", "b", "c", "d", "e", "g", "h"], []⟩

def seventhCall : Call where
  callee := "f"
  arguments := [.literal 1, .literal 2, .literal 3, .literal 4, .literal 5, .literal 6, .pointee 1]

def seventhCaller : Function where
  name := "main"
  parameters := []
  body := [.action ⟨44, 1, 45⟩ "main" (.define "x" (.literal 5)),
    .action ⟨52, 1, 53⟩ "main" (.define "p" (.address 0)),
    .action ⟨61, 1, 62⟩ "main" (.callAssign "y" seventhCall),
    .action ⟨85, 1, 86⟩ "main" (.ret (.variable 2))]
  slots := ⟨[], [.variable "x", .variable "p", .variable "y", .result 0]⟩

def seventhProgram : Program where
  statements := [.ofFunction ⟨0, 1, 1⟩ seventhCallee, .ofFunction ⟨32, 1, 33⟩ seventhCaller]
  data := []

def seventhListing : Listing where
  imports := []
  blocks := seventhProgram.functions.map (·.block seventhProgram.symbols)
  data := []

set_option maxRecDepth 8000 in
theorem compiled_seventh : Compiled seventhSource seventhProgram seventhListing :=
  ⟨seventhTokens, by decide +kernel, rfl, rfl⟩

end RayCompiler
