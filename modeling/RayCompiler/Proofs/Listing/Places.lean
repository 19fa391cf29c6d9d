import RayCompiler.Proofs.Listing.Theorems

namespace RayCompiler

open RayCompiler.Frame

-- What a reader is shown of a place: its line and column, without the bytes before it.
def Position.shown (position : Position) : Position := { position with offset := 0 }

namespace Statement

mutual

-- A statement with only what is shown of its places.
def shown : Statement → Statement
  | .externs position names => .externs position.shown names
  | .function position name parameters body slots =>
    .function position.shown name parameters (shownAll body) slots
  | .action position scope effect => .action position.shown scope effect

def shownAll : List Statement → List Statement
  | [] => []
  | statement :: more => statement.shown :: shownAll more

end

theorem shownAll_eq (body : List Statement) : shownAll body = body.map shown := by
  induction body with
  | nil => rfl
  | cons statement more ih => rw [shownAll, ih, List.map_cons]

end Statement

def Function.shown (function : Function) : Function :=
  { function with body := Statement.shownAll function.body }

namespace Statement

mutual

theorem functions_shown (statement : Statement) :
    statement.shown.functions = statement.functions.map Function.shown := by
  cases statement with
  | externs | action => rfl
  | function position name parameters body slots =>
      exact congrArg (_ :: ·) (functionsIn_shownAll body)

theorem functionsIn_shownAll (body : List Statement) :
    functionsIn (shownAll body) = (functionsIn body).map Function.shown := by
  cases body with
  | nil => rfl
  | cons statement more =>
      rw [shownAll, functionsIn, functionsIn, functions_shown statement, functionsIn_shownAll more,
        List.map_append]

end

mutual

theorem declared_shown (statement : Statement) :
    statement.shown.declarations.flatMap (·.2) = statement.declarations.flatMap (·.2) := by
  cases statement with
  | externs | action => rfl
  | function position name parameters body slots => exact declared_shownAll body

theorem declared_shownAll (body : List Statement) :
    (declarationsIn (shownAll body)).flatMap (·.2) = (declarationsIn body).flatMap (·.2) := by
  cases body with
  | nil => rfl
  | cons statement more =>
      simp only [shownAll, declarationsIn, List.flatMap_append, declared_shown statement,
        declared_shownAll more]

end

theorem callCount_shown (statement : Statement) : statement.shown.callCount = statement.callCount := by
  cases statement with
  | externs | function => rfl
  | action position scope effect => cases effect <;> rfl

theorem isReturn_shown (statement : Statement) : statement.shown.isReturn = statement.isReturn := by
  cases statement with
  | externs | function => rfl
  | action position scope effect => cases effect <;> rfl

theorem render_lines_shown (frame : Frame) (number : Nat) (statement : Statement) :
    (statement.shown.lines frame number).map (·.render) =
      (statement.lines frame number).map (·.render) := by
  cases statement <;> rfl

theorem render_linesOf_shownAll (frame : Frame) (number : Nat) (body : List Statement) :
    (linesOf frame number (shownAll body)).map (·.render) =
      (linesOf frame number body).map (·.render) := by
  induction body generalizing number with
  | nil => rfl
  | cons statement more ih =>
      rw [shownAll, linesOf, linesOf, List.map_append, List.map_append, callCount_shown, ih,
        render_lines_shown]

end Statement

theorem Function.closing_shown (function : Function) : function.shown.closing = function.closing := by
  simp only [closing, shown, Statement.shownAll_eq, List.getLast?_map]
  cases function.body.getLast? with
  | none => rfl
  | some last => simp [Statement.isReturn_shown]

-- The code of a function shows no more of its places than their lines and columns.
theorem Function.render_block_shown (function : Function) (symbols : List String) :
    (function.shown.block symbols).render = (function.block symbols).render := by
  have hlines : (function.shown.block symbols).lines.map (·.render) =
      (function.block symbols).lines.map (·.render) := by
    simp only [block, List.map_append, closing_shown]
    rw [← Statement.render_linesOf_shownAll _ _ function.body]
    rfl
  delta Block.render
  rw [hlines]
  rfl

-- Two programs of which the same is shown.
structure Program.LooksLike (program other : Program) : Prop where
  statements : Statement.shownAll other.statements = Statement.shownAll program.statements
  data : other.data = program.data

namespace Program.LooksLike

variable {program other : Program}

theorem functions (h : program.LooksLike other) :
    other.functions.map Function.shown = program.functions.map Function.shown := by
  rw [Program.functions, ← Statement.functionsIn_shownAll, h.statements,
    Statement.functionsIn_shownAll]
  rfl

theorem introduced (h : program.LooksLike other) : other.introduced = program.introduced := by
  have hnames : ∀ functions : List Function,
      functions.map (·.name) = (functions.map Function.shown).map (·.name) := by
    intro functions
    rw [List.map_map]
    rfl
  rw [Program.introduced, Program.introduced, hnames, h.functions, ← hnames, Program.externs,
    ← Statement.declared_shownAll, h.statements, Statement.declared_shownAll]
  rfl

theorem assembles (h : program.LooksLike other) {tokens : List (Located Token)}
    (hforms : Forms tokens other) (hassembles : program.Assembles) : other.Assembles := by
  obtain ⟨hdistinct, hentry, _⟩ := hassembles
  have hnames : other.functions.map (·.name) = program.functions.map (·.name) :=
    congrArg KnownNames.functions h.introduced
  refine ⟨?_, hnames ▸ hentry, fun function hm => (hforms.functions_resolved function hm).body.acceptsAll⟩
  rw [declared_names, h.introduced, ← declared_names]
  exact hdistinct

-- Their listings are the same text.
theorem render_listing (h : program.LooksLike other) :
    other.listing.render = program.listing.render := by
  have hsymbols : other.symbols = program.symbols := by
    rw [symbols_eq, symbols_eq, h.introduced]
  have hblocks : other.listing.blocks.map (·.render) = program.listing.blocks.map (·.render) := by
    have hshown : ∀ functions : List Function,
        (functions.map (·.block program.symbols)).map (·.render) =
          (functions.map Function.shown).map fun function =>
            (function.block program.symbols).render := by
      intro functions
      rw [List.map_map, List.map_map]
      exact List.map_congr_left fun function _ => (function.render_block_shown _).symm
    rw [Program.listing, Program.listing, hsymbols, hshown, hshown, h.functions]
  have himports : other.listing.imports = program.listing.imports := by
    rw [listing, listing, declared_names, h.introduced, ← declared_names]
  have hdata : other.listing.data = program.listing.data := h.data
  delta Listing.render
  rw [himports, hblocks, hdata]

end Program.LooksLike

end RayCompiler
