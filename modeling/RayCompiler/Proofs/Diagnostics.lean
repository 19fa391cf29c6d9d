import RayCompiler.Proofs.Compilation
import RayCompiler.Proofs.Diagnostic.Excerpts
import RayCompiler.Proofs.Parser.Blame

namespace RayCompiler

open Position

namespace Grammar

open Statement

variable {known : KnownNames}

theorem Cursor.Reaches.subset {here after : Cursor} (h : here.Reaches after) :
    after.rest ⊆ here.rest := by
  obtain ⟨used, hrest, _⟩ := h
  rw [hrest]
  exact List.subset_append_right _ _

end Grammar

section Places

variable {source : Source} {front rest : List Char}

end Places

end RayCompiler
