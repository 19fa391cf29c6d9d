import RayCompiler.Diagnostic.Basic
import RayCompiler.Proofs.Token.Layout

namespace RayCompiler

-- The first line of a text without its terminator. A line feed ends a line, together with a carriage
-- return in front of it; the last line has no terminator.
inductive FirstLine : List Char → List Char → Prop where
  | last (inline : '\n' ∉ line) : FirstLine line line
  | fed (inline : '\n' ∉ line) (bare : line.getLast? ≠ some '\r') :
      FirstLine (line ++ '\n' :: more) line
  | returned (inline : '\n' ∉ line) : FirstLine (line ++ '\r' :: '\n' :: more) line

-- The line on which a place lies, where the text before the place and behind it is given.
def LineAround (front rest line : List Char) : Prop :=
  ∃ before inline, front = before ++ inline ∧ (∀ c ∈ before.getLast?, c = '\n') ∧ '\n' ∉ inline ∧
    FirstLine (inline ++ rest) line

namespace Text

end Text

open Position

-- A stretch at the front of a text lies in its first line, unless the stretch goes on to the terminator.
theorem FirstLine.covers {text line part : List Char} (h : FirstLine text line) (hpart : part <+: text)
    (hinline : '\n' ∉ part) (hbare : part.getLast? ≠ some '\r') : part <+: line := by
  have hcut : ∀ {line more : List Char}, part <+: line ++ '\n' :: more → part <+: line := by
    rintro line more ⟨tail, htail⟩
    rcases List.append_eq_append_iff.mp htail with ⟨rest, rfl, _⟩ | ⟨rest, rfl, hrest⟩
    · exact List.prefix_append _ _
    · cases rest with
      | nil => simp
      | cons c rest =>
          obtain ⟨rfl, _⟩ := List.cons.inj hrest
          simp at hinline
  cases h with
  | last => exact hpart
  | fed => exact hcut hpart
  | returned =>
      rw [← List.singleton_append, ← List.append_assoc] at hpart
      rcases List.prefix_concat_iff.mp (hcut hpart) with rfl | hline
      · simp at hbare
      · exact hline

namespace Position

theorem column_behind_append (first : List Char) {second : List Char} (h : '\n' ∉ second) :
    (behind (first ++ second)).column = (behind first).column + second.length := by
  have hsecond : ∀ c ∈ second.reverse, decide (c ≠ '\n') = true := by
    intro c hm
    rw [List.mem_reverse] at hm
    simpa using ne_of_mem_of_not_mem hm h
  simp only [behind, List.reverse_append, List.takeWhile_append_of_pos hsecond, List.length_append,
    List.length_reverse]
  omega

-- A line begins in the first column.
theorem column_behind_eq_one {before : List Char} (h : ∀ c ∈ before.getLast?, c = '\n') :
    (behind before).column = 1 := by
  rcases List.eq_nil_or_concat before with rfl | ⟨front, last, rfl⟩
  · rfl
  · rw [List.concat_eq_append] at h ⊢
    rw [h last (by simp)]
    simp [behind]

end Position

-- What begins at a place and stays on its line is shown from the column of the place on.
theorem LineAround.shows {front rest line part : List Char} (h : LineAround front rest line)
    (hpart : part <+: rest) (hne : part ≠ []) (hinline : '\n' ∉ part)
    (hbare : part.getLast? ≠ some '\r') : part <+: line.drop ((behind front).column - 1) := by
  obtain ⟨before, inline, rfl, hbegins, hbefore, hline⟩ := h
  have hcolumn : (behind (before ++ inline)).column - 1 = inline.length := by
    rw [column_behind_append _ hbefore, column_behind_eq_one hbegins]
    omega
  have hcovers : inline ++ part <+: line := by
    refine hline.covers ((List.prefix_append_right_inj _).mpr hpart) ?_ ?_
    · simp [hbefore, hinline]
    · rw [List.getLast?_append_of_ne_nil _ hne]
      exact hbare
  obtain ⟨tail, rfl⟩ := hcovers
  rw [hcolumn, List.append_assoc, List.drop_left]
  exact List.prefix_append _ _

namespace Diagnostic

-- A report written out: what is wrong, where it is, and a line of the text with carets under it. The
-- margin is as wide as the number of the line with the blanks in front of it.
def Reports (diagnostic : Diagnostic) (name : String) (start : Position) (line : List Char)
    (carets : Nat) (report : String) : Prop :=
  ∃ indent, report = diagnostic.kind ++ ": " ++ diagnostic.message ++ "\n" ++
    " --> " ++ name ++ ":" ++ toString start.line ++ ":" ++ toString start.column ++ "\n" ++
    spaces (indent + (toString start.line).length) ++ " |\n" ++
    spaces indent ++ toString start.line ++ " | " ++ String.ofList line ++ "\n" ++
    spaces (indent + (toString start.line).length) ++ " | " ++
      spaces (start.column - 1) ++ String.ofList (List.replicate carets '^') ++ "\n" ++
    "\nBuild failed with 1 error\n"

end Diagnostic

end RayCompiler
