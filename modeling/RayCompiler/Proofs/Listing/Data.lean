import RayCompiler.Proofs.Listing.Reading

namespace RayCompiler.Text

-- A decimal number that blanks may stand before.
def number? (piece : List Char) : Option Nat := ofDigits? 10 (piece.dropWhile (· = ' '))

-- The numbers of a list with commas between them.
def numbers? (values : String) : Option (List Nat) := (split ',' values.toList).mapM number?

-- The rows of numbers that the lines behind the label of the data define bytes by.
def dataRows? (lines : List String) : Option (List (List Nat)) :=
  ((lines.dropWhile (· ≠ dataLabel ++ ":")).filterMap (after? "\tdb      ")).mapM numbers?

theorem number?_repr (number : Nat) : number? number.repr.toList = some number := by
  rw [number?, (tidy_repr number).dropWhile_eq, ofDigits?_repr]

theorem numbers?_intercalate {numbers : List Nat} (h : numbers ≠ []) :
    numbers? (", ".intercalate (numbers.map toString)) = some numbers := by
  have hblank : ∀ piece, number? (' ' :: piece) = number? piece := fun piece => by
    rw [number?, List.dropWhile_cons_of_pos (by decide), number?]
  have hcomma : ∀ piece ∈ numbers.map toString,
      ',' ∉ piece.toList ∧ number? piece.toList = number? piece.toList := by
    intro piece hm
    obtain ⟨number, _, rfl⟩ := List.mem_map.mp hm
    exact ⟨(tidy_repr number).comma, rfl⟩
  rw [numbers?, mapM_split_intercalate hblank (by simpa using h) hcomma]
  clear h hcomma
  induction numbers with
  | nil => rfl
  | cons number more ih =>
      have hnumber : number? (toString number).toList = some number := number?_repr number
      rw [List.map_cons, List.mapM_cons, hnumber, ih]
      rfl

end RayCompiler.Text

namespace RayCompiler.Listing

open Text

theorem flatten_rows (data : List UInt8) : (rows data).flatten = data := by
  fun_induction rows data with
  | case1 => rfl
  | case2 byte rest ih => rw [List.flatten_cons, ih, List.take_append_drop]

theorem length_of_mem_rows {data row : List UInt8} (h : row ∈ rows data) :
    1 ≤ row.length ∧ row.length ≤ rowLength := by
  fun_induction rows data with
  | case1 => simp at h
  | case2 byte rest ih =>
      rcases List.mem_cons.mp h with rfl | h
      · simp [rowLength]
      · exact ih h

variable {listing : Listing}

theorem after?_rowText (row : List UInt8) :
    after? "\tdb      " (rowText row) =
      some (", ".intercalate ((row.map UInt8.toNat).map toString)) := by
  have hfront : "\t" ++ padMnemonic "db" = "\tdb      " := by decide
  rw [rowText, hfront, after?_append, List.map_map]
  rfl

theorem mapM_numbers? {rows : List (List UInt8)} (h : ∀ row ∈ rows, 1 ≤ row.length) :
    ((rows.map rowText).filterMap (after? "\tdb      ")).mapM numbers? =
      some (rows.map (·.map UInt8.toNat)) := by
  induction rows with
  | nil => rfl
  | cons row more ih =>
      have hmore := ih fun other hm => h other (by simp [hm])
      have hrow : row.map UInt8.toNat ≠ [] := by
        have hlength := h row (by simp)
        rw [Ne, List.map_eq_nil_iff]
        rintro rfl
        simp at hlength
      rw [List.map_cons, List.filterMap_cons_some (after?_rowText row), List.mapM_cons,
        numbers?_intercalate hrow, hmore]
      rfl

theorem textLines_eq (listing : Listing) :
    listing.textLines = { listing with data := [] }.textLines ++ dataLines listing.data := by
  simp [textLines, dataLines]

-- The label of the data begins with a character that no word begins with, so no function has it.
theorem ne_dataLabel_of_mem (h : listing.Worded) (hdata : listing.data = []) {line : String}
    (hm : line ∈ listing.textLines) : line ≠ dataLabel ++ ":" := by
  rintro rfl
  have hlabel : dataLabel ∈ (listing.textLines ++ [""]).filterMap label? :=
    List.mem_filterMap.mpr ⟨_, List.mem_append_left _ hm, by decide⟩
  rw [filterMap_labelled h, hdata, List.isEmpty_nil, if_pos rfl, List.append_nil] at hlabel
  obtain ⟨block, hblock, he⟩ := List.mem_map.mp hlabel
  exact (h.blocks block hblock).ne_dataLabel he

-- The text of a listing gives its data back, row by row.
theorem dataRows?_textLines (h : listing.Worded) :
    dataRows? (listing.textLines ++ [""]) = some ((rows listing.data).map (·.map UInt8.toNat)) := by
  have hbare : { listing with data := [] }.Worded := ⟨h.imports, h.blocks⟩
  have hfront : ∀ line ∈ { listing with data := [] }.textLines,
      decide (line ≠ dataLabel ++ ":") = true := fun line hm =>
    decide_eq_true (ne_dataLabel_of_mem hbare rfl hm)
  have hlines : ∀ row ∈ rows listing.data, 1 ≤ row.length := fun row hm =>
    (length_of_mem_rows hm).1
  rw [dataRows?, textLines_eq, List.append_assoc, List.dropWhile_append_of_pos hfront]
  by_cases hdata : listing.data = []
  · rw [hdata, rows]
    rfl
  · have hlabel : after? "\tdb      " (dataLabel ++ ":") = none := by decide
    have hend : after? "\tdb      " "" = none := by decide
    have hdrop : (["", "section '.data' writeable", "", dataLabel ++ ":"] ++
        (rows listing.data).map rowText ++ [""]).dropWhile (· ≠ dataLabel ++ ":") =
          (dataLabel ++ ":") :: ((rows listing.data).map rowText ++ [""]) := rfl
    rw [dataLines, if_neg (by simpa using hdata), hdrop, List.filterMap_cons_none hlabel,
      List.filterMap_append, List.filterMap_cons_none hend, List.filterMap_nil, List.append_nil,
      mapM_numbers? hlines]

theorem after?_section_import (name : String) : after? "section " ("extrn " ++ name) = none := by
  simp [after?]

theorem after?_section_line (line : Line) : after? "section " line.text = none := by
  cases line <;> simp [Line.text, after?]

theorem after?_section_row (row : List UInt8) : after? "section " (rowText row) = none := by
  simp [rowText, after?]

theorem sections_importLines (imports : List String) :
    (importLines imports).filterMap (after? "section ") = [] := by
  unfold importLines
  split
  · rfl
  · rw [List.filterMap_cons_none (by decide), List.filterMap_map, List.filterMap_eq_nil_iff]
    exact fun name _ => after?_section_import name

-- No line of a function begins a section.
theorem sections_block {block : Block} (h : IsWord block.name) :
    block.textLines.filterMap (after? "section ") = [] := by
  have htitle : after? "section " ("; --- " ++ block.name ++ " ---") = none := by simp [after?]
  have hpublic : after? "section " ("public " ++ block.name) = none := by simp [after?]
  have hlabel : after? "section " (block.name ++ ":") = none := after?_label (by decide) h
  rw [Block.textLines, List.filterMap_append, List.filterMap_cons_none (by decide),
    List.filterMap_cons_none htitle, List.filterMap_cons_none hpublic,
    List.filterMap_cons_none hlabel, List.filterMap_nil, List.nil_append, List.filterMap_map,
    List.filterMap_eq_nil_iff]
  exact fun line _ => after?_section_line line

theorem sections_dataLines (data : List UInt8) :
    (dataLines data).filterMap (after? "section ") =
      if data.isEmpty then [] else ["'.data' writeable"] := by
  have hrows : ((rows data).map rowText).filterMap (after? "section ") = [] := by
    rw [List.filterMap_map, List.filterMap_eq_nil_iff]
    exact fun row _ => after?_section_row row
  unfold dataLines
  split
  · rfl
  · rw [List.filterMap_append, hrows, List.append_nil]
    decide

-- There is a section for the code, and one for the data if there are any.
theorem sections_textLines (h : listing.Worded) :
    (listing.textLines ++ [""]).filterMap (after? "section ") =
      "'.text' executable" :: if listing.data.isEmpty then [] else ["'.data' writeable"] := by
  have hblocks : (listing.blocks.flatMap Block.textLines).filterMap (after? "section ") = [] := by
    rw [List.filterMap_flatMap, List.flatMap_eq_nil_iff]
    exact fun block hm => sections_block (h.blocks block hm)
  have htitle : ["format ELF64"].filterMap (after? "section ") = [] := by decide
  have hcode : ["", "section '.text' executable"].filterMap (after? "section ") =
      ["'.text' executable"] := by decide
  have hend : [""].filterMap (after? "section ") = [] := by decide
  rw [textLines, List.filterMap_append, List.filterMap_append, List.filterMap_append,
    List.filterMap_append, List.filterMap_append, sections_importLines, sections_dataLines, hblocks,
    htitle, hcode, hend, List.append_nil, List.append_nil, List.nil_append, List.nil_append,
    List.singleton_append]

end RayCompiler.Listing
