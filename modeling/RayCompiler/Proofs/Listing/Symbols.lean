import RayCompiler.Proofs.Listing.Lines
import RayCompiler.Proofs.Token.Spelling

namespace RayCompiler

namespace IsWord

variable {name : String}

theorem inline (h : IsWord name) : Text.Inline name := h.notMem (by decide)

theorem ne_dataLabel (h : IsWord name) : name ≠ dataLabel := by
  rintro rfl
  obtain ⟨first, rest, he, hfirst, _⟩ := h
  rw [← (List.cons.inj he).1] at hfirst
  cases hfirst

end IsWord

namespace Text

-- What follows the given front of a line.
def after? (front line : String) : Option String :=
  if front.toList <+: line.toList then some (.ofList (line.toList.drop front.toList.length)) else none

-- The name that a line labels. Code is set off by a tab.
def label? (line : String) : Option String :=
  if line.toList.head? ≠ some '\t' ∧ line.toList.getLast? = some ':' then
    some (.ofList line.toList.dropLast)
  else none

-- The names that one line makes public and the next one labels.
def published (lines : List String) : List String :=
  (lines.zip lines.tail).filterMap fun (first, second) =>
    if after? "public " first = label? second then label? second else none

theorem after?_append (front name : String) : after? front (front ++ name) = some name := by
  simp [after?]

theorem label?_colon {name : String} (h : name.toList.head? ≠ some '\t') :
    label? (name ++ ":") = some name := by
  have hhead : (name ++ ":").toList.head? ≠ some '\t' := by
    rw [String.toList_append]
    cases hname : name.toList with
    | nil => decide
    | cons c rest =>
        rw [hname] at h
        exact h
  rw [label?, if_pos ⟨hhead, by simp⟩]
  simp

-- The lines that stand under one label.
structure Passage where
  name : String
  lines : List String
deriving DecidableEq

-- The passage that begins with the given line: it makes a name public, the next one labels it, and
-- the lines after them are set off by a tab.
def passage? (first : String) : List String → Option Passage
  | [] => none
  | second :: rest =>
    if after? "public " first = label? second then
      (label? second).map fun name => ⟨name, rest.takeWhile (·.toList.head? = some '\t')⟩
    else none

def passages : List String → List Passage
  | [] => []
  | first :: rest => (passage? first rest).toList ++ passages rest

variable {first name : String} {rest lines : List String}

theorem published_eq (lines : List String) : published lines = (passages lines).map (·.name) := by
  induction lines with
  | nil => rfl
  | cons first rest ih =>
      rw [passages, List.map_append, ← ih]
      cases rest with
      | nil => rfl
      | cons second more =>
          simp only [published, passage?, List.tail_cons, List.zip_cons_cons, List.filterMap_cons]
          by_cases h : after? "public " first = label? second
          · cases hlabel : label? second <;> simp [h, hlabel]
          · simp [h]

theorem passages_cons (h : after? "public " first = none) :
    passages (first :: rest) = passages rest := by
  cases rest with
  | nil => rfl
  | cons second more =>
      cases hlabel : label? second <;> simp [passages, passage?, h, hlabel]

theorem passages_append (h : ∀ line ∈ lines, after? "public " line = none) :
    passages (lines ++ rest) = passages rest := by
  induction lines with
  | nil => rfl
  | cons first more ih =>
      rw [List.cons_append, passages_cons (h first (by simp)),
        ih fun line hm => h line (by simp [hm])]

-- A line that introduces no symbol.
structure Idle (line : String) : Prop where
  imported : after? "extrn " line = none
  exported : after? "public " line = none
  labelled : label? line = none

theorem idle_tab (text : String) : Idle ("\t" ++ text) :=
  ⟨by simp [after?], by simp [after?], by simp [label?]⟩

theorem label?_eq_none {line : String} (h : line.toList.getLast? ≠ some ':') :
    label? line = none :=
  if_neg fun hlabel => h hlabel.2

theorem idle_title (name : String) : Idle ("; --- " ++ name ++ " ---") := by
  refine ⟨by simp [after?], by simp [after?], label?_eq_none ?_⟩
  rw [String.toList_append, List.getLast?_append]
  simp

theorem getLast?_ne_colon (front : String) {name : String} (h : IsWord name) :
    (front ++ name).toList.getLast? ≠ some ':' := by
  have hcolon := h.notMem (c := ':') (by decide)
  obtain ⟨first, rest, he, _⟩ := h
  rw [String.toList_append, List.getLast?_append_of_ne_nil _ (by simp [he])]
  exact fun hlast => hcolon (List.mem_of_getLast? hlast)

-- No keyword with a blank behind it stands before a label.
theorem after?_colon {front name : String} (hfront : ' ' ∈ front.toList) (h : ' ' ∉ name.toList) :
    after? front (name ++ ":") = none := by
  refine if_neg fun hprefix => ?_
  have hblank := hprefix.subset hfront
  rw [String.toList_append, List.mem_append] at hblank
  rcases hblank with hblank | hblank
  · exact h hblank
  · exact absurd hblank (by decide)

end Text

-- The lines of a block under its label.
def Block.passage (block : Block) : Text.Passage := ⟨block.name, block.lines.map Line.text⟩

namespace Listing

open Text

variable {listing : Listing}

-- The lines of a listing that introduce symbols.
def symbolLines (listing : Listing) : List String :=
  listing.imports.map ("extrn " ++ ·) ++
    listing.blocks.flatMap (fun block => ["public " ++ block.name, block.name ++ ":"]) ++
    if listing.data.isEmpty then [] else [dataLabel ++ ":"]

theorem idle_line (line : Line) : Idle line.text := by
  cases line with
  | instruction code => exact idle_tab _
  | place position => exact idle_tab ("; " ++ position.render)
  | externs names => exact idle_tab ("; extern " ++ ", ".intercalate names)
  | function name => exact idle_tab ("; func " ++ name)

theorem idle_fixed : ∀ line ∈ ["", "format ELF64", "section '.text' executable",
    "section '.data' writeable"], Idle line := by
  intro line hm
  simp only [List.mem_cons, List.not_mem_nil, or_false] at hm
  rcases hm with rfl | rfl | rfl | rfl <;> exact ⟨by decide, by decide, by decide⟩

section Reader

variable {f : String → Option String}

theorem filterMap_of_idle (hf : ∀ line, Idle line → f line = none) {lines : List String}
    (h : ∀ line ∈ lines, Idle line) : lines.filterMap f = [] :=
  List.filterMap_eq_nil_iff.mpr fun line hm => hf line (h line hm)

theorem filterMap_block (hf : ∀ line, Idle line → f line = none) (block : Block) :
    block.textLines.filterMap f = ["public " ++ block.name, block.name ++ ":"].filterMap f := by
  have hempty := hf "" (idle_fixed _ (by simp))
  have htitle := hf _ (idle_title block.name)
  have hlines : (block.lines.map Line.text).filterMap f = [] := by
    refine filterMap_of_idle hf fun line hm => ?_
    obtain ⟨inside, _, rfl⟩ := List.mem_map.mp hm
    exact idle_line inside
  rw [Block.textLines, List.filterMap_append, hlines, List.append_nil,
    List.filterMap_cons_none hempty, List.filterMap_cons_none htitle]

theorem filterMap_importLines (hf : ∀ line, Idle line → f line = none) (imports : List String) :
    (importLines imports).filterMap f = (imports.map ("extrn " ++ ·)).filterMap f := by
  have hempty := hf "" (idle_fixed _ (by simp))
  unfold importLines
  split
  · next h => rw [List.isEmpty_iff.mp h, List.map_nil]
  · rw [List.filterMap_cons_none hempty]

theorem filterMap_dataLines (hf : ∀ line, Idle line → f line = none) (data : List UInt8) :
    (dataLines data).filterMap f =
      (if data.isEmpty then [] else [dataLabel ++ ":"]).filterMap f := by
  have hempty := hf "" (idle_fixed _ (by simp))
  have hsection := hf "section '.data' writeable" (idle_fixed _ (by simp))
  have hrows : ((rows data).map rowText).filterMap f = [] := by
    refine filterMap_of_idle hf fun line hm => ?_
    obtain ⟨row, _, rfl⟩ := List.mem_map.mp hm
    rw [rowText, String.append_assoc]
    exact idle_tab _
  unfold dataLines
  split
  · rfl
  · rw [List.filterMap_append, hrows, List.append_nil, List.filterMap_cons_none hempty,
      List.filterMap_cons_none hsection, List.filterMap_cons_none hempty]

-- A reader that passes over idle lines finds what it looks for in the other ones.
theorem filterMap_textLines (hf : ∀ line, Idle line → f line = none) :
    (listing.textLines ++ [""]).filterMap f = listing.symbolLines.filterMap f := by
  have hhead : ["format ELF64"].filterMap f = [] := by
    refine filterMap_of_idle hf fun line hm => idle_fixed line ?_
    simp [List.mem_singleton.mp hm]
  have hsection : ["", "section '.text' executable"].filterMap f = [] := by
    refine filterMap_of_idle hf fun line hm => idle_fixed line ?_
    simp only [List.mem_cons, List.not_mem_nil, or_false] at hm ⊢
    tauto
  have hlast : [""].filterMap f = [] := by
    refine filterMap_of_idle hf fun line hm => idle_fixed line ?_
    simp [List.mem_singleton.mp hm]
  have hblocks : (listing.blocks.flatMap Block.textLines).filterMap f =
      (listing.blocks.flatMap fun block =>
        ["public " ++ block.name, block.name ++ ":"]).filterMap f := by
    rw [List.filterMap_flatMap, List.filterMap_flatMap]
    exact congrArg (List.flatMap · _) (funext fun block => filterMap_block hf block)
  simp only [textLines, symbolLines, List.filterMap_append, hhead, hsection, hlast, hblocks,
    filterMap_importLines hf, filterMap_dataLines hf, List.nil_append, List.append_nil]

end Reader

-- The names that a listing introduces are words, which neither end in a colon nor hold a blank.
structure Worded (listing : Listing) : Prop where
  imports : ∀ name ∈ listing.imports, IsWord name
  blocks : ∀ block ∈ listing.blocks, IsWord block.name

theorem label?_word {name : String} (h : IsWord name) : label? (name ++ ":") = some name := by
  refine label?_colon fun hhead => ?_
  exact absurd (List.mem_of_mem_head? hhead) (h.notMem (by decide))

theorem after?_imported (name : String) : after? "public " ("extrn " ++ name) = none := by
  simp [after?]

theorem after?_exported (name : String) : after? "extrn " ("public " ++ name) = none := by
  simp [after?]

theorem after?_label {front name : String} (hfront : ' ' ∈ front.toList) (h : IsWord name) :
    after? front (name ++ ":") = none :=
  after?_colon hfront (h.notMem (by decide))

theorem filterMap_imported (h : listing.Worded) :
    (listing.textLines ++ [""]).filterMap (after? "extrn ") = listing.imports := by
  have himports : (listing.imports.map ("extrn " ++ ·)).filterMap (after? "extrn ") =
      listing.imports := by
    rw [List.filterMap_map]
    simp [after?_append]
  have hblocks : (listing.blocks.flatMap fun block =>
      ["public " ++ block.name, block.name ++ ":"]).filterMap (after? "extrn ") = [] := by
    refine List.filterMap_eq_nil_iff.mpr fun line hm => ?_
    obtain ⟨block, hblock, hm⟩ := List.mem_flatMap.mp hm
    simp only [List.mem_cons, List.not_mem_nil, or_false] at hm
    rcases hm with rfl | rfl
    · exact after?_exported _
    · exact after?_label (by decide) (h.blocks block hblock)
  have hdata : (if listing.data.isEmpty then [] else [dataLabel ++ ":"]).filterMap
      (after? "extrn ") = [] := by
    split <;> decide
  rw [filterMap_textLines fun _ hidle => hidle.imported, symbolLines, List.filterMap_append,
    List.filterMap_append, himports, hblocks, hdata, List.append_nil, List.append_nil]

theorem filterMap_exported (h : listing.Worded) :
    (listing.textLines ++ [""]).filterMap (after? "public ") = listing.blocks.map (·.name) := by
  have himports : (listing.imports.map ("extrn " ++ ·)).filterMap (after? "public ") = [] := by
    rw [List.filterMap_map]
    exact List.filterMap_eq_nil_iff.mpr fun name _ => after?_imported name
  have hblocks : (listing.blocks.flatMap fun block =>
      ["public " ++ block.name, block.name ++ ":"]).filterMap (after? "public ") =
        listing.blocks.map (·.name) := by
    rw [List.filterMap_flatMap, List.map_eq_flatMap]
    refine List.flatMap_congr fun block hm => ?_
    have hlabel : after? "public " (block.name ++ ":") = none :=
      after?_label (by decide) (h.blocks block hm)
    simp [after?_append, hlabel]
  have hdata : (if listing.data.isEmpty then [] else [dataLabel ++ ":"]).filterMap
      (after? "public ") = [] := by
    split <;> decide
  rw [filterMap_textLines fun _ hidle => hidle.exported, symbolLines, List.filterMap_append,
    List.filterMap_append, himports, hblocks, hdata, List.append_nil, List.nil_append]

theorem filterMap_labelled (h : listing.Worded) :
    (listing.textLines ++ [""]).filterMap label? =
      listing.blocks.map (·.name) ++ if listing.data.isEmpty then [] else [dataLabel] := by
  have himports : (listing.imports.map ("extrn " ++ ·)).filterMap label? = [] := by
    rw [List.filterMap_map]
    exact List.filterMap_eq_nil_iff.mpr fun name hm =>
      label?_eq_none (getLast?_ne_colon _ (h.imports name hm))
  have hblocks : (listing.blocks.flatMap fun block =>
      ["public " ++ block.name, block.name ++ ":"]).filterMap label? =
        listing.blocks.map (·.name) := by
    rw [List.filterMap_flatMap, List.map_eq_flatMap]
    refine List.flatMap_congr fun block hm => ?_
    have hword := h.blocks block hm
    simp [label?_eq_none (getLast?_ne_colon "public " hword), label?_word hword]
  have hdata : (if listing.data.isEmpty then [] else [dataLabel ++ ":"]).filterMap label? =
      if listing.data.isEmpty then [] else [dataLabel] := by
    split <;> decide
  rw [filterMap_textLines fun _ hidle => hidle.labelled, symbolLines, List.filterMap_append,
    List.filterMap_append, himports, hblocks, hdata, List.nil_append]

-- A passage ends where a line is not set off.
theorem passages_block {block : Block} (h : IsWord block.name) {rest : List String}
    (hrest : rest.head? = some "") :
    passages (block.textLines ++ rest) = block.passage :: passages rest := by
  obtain ⟨more, rfl⟩ := List.head?_eq_some_iff.mp hrest
  have hlines : ∀ line ∈ block.lines.map Line.text, after? "public " line = none ∧
      line.toList.head? = some '\t' := by
    intro line hm
    obtain ⟨inside, _, rfl⟩ := List.mem_map.mp hm
    refine ⟨(idle_line inside).exported, ?_⟩
    cases inside <;> simp [Line.text]
  have htake : (block.lines.map Line.text ++ "" :: more).takeWhile (·.toList.head? = some '\t') =
      block.lines.map Line.text := by
    rw [List.takeWhile_append_of_pos fun line hm => decide_eq_true (hlines line hm).2]
    simp
  have hpassage : passage? ("public " ++ block.name)
      ((block.name ++ ":") :: (block.lines.map Line.text ++ "" :: more)) = block.passage := by
    rw [passage?, after?_append, label?_word h, if_pos rfl, htake]
    rfl
  simp only [Block.textLines, List.cons_append, List.nil_append]
  rw [passages_cons (idle_fixed "" (by simp)).exported, passages_cons (idle_title block.name).exported,
    passages, hpassage, passages_cons (after?_label (by decide) h),
    passages_append fun line hm => (hlines line hm).1]
  rfl

theorem passages_blocks {blocks : List Block} (h : ∀ block ∈ blocks, IsWord block.name)
    {rest : List String} (hrest : rest.head? = some "") :
    passages (blocks.flatMap Block.textLines ++ rest) = blocks.map Block.passage ++ passages rest := by
  induction blocks with
  | nil => rfl
  | cons block more ih =>
      have hmore := ih fun other hm => h other (by simp [hm])
      have hstart : (more.flatMap Block.textLines ++ rest).head? = some "" := by
        cases more with
        | nil => exact hrest
        | cons => rfl
      rw [List.flatMap_cons, List.append_assoc, passages_block (h block (by simp)) hstart, hmore]
      rfl

-- The passages of a listing are its blocks.
theorem passages_textLines (h : listing.Worded) :
    passages (listing.textLines ++ [""]) = listing.blocks.map Block.passage := by
  have hidle : ∀ line, Idle line → after? "public " line = none := fun _ hline => hline.exported
  have hfront : ∀ line ∈ ["format ELF64"] ++ importLines listing.imports ++
      ["", "section '.text' executable"], after? "public " line = none := by
    rw [← List.filterMap_eq_nil_iff, List.filterMap_append, List.filterMap_append,
      filterMap_importLines hidle, List.filterMap_map]
    simp +decide [after?_imported]
  have hback : ∀ line ∈ dataLines listing.data ++ [""], after? "public " line = none := by
    rw [← List.filterMap_eq_nil_iff, List.filterMap_append, filterMap_dataLines hidle]
    split <;> decide
  have hstart : (dataLines listing.data ++ [""]).head? = some "" := by
    unfold dataLines
    split <;> rfl
  have hnone : passages (dataLines listing.data ++ [""]) = [] := by
    rw [← List.append_nil (dataLines _ ++ _), passages_append hback, passages]
  rw [textLines, List.append_assoc, List.append_assoc, passages_append hfront,
    passages_blocks h.blocks hstart, hnone, List.append_nil]

theorem published_textLines (h : listing.Worded) :
    published (listing.textLines ++ [""]) = listing.blocks.map (·.name) := by
  rw [published_eq, passages_textLines h, List.map_map]
  rfl

end Listing

end RayCompiler
