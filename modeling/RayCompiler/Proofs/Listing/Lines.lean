import RayCompiler.Proofs.Listing.Addresses
import RayCompiler.Text.Lines

namespace RayCompiler.Text

def linesOf (text : String) : List String := (lines text.toList).map String.ofList

-- A text that stays on one line.
def Inline (text : String) : Prop := '\n' ∉ text.toList

instance (text : String) : Decidable (Inline text) := inferInstanceAs (Decidable (¬_))

@[simp] theorem inline_append {first second : String} :
    Inline (first ++ second) ↔ Inline first ∧ Inline second := by
  simp [Inline]

theorem inline_intercalate {texts : List String} (h : ∀ text ∈ texts, Inline text) :
    Inline (", ".intercalate texts) := by
  induction texts with
  | nil => decide
  | cons first more ih =>
      have hmore := ih fun other hm => h other (by simp [hm])
      cases more with
      | nil => simpa using h
      | cons second others =>
          rw [String.intercalate_cons_cons, inline_append, inline_append]
          exact ⟨⟨h first (by simp), by decide⟩, hmore⟩

-- The lines of a text that ends each of them, and an empty one behind the last end.
theorem linesOf_join {texts : List String} (h : ∀ text ∈ texts, Inline text) :
    linesOf (String.join (texts.map (· ++ "\n"))) = texts ++ [""] := by
  induction texts with
  | nil => rfl
  | cons text more ih =>
      have hfirst : '\n' ∉ text.toList := h text (by simp)
      have hmore := ih fun other hm => h other (by simp [hm])
      rw [linesOf] at hmore ⊢
      have hend : "\n".toList = ['\n'] := rfl
      rw [List.map_cons, String.join_cons, String.append_assoc, String.toList_append,
        String.toList_append, hend, List.singleton_append, lines_append_cons hfirst, List.map_cons,
        hmore, String.ofList_toList, List.cons_append]

theorem notMem_toDigits {c : Char} (hc : ∀ digit, c ≠ Nat.digitChar digit) {base : Nat}
    (hbase : 1 < base) (number : Nat) : c ∉ Nat.toDigits base number := by
  induction number using Nat.strongRecOn with
  | ind number ih =>
      rw [Nat.toDigits_eq_if hbase]
      by_cases hlt : number < base
      · simp [hlt, hc]
      · have hrest := ih (number / base) (Nat.div_lt_self (by omega) hbase)
        simp [hlt, hrest, hc]

theorem inline_hex (number : Nat) : Inline (hex number) := by
  rw [Inline, hex, String.toList_ofList]
  exact notMem_toDigits (by simp) (by omega) number

theorem inline_repr (number : Nat) : Inline number.repr := by
  rw [Inline, Nat.toList_repr]
  exact notMem_toDigits (by simp) (by omega) number

theorem inline_reprInt (number : Int) : Inline number.repr := by
  rw [Int.repr_eq_if]
  by_cases h : 0 ≤ number
  · rw [if_pos h]
    exact inline_repr _
  · rw [if_neg h, inline_append]
    exact ⟨by decide, inline_repr _⟩

end RayCompiler.Text

namespace RayCompiler

open Text

def Line.text : Line → String
  | .instruction code => "\t" ++ code.render
  | .place position => "\t; " ++ position.render
  | .externs names => "\t; extern " ++ ", ".intercalate names
  | .function name => "\t; func " ++ name

def Block.textLines (block : Block) : List String :=
  ["", "; --- " ++ block.name ++ " ---", "public " ++ block.name, block.name ++ ":"] ++
    block.lines.map Line.text

namespace Listing

def rowText (row : List UInt8) : String :=
  "\t" ++ padMnemonic "db" ++ ", ".intercalate (row.map (toString ·.toNat))

def importLines (imports : List String) : List String :=
  if imports.isEmpty then [] else "" :: imports.map ("extrn " ++ ·)

def dataLines (data : List UInt8) : List String :=
  if data.isEmpty then []
  else ["", "section '.data' writeable", "", dataLabel ++ ":"] ++ (rows data).map rowText

-- The lines of a listing, without their ends.
def textLines (listing : Listing) : List String :=
  ["format ELF64"] ++ importLines listing.imports ++ ["", "section '.text' executable"] ++
    listing.blocks.flatMap Block.textLines ++ dataLines listing.data

-- Text that is put together from lines with their ends.
def ended (lines : List String) : String := String.join (lines.map (· ++ "\n"))

theorem ended_append (first second : List String) :
    ended (first ++ second) = ended first ++ ended second := by
  rw [ended, List.map_append, String.join_append]
  rfl

theorem ended_flatMap {α : Type} (items : List α) (linesOf : α → List String) :
    ended (items.flatMap linesOf) = String.join (items.map fun item => ended (linesOf item)) := by
  induction items with
  | nil => rfl
  | cons item more ih => rw [List.flatMap_cons, ended_append, ih, List.map_cons, String.join_cons]

theorem render_line (line : Line) : line.render = line.text ++ "\n" := by
  cases line <;> rfl

theorem render_block (block : Block) : block.render = ended block.textLines := by
  have hlines : block.lines.map (·.render) = (block.lines.map Line.text).map (· ++ "\n") := by
    rw [List.map_map]
    exact List.map_congr_left fun line _ => render_line line
  unfold Block.render Block.textLines
  rw [ended_append, ended, ended, hlines]
  apply String.toList_inj.mp
  simp

theorem renderImports_eq (imports : List String) :
    renderImports imports = ended (importLines imports) := by
  unfold renderImports importLines
  split
  · rfl
  · rw [ended, List.map_cons, String.join_cons, List.map_map]
    rfl

theorem renderData_eq (data : List UInt8) : renderData data = ended (dataLines data) := by
  unfold renderData dataLines
  split
  · rfl
  · have hrows : (rows data).map renderRow = ((rows data).map rowText).map (· ++ "\n") := by
      rw [List.map_map]
      rfl
    rw [ended_append, ended, ended, hrows]
    apply String.toList_inj.mp
    simp

theorem render_eq (listing : Listing) : listing.render = ended listing.textLines := by
  have hblocks : listing.blocks.map (·.render) =
      listing.blocks.map fun block => ended block.textLines :=
    List.map_congr_left fun block _ => render_block block
  unfold render textLines
  rw [renderImports_eq, renderData_eq, hblocks, ended_append, ended_append, ended_append,
    ended_append, ended_flatMap]
  rfl

end Listing

end RayCompiler

namespace RayCompiler

open Text

theorem inline_register (register : Register) : Inline register.name ∧ Inline register.lowName := by
  cases register <;> decide

theorem inline_padMnemonic {mnemonic : String} (h : Inline mnemonic) :
    Inline (padMnemonic mnemonic) := by
  refine inline_append.mpr ⟨h, ?_⟩
  rw [Inline, String.toList_ofList, List.mem_replicate]
  exact fun hm => absurd hm.2 (by decide)

theorem inline_address {address : Address} (h : ∀ name, address = .symbol name → Inline name) :
    Inline address.render := by
  cases address with
  | below bytes | above bytes => simp +decide [Address.render, inline_hex]
  | through register => simp +decide [Address.render, inline_register]
  | symbol name => simp +decide [Address.render, h name rfl]
  | data offset => simp +decide [Address.render, inline_repr]

theorem inline_instruction {instruction : Instruction}
    (h : ∀ name, instruction.Names name → Inline name) : Inline instruction.render := by
  have haddress : ∀ address, instruction.address? = some address → Inline address.render :=
    fun address ha => inline_address fun name he => h name (.inr (he ▸ ha))
  have hmnemonic : Inline instruction.mnemonic := by
    cases instruction <;> simp +decide [Instruction.mnemonic]
  have hoperands : ∀ operands, instruction.operands? = some operands → Inline operands := by
    intro operands he
    cases instruction with
    | load | store | clear | addressOf =>
        cases he
        simp +decide [inline_register, haddress _ rfl]
    | call target =>
        cases he
        cases target with
        | symbol name => exact h name (.inl rfl)
        | through register => exact (inline_register register).1
        | stored address => exact inline_append.mpr ⟨by decide, haddress address rfl⟩
    | set =>
        cases he
        simp +decide [inline_register, inline_reprInt]
    | ret | syscall => cases he
    | _ =>
        cases he
        simp +decide [inline_register, inline_hex]
  unfold Instruction.render
  split
  · next operands he => exact inline_append.mpr ⟨inline_padMnemonic hmnemonic, hoperands operands he⟩
  · exact hmnemonic

-- The names that stand in a line.
def Line.Names : Line → String → Prop
  | .instruction code, name => code.Names name
  | .place _, _ => False
  | .externs names, name => name ∈ names
  | .function other, name => name = other

theorem inline_line {line : Line} (h : ∀ name, line.Names name → Inline name) :
    Inline line.text := by
  cases line with
  | instruction code => exact inline_append.mpr ⟨by decide, inline_instruction h⟩
  | place position =>
      simp +decide [Line.text, Position.render, inline_repr]
  | externs names => exact inline_append.mpr ⟨by decide, inline_intercalate h⟩
  | function name => exact inline_append.mpr ⟨by decide, h name rfl⟩

namespace Listing

-- The names that stand in a listing.
inductive Names (listing : Listing) : String → Prop where
  | imported {name : String} (given : name ∈ listing.imports) : listing.Names name
  | block {block : Block} (given : block ∈ listing.blocks) : listing.Names block.name
  | line {block : Block} {line : Line} {name : String} (given : block ∈ listing.blocks)
      (inside : line ∈ block.lines) (names : line.Names name) : listing.Names name

variable {listing : Listing}

theorem inline_textLines (h : ∀ name, listing.Names name → Inline name) :
    ∀ line ∈ listing.textLines, Inline line := by
  intro line hm
  simp only [textLines, List.mem_append, List.mem_flatMap] at hm
  rcases hm with (((hm | hm) | hm) | ⟨block, hblock, hm⟩) | hm
  · rw [List.mem_singleton.mp hm]
    decide
  · unfold importLines at hm
    split at hm
    · simp at hm
    · rcases List.mem_cons.mp hm with rfl | hm
      · decide
      · obtain ⟨name, hname, rfl⟩ := List.mem_map.mp hm
        exact inline_append.mpr ⟨by decide, h name (.imported hname)⟩
  · simp only [List.mem_cons, List.not_mem_nil, or_false] at hm
    rcases hm with rfl | rfl <;> decide
  · have hname := h block.name (.block hblock)
    rcases List.mem_append.mp hm with hm | hm
    · simp only [List.mem_cons, List.not_mem_nil, or_false] at hm
      rcases hm with rfl | rfl | rfl | rfl <;> simp +decide [hname]
    · obtain ⟨inside, hinside, rfl⟩ := List.mem_map.mp hm
      exact inline_line fun name hnames => h name (.line hblock hinside hnames)
  · unfold dataLines at hm
    split at hm
    · simp at hm
    · rcases List.mem_append.mp hm with hm | hm
      · simp only [List.mem_cons, List.not_mem_nil, or_false] at hm
        rcases hm with rfl | rfl | rfl | rfl <;> decide
      · obtain ⟨row, _, rfl⟩ := List.mem_map.mp hm
        refine inline_append.mpr ⟨by decide, inline_intercalate ?_⟩
        intro text ht
        obtain ⟨byte, _, rfl⟩ := List.mem_map.mp ht
        exact inline_repr _

theorem linesOf_render (h : ∀ name, listing.Names name → Inline name) :
    Text.linesOf listing.render = listing.textLines ++ [""] := by
  rw [render_eq]
  exact linesOf_join (inline_textLines h)

end Listing

end RayCompiler
