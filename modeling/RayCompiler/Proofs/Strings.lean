import RayCompiler.Proofs.Grammar.Strings
import RayCompiler.Proofs.Linking
import RayCompiler.Proofs.Listing.Data
import RayCompiler.Proofs.Listing.Loads

namespace RayCompiler

open Text

-- Where a string begins among the bytes of all strings, its own bytes are found.
theorem take_drop_storedBytes {strings : List String} {index : Nat} {contents : String}
    (h : strings[index]? = some contents) :
    ((strings.flatMap storedBytes).drop (storedSize (strings.take index))).take
      (contents.utf8ByteSize + 1) = storedBytes contents := by
  obtain ⟨hlt, rfl⟩ := List.getElem?_eq_some_iff.mp h
  have hsplit : strings.flatMap storedBytes = (strings.take index).flatMap storedBytes ++
      (storedBytes strings[index] ++ (strings.drop (index + 1)).flatMap storedBytes) := by
    rw [← List.flatMap_cons, List.getElem_cons_drop, ← List.flatMap_append, List.take_append_drop]
  rw [hsplit, ← length_flatMap_storedBytes, List.drop_left, ← length_storedBytes, List.take_left]

-- Even an empty string takes up a byte.
theorem isEmpty_flatMap_storedBytes (strings : List String) :
    (strings.flatMap storedBytes).isEmpty = strings.isEmpty := by
  cases strings with
  | nil => rfl
  | cons contents more => simp [storedBytes]

theorem storedSize_take_le (strings : List String) (index : Nat) :
    storedSize (strings.take index) ≤ storedSize strings := by
  have hsplit := congrArg storedSize (List.take_append_drop index strings)
  rw [storedSize, List.map_append, List.sum_append] at hsplit
  exact hsplit ▸ Nat.le_add_right _ _

-- The data operands of a program stand for strings in the order of the text. Each one is the number
-- of bytes before its string in a word of 32 bits, and the code of the listing takes just these
-- addresses.
structure Program.RefersTo (program : Program) (strings : List String) (listing : Listing) : Prop where
  operands : program.offsets =
    (List.range strings.length).map fun index => storedSize (strings.take index) % UInt32.size
  exact : storedSize strings < UInt32.size → program.offsets =
    (List.range strings.length).map fun index => storedSize (strings.take index)
  addresses : ∀ offset, offset ∈ program.offsets ↔ ∃ block ∈ listing.blocks,
    ∃ instruction ∈ block.code, instruction.address? = some (.data offset)

-- Lines that define the bytes of strings row by row, each string where its offset says if there are
-- fewer bytes than words of 32 bits can count.
structure StoresStrings (lines strings : List String) (offsets : List Nat)
    (rows : List (List Nat)) : Prop where
  read : dataRows? lines = some rows
  filled : ∀ row ∈ rows, 1 ≤ row.length ∧ row.length ≤ 16
  bytes : rows.flatten = (strings.flatMap storedBytes).map UInt8.toNat
  found : storedSize strings < UInt32.size → ∀ (index : Nat) (contents : String) (offset : Nat),
    strings[index]? = some contents → offsets[index]? = some offset →
      (rows.flatten.drop offset).take (contents.utf8ByteSize + 1) =
        (storedBytes contents).map UInt8.toNat
  sections : lines.filterMap (after? "section ") =
    "'.text' executable" :: if strings.isEmpty then [] else ["'.data' writeable"]

theorem Forms.offsets_eq {tokens : List (Located Token)} {program : Program}
    (h : Forms tokens program) (hsize : storedSize (stringsOf tokens) < UInt32.size) :
    program.offsets = (List.range (stringsOf tokens).length).map fun index =>
      storedSize ((stringsOf tokens).take index) := by
  rw [h.strings.2]
  refine List.map_congr_left fun index _ => Nat.mod_eq_of_lt ?_
  exact Nat.lt_of_le_of_lt (storedSize_take_le _ index) hsize

section Compiled

variable {source : Source} {program : Program} {listing : Listing} {tokens : List (Located Token)}

theorem Compiled.mem_offsets_iff (h : Compiled source program listing) {offset : Nat} :
    offset ∈ program.offsets ↔ ∃ block ∈ listing.blocks,
      ∃ instruction ∈ block.code, instruction.address? = some (.data offset) := by
  obtain ⟨_, hforms⟩ := h.forms
  rw [hforms.mem_offsets]
  constructor
  · rintro ⟨function, hm, hoperand⟩
    obtain ⟨register, hloads⟩ := Function.exists_loads hoperand
    have hcode := (Function.loading_infix_lines program.symbols hloads).subset
      (List.mem_singleton_self _)
    exact ⟨_, h.block_mem hm, _, Block.mem_code.mpr hcode, rfl⟩
  · rintro ⟨block, hblock, instruction, hcode, haddress⟩
    obtain ⟨function, hm, rfl⟩ := h.exists_function hblock
    have hadmits := function.admits_code (h.assembles.1.accepts function hm) instruction hcode
    refine ⟨function, hm, ?_⟩
    cases hadmits.reads haddress with
    | slot holds =>
        obtain ⟨_, _, he⟩ := holds
        cases he
    | data given => exact given

theorem Compiled.storesStrings (h : Compiled source program listing) (hforms : Forms tokens program) :
    StoresStrings (linesOf listing.render) (stringsOf tokens) program.offsets
      ((Listing.rows listing.data).map (·.map UInt8.toNat)) := by
  have hdata := hforms.strings.1
  have hflatten : ((Listing.rows listing.data).map (·.map UInt8.toNat)).flatten =
      ((stringsOf tokens).flatMap storedBytes).map UInt8.toNat := by
    rw [← List.map_flatten, Listing.flatten_rows, h.data_eq, hdata]
  rw [h.linesOf_render]
  refine ⟨Listing.dataRows?_textLines h.listing_worded, ?_, hflatten, ?_, ?_⟩
  · intro row hm
    obtain ⟨bytes, hbytes, rfl⟩ := List.mem_map.mp hm
    rw [List.length_map]
    exact Listing.length_of_mem_rows hbytes
  · intro hsize index contents offset hcontents hoffset
    have hlt := (List.getElem?_eq_some_iff.mp hcontents).1
    have hplace : storedSize ((stringsOf tokens).take index) = offset := by
      rw [hforms.offsets_eq hsize, List.getElem?_map, List.getElem?_range hlt] at hoffset
      exact Option.some.inj hoffset
    rw [hflatten, ← hplace, ← List.map_drop, ← List.map_take, take_drop_storedBytes hcontents]
  · rw [Listing.sections_textLines h.listing_worded, h.data_eq, hdata,
      isEmpty_flatMap_storedBytes]

end Compiled

-- The strings of a source reach its listing unchanged and in order, and the code finds each of them.
theorem compile_storesStrings {source : Source} {text : String} (h : compile source = .ok text) :
    ∃ tokens program listing rows, tokenize source = .ok tokens ∧ parse tokens = .ok program ∧
      program.assemble = .ok listing ∧ text = listing.render ∧
      program.RefersTo (stringsOf tokens) listing ∧
      StoresStrings (linesOf text) (stringsOf tokens) program.offsets rows := by
  obtain ⟨program, listing, hcompiled, rfl⟩ := compile_eq_ok_iff.mp h
  have ⟨tokens, htokens, hprogram, hlisting⟩ := hcompiled
  have hforms := forms_of_parse (endsOnce_tokenize htokens) hprogram
  have hrefers : program.RefersTo (stringsOf tokens) listing :=
    ⟨hforms.strings.2, hforms.offsets_eq, fun _ => hcompiled.mem_offsets_iff⟩
  exact ⟨tokens, program, listing, _, htokens, hprogram, hlisting, rfl, hrefers,
    hcompiled.storesStrings hforms⟩

-- A string with a character of two bytes, an empty one in a function inside, and one that goes over
-- the end of a row.
def storedSource : Source where
  name := "stored.ray"
  text := "func main()\x7bf(\"hé\");func g(x)=>f(x,\"\")\nextern f\ng(\"0123456789abcde\")\x7d"

def storedText : String :=
  "format ELF64\n\nextrn f\n\nsection '.text' executable\n\n" ++
    "; --- main ---\npublic main\nmain:\n\tpush    rbp\n\tmov     rbp, rsp\n\tsub     rsp, 0x10\n" ++
    "\t; 1:13\n\tlea     rdi, [__data+0]\n\txor     eax, eax\n\tcall    f\n" ++
    "\tmov     [rbp-0x8], rax\n\t; 1:21\n\t; func g\n\t; 2:1\n\t; extern f\n\t; 3:1\n" ++
    "\tlea     rdi, [__data+5]\n\txor     eax, eax\n\tcall    g\n\tmov     [rbp-0x10], rax\n" ++
    "\txor     eax, eax\n\tmov     rsp, rbp\n\tpop     rbp\n\tret\n\n" ++
    "; --- g ---\npublic g\ng:\n\tpush    rbp\n\tmov     rbp, rsp\n\tsub     rsp, 0x10\n" ++
    "\tmov     [rbp-0x8], rdi\n\t; 1:32\n\tmov     rdi, [rbp-0x8]\n\tlea     rsi, [__data+4]\n" ++
    "\txor     eax, eax\n\tcall    f\n\tmov     [rbp-0x10], rax\n\txor     eax, eax\n" ++
    "\tmov     rsp, rbp\n\tpop     rbp\n\tret\n\n" ++
    "section '.data' writeable\n\n__data:\n" ++
    "\tdb      104, 195, 169, 0, 0, 48, 49, 50, 51, 52, 53, 54, 55, 56, 57, 97\n" ++
    "\tdb      98, 99, 100, 101, 0\n"

theorem storesStrings_storedText : compile storedSource = .ok storedText ∧
    ∃ tokens program listing rows, tokenize storedSource = .ok tokens ∧ parse tokens = .ok program ∧
      program.assemble = .ok listing ∧ storedText = listing.render ∧
      program.RefersTo (stringsOf tokens) listing ∧
      StoresStrings (linesOf storedText) (stringsOf tokens) program.offsets rows := by
  have hcompile : compile storedSource = .ok storedText := by decide +kernel
  exact ⟨hcompile, compile_storesStrings hcompile⟩

end RayCompiler
