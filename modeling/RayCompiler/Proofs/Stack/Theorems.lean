import RayCompiler.Proofs.Listing.Passages
import RayCompiler.Proofs.Stack.Alignment
import Mathlib.Data.List.Forall2

namespace RayCompiler

open Pointers

open Text

-- Lines are read as code that leads from one place of the pointers to another.
def Leads (condition : Pointers → Instruction → Prop) (first : Pointers) (lines : List String)
    (last : Pointers) : Prop :=
  ∃ code, code? lines = some code ∧ Walks condition first code last

-- The lines of a statement begin with the remark on it, and keep the pointers unless it returns.
def Statement.Keeps (bytes : Nat) (statement : Statement) (lines : List String) : Prop :=
  lines.head? = some ("\t; " ++ statement.position.render) ∧
    Leads (Orderly bytes) (.settled bytes) lines
      (if statement.isReturn then .returned else .settled bytes)

-- The lines of a function are those of the prologue, of each statement and of the end, and each of
-- these parts leads from where it begins to where the next one does. There may be no lines at the end
-- if the last statement returns.
structure Function.Divides (function : Function) (lines prologue : List String)
    (parts : List (List String)) (closing : List String) : Prop where
  lines : lines = prologue ++ parts.flatten ++ closing
  prologue : Leads (fun _ instruction => instruction.isPlain) .entry prologue
    (.settled function.slots.frameSize)
  body : List.Forall₂ (Statement.Keeps function.slots.frameSize) function.body parts
  closing : (closing = [] ∧ ∃ last, function.body.getLast? = some last ∧ last.isReturn) ∨
    Leads (Orderly function.slots.frameSize) (.settled function.slots.frameSize) closing .returned

-- How a function treats the stack: what its lines in the text of a listing are, and the code that they
-- are read as.
structure Function.Disciplined (function : Function) (lines : List String) (code : List Instruction) :
    Prop where
  read : code? lines = some code
  parts : ∃ prologue parts closing, function.Divides lines prologue parts closing
  slots : ∀ instruction ∈ code, ∀ bytes, instruction.address? = some (.below bytes) →
    8 ≤ bytes ∧ bytes ≤ function.slots.frameSize ∧ 8 ∣ bytes
  written : ∀ instruction ∈ code, ∀ address,
    (instruction = .clear address ∨ ∃ register, instruction = .store address register) →
    ∃ bytes, address = .below bytes
  ending : ["\tmov     rsp, rbp", "\tpop     rbp", "\tret"] <:+ lines
  finishes : ∀ (world : World) machine, (world.run code [] machine).ending ≠ .unfinished
  aligned : ∀ (world : World) machine, (machine.registers .rsp).toNat % 16 = 8 →
    ∀ site ∈ world.callSites code [] machine, (site.registers .rsp).toNat % 16 = 0

theorem leads_lines {condition : Pointers → Instruction → Prop} {first last : Pointers}
    {lines : List Line}
    (hwords : ∀ instruction ∈ lines.filterMap Line.code?, ∀ name, instruction.Names name → IsWord name)
    (h : Walks condition first ((lines.filterMap Line.code?).map Instruction.seen) last) :
    Leads condition first (lines.map Line.text) last :=
  ⟨_, code?_lines hwords, h⟩

namespace Statement

-- The lines of each statement.
def parts (frame : Frame) : Nat → List Statement → List (List Line)
  | _, [] => []
  | number, statement :: more =>
    statement.lines frame number :: parts frame (number + statement.callCount) more

theorem flatten_parts (frame : Frame) (number : Nat) (body : List Statement) :
    (parts frame number body).flatten = linesOf frame number body := by
  induction body generalizing number with
  | nil => rfl
  | cons statement more ih => rw [parts, List.flatten_cons, ih, linesOf]

theorem keeps_lines (frame : Frame) (number : Nat) (statement : Statement)
    (hwords : ∀ instruction ∈ (statement.lines frame number).filterMap Line.code?,
      ∀ name, instruction.Names name → IsWord name) :
    statement.Keeps frame.slots.frameSize ((statement.lines frame number).map Line.text) := by
  refine ⟨?_, leads_lines hwords (statement.walks_lines frame number).orderly_seen⟩
  cases statement <;> rfl

theorem keeps_parts (frame : Frame) (number : Nat) (body : List Statement)
    (hwords : ∀ instruction ∈ (linesOf frame number body).filterMap Line.code?,
      ∀ name, instruction.Names name → IsWord name) :
    List.Forall₂ (Keeps frame.slots.frameSize) body
      ((parts frame number body).map (·.map Line.text)) := by
  induction body generalizing number with
  | nil => exact .nil
  | cons statement more ih =>
      rw [linesOf, List.filterMap_append] at hwords
      refine .cons (statement.keeps_lines frame number ?_) (ih _ ?_)
      · exact fun instruction hm => hwords instruction (List.mem_append_left _ hm)
      · exact fun instruction hm => hwords instruction (List.mem_append_right _ hm)

end Statement

namespace Function

variable {function : Function} {symbols : List String}

theorem walks_closing (function : Function) :
    (function.closing = [] ∧ ∃ last, function.body.getLast? = some last ∧ last.isReturn) ∨
      Walks (Orderly function.slots.frameSize) (.settled function.slots.frameSize) function.closing
        .returned := by
  have hend : Walks (Orderly function.slots.frameSize) (settled function.slots.frameSize)
      (.zero .rax :: Frame.epilogue) returned := .step trivial rfl (Walks.epilogue _)
  unfold closing
  split
  · next last hlast =>
      split
      · next hreturn => exact .inl ⟨rfl, last, hlast, hreturn⟩
      · exact .inr hend
  · exact .inr hend

-- A body that ends with a return needs nothing behind it.
theorem epilogue_suffix (function : Function) (symbols : List String) :
    Frame.epilogue.map Line.instruction <:+ (function.block symbols).lines := by
  have hend : Frame.epilogue.map Line.instruction <:+
      (Instruction.zero .rax :: Frame.epilogue).map Line.instruction := ⟨[_], rfl⟩
  unfold block closing
  dsimp only
  split
  · next last hlast =>
      obtain ⟨before, hbody⟩ := List.getLast?_eq_some_iff.mp hlast
      split
      · next hreturn =>
          cases last with
          | externs | function => cases hreturn
          | action position scope action =>
              cases action with
              | ret value =>
                  have hlast : Frame.epilogue.map Line.instruction <:+ Statement.linesOf
                      (function.frame symbols) (0 + Statement.callTotal before)
                      [.action position scope (.ret value)] :=
                    ⟨.place position :: (Frame.loading .rax value).map .instruction, by
                      simp [Statement.linesOf, Statement.lines, Frame.acting]⟩
                  rw [hbody, Statement.linesOf_append, List.map_nil, List.append_nil]
                  exact (hlast.trans (List.suffix_append _ _)).trans (List.suffix_append _ _)
              | _ => cases hreturn
      · exact hend.trans (List.suffix_append _ _)
  · exact hend.trans (List.suffix_append _ _)

theorem slots_of_mem (h : (function.frame symbols).AcceptsAll 0 function.body)
    {instruction : Instruction} (hm : instruction ∈ (function.block symbols).code) {bytes : Nat}
    (haddress : instruction.address? = some (.below bytes)) :
    8 ≤ bytes ∧ bytes ≤ function.slots.frameSize ∧ 8 ∣ bytes := by
  have hsize := function.slots.length_le_frameSize
  cases (function.admits_code h instruction hm).reads haddress with
  | slot holds =>
      obtain ⟨slot, hslot, he⟩ := holds
      have hbytes : bytes = (slot + 1) * 8 := Address.below.inj he
      have hlt : slot < function.slots.length := hslot
      omega

theorem written_of_mem (h : (function.frame symbols).AcceptsAll 0 function.body)
    {instruction : Instruction} (hm : instruction ∈ (function.block symbols).code) {address : Address}
    (hwrites : instruction.seen = .clear address ∨
      ∃ register, instruction.seen = .store address register) :
    ∃ bytes, address = .below bytes := by
  have hadmits := function.admits_code h instruction hm
  have hholds : ∀ written, (function.frame symbols).Holds written → written.seen = address →
      ∃ bytes, address = .below bytes := by
    rintro _ ⟨slot, _, rfl⟩ rfl
    exact ⟨_, rfl⟩
  cases instruction with
  | clear written =>
      rcases hwrites with he | ⟨register, he⟩
      · exact hholds written hadmits (Instruction.clear.inj he)
      · cases he
  | store written source =>
      rcases hwrites with he | ⟨register, he⟩
      · cases he
      · exact hholds written hadmits (Instruction.store.inj he).1
  | _ => rcases hwrites with he | ⟨register, he⟩ <;> cases he

theorem divides (hwords : ∀ instruction ∈ (function.block symbols).code,
      ∀ name, instruction.Names name → IsWord name) :
    ∃ prologue parts closing,
      function.Divides (function.block symbols).passage.lines prologue parts closing := by
  have hcode := function.code_block symbols
  refine ⟨((Frame.entering function.slots).map Line.instruction).map Line.text,
    (Statement.parts (function.frame symbols) 0 function.body).map (·.map Line.text),
    (function.closing.map Line.instruction).map Line.text, ?_, ?_, ?_, ?_⟩
  · rw [← List.map_flatten, Statement.flatten_parts, ← List.map_append, ← List.map_append]
    rfl
  · refine leads_lines (fun instruction hm => hwords instruction ?_) ?_
    · rw [Line.filterMap_code?] at hm
      rw [hcode]
      exact List.mem_append_left _ hm
    · rw [Line.filterMap_code?]
      exact (Walks.entering function.slots).plain_seen
  · refine Statement.keeps_parts (function.frame symbols) 0 function.body fun instruction hm =>
      hwords instruction ?_
    rw [hcode]
    exact List.mem_append_right _ (List.mem_append_left _ hm)
  · rcases function.walks_closing with ⟨hnone, hlast⟩ | hwalk
    · exact .inl ⟨by rw [hnone]; rfl, hlast⟩
    · refine .inr (leads_lines (fun instruction hm => hwords instruction ?_) ?_)
      · rw [Line.filterMap_code?] at hm
        rw [hcode]
        exact List.mem_append_right _ (List.mem_append_right _ hm)
      · rw [Line.filterMap_code?]
        exact hwalk.orderly_seen

theorem disciplined (h : (function.frame symbols).AcceptsAll 0 function.body)
    (hwords : ∀ instruction ∈ (function.block symbols).code,
      ∀ name, instruction.Names name → IsWord name) :
    function.Disciplined (function.block symbols).passage.lines
      ((function.block symbols).code.map Instruction.seen) where
  read := code?_lines hwords
  parts := divides hwords
  slots := by
    intro instruction hm bytes haddress
    obtain ⟨written, hwritten, rfl⟩ := List.mem_map.mp hm
    rw [Instruction.address?_seen, Option.map_eq_some_iff] at haddress
    obtain ⟨address, hplace, he⟩ := haddress
    rw [Address.seen_eq_below_iff] at he
    exact slots_of_mem h hwritten (he ▸ hplace)
  written := by
    intro instruction hm address hwrites
    obtain ⟨written, hwritten, rfl⟩ := List.mem_map.mp hm
    exact written_of_mem h hwritten hwrites
  ending := (function.epilogue_suffix symbols).map Line.text
  finishes := fun world machine => (function.behaves symbols world [] machine).ends
  aligned := by
    intro world machine hentry site hm
    obtain ⟨distance, hdistance, hstack⟩ :=
      (function.behaves symbols world [] machine).aligned site hm
    rw [hstack]
    exact toNat_spot_mod hentry hdistance

end Function

-- Every function of a listing keeps the stack in order, whether or not its program was parsed, if the
-- names in the text are words. Without bounds on arguments and slots the sizes are natural numbers.
theorem generate_disciplined {program : Program} {text : String} (h : program.generate = .ok text)
    (hwords : program.Worded) :
    List.Forall₂ (fun (function : Function) (passage : Passage) => passage.name = function.name ∧
      ∃ code, function.Disciplined passage.lines code) program.functions
      (passages (linesOf text)) := by
  rw [Program.generate, except_bind_eq_ok] at h
  obtain ⟨listing, hlisting, htext⟩ := h
  obtain ⟨hassembles, rfl⟩ := Program.assemble_ok_iff.mp hlisting
  rw [except_pure_eq_ok.mp htext, hassembles.passages_eq hwords]
  refine List.forall₂_map_right_iff.mpr (List.forall₂_same.mpr fun function hm => ?_)
  have hnames : ∀ instruction ∈ (function.block program.symbols).code,
      ∀ name, instruction.Names name → IsWord name :=
    fun _ hcode name hname => hwords name (hassembles.writes_of_mem_code hm hcode hname)
  exact ⟨rfl, _, Function.disciplined (hassembles.accepts function hm) hnames⟩

-- A function that no parser gives: seven arguments, one of which is left out, and a call behind the
-- return.
def laxFunction : Function where
  name := "main"
  parameters := ["a"]
  body := [
    .action .start "main" (.call ⟨"p", [.absent, .literal 2, .variable 0, .address 1, .data 9,
      .external "q", .pointee 2]⟩),
    .action .start "main" (.ret .absent), .action .start "main" (.call ⟨"a", []⟩)]
  slots := ⟨["a"], [.result 0, .result 1]⟩

def laxProgram : Program := ⟨[.externs .start ["p"], .ofFunction .start laxFunction], []⟩

theorem worded_laxProgram : laxProgram.Worded := by
  rintro name (hsymbol | ⟨function, hm, operand, hoperand, hname⟩)
  · have hall : ∀ name ∈ laxProgram.symbols, IsWord name := by decide
    exact hall name hsymbol
  · cases List.mem_singleton.mp hm
    simp [laxFunction, Statement.operands, Action.operands] at hoperand
    rcases hname with rfl | rfl <;> simp at hoperand
    rw [hoperand]
    decide

theorem disciplined_laxProgram : laxProgram.generate = .ok laxProgram.listing.render ∧
    laxProgram.Worded ∧ ∃ passage code, passages (linesOf laxProgram.listing.render) = [passage] ∧
      passage.name = "main" ∧ laxFunction.Disciplined passage.lines code := by
  have hgenerate : laxProgram.generate = .ok laxProgram.listing.render := rfl
  have hpassages := generate_disciplined hgenerate worded_laxProgram
  have hfunctions : laxProgram.functions = [laxFunction] := rfl
  rw [hfunctions] at hpassages
  obtain ⟨passage, more, ⟨hname, code, hcode⟩, hmore, he⟩ := List.forall₂_cons_left_iff.mp hpassages
  rw [List.forall₂_nil_left_iff.mp hmore] at he
  exact ⟨hgenerate, worded_laxProgram, passage, code, he, hname, hcode⟩

-- A name with a line end in it, behind which stands the text of a push.
def brokenFunction : Function where
  name := "main"
  parameters := []
  body := [.externs .start ["p\n\tpush    rax"], .action .start "main" (.call ⟨"main", []⟩)]
  slots := ⟨[], [.result 0]⟩

def brokenProgram : Program := ⟨[.ofFunction .start brokenFunction], []⟩

def brokenFront : List String :=
  ["format ELF64", "", "extrn p", "\tpush    rax", "", "section '.text' executable", "",
    "; --- main ---", "public main", "main:"]

def brokenLines : List String :=
  ["\tpush    rbp", "\tmov     rbp, rsp", "\tsub     rsp, 0x10", "\t; 1:1", "\t; extern p",
    "\tpush    rax", "\t; 1:1", "\txor     eax, eax", "\tcall    main", "\tmov     [rbp-0x8], rax",
    "\txor     eax, eax", "\tmov     rsp, rbp", "\tpop     rbp", "\tret"]

def brokenText : String := String.join ((brokenFront ++ brokenLines).map (· ++ "\n"))

def brokenCode : List Instruction :=
  [.push .rbp, .copy .rbp .rsp, .reserve 16, .push .rax, .zero .rax, .call (.symbol "main"),
    .store (.below 8) .rax, .zero .rax, .copy .rsp .rbp, .pop .rbp, .ret]

-- The call finds the stack eight bytes off.
theorem unaligned_brokenProgram : brokenProgram.generate = .ok brokenText ∧
    ¬List.Forall₂ (fun (function : Function) (passage : Passage) => passage.name = function.name ∧
      ∃ code, function.Disciplined passage.lines code) brokenProgram.functions
      (passages (linesOf brokenText)) := by
  have hlines : linesOf brokenText = brokenFront ++ brokenLines ++ [""] := linesOf_join (by decide)
  have hpassages : passages (brokenFront ++ brokenLines ++ [""]) = [⟨"main", brokenLines⟩] := by
    decide +kernel
  have hfunctions : brokenProgram.functions = [brokenFunction] := rfl
  refine ⟨by decide +kernel, fun h => ?_⟩
  rw [hlines, hpassages, hfunctions] at h
  obtain ⟨⟨_, code, hdisciplined⟩, _⟩ := List.forall₂_cons.mp h
  have hread : code? brokenLines = some brokenCode := by decide +kernel
  cases hread.symm.trans hdisciplined.read
  have haligned := hdisciplined.aligned
    ⟨⟨fun _ => 4096#64, 8192#64⟩, fun _ => ⟨0, fun _ => 0, fun _ => none⟩, fun _ => 77#64, [0]⟩
    ⟨fun _ => 65528#64, fun _ => 0⟩ (by decide)
  exact absurd (haligned _ (.head _)) (by decide +kernel)

end RayCompiler
