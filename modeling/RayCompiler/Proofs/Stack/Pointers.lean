import RayCompiler.Proofs.Listing.Reading
import RayCompiler.Proofs.Semantics.Entry

namespace RayCompiler

-- Where the stack pointer and the frame pointer of a function stand, in bytes above the stack pointer
-- at its entry. The frame pointer has no such place while it is the caller's.
structure Pointers where
  stack : Int
  frame : Option Int
deriving DecidableEq

namespace Pointers

def entry : Pointers := ⟨0, none⟩

-- The pointers between two statements of a function whose frame has so many bytes.
def settled (bytes : Nat) : Pointers := ⟨-8 - bytes, some (-8)⟩

-- The pointers when the return address has been taken off the stack.
def returned : Pointers := ⟨8, none⟩

def move (pointers : Pointers) (bytes : Int) : Pointers := ⟨pointers.stack + bytes, pointers.frame⟩

-- A register takes a value that the code alone does not tell.
def assign (pointers : Pointers) : Register → Option Pointers
  | .rsp => none
  | .rbp => some ⟨pointers.stack, none⟩
  | _ => some pointers

-- The pointers after an instruction. A called function takes its return address off the stack and
-- gives the frame pointer back.
def after (pointers : Pointers) : Instruction → Option Pointers
  | .push _ => some (pointers.move (-8))
  | .pop register => (pointers.move 8).assign register
  | .copy .rbp .rsp => some ⟨pointers.stack, some pointers.stack⟩
  | .copy .rsp .rbp => pointers.frame.map (⟨·, pointers.frame⟩)
  | .copy target _ => pointers.assign target
  | .set register _ => pointers.assign register
  | .load register _ => pointers.assign register
  | .store _ _ => some pointers
  | .clear _ => some pointers
  | .addressOf register _ => pointers.assign register
  | .zero register => pointers.assign register
  | .reserve bytes => some (pointers.move (-bytes))
  | .release bytes => some (pointers.move bytes)
  | .call _ => some pointers
  | .ret => some (pointers.move 8)
  | .syscall => some pointers

-- What the code of a function keeps to where its frame has so many bytes: calls find the stack
-- aligned, pushed words lie below the frame, and a return finds the return address.
def Orderly (bytes : Nat) (pointers : Pointers) : Instruction → Prop
  | .call _ => pointers.stack % 16 = 8
  | .push _ => ∃ base, pointers.frame = some base ∧ pointers.stack ≤ base - bytes
  | .ret => pointers.stack = 0
  | _ => True

-- The name of a symbol does not bear on the pointers.
@[simp] theorem after_seen (pointers : Pointers) (instruction : Instruction) :
    pointers.after instruction.seen = pointers.after instruction := by
  cases instruction <;> rfl

@[simp] theorem orderly_seen (bytes : Nat) (pointers : Pointers) (instruction : Instruction) :
    Orderly bytes pointers instruction.seen ↔ Orderly bytes pointers instruction := by
  cases instruction <;> rfl

end Pointers

-- Code leads from one place of the pointers to another, and each instruction meets a condition where
-- it stands.
inductive Walks (condition : Pointers → Instruction → Prop) :
    Pointers → List Instruction → Pointers → Prop where
  | done (pointers : Pointers) : Walks condition pointers [] pointers
  | step {first next last : Pointers} {instruction : Instruction} {code : List Instruction}
      (meets : condition first instruction) (moves : first.after instruction = some next)
      (rest : Walks condition next code last) : Walks condition first (instruction :: code) last

namespace Walks

open Pointers RayCompiler.Frame

variable {condition : Pointers → Instruction → Prop} {first middle last : Pointers}
  {code others : List Instruction} {bytes : Nat}

theorem append (h : Walks condition first code middle) (h' : Walks condition middle others last) :
    Walks condition first (code ++ others) last := by
  induction h with
  | done => exact h'
  | step meets moves _ ih => exact .step meets moves (ih h')

theorem map_seen (hseen : ∀ pointers instruction,
      condition pointers instruction → condition pointers instruction.seen)
    (h : Walks condition first code last) : Walks condition first (code.map Instruction.seen) last := by
  induction h with
  | done => exact .done _
  | step meets moves _ ih => exact .step (hseen _ _ meets) (by rw [after_seen, moves]) ih

theorem orderly_seen (h : Walks (Orderly bytes) first code last) :
    Walks (Orderly bytes) first (code.map Instruction.seen) last :=
  h.map_seen fun pointers instruction => (Pointers.orderly_seen bytes pointers instruction).mpr

theorem plain_seen (h : Walks (fun _ instruction => instruction.isPlain) first code last) :
    Walks (fun _ instruction => instruction.isPlain) first (code.map Instruction.seen) last :=
  h.map_seen fun _ instruction hplain => instruction.isPlain_seen.trans hplain

theorem one {instruction : Instruction} (meets : condition first instruction)
    (moves : first.after instruction = some last) : Walks condition first [instruction] last :=
  .step meets moves (.done last)

theorem move_zero (pointers : Pointers) : pointers.move 0 = pointers := by
  simp [move]

theorem move_move (pointers : Pointers) (near far : Int) :
    (pointers.move near).move far = pointers.move (near + far) := by
  simp [move, Int.add_assoc]

-- Code that touches neither pointer.
def Still (instruction : Instruction) : Prop :=
  ∀ bytes pointers, Orderly bytes pointers instruction ∧ pointers.after instruction = some pointers

theorem of_still (h : ∀ instruction ∈ code, Still instruction) (bytes : Nat) (pointers : Pointers) :
    Walks (Orderly bytes) pointers code pointers := by
  induction code with
  | nil => exact .done pointers
  | cons instruction more ih =>
      obtain ⟨hmeets, hmoves⟩ := h instruction (by simp) bytes pointers
      exact .step hmeets hmoves (ih fun other hm => h other (by simp [hm]))

theorem assign_eq {register : Register} (hstack : register ≠ .rsp) (hframe : register ≠ .rbp)
    (pointers : Pointers) : pointers.assign register = some pointers := by
  cases register with
  | rsp => exact absurd rfl hstack
  | rbp => exact absurd rfl hframe
  | _ => rfl

theorem still_loading {register : Register} (hstack : register ≠ .rsp) (hframe : register ≠ .rbp)
    (operand : Operand) : ∀ instruction ∈ loading register operand, Still instruction := by
  have hassign := assign_eq hstack hframe
  cases operand with
  | absent => simp [loading]
  | _ => simp [loading, Still, Orderly, after, hassign]

theorem still_loadingAll {pairs : List (Operand × Register)}
    (h : ∀ pair ∈ pairs, pair.2 ∈ Register.arguments) :
    ∀ instruction ∈ loadingAll pairs, Still instruction := by
  intro instruction hm
  obtain ⟨pair, hpair, hm⟩ := List.mem_flatMap.mp hm
  have hregister := h pair hpair
  refine still_loading ?_ ?_ pair.1 instruction hm
  · exact fun he => absurd hregister (by rw [he]; decide)
  · exact fun he => absurd hregister (by rw [he]; decide)

-- A move of the stack pointer meets every condition that asks nothing of it.
theorem moving (hreserve : ∀ pointers amount, condition pointers (.reserve amount))
    (hrelease : ∀ pointers amount, condition pointers (.release amount)) (pointers : Pointers)
    (distance : Int) :
    Walks condition pointers (Frame.moving distance) (pointers.move distance) := by
  rcases moving_forms distance with ⟨rfl, he⟩ | ⟨amount, rfl, he⟩ | ⟨amount, rfl, he⟩ <;> rw [he]
  · exact (move_zero pointers).symm ▸ .done pointers
  · exact one (hreserve _ _) rfl
  · exact one (hrelease _ _) rfl

-- Each operand takes a word below the one before it, and all of them lie below the frame.
theorem pushing (operands : List Operand) {base : Int} (hframe : first.frame = some base)
    (hstack : first.stack ≤ base - bytes) :
    Walks (Orderly bytes) first (Frame.pushing operands)
      (first.move (-(8 * operands.length : Nat))) := by
  induction operands generalizing first with
  | nil => exact (move_zero first).symm ▸ .done first
  | cons operand more ih =>
      have hload : Walks (Orderly bytes) first (loading .rax operand) first :=
        of_still (still_loading (by decide) (by decide) operand) bytes first
      have hmore := @ih (first.move (-8)) hframe (by simp only [move]; omega)
      have hlast : (first.move (-8)).move (-(8 * more.length : Nat)) =
          first.move (-(8 * (operand :: more).length : Nat)) := by
        rw [move_move, List.length_cons]
        congr 1
        omega
      rw [hlast] at hmore
      rw [pushing_cons]
      exact hload.append (.step ⟨base, hframe, hstack⟩ rfl hmore)

theorem passing (bytes : Nat) (arguments : List Operand) :
    Walks (Orderly bytes) (settled bytes) (Frame.passing arguments)
      ((settled bytes).move (-(stackedBytes arguments : Nat))) := by
  have hgap := @moving (Orderly bytes) (fun _ _ => trivial) (fun _ _ => trivial) (settled bytes)
    (-(padding arguments * SlotTable.slotSize : Nat))
  rw [← reserving_eq_moving] at hgap
  have hpushes := @pushing ((settled bytes).move (-(padding arguments * SlotTable.slotSize : Nat)))
    bytes (stacked arguments).reverse (-8) rfl (by simp only [move, settled]; omega)
  have hregisters : ∀ pair ∈ arguments.zip Register.arguments, pair.2 ∈ Register.arguments :=
    fun pair hm => (List.of_mem_zip hm).2
  have hloads := of_still (still_loadingAll hregisters) bytes
    ((settled bytes).move (-(stackedBytes arguments : Nat)))
  have hplace : ((settled bytes).move (-(padding arguments * SlotTable.slotSize : Nat))).move
      (-(8 * (stacked arguments).reverse.length : Nat)) =
        (settled bytes).move (-(stackedBytes arguments : Nat)) := by
    rw [move_move, stackedBytes, List.length_reverse, SlotTable.slotSize]
    congr 1
    omega
  rw [hplace] at hpushes
  exact ((hgap.append hpushes).append hloads).append (one trivial rfl)

-- The arguments on the stack and the gap before them are an even number of words.
theorem stackedBytes_mod (arguments : List Operand) : stackedBytes arguments % 16 = 0 := by
  unfold stackedBytes padding SlotTable.slotSize
  omega

theorem store_still (place : Address) (register : Register) : Still (.store place register) :=
  fun _ _ => ⟨trivial, rfl⟩

theorem collecting (frame : Frame) (bytes number : Nat) (arguments : List Operand)
    (output : Option Slot) :
    Walks (Orderly bytes) ((settled bytes).move (-(stackedBytes arguments : Nat)))
      (frame.collecting number arguments output) (settled bytes) := by
  have hrelease := @moving (Orderly bytes) (fun _ _ => trivial) (fun _ _ => trivial)
    ((settled bytes).move (-(stackedBytes arguments : Nat))) (stackedBytes arguments)
  rw [← releasing_eq_moving, move_move, Int.add_left_neg, move_zero] at hrelease
  unfold Frame.collecting
  rw [List.append_assoc]
  refine hrelease.append (of_still ?_ bytes (settled bytes))
  cases output with
  | none => simp [store_still]
  | some slot => simp [store_still]

theorem calling (frame : Frame) {bytes : Nat} (hbytes : bytes % 16 = 0) (number : Nat) (call : Call)
    (output : Option Slot) :
    Walks (Orderly bytes) (settled bytes) (frame.calling number call output) (settled bytes) := by
  have hstacked := stackedBytes_mod call.arguments
  have haligned : ((settled bytes).move (-(stackedBytes call.arguments : Nat))).stack % 16 = 8 := by
    simp only [move, settled]
    omega
  exact (passing bytes call.arguments).append
    (.step haligned rfl (collecting frame bytes number call.arguments output))

theorem epilogue (bytes : Nat) :
    Walks (Orderly bytes) (settled bytes) Frame.epilogue returned :=
  .step trivial rfl (.step trivial rfl (.step rfl rfl (.done _)))

-- An action leaves the pointers as it finds them, unless it returns.
theorem acting (frame : Frame) {bytes : Nat} (hbytes : bytes % 16 = 0) (number : Nat)
    (action : Action) :
    Walks (Orderly bytes) (settled bytes) (frame.acting number action)
      (match action with
        | .ret _ => returned
        | _ => settled bytes) := by
  have hload : ∀ (register : Register) (operand : Operand), register ≠ .rsp → register ≠ .rbp →
      Walks (Orderly bytes) (settled bytes) (loading register operand) (settled bytes) :=
    fun register operand hstack hframe => of_still (still_loading hstack hframe operand) _ _
  cases action with
  | define name value | assign name value =>
      exact (hload .rax value (by decide) (by decide)).append (one trivial rfl)
  | declare names =>
      refine of_still (fun instruction hm => ?_) _ _
      obtain ⟨name, _, rfl⟩ := List.mem_map.mp hm
      exact fun _ _ => ⟨trivial, rfl⟩
  | call call => exact calling frame hbytes number call none
  | callAssign name call => exact calling frame hbytes number call _
  | ret value => exact (hload .rax value (by decide) (by decide)).append (epilogue bytes)
  | exit value =>
      refine append ?_ (.step trivial rfl (one trivial rfl))
      split
      · exact one trivial rfl
      · exact hload .rdi value (by decide) (by decide)

end Walks

theorem SlotTable.frameSize_mod (slots : SlotTable) : slots.frameSize % 16 = 0 := by
  unfold frameSize frameAlignment
  omega

namespace Walks

open Pointers RayCompiler.Frame

theorem receiving (index : Nat) (pointers : Pointers) :
    Walks (fun _ instruction => instruction.isPlain) pointers (Frame.receiving index) pointers := by
  unfold Frame.receiving
  split
  · exact one rfl rfl
  · exact .step rfl rfl (one rfl rfl)

theorem receivingAll (indices : List Nat) (pointers : Pointers) :
    Walks (fun _ instruction => instruction.isPlain) pointers (indices.flatMap Frame.receiving)
      pointers := by
  induction indices with
  | nil => exact .done pointers
  | cons index more ih => exact (receiving index pointers).append ih

-- The prologue puts the frame pointer below the return address and the stack pointer below the frame.
theorem entering (slots : SlotTable) :
    Walks (fun _ instruction => instruction.isPlain) entry (Frame.entering slots)
      (settled slots.frameSize) := by
  have hreserve := @moving (fun _ instruction => instruction.isPlain) (fun _ _ => rfl)
    (fun _ _ => rfl) (settled 0) (-(slots.frameSize : Nat))
  have hsettled : (settled 0).move (-(slots.frameSize : Nat)) = settled slots.frameSize := by
    simp [move, settled, Int.sub_eq_add_neg]
  rw [← reserving_eq_moving, hsettled] at hreserve
  have hframe : Walks (fun _ instruction => instruction.isPlain) entry [.push .rbp, .copy .rbp .rsp]
      (settled 0) := .step rfl rfl (one rfl rfl)
  exact (hframe.append hreserve).append (receivingAll _ _)

end Walks

namespace Statement

open Pointers

-- The code of a statement.
theorem walks_lines (frame : Frame) (number : Nat) (statement : Statement) :
    Walks (Orderly frame.slots.frameSize) (settled frame.slots.frameSize)
      ((statement.lines frame number).filterMap Line.code?)
      (if statement.isReturn then returned else settled frame.slots.frameSize) := by
  cases statement with
  | externs | function => exact .done _
  | action position scope action =>
      have hacting := Walks.acting frame frame.slots.frameSize_mod number action
      rw [filterMap_lines]
      cases action <;> exact hacting

end Statement

end RayCompiler
