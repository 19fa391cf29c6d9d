import RayCompiler.Proofs.Slot.Growth
import Mathlib.Algebra.Group.Nat.Defs
import Mathlib.Data.List.Induction
import Mathlib.Data.List.Nodup
import Mathlib.Order.Bounds.Defs

namespace RayCompiler.SlotTable

-- The tables that a function can be given: parameters with different names, and then variables with
-- new names and results of calls in any order.
inductive Built : SlotTable → Prop where
  | parameters (started : ofParameters names = .ok table) : Built table
  | declared (earlier : Built table) (added : table.declare? name = some (slot, later)) : Built later
  | reserved (earlier : Built table) : Built table.reserve.2

-- The results in such a table are those of the calls with the first numbers.
theorem Built.result_mem_iff {table : SlotTable} (h : table.Built) {number : Nat} :
    .result number ∈ table.occupants ↔ number < table.calls := by
  induction h with
  | parameters started =>
      obtain ⟨_, rfl⟩ := ofParameters_eq_ok_iff.mp started
      simp [occupants, SlotTable.calls]
  | declared _ added ih =>
      obtain ⟨_, _, rfl⟩ := declare?_eq_some_iff.mp added
      rw [calls_withVariables, ← ih]
      simp [withVariables, occupants]
  | @reserved table _ ih =>
      have hmem : .result number ∈ table.reserve.2.occupants ↔
          .result number ∈ table.occupants ∨ number = table.calls := by
        simp [reserve, push, occupants]
      rw [hmem, ih, calls_reserve]
      omega

-- What can be asked of a table that is in use: a slot for a variable, or one for the next call.
inductive Operation where
  | declare (name : String)
  | reserve
deriving DecidableEq

-- The slot that an operation gives, and the table after it. A refused name leaves the table as it is.
def perform (table : SlotTable) : Operation → Option Slot × SlotTable
  | .declare name =>
    match table.declare? name with
    | some (slot, later) => (some slot, later)
    | none => (none, table)
  | .reserve => (some table.reserve.1, table.reserve.2)

def run (table : SlotTable) (operations : List Operation) : SlotTable :=
  operations.foldl (fun earlier operation => (earlier.perform operation).2) table

@[simp] theorem run_nil (table : SlotTable) : table.run [] = table := rfl

@[simp] theorem run_concat (table : SlotTable) (operations : List Operation)
    (operation : Operation) :
    table.run (operations ++ [operation]) = ((table.run operations).perform operation).2 := by
  simp [run]

-- What an operation wants to put into a table.
def Operation.occupant (table : SlotTable) : Operation → Occupant
  | .declare name => .variable name
  | .reserve => .result table.calls

theorem Operation.occupant_eq_variable_iff {table : SlotTable} {operation : Operation}
    {name : String} : operation.occupant table = .variable name ↔ operation = .declare name := by
  cases operation <;> simp [occupant]

theorem Operation.occupant_eq_result_iff {table : SlotTable} {operation : Operation} {call : Nat} :
    operation.occupant table = .result call ↔ operation = .reserve ∧ table.calls = call := by
  cases operation <;> simp [occupant]

@[simp] theorem occupants_push (table : SlotTable) (occupant : Occupant) :
    (table.push occupant).2.occupants = table.occupants ++ [occupant] := by
  simp [push, occupants]

theorem declare?_eq_none_iff {table : SlotTable} {name : String} :
    table.declare? name = none ↔ (table.resolve? name).isSome := by
  unfold declare?
  split <;> simp_all

-- All that an operation can do: it is refused, as its name is there, or it adds its occupant behind
-- the others.
theorem perform_cases {table : SlotTable} (h : table.Built) (operation : Operation) :
    (∃ name, operation = .declare name ∧ .variable name ∈ table.occupants ∧
      table.perform operation = (none, table)) ∨
    (operation.occupant table ∉ table.occupants ∧
      table.perform operation =
        (some table.length, (table.push (operation.occupant table)).2)) := by
  cases operation with
  | declare name =>
      by_cases hm : .variable name ∈ table.occupants
      · have hnone := declare?_eq_none_iff.mpr (resolve?_isSome_iff.mpr hm)
        exact .inl ⟨name, rfl, hm, by simp only [perform, hnone]⟩
      · have hsome : table.declare? name = some (table.push (.variable name)) := by
          rw [declare?, if_neg (mt resolve?_isSome_iff.mp hm)]
        exact .inr ⟨hm, by simp only [perform, hsome]; rfl⟩
  | reserve =>
      refine .inr ⟨?_, rfl⟩
      rw [Operation.occupant, h.result_mem_iff]
      exact Nat.lt_irrefl _

theorem Built.perform {table : SlotTable} (h : table.Built) (operation : Operation) :
    (table.perform operation).2.Built := by
  cases operation with
  | declare name =>
      simp only [SlotTable.perform]
      split
      · next hadded => exact .declared h hadded
      · exact h
  | reserve => exact .reserved h

theorem Built.run {table : SlotTable} (h : table.Built) (operations : List Operation) :
    (table.run operations).Built := by
  induction operations using List.reverseRecOn with
  | nil => exact h
  | append_singleton operations operation ih =>
      rw [run_concat]
      exact ih.perform operation

theorem nodup_push {table : SlotTable} {occupant : Occupant} (h : table.occupants.Nodup)
    (hnew : occupant ∉ table.occupants) : (table.push occupant).2.occupants.Nodup := by
  rw [occupants_push, ← List.concat_eq_append]
  exact h.concat hnew

theorem Built.nodup {table : SlotTable} (h : table.Built) : table.occupants.Nodup := by
  induction h with
  | parameters started =>
      obtain ⟨hdistinct, rfl⟩ := ofParameters_eq_ok_iff.mp started
      simpa [occupants] using hdistinct.map fun _ _ => Occupant.variable.inj
  | declared _ added ih =>
      obtain ⟨hnew, _, rfl⟩ := declare?_eq_some_iff.mp added
      exact nodup_push ih hnew
  | reserved earlier ih =>
      refine nodup_push ih ?_
      rw [earlier.result_mem_iff]
      exact Nat.lt_irrefl _

-- Where no occupant repeats, looking for one finds its only slot.
theorem Built.slotOf?_eq_some_iff {table : SlotTable} (h : table.Built) {occupant : Occupant}
    {slot : Slot} : table.slotOf? occupant = some slot ↔ table.occupants[slot]? = some occupant := by
  constructor
  · intro hslot
    obtain ⟨hlt, hfound, _⟩ := List.findIdx?_eq_some_iff_getElem.mp hslot
    rw [List.getElem?_eq_getElem hlt, eq_of_beq hfound]
  · intro hslot
    have hm := List.mem_of_getElem? hslot
    obtain ⟨other, hother⟩ := Option.isSome_iff_exists.mp (slotOf?_isSome_iff.mpr hm)
    obtain ⟨hlt, hfound, _⟩ := List.findIdx?_eq_some_iff_getElem.mp hother
    obtain ⟨hlt', hfound'⟩ := List.getElem?_eq_some_iff.mp hslot
    rw [hother, h.nodup.getElem_inj_iff.mp ((eq_of_beq hfound).trans hfound'.symm)]

section Runs

variable {start : SlotTable} {operations : List Operation} {slot : Slot}

-- Among the given operations there is one with the given ones before it, and its answer is a slot.
def Grants (start : SlotTable) (operations before : List Operation) (operation : Operation)
    (slot : Slot) : Prop :=
  before ++ [operation] <+: operations ∧ ((start.run before).perform operation).1 = some slot

theorem grants_concat {before : List Operation} {operation last : Operation} :
    start.Grants (operations ++ [last]) before operation slot ↔
      start.Grants operations before operation slot ∨
        before = operations ∧ operation = last ∧
          ((start.run operations).perform last).1 = some slot := by
  rw [Grants, Grants, List.prefix_concat_iff, or_and_right, or_comm]
  refine or_congr_right ?_
  constructor
  · rintro ⟨hsame, hanswer⟩
    obtain ⟨rfl, hlast⟩ := List.append_inj' hsame rfl
    cases hlast
    exact ⟨rfl, rfl, hanswer⟩
  · rintro ⟨rfl, rfl, hanswer⟩
    exact ⟨rfl, hanswer⟩

theorem Built.parameters_run (h : start.Built) (operations : List Operation) :
    (start.run operations).parameters = start.parameters := by
  induction operations using List.reverseRecOn with
  | nil => rfl
  | append_singleton operations operation ih =>
      rw [run_concat]
      rcases perform_cases (h.run operations) operation with ⟨_, _, _, hperform⟩ | ⟨_, hperform⟩
      · rw [hperform, ih]
      · rw [hperform]
        exact ih

theorem calls_perform (table : SlotTable) (operation : Operation) :
    (table.perform operation).2.calls = table.calls + [operation].count .reserve := by
  cases operation with
  | declare name =>
      simp only [perform]
      split
      · next hadded =>
          obtain ⟨_, _, rfl⟩ := declare?_eq_some_iff.mp hadded
          exact calls_withVariables _ _
      · rfl
  | reserve => exact calls_reserve table

-- The calls are numbered in the order in which their slots are reserved.
theorem calls_run (start : SlotTable) (operations : List Operation) :
    (start.run operations).calls = start.calls + operations.count .reserve := by
  induction operations using List.reverseRecOn with
  | nil => rfl
  | append_singleton operations operation ih =>
      rw [run_concat, calls_perform, ih, List.count_append, Nat.add_assoc]

theorem Built.variable_mem_run_iff (h : start.Built) {name : String} :
    .variable name ∈ (start.run operations).occupants ↔
      .variable name ∈ start.occupants ∨ .declare name ∈ operations := by
  induction operations using List.reverseRecOn with
  | nil => simp
  | append_singleton operations operation ih =>
      rw [run_concat, List.mem_append, List.mem_singleton, ← or_assoc, ← ih]
      rcases perform_cases (h.run operations) operation with
        ⟨other, rfl, hthere, hperform⟩ | ⟨_, hperform⟩
      · rw [hperform]
        refine ⟨.inl, ?_⟩
        rintro (hm | he)
        · exact hm
        · cases he
          exact hthere
      · rw [hperform, occupants_push, List.mem_append, List.mem_singleton]
        cases operation <;> simp [Operation.occupant]

theorem getElem?_push_iff {table : SlotTable} {occupant other : Occupant} {slot : Slot} :
    (table.push other).2.occupants[slot]? = some occupant ↔
      table.occupants[slot]? = some occupant ∨ slot = table.length ∧ other = occupant := by
  rw [occupants_push, length]
  rcases Nat.lt_trichotomy slot table.occupants.length with hlt | rfl | hlt
  · rw [List.getElem?_append_left hlt]
    exact ⟨.inl, fun h => h.resolve_right fun he => absurd he.1 (Nat.ne_of_lt hlt)⟩
  · simp
  · have hlt' : (table.occupants ++ [other]).length ≤ slot := by simpa using Nat.succ_le_of_lt hlt
    simp [List.getElem?_eq_none hlt', List.getElem?_eq_none (Nat.le_of_lt hlt), Nat.ne_of_gt hlt]

-- Everything that stands in a table was there at the start, or stands where an operation was told it
-- does. The induction takes the last operation off.
theorem Built.getElem?_run_iff (h : start.Built) {occupant : Occupant} :
    (start.run operations).occupants[slot]? = some occupant ↔
      start.occupants[slot]? = some occupant ∨
        ∃ before operation, start.Grants operations before operation slot ∧
          operation.occupant (start.run before) = occupant := by
  induction operations using List.reverseRecOn with
  | nil => simp [Grants]
  | append_singleton operations operation ih =>
      simp only [grants_concat, or_and_right, exists_or, ← or_assoc, ← ih, run_concat]
      rcases perform_cases (h.run operations) operation with ⟨_, _, _, hperform⟩ | ⟨_, hperform⟩
      · simp [hperform]
      · rw [hperform, getElem?_push_iff]
        refine or_congr_right ?_
        constructor
        · rintro ⟨rfl, hoccupant⟩
          exact ⟨operations, operation, ⟨rfl, rfl, rfl⟩, hoccupant⟩
        · rintro ⟨_, _, ⟨rfl, rfl, hslot⟩, hoccupant⟩
          exact ⟨(Option.some.inj hslot).symm, hoccupant⟩

end Runs

-- The least multiple of the alignment that holds every slot.
theorem isLeast_frameSize (table : SlotTable) :
    IsLeast { size | 16 ∣ size ∧ 8 * table.length ≤ size } table.frameSize := by
  refine ⟨⟨Nat.dvd_mul_left _ _, table.length_le_frameSize⟩, ?_⟩
  rintro _ ⟨⟨count, rfl⟩, hle⟩
  unfold frameSize slotSize frameAlignment
  omega

-- A number as a word of 32 bits, unless it is too large for one.
def word? (number : Nat) : Option UInt32 :=
  if number < UInt32.size then some (.ofNat number) else none

-- The steps by which the size of a frame is computed from the number of its slots, in words of 32
-- bits. None of them may overflow; the 1 is taken away from at least 16, and a division gets smaller.
def wordFrameSize? (slots : UInt32) : Option UInt32 := do
  let bytes ← word? (slots.toNat * slotSize)
  let above ← word? (bytes.toNat + frameAlignment)
  word? ((above - 1).toNat / frameAlignment * frameAlignment)

theorem word?_eq_some {number : Nat} (h : number < UInt32.size) :
    ∃ word : UInt32, word? number = some word ∧ word.toNat = number :=
  ⟨.ofNat number, if_pos h, UInt32.toNat_ofNat_of_lt' h⟩

theorem wordFrameSize?_eq_some {table : SlotTable} (h : table.length ≤ 2 ^ 29 - 3) :
    ∃ size, wordFrameSize? (.ofNat table.length) = some size ∧ size.toNat = table.frameSize := by
  have hsize : UInt32.size = 4294967296 := rfl
  have hslots : (UInt32.ofNat table.length).toNat = table.length :=
    UInt32.toNat_ofNat_of_lt' (by omega)
  obtain ⟨bytes, hbytes, hcount⟩ := @word?_eq_some ((UInt32.ofNat table.length).toNat * slotSize)
    (by rw [hslots, slotSize]; omega)
  rw [hslots, slotSize] at hcount
  obtain ⟨above, habove, hsum⟩ := @word?_eq_some (bytes.toNat + frameAlignment)
    (by rw [hcount, frameAlignment]; omega)
  rw [hcount, frameAlignment] at hsum
  have hone : (above - 1).toNat = above.toNat - 1 :=
    UInt32.toNat_sub_of_le above 1 (UInt32.le_iff_toNat_le.mpr (by rw [hsum]; simp))
  obtain ⟨size, hwhole, hrounded⟩ :=
    @word?_eq_some ((above - 1).toNat / frameAlignment * frameAlignment)
      (by rw [hone, hsum, frameAlignment]; omega)
  refine ⟨size, ?_, ?_⟩
  · simp only [wordFrameSize?, hbytes, habove, hwhole, Option.bind_eq_bind, Option.bind_some]
  · rw [hrounded, hone, hsum]
    rfl

-- A name that repeats an earlier one, where no name before it does.
def FirstRepeated (names : List String) (name : String) : Prop :=
  ∃ before after, names = before ++ name :: after ∧ before.Nodup ∧ name ∈ before

theorem addParameter_eq (earlier : List String) (name : String) :
    addParameter ⟨earlier, []⟩ name =
      if name ∈ earlier then .error name else .ok ⟨earlier ++ [name], []⟩ := by
  have hresolve : ((⟨earlier, []⟩ : SlotTable).resolve? name).isSome ↔ name ∈ earlier := by
    simp [resolve?_isSome_iff, occupants]
  simp only [addParameter, hresolve]

-- The induction is on the names that are left. Those before them are different from one another.
theorem foldlM_addParameter_eq_error_iff {names earlier : List String} {name : String}
    (h : earlier.Nodup) :
    names.foldlM addParameter ⟨earlier, []⟩ = .error name ↔
      ∃ before after, names = before ++ name :: after ∧ (earlier ++ before).Nodup ∧
        name ∈ earlier ++ before := by
  induction names generalizing earlier with
  | nil => simp [pure, Except.pure]
  | cons first more ih =>
      rw [List.foldlM_cons, addParameter_eq]
      split
      · next hm =>
          constructor
          · rintro ⟨⟩
            exact ⟨[], more, rfl, by simpa using h, by simpa using hm⟩
          · rintro ⟨before, after, hnames, hdistinct, _⟩
            cases before with
            | nil =>
                cases hnames
                rfl
            | cons other before =>
                cases hnames
                exact absurd rfl ((List.nodup_append.mp hdistinct).2.2 _ hm _ List.mem_cons_self)
      · next hnew =>
          have hearlier : (earlier ++ [first]).Nodup := by
            rw [← List.concat_eq_append]
            exact h.concat hnew
          change more.foldlM addParameter ⟨earlier ++ [first], []⟩ = .error name ↔ _
          rw [ih hearlier]
          constructor
          · rintro ⟨before, after, rfl, hdistinct, hm⟩
            exact ⟨first :: before, after, rfl, by simpa using hdistinct, by simpa using hm⟩
          · rintro ⟨before, after, hnames, hdistinct, hm⟩
            cases before with
            | nil =>
                cases hnames
                exact absurd (by simpa using hm) hnew
            | cons other before =>
                cases hnames
                exact ⟨before, after, rfl, by simpa using hdistinct, by simpa using hm⟩

theorem ofParameters_eq_error_iff {names : List String} {name : String} :
    ofParameters names = .error name ↔ FirstRepeated names name := by
  simpa [ofParameters, empty, FirstRepeated] using
    @foldlM_addParameter_eq_error_iff names [] name .nil

-- A table as a record of all that was asked of it. The parameters have the first slots, and a slot
-- never changes its owner: what is found for a name or a call is what its operation was answered.
structure Records (names : List String) (start : SlotTable) (operations : List Operation) : Prop where
  parameters : (start.run operations).parameters = names
  resolved : ∀ name slot, (start.run operations).resolve? name = some slot ↔
    names[slot]? = some name ∨ ∃ before, start.Grants operations before (.declare name) slot
  unresolved : ∀ name, (start.run operations).resolve? name = none ↔
    name ∉ names ∧ .declare name ∉ operations
  result : ∀ call slot, (start.run operations).resultOf? call = some slot ↔
    ∃ before, before.count .reserve = call ∧ start.Grants operations before .reserve slot
  unreserved : ∀ call, (start.run operations).resultOf? call = none ↔
    operations.count .reserve ≤ call
  apart : ∀ occupant other slot, (start.run operations).slotOf? occupant = some slot →
    (start.run operations).slotOf? other = some slot → occupant = other
  contained : ∀ slot, (start.run operations).contains slot ↔
    slot < names.length ∨ ∃ before operation, start.Grants operations before operation slot
  refused : ∀ name, (start.run operations).declare? name = none ↔
    ((start.run operations).resolve? name).isSome
  unchanged : ∀ operation, ((start.run operations).perform operation).1 = none →
    start.run (operations ++ [operation]) = start.run operations
  next : ∀ operation slot, ((start.run operations).perform operation).1 = some slot →
    slot = (start.run operations).length ∧
      (start.run (operations ++ [operation])).length = slot + 1
  frame : IsLeast { size | 16 ∣ size ∧ 8 * (start.run operations).length ≤ size }
    (start.run operations).frameSize
  words : (start.run operations).length ≤ 2 ^ 29 - 3 →
    ∃ size, wordFrameSize? (.ofNat (start.run operations).length) = some size ∧
      size.toNat = (start.run operations).frameSize

section Records

variable {names : List String}

theorem Built.slotOf?_run_iff (h : (SlotTable.mk names []).Built) {operations : List Operation}
    {occupant : Occupant} {slot : Slot} :
    ((SlotTable.mk names []).run operations).slotOf? occupant = some slot ↔
      names[slot]?.map .variable = some occupant ∨
        ∃ before operation, (SlotTable.mk names []).Grants operations before operation slot ∧
          operation.occupant ((SlotTable.mk names []).run before) = occupant := by
  rw [(h.run operations).slotOf?_eq_some_iff, h.getElem?_run_iff]
  simp [occupants]

theorem calls_run_parameters (names : List String) (operations : List Operation) :
    ((SlotTable.mk names []).run operations).calls = operations.count .reserve := by
  rw [calls_run]
  exact Nat.zero_add _

-- A slot belongs to a table exactly if it has an occupant.
theorem contains_iff {table : SlotTable} {slot : Slot} :
    table.contains slot ↔ ∃ occupant, table.occupants[slot]? = some occupant := by
  have hlength : table.contains slot ↔ slot < table.occupants.length := decide_eq_true_iff
  rw [hlength]
  simp [List.getElem?_eq_some_iff]

theorem Built.records (h : (SlotTable.mk names []).Built) (operations : List Operation) :
    Records names ⟨names, []⟩ operations where
  parameters := h.parameters_run operations
  resolved name slot := by
    rw [resolve?, h.slotOf?_run_iff]
    simp [Operation.occupant_eq_variable_iff]
  unresolved name := by
    rw [resolve?_eq_none_iff, h.variable_mem_run_iff]
    simp [occupants]
  result call slot := by
    rw [resultOf?, h.slotOf?_run_iff]
    simp [Operation.occupant_eq_result_iff, calls_run_parameters, and_comm]
  unreserved call := by
    rw [resultOf?, slotOf?_eq_none_iff, (h.run operations).result_mem_iff,
      calls_run_parameters, Nat.not_lt]
  apart occupant other slot hslot hslot' := by
    rw [(h.run operations).slotOf?_eq_some_iff] at hslot hslot'
    exact Option.some.inj (hslot.symm.trans hslot')
  contained slot := by
    simp only [contains_iff, h.getElem?_run_iff, exists_or]
    simp [occupants, List.getElem?_eq_some_iff]
  refused name := declare?_eq_none_iff
  unchanged operation hnone := by
    rw [run_concat]
    rcases perform_cases (h.run operations) operation with ⟨_, _, _, hperform⟩ | ⟨_, hperform⟩
    · rw [hperform]
    · rw [hperform] at hnone
      cases hnone
  next operation slot hsome := by
    rw [run_concat]
    rcases perform_cases (h.run operations) operation with ⟨_, _, _, hperform⟩ | ⟨_, hperform⟩
    · rw [hperform] at hsome
      cases hsome
    · rw [hperform] at hsome ⊢
      cases hsome
      exact ⟨rfl, by simp [length]⟩
  frame := isLeast_frameSize _
  words := wordFrameSize?_eq_some

end Records

-- A table grows only at its end and never gives a slot twice: parameters start it unless a name
-- repeats, and whatever is asked of it then is on record for ever.
theorem ofParameters_records (names : List String) :
    ((∃ start, ofParameters names = .ok start) ↔ names.Nodup) ∧
    (∀ name, ofParameters names = .error name ↔ FirstRepeated names name) ∧
    ∀ start, ofParameters names = .ok start → ∀ operations, Records names start operations := by
  refine ⟨?_, fun name => ofParameters_eq_error_iff, ?_⟩
  · simp [ofParameters_eq_ok_iff]
  · intro start hstart operations
    have hbuilt := Built.parameters hstart
    obtain ⟨_, rfl⟩ := ofParameters_eq_ok_iff.mp hstart
    exact hbuilt.records operations

-- A variable, a call, a parameter that is refused as a variable, and a second call.
theorem records_twoParameters : ofParameters ["a", "b"] = .ok ⟨["a", "b"], []⟩ ∧
    Records ["a", "b"] ⟨["a", "b"], []⟩ [.declare "x", .reserve, .declare "a", .reserve] ∧
    ((SlotTable.mk ["a", "b"] []).run [.declare "x", .reserve, .declare "a", .reserve]).resultOf? 1 =
      some 4 ∧
    ofParameters ["a", "b", "b", "a"] = .error "b" := by
  have hstart : ofParameters ["a", "b"] = .ok ⟨["a", "b"], []⟩ := rfl
  exact ⟨hstart, (ofParameters_records _).2.2 _ hstart _, rfl, rfl⟩

theorem length_run_reserve (table : SlotTable) (count : Nat) :
    (table.run (List.replicate count .reserve)).length = table.length + count := by
  induction count with
  | zero => rfl
  | succ count ih =>
      rw [List.replicate_succ', run_concat, length, perform, reserve, occupants_push,
        List.length_append, ← length, ih, Nat.add_assoc]
      rfl

-- One slot more than the words allow: the bytes and the alignment are 2 ^ 32 together.
theorem overflows_reserved : ofParameters [] = .ok empty ∧
    (empty.run (List.replicate (2 ^ 29 - 2) .reserve)).length = 2 ^ 29 - 2 ∧
    wordFrameSize? (.ofNat (empty.run (List.replicate (2 ^ 29 - 2) .reserve)).length) = none := by
  have hlength := length_run_reserve empty (2 ^ 29 - 2)
  have hempty : empty.length = 0 := rfl
  rw [hempty, Nat.zero_add] at hlength
  refine ⟨rfl, hlength, ?_⟩
  rw [hlength]
  decide

end RayCompiler.SlotTable
