import RayCompiler.Slot.Table
import Mathlib.Data.List.Basic

namespace RayCompiler.SlotTable

theorem slotOf?_eq_none_iff {table : SlotTable} {occupant : Occupant} :
    table.slotOf? occupant = none ↔ occupant ∉ table.occupants := by
  simp only [slotOf?, List.findIdx?_eq_none_iff, beq_eq_false_iff_ne]
  constructor
  · intro h hm
    exact h occupant hm rfl
  · rintro h other hm rfl
    exact h hm

theorem slotOf?_isSome_iff {table : SlotTable} {occupant : Occupant} :
    (table.slotOf? occupant).isSome ↔ occupant ∈ table.occupants := by
  rw [← not_iff_not, ← slotOf?_eq_none_iff, Option.not_isSome_iff_eq_none]

theorem resolve?_eq_none_iff {table : SlotTable} {name : String} :
    table.resolve? name = none ↔ .variable name ∉ table.occupants :=
  slotOf?_eq_none_iff

theorem resolve?_isSome_iff {table : SlotTable} {name : String} :
    (table.resolve? name).isSome ↔ .variable name ∈ table.occupants :=
  slotOf?_isSome_iff

theorem slotOf?_lt {table : SlotTable} {occupant : Occupant} {slot : Slot}
    (h : table.slotOf? occupant = some slot) : slot < table.length := by
  obtain ⟨hlt, _⟩ := List.findIdx?_eq_some_iff_getElem.mp h
  exact hlt

-- The table with variables added at its end.
def withVariables (table : SlotTable) (names : List String) : SlotTable :=
  { table with locals := table.locals ++ names.map .variable }

@[simp] theorem withVariables_nil (table : SlotTable) : table.withVariables [] = table := by
  simp [withVariables]

theorem withVariables_withVariables (table : SlotTable) (first second : List String) :
    (table.withVariables first).withVariables second = table.withVariables (first ++ second) := by
  simp [withVariables]

theorem mem_occupants_withVariables {table : SlotTable} {names : List String} {name : String} :
    .variable name ∈ (table.withVariables names).occupants ↔
      .variable name ∈ table.occupants ∨ name ∈ names := by
  simp [withVariables, occupants, or_assoc]

theorem declare?_eq_some_iff {table later : SlotTable} {name : String} {slot : Slot} :
    table.declare? name = some (slot, later) ↔
      .variable name ∉ table.occupants ∧ slot = table.length ∧ later = table.withVariables [name] := by
  by_cases h : .variable name ∈ table.occupants
  · simp [declare?, resolve?_isSome_iff.mpr h, h]
  · have hn : (table.resolve? name).isSome = false := by
      simpa using mt resolve?_isSome_iff.mp h
    simp [declare?, hn, h, push, withVariables, eq_comm]

-- Parameters make a table exactly if no name repeats.
theorem foldlM_addParameter_eq_ok_iff (names earlier : List String) (table : SlotTable) :
    names.foldlM addParameter ⟨earlier, []⟩ = .ok table ↔
      names.Nodup ∧ (∀ name ∈ names, name ∉ earlier) ∧ table = ⟨earlier ++ names, []⟩ := by
  induction names generalizing earlier with
  | nil => simp [pure, Except.pure, eq_comm]
  | cons name more ih =>
      have hres : ((⟨earlier, []⟩ : SlotTable).resolve? name).isSome ↔ name ∈ earlier := by
        simp [resolve?_isSome_iff, occupants]
      by_cases hm : name ∈ earlier
      · simp [List.foldlM_cons, addParameter, hres.mpr hm, hm, bind, Except.bind]
      · have hn : ((⟨earlier, []⟩ : SlotTable).resolve? name).isSome = false := by
          simpa using mt hres.mp hm
        have hstep : addParameter ⟨earlier, []⟩ name = .ok ⟨earlier ++ [name], []⟩ := by
          simp [addParameter, hn]
        rw [List.foldlM_cons, hstep]
        change more.foldlM addParameter ⟨earlier ++ [name], []⟩ = .ok table ↔ _
        rw [ih]
        simp only [List.nodup_cons, List.mem_append, List.mem_cons, List.not_mem_nil, or_false,
          List.append_assoc, List.cons_append, List.nil_append]
        constructor
        · rintro ⟨hd, hf, ht⟩
          refine ⟨⟨fun hmore => hf name hmore (.inr rfl), hd⟩, ?_, ht⟩
          rintro other (rfl | hmore)
          · exact hm
          · exact fun he => hf other hmore (.inl he)
        · rintro ⟨⟨hnot, hd⟩, hf, ht⟩
          refine ⟨hd, ?_, ht⟩
          rintro other hmore (he | rfl)
          · exact hf other (.inr hmore) he
          · exact hnot hmore

theorem ofParameters_eq_ok_iff {names : List String} {table : SlotTable} :
    ofParameters names = .ok table ↔ names.Nodup ∧ table = ⟨names, []⟩ := by
  simpa [ofParameters, empty] using foldlM_addParameter_eq_ok_iff names [] table

-- A later state of a table: slots are added behind those it has.
def Extends (later earlier : SlotTable) : Prop :=
  later.parameters = earlier.parameters ∧ earlier.locals <+: later.locals

theorem Extends.refl (table : SlotTable) : table.Extends table :=
  ⟨rfl, List.prefix_rfl⟩

theorem Extends.trans {first second third : SlotTable} (h : third.Extends second)
    (h' : second.Extends first) : third.Extends first :=
  ⟨h.1.trans h'.1, h'.2.trans h.2⟩

theorem extends_withVariables (table : SlotTable) (names : List String) :
    (table.withVariables names).Extends table :=
  ⟨rfl, List.prefix_append _ _⟩

theorem extends_reserve (table : SlotTable) : table.reserve.2.Extends table :=
  ⟨rfl, List.prefix_append _ _⟩

theorem Extends.isPrefix_occupants {later earlier : SlotTable} (h : later.Extends earlier) :
    earlier.occupants <+: later.occupants := by
  obtain ⟨added, ha⟩ := h.2
  exact ⟨added, by simp [occupants, h.1, ← ha]⟩

theorem Extends.length_le {later earlier : SlotTable} (h : later.Extends earlier) :
    earlier.length ≤ later.length :=
  h.isPrefix_occupants.length_le

-- A slot that is found stays where it is.
theorem Extends.slotOf?_eq {later earlier : SlotTable} (h : later.Extends earlier)
    {occupant : Occupant} {slot : Slot} (hs : earlier.slotOf? occupant = some slot) :
    later.slotOf? occupant = some slot := by
  obtain ⟨added, ha⟩ := h.isPrefix_occupants
  unfold slotOf? at hs ⊢
  rw [← ha, List.findIdx?_append, hs]
  rfl

theorem result_mem_reserve (table : SlotTable) :
    .result table.calls ∈ table.reserve.2.occupants := by
  simp [reserve, push, occupants]

@[simp] theorem calls_reserve (table : SlotTable) : table.reserve.2.calls = table.calls + 1 := by
  simp [reserve, push, calls]

@[simp] theorem calls_withVariables (table : SlotTable) (names : List String) :
    (table.withVariables names).calls = table.calls := by
  simp [withVariables, calls, List.countP_eq_zero]

theorem parameters_le_length (table : SlotTable) : table.parameters.length ≤ table.length := by
  simp [length, occupants]

-- The frame holds every slot.
theorem length_le_frameSize (table : SlotTable) : 8 * table.length ≤ table.frameSize := by
  unfold frameSize slotSize frameAlignment
  omega

end RayCompiler.SlotTable
