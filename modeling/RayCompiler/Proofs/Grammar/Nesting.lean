import RayCompiler.Proofs.Grammar.Theorems
import RayCompiler.Proofs.Semantics.Basic

namespace RayCompiler

-- An operand that stands for a string begins inside so many bytes of data.
def Operand.Within (size : Nat) (operand : Operand) : Prop :=
  ∀ offset, operand = .data offset → offset < size

namespace Statement

theorem subset_of_mem {statement : Statement} {body : List Statement} (h : statement ∈ body) :
    statement.functions ⊆ functionsIn body ∧ statement.declarations ⊆ declarationsIn body := by
  induction body with
  | nil => simp at h
  | cons first more ih =>
      rcases List.mem_cons.mp h with rfl | h
      · exact ⟨List.subset_append_left _ _, List.subset_append_left _ _⟩
      · exact ⟨List.subset_append_of_subset_right _ (ih h).1,
          List.subset_append_of_subset_right _ (ih h).2⟩

mutual

theorem inside_subset_of_mem_functions {function : Function} (statement : Statement)
    (h : function ∈ statement.functions) :
    functionsIn function.body ⊆ statement.functions ∧
      declarationsIn function.body ⊆ statement.declarations := by
  cases statement with
  | externs | action => simp [functions] at h
  | function position name parameters body slots =>
      rcases List.mem_cons.mp h with rfl | h
      · exact ⟨List.subset_cons_self _ _, List.Subset.refl _⟩
      · have hinside := inside_subset_of_mem_functionsIn body h
        exact ⟨List.subset_cons_of_subset _ hinside.1, hinside.2⟩

-- What is inside a function is inside everything around the function.
theorem inside_subset_of_mem_functionsIn {function : Function} (body : List Statement)
    (h : function ∈ functionsIn body) :
    functionsIn function.body ⊆ functionsIn body ∧
      declarationsIn function.body ⊆ declarationsIn body := by
  cases body with
  | nil => simp [functionsIn] at h
  | cons statement more =>
      rcases List.mem_append.mp h with h | h
      · have hinside := inside_subset_of_mem_functions statement h
        exact ⟨List.subset_append_of_subset_left _ hinside.1,
          List.subset_append_of_subset_left _ hinside.2⟩
      · have hinside := inside_subset_of_mem_functionsIn more h
        exact ⟨List.subset_append_of_subset_right _ hinside.1,
          List.subset_append_of_subset_right _ hinside.2⟩

end

end Statement

end RayCompiler

namespace RayCompiler.Grammar

open Statement

variable {known : KnownNames} {slots : SlotTable}

-- Reading operands adds their strings behind the data that is there.
structure Stores (here : Cursor) (operands : List Operand) (after : Cursor) : Prop where
  grows : here.data <+: after.data
  within : ∀ operand ∈ operands, operand.Within after.data.length

theorem stores_of_data_eq {here after : Cursor} (h : here.data = after.data) :
    Stores here [] after :=
  ⟨h ▸ List.prefix_rfl, by simp⟩

theorem Stores.trans {here middle after : Cursor} {first second : List Operand}
    (h : Stores here first middle) (h' : Stores middle second after) :
    Stores here (first ++ second) after := by
  have hlength := h'.grows.length_le
  refine ⟨h.grows.trans h'.grows, ?_⟩
  intro operand hm offset he
  rcases List.mem_append.mp hm with hm | hm
  · have hlt := h.within operand hm offset he
    omega
  · exact h'.within operand hm offset he

-- Only the data of a place matters, not the tokens that are left.
theorem Stores.of_data {here after other last : Cursor} {operands : List Operand}
    (h : Stores here operands after) (hhere : other.data = here.data)
    (hafter : last.data = after.data) : Stores other operands last :=
  ⟨by rw [hhere, hafter]; exact h.grows, by rw [hafter]; exact h.within⟩

section Lists

variable {α : Type} {item : Cursor → α → Cursor → Prop} {operandsOf : α → List Operand}

theorem ListAt.stores
    (hitem : ∀ here value after, item here value after → Stores here (operandsOf value) after)
    {here after : Cursor} {items : List α} (h : ListAt item here items after) :
    Stores here (items.flatMap operandsOf) after := by
  induction h with
  | one head => simpa using hitem _ _ _ head
  | more head _ ih => exact (hitem _ _ _ head).trans (ih.of_data rfl rfl)

theorem EnclosedAt.stores
    (hitem : ∀ here value after, item here value after → Stores here (operandsOf value) after)
    {here after : Cursor} {items : List α} (h : EnclosedAt item here items after) :
    Stores here (items.flatMap operandsOf) after := by
  cases h with
  | empty => exact stores_of_data_eq rfl
  | list inside => exact (inside.stores hitem).of_data rfl rfl

end Lists

theorem NameAt.stores_none (here : Cursor) (name : Located String) (after : Cursor)
    (h : NameAt here name after) : Stores here [] after := by
  cases h
  exact stores_of_data_eq rfl

theorem flatMap_none (names : List (Located String)) :
    names.flatMap (fun _ => ([] : List Operand)) = [] :=
  List.flatMap_eq_nil_iff.mpr fun _ _ => rfl

theorem ListAt.stores_none {here after : Cursor} {names : List (Located String)}
    (h : ListAt NameAt here names after) : Stores here [] after := by
  have hnames := h.stores NameAt.stores_none
  rwa [flatMap_none] at hnames

theorem EnclosedAt.stores_none {here after : Cursor} {names : List (Located String)}
    (h : EnclosedAt NameAt here names after) : Stores here [] after := by
  have hnames := h.stores NameAt.stores_none
  rwa [flatMap_none] at hnames

theorem OperandAt.stores {here after : Cursor} {operand : Operand}
    (h : OperandAt known slots here operand after) : Stores here [operand] after := by
  cases h with
  | @string span contents rest data =>
      have hle : Parse.dataOffset data ≤ data.length := Nat.mod_le _ _
      refine ⟨by simp, ?_⟩
      intro operand hm offset he
      rw [List.mem_singleton.mp hm] at he
      cases he
      exact Nat.lt_of_le_of_lt hle (by simp)
  | _ => exact ⟨List.prefix_rfl, by simp [Operand.Within]⟩

theorem OptionalAt.stores {here after : Cursor} {operand : Operand}
    (h : OptionalAt known slots here operand after) : Stores here [operand] after := by
  cases h with
  | absent => exact ⟨List.prefix_rfl, by simp [Operand.Within]⟩
  | given inside => exact inside.stores.of_data rfl rfl

theorem CallAt.stores {here after : Cursor} {call : Call}
    (h : CallAt known slots here call after) : Stores here call.arguments after := by
  cases h with
  | call _ inside =>
      have hoperands := inside.stores fun _ _ _ one => one.stores
      rw [List.flatMap_singleton'] at hoperands
      exact hoperands.of_data rfl rfl

theorem ActionAt.stores {later : SlotTable} {here after : Cursor} {action : Action}
    (h : ActionAt known slots here action later after) : Stores here action.operands after := by
  cases h with
  | ret inside | exit inside => exact inside.stores.of_data rfl rfl
  | declare list => exact list.stores_none.of_data rfl rfl
  | define right => exact right.stores.of_data rfl rfl
  | defineCall right => exact right.stores.of_data rfl rfl
  | assign _ right => exact right.stores.of_data rfl rfl
  | assignCall _ right => exact right.stores.of_data rfl rfl
  | call statement => exact statement.stores

theorem Place.Stops.data_eq {place : Place} {here after : Cursor} (h : place.Stops here after) :
    here.data = after.data := by
  cases h <;> rfl

theorem StatementsAt.stores {place : Place} {later : SlotTable} {here after : Cursor}
    {body : List Statement} (h : StatementsAt known place slots here body later after) :
    Stores here (body.flatMap Statement.operands) after := by
  induction h with
  | stop stop => exact stores_of_data_eq stop.data_eq
  | skip _ _ ih => exact ih.of_data rfl rfl
  | externs list _ _ ih => exact (list.stores_none.trans ih).of_data rfl rfl
  | function list _ _ _ _ _ ih ih' =>
      have hinside := Stores.mk ih.grows (List.forall_mem_nil _)
      exact ((list.stores_none.trans (hinside.of_data rfl rfl)).trans ih').of_data rfl rfl
  | action _ one _ ih => exact one.stores.trans ih

-- Every function inside statements has statements of its own, which begin with its parameters as
-- slots and end with its table.
theorem StatementsAt.derivation_of_mem {place : Place} {later : SlotTable} {here after : Cursor}
    {body : List Statement} (h : StatementsAt known place slots here body later after)
    {function : Function} (hm : function ∈ functionsIn body) :
    ∃ nested inside middle, StatementsAt known nested ⟨function.parameters, []⟩ inside function.body
      function.slots middle ∧ middle.data <+: after.data := by
  induction h with
  | stop => simp [functionsIn] at hm
  | skip _ _ ih => exact ih hm
  | externs _ _ _ ih => exact ih (by simpa [functionsIn, Statement.functions] using hm)
  | action _ _ _ ih => exact ih (by simpa [functionsIn, Statement.functions] using hm)
  | function _ _ _ _ statements more ih ih' =>
      simp only [functionsIn, Statement.functions, List.cons_append, List.mem_cons,
        List.mem_append] at hm
      rcases hm with rfl | hm | hm
      · exact ⟨_, _, _, statements, more.stores.grows⟩
      · obtain ⟨nested, inside, middle, hat, hgrows⟩ := ih hm
        exact ⟨nested, inside, middle, hat, hgrows.trans more.stores.grows⟩
      · exact ih' hm

end RayCompiler.Grammar
