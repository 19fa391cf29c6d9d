import RayCompiler.Proofs.Parser.Termination
import RayCompiler.Proofs.Token.Texts

namespace RayCompiler

theorem TextsBorne.dropWhile {first : Bool} {tokens : List (Located Token)}
    (h : TextsBorne first tokens) : TextsBorne false (tokens.dropWhile (Parse.isTrivia ·.value)) := by
  induction tokens generalizing first with
  | nil => trivial
  | cons token rest ih =>
      rw [List.dropWhile_cons]
      split
      · exact ih h.2
      · next htrivia =>
          refine textsBorne_cons ?_ h.2
          cases hvalue : token.value <;> simp_all [Token.isText, Parse.isTrivia]

namespace Parse

variable {α β : Type}

-- The place of a token of the list that is no text of a comment.
def Marked (tokens : List (Located Token)) (span : Span) : Prop :=
  ∃ token, ⟨span, token⟩ ∈ tokens ∧ token.isText = false

-- What is left of the list where the parser looks at a token: it is no text of a comment, and a text
-- further on comes behind a token that bears it.
structure Poised (tokens rest : List (Located Token)) : Prop where
  subset : rest ⊆ tokens
  borne : TextsBorne false rest

-- A run that succeeds as described, or fails at a token of the list.
inductive Blames (tokens : List (Located Token)) (success : α → State → Prop) :
    Except (Located ParseError) (α × State) → Prop where
  | ok (holds : success result later) : Blames tokens success (.ok (result, later))
  | error (marked : Marked tokens error.span) : Blames tokens success (.error error)

-- Where it looks at a token, the parser fails at one or looks at one behind the phrase it has read.
def Careful (context : Context) (tokens : List (Located Token)) (sound : α → Prop)
    (parser : Parse α) : Prop :=
  ∀ state, Poised tokens state.rest →
    Blames tokens (fun result later => sound result ∧ Poised tokens later.rest) (parser context state)

section Runs

variable {context : Context} {tokens : List (Located Token)} {state : State} {sound : α → Prop}
  {sound' : β → Prop}

theorem Poised.marked (h : Poised tokens state.rest) (hlast : Marked tokens context.last.span) :
    Marked tokens (state.rest.headD context.last).span := by
  cases hrest : state.rest with
  | nil => exact hlast
  | cons token rest =>
      have hsubset := h.subset
      have hborne := h.borne
      rw [hrest] at hsubset hborne
      exact ⟨token.value, hsubset List.mem_cons_self, by simpa using hborne.1⟩

-- Reading on from a token that bears no text.
theorem Poised.tail (h : Poised tokens state.rest) {token : Token}
    (htoken : (state.rest.headD context.last).value = token) (hbears : token.bearsText = false) :
    Poised tokens state.rest.tail := by
  cases hrest : state.rest with
  | nil => exact ⟨List.nil_subset _, trivial⟩
  | cons first rest =>
      have hsubset := h.subset
      have hborne := h.borne
      rw [hrest] at hsubset hborne htoken
      have hmore := hborne.2
      rw [show first.value = token from htoken, hbears] at hmore
      exact ⟨List.Subset.trans (List.subset_cons_self _ _) hsubset, hmore⟩

theorem Blames.bind {success : α → State → Prop} {success' : β → State → Prop} {parser : Parse α}
    {next : α → Parse β} (h : Blames tokens success (parser context state))
    (hnext : ∀ result later, success result later →
      Blames tokens success' (next result context later)) :
    Blames tokens success' ((parser >>= next) context state) := by
  cases hrun : parser context state with
  | error error =>
      rw [bind_of_error hrun]
      rw [hrun] at h
      cases h with
      | error marked => exact .error marked
  | ok pair =>
      obtain ⟨result, later⟩ := pair
      rw [bind_of_ok hrun]
      rw [hrun] at h
      cases h with
      | ok holds => exact hnext result later holds

theorem Careful.bind {parser : Parse α} {next : α → Parse β}
    (h : Careful context tokens sound parser)
    (hnext : ∀ result, sound result → Careful context tokens sound' (next result)) :
    Careful context tokens sound' (parser >>= next) := by
  intro state hpoised
  exact (h state hpoised).bind fun result later holds => hnext result holds.1 later holds.2

variable (hlast : Marked tokens context.last.span)
include hlast

section Lists

variable {item : Parse α} (hitem : Careful context tokens sound item)
include hitem

end Lists

end Runs

section Phrases

variable {context : Context} {tokens : List (Located Token)} {slots : SlotTable}

variable (hlast : Marked tokens context.last.span)
include hlast

end Phrases

section Bodies

variable {context : Context} {tokens : List (Located Token)} {slots : SlotTable}
  {nested : Parse Function} {scope : String} (hlast : Marked tokens context.last.span)
include hlast

section Nested

variable (hnested : Careful context tokens (fun _ => True) nested)
include hnested

end Nested

end Bodies

end Parse

end RayCompiler
