import RayCompiler.Proofs.Token.Spelling
import RayCompiler.Token.Iteration

namespace RayCompiler.Reading

-- What an error leaves behind: nothing, or the opening and the complete lines of a comment that is
-- never closed.
inductive Abandoned : LexError → List Lexeme → Prop where
  | nothing (other : cause ≠ .unterminatedComment) : Abandoned cause []
  | comment (style : CommentStyle) (lines : List (List Char)) :
      Abandoned .unterminatedComment (opening style :: openLines lines)

def Abandons (reading : Reading) : Prop :=
  ∀ cause, reading.outcome = .error cause → Abandoned cause reading.lexemes

theorem abandons_one (text : List Char) (token : Token) (rest : List Char) :
    (one text token rest).Abandons := by
  rintro _ ⟨⟩

theorem abandons_failed {cause : LexError} (h : cause ≠ .unterminatedComment) :
    (failed cause).Abandons := by
  rintro _ ⟨⟩
  exact .nothing h

theorem abandons_ofBlockComment (text : List Char) : (ofBlockComment text).Abandons := by
  unfold ofBlockComment
  dsimp only
  split
  · rintro _ ⟨⟩
  · rintro _ ⟨⟩
    exact .comment _ _

theorem abandons_ofSlash (text : List Char) : (ofSlash text).Abandons := by
  fun_cases ofSlash text with
  | case1 rest => rintro _ ⟨⟩
  | case2 rest => exact abandons_ofBlockComment rest
  | case3 => exact abandons_one _ _ _

theorem abandons_ofText (c : Char) (rest : List Char) : (ofText c rest).Abandons := by
  fun_cases ofText c rest with
  | case1 => exact abandons_one _ _ _
  | case2 => exact abandons_ofSlash rest
  | case3 =>
      unfold ofString
      dsimp only
      split
      · exact abandons_failed (by simp)
      · exact abandons_one _ _ _
  | case4 => fun_cases ofEquals rest <;> exact abandons_one _ _ _
  | case5 => exact abandons_one _ _ _
  | case6 => exact abandons_one _ _ _
  | case7 =>
      unfold ofNumber
      dsimp only
      split
      · exact abandons_one _ _ _
      · exact abandons_failed (by simp)
  | case8 => exact abandons_failed (by simp)

end RayCompiler.Reading

namespace RayCompiler

-- Tokens inside a block comment.
inductive CommentLine : Token → Prop where
  | text (contents : String) : CommentLine (.text contents true)
  | lineEnd : CommentLine .lineEnd

-- The tokens of a comment from its opening on, at the given place.
inductive CommentFrom (place : Position) : List (Located Token) → Prop where
  | opened (lines : ∀ line ∈ tokens, CommentLine line.value) :
      CommentFrom place (⟨⟨place, stop⟩, .openComment style⟩ :: tokens)

theorem commentLine_openLines {lines : List (List Char)} {lexeme : Lexeme}
    (h : lexeme ∈ Reading.openLines lines) {token : Token} (htoken : lexeme.token = some token) :
    CommentLine token := by
  fun_induction Reading.openLines lines with
  | case1 => simp at h
  | case2 => simp at h
  | case3 line next more ih =>
      rcases List.mem_append.mp h with h | h
      · unfold Reading.commentLexeme at h
        split at h
        · simp at h
        · next hfilled =>
            rw [List.mem_singleton.mp h, Reading.commentText, if_neg hfilled] at htoken
            cases htoken
            exact .text _
      · rcases List.mem_cons.mp h with rfl | h
        · cases htoken
          exact .lineEnd
        · exact ih h

theorem commentFrom_locate (place : Position) (style : CommentStyle) (lines : List (List Char)) :
    CommentFrom place (locate place (Reading.opening style :: Reading.openLines lines)) := by
  have hlines := fun stop => forall_mem_locate stop fun _ hm _ htoken =>
    @commentLine_openLines lines _ hm _ htoken
  cases style <;> exact .opened (hlines _)

theorem CommentFrom.ne_endOfInput {place : Position} {tokens : List (Located Token)}
    (h : CommentFrom place tokens) : ∀ token ∈ tokens, token.value ≠ .endOfInput := by
  obtain ⟨hlines⟩ := h
  intro token hm he
  rcases List.mem_cons.mp hm with rfl | hm
  · cases he
  · have hline := hlines token hm
    rw [he] at hline
    cases hline

end RayCompiler

namespace RayCompiler.Lexer

-- What a lexer can do to give its next item: take a token that waits, come to the end of the text,
-- fail, or read on.
inductive Step : Lexer → Except (Located LexError) (Located Token) → Lexer → Prop where
  | queued : Step ⟨here, text, token :: waiting, ended⟩ (.ok token) ⟨here, text, waiting, ended⟩
  | finished : Step ⟨here, text, [], false⟩ (.ok (endAt start)) ⟨start, [], [], true⟩
  | failed (abandoned : Reading.Abandoned cause lexemes) :
      Step ⟨here, text, [], false⟩ (.error ⟨.point start, cause⟩)
        ⟨stop, [], locate start lexemes, true⟩
  | read (spelled : ∀ token ∈ first :: waiting, token.value.Spelled) :
      Step ⟨here, text, [], false⟩ (.ok first) ⟨stop, after, waiting, false⟩

theorem step_of_next? {lexer later : Lexer} {item : Except (Located LexError) (Located Token)}
    (h : lexer.next? = some (item, later)) : Step lexer item later := by
  obtain ⟨position, rest, queue, done⟩ := lexer
  cases queue with
  | cons token queue =>
      cases h
      exact .queued
  | nil =>
      cases done with
      | true => cases h
      | false =>
          simp only [next?, Bool.false_eq_true, if_false] at h
          split at h
          · cases h
            exact .finished
          next c body hbody =>
          split at h
          · next cause hread =>
              cases h
              exact .failed (Reading.abandons_ofText c body cause hread)
          · cases h
          · next after first queue hread hfound =>
              cases h
              refine .read ?_
              rw [← hfound]
              exact spelled_locate _ (Reading.spelled_ofText c body after hread)

section Run

variable {lexer later : Lexer} {item : Except (Located LexError) (Located Token)}

-- The end of input never waits in the queue.
def Endless (lexer : Lexer) : Prop := ∀ token ∈ lexer.queue, token.value ≠ .endOfInput

theorem endless_ofSource (source : Source) : (ofSource source).Endless := by
  simp [Endless, ofSource]

theorem Step.endless (h : Step lexer item later) (hlexer : lexer.Endless) : later.Endless := by
  cases h with
  | queued => exact fun token hm => hlexer token (List.mem_cons_of_mem _ hm)
  | finished => simp [Endless]
  | failed abandoned =>
      cases abandoned with
      | nothing => simp [Endless, locate]
      | comment style lines => exact (commentFrom_locate _ style lines).ne_endOfInput
  | read spelled =>
      intro token hm he
      have hspelled := spelled token (List.mem_cons_of_mem _ hm)
      rw [he] at hspelled
      exact hspelled

theorem endless_afterItems (hlexer : lexer.Endless) (count : Nat) :
    (lexer.afterItems count).Endless := by
  induction count generalizing lexer with
  | zero => exact hlexer
  | succ count ih =>
      unfold afterItems
      split
      · next hnext => exact ih ((step_of_next? hnext).endless hlexer)
      · exact hlexer

-- A lexer that gives nothing stays as it is.
theorem forall_next?_eq_none_iff :
    (∀ count, (lexer.afterItems count).next? = none) ↔ lexer.items = [] := by
  constructor
  · intro h
    exact items_nil (h 0)
  · intro h count
    have hnext : lexer.next? = none := by
      cases hnext : lexer.next? with
      | none => rfl
      | some pair =>
          rw [items_cons hnext] at h
          cases h
    cases count with
    | zero => exact hnext
    | succ count =>
        simp only [afterItems, hnext]

theorem items_of_done (position : Position) (rest : List Char) (queue : List (Located Token)) :
    (Lexer.mk position rest queue true).items = queue.map .ok := by
  rw [items_queue, items_done, List.append_nil]

-- The items after which a lexer should have no more: an error, or the end of input.
inductive Final : Except (Located LexError) (Located Token) → Prop where
  | error (error : Located LexError) : Final (.error error)
  | endOfInput (span : Span) : Final (.ok ⟨span, .endOfInput⟩)

theorem Step.items_of_final (h : Step lexer item later) (hlexer : lexer.Endless)
    (hfinal : Final item) :
    (∀ span, item ≠ .error ⟨span, .unterminatedComment⟩) ∧ later.items = [] ∨
      ∃ place tokens, item = .error ⟨.point place, .unterminatedComment⟩ ∧
        later.items = tokens.map .ok ∧ CommentFrom place tokens := by
  cases h with
  | queued =>
      cases hfinal with
      | endOfInput => exact absurd rfl (hlexer _ List.mem_cons_self)
  | finished => exact .inl ⟨by simp, items_done _ _⟩
  | failed abandoned =>
      cases abandoned with
      | nothing other => exact .inl ⟨by simpa using other, items_done _ _⟩
      | comment style lines =>
          exact .inr ⟨_, _, rfl, items_of_done _ _ _, commentFrom_locate _ style lines⟩
  | read spelled =>
      cases hfinal with
      | endOfInput => exact absurd (spelled _ List.mem_cons_self) id

end Run

-- After an error or the end of input a lexer gives nothing, except after a comment that is never
-- closed: then it gives the tokens of the comment, from its opening to its last complete line.
theorem next?_after_final {source : Source} {count : Nat} {later : Lexer}
    {item : Except (Located LexError) (Located Token)}
    (h : ((ofSource source).afterItems count).next? = some (item, later)) (hfinal : Final item) :
    ((∀ more, (later.afterItems more).next? = none) ↔
      ∀ span, item ≠ .error ⟨span, .unterminatedComment⟩) ∧
    ∀ span, item = .error ⟨span, .unterminatedComment⟩ →
      ∃ tokens, later.items = tokens.map .ok ∧ CommentFrom span.start tokens := by
  have hendless := endless_afterItems (endless_ofSource source) count
  rw [forall_next?_eq_none_iff]
  rcases (step_of_next? h).items_of_final hendless hfinal with ⟨hother, hitems⟩ |
    ⟨place, tokens, rfl, hitems, hcomment⟩
  · exact ⟨⟨fun _ => hother, fun _ => hitems⟩, fun span he => absurd he (hother span)⟩
  · have hsome : later.items ≠ [] := by
      obtain ⟨⟩ := hcomment
      simp [hitems]
    refine ⟨⟨fun he => absurd he hsome, fun hnot => absurd rfl (hnot _)⟩, ?_⟩
    rintro _ ⟨⟩
    exact ⟨tokens, hitems, hcomment⟩

-- A comment that is never closed, with one complete line.
def openSource : Source where
  name := "open.ray"
  text := "x /*a\nb"

-- The error comes second. The opening of the comment, which was read before it, comes third.
theorem next?_openSource :
    ((ofSource openSource).afterItems 1).next?.map (·.1) =
      some (.error ⟨.point ⟨2, 1, 3⟩, .unterminatedComment⟩) ∧
    ((ofSource openSource).afterItems 2).next?.map (·.1) =
      some (.ok ⟨⟨⟨2, 1, 3⟩, ⟨4, 1, 5⟩⟩, .openComment .block⟩) := by
  decide +kernel

theorem items_after_openSource : ∃ later tokens,
    ((ofSource openSource).afterItems 1).next? =
      some (.error ⟨.point ⟨2, 1, 3⟩, .unterminatedComment⟩, later) ∧
    (¬∀ more, (later.afterItems more).next? = none) ∧
    later.items = tokens.map .ok ∧ CommentFrom ⟨2, 1, 3⟩ tokens := by
  have herror : ((ofSource openSource).afterItems 1).next?.map (·.1) =
      some (.error ⟨.point ⟨2, 1, 3⟩, .unterminatedComment⟩) := by decide +kernel
  obtain ⟨⟨_, later⟩, hnext, rfl⟩ := Option.map_eq_some_iff.mp herror
  have hafter := next?_after_final hnext (.error _)
  obtain ⟨tokens, hitems, hcomment⟩ := hafter.2 _ rfl
  exact ⟨later, tokens, hnext, fun hnone => hafter.1.mp hnone _ rfl, hitems, hcomment⟩

end RayCompiler.Lexer
