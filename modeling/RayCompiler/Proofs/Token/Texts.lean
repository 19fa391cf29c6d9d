import RayCompiler.Proofs.Token.Scanning

namespace RayCompiler

namespace Token

def isText : Token → Bool
  | .text _ _ => true
  | _ => false

-- Tokens behind which the text of a comment may stand.
def bearsText : Token → Bool
  | .text _ _ => true
  | .comment => true
  | .openComment _ => true
  | .lineEnd => true
  | _ => false

theorem Plain.isText {token : Token} (h : token.Plain) : token.isText = false := by
  cases token with
  | text => exact h.elim
  | _ => rfl

end Token

-- The text of a comment stands only behind a token that bears it. Whether it may also come first is
-- said apart.
def TextsBorne (first : Bool) : List (Located Token) → Prop
  | [] => True
  | token :: rest => (token.value.isText → first) ∧ TextsBorne token.value.bearsText rest

theorem TextsBorne.mono {tokens : List (Located Token)} (h : TextsBorne false tokens)
    (first : Bool) : TextsBorne first tokens := by
  cases tokens with
  | nil => trivial
  | cons token rest => exact ⟨fun htext => absurd (h.1 htext) Bool.false_ne_true, h.2⟩

theorem TextsBorne.append {first : Bool} {tokens others : List (Located Token)}
    (h : TextsBorne first tokens) (h' : TextsBorne false others) :
    TextsBorne first (tokens ++ others) := by
  induction tokens generalizing first with
  | nil => exact h'.mono first
  | cons token rest ih => exact ⟨h.1, ih h.2⟩

theorem textsBorne_cons {first : Bool} {token : Located Token} {rest : List (Located Token)}
    (htoken : token.value.isText = false) (hrest : TextsBorne token.value.bearsText rest) :
    TextsBorne first (token :: rest) :=
  ⟨fun htext => absurd htext (by simp [htoken]), hrest⟩

open Reading

end RayCompiler
