import RayCompiler.Proofs.Listing.Theorems
import Mathlib.Data.List.Forall2

namespace RayCompiler.KnownNames

-- What stands behind each occurrence of a token, in the order of the text.
def behind (token : Token) (tokens : List Token) : List (List Token) :=
  tokens.tails.filterMap fun
    | [] => none
    | first :: rest => if first = token then some rest else none

def leadingName? : List Token → Option String
  | .name name :: _ => some name
  | _ => none

-- Names with commas between them.
def spellList (names : List String) : List Token := (names.map .name).intersperse (.symbol .comma)

-- The names of the longest comma list at the front of the tokens.
structure CommaList (tokens : List Token) (names : List String) : Prop where
  front : spellList names <+: tokens
  longest : ∀ others, spellList others <+: tokens → others.length ≤ names.length

variable {token : Token}

theorem behind_cons_self (rest : List Token) :
    behind token (token :: rest) = rest :: behind token rest := by
  simp [behind]

theorem behind_cons_of_ne {first : Token} (h : first ≠ token) (rest : List Token) :
    behind token (first :: rest) = behind token rest := by
  simp [behind, h]

@[simp] theorem spellList_cons_cons (first second : String) (more : List String) :
    spellList (first :: second :: more) =
      .name first :: .symbol .comma :: spellList (second :: more) := rfl

-- A list of two or more names goes on behind its first comma.
theorem spellList_prefix_cons {first second : String} {more : List String} {rest : List Token}
    (h : spellList (first :: second :: more) <+: rest) :
    ∃ back, rest = .name first :: .symbol .comma :: back ∧ spellList (second :: more) <+: back := by
  obtain ⟨back, rfl⟩ := h
  exact ⟨_, rfl, List.prefix_append _ _⟩

theorem spellList_prefix_name {first : String} {more : List String} {rest : List Token}
    (h : spellList (first :: more) <+: rest) : ∃ back, rest = .name first :: back := by
  obtain ⟨back, rfl⟩ := h
  cases more with
  | nil => exact ⟨_, rfl⟩
  | cons second more => exact ⟨_, rfl⟩

-- The names that directly follow the keyword for a function. A name that is skipped with the keyword
-- is none itself, so nothing is lost.
theorem functionNames_eq (tokens : List Token) :
    functionNames tokens = (behind (.keyword .func) tokens).filterMap leadingName? := by
  fun_induction functionNames tokens with
  | case1 => rfl
  | case2 name rest ih =>
      rw [behind_cons_self, behind_cons_of_ne (by simp), List.filterMap_cons, ih]
      rfl
  | case3 first rest hnext ih =>
      by_cases hfirst : first = .keyword .func
      · subst hfirst
        have hname : leadingName? rest = none := by
          unfold leadingName?
          split
          · next name back => exact absurd rfl (hnext name back rfl)
          · rfl
        rw [behind_cons_self, List.filterMap_cons, hname, ih]
      · rw [behind_cons_of_ne hfirst, ih]

theorem externNames_eq (tokens : List Token) :
    externNames tokens = (behind (.keyword .external) tokens).flatMap listedNames := by
  fun_induction externNames tokens with
  | case1 => rfl
  | case2 rest ih => rw [behind_cons_self, List.flatMap_cons, ih]
  | case3 first rest hfirst ih => rw [behind_cons_of_ne hfirst, ih]

-- The induction is on the commas. Behind the last one there may be no name, and the list ends
-- before it.
theorem commaList_listedNames (tokens : List Token) : CommaList tokens (listedNames tokens) := by
  fun_induction listedNames tokens with
  | case1 name rest ih =>
      constructor
      · cases hnames : listedNames rest with
        | nil => exact ⟨_, rfl⟩
        | cons second more =>
            have hfront := ih.front
            rw [hnames] at hfront
            obtain ⟨back, hback⟩ := hfront
            exact ⟨back, by rw [spellList_cons_cons, ← hback]; rfl⟩
      · intro others h
        match others with
        | [] | [_] => simp
        | first :: second :: more =>
            obtain ⟨back, he, hback⟩ := spellList_prefix_cons h
            cases he
            have hlength := ih.longest _ hback
            simpa using hlength
  | case2 name rest hcomma =>
      refine ⟨⟨rest, rfl⟩, ?_⟩
      intro others h
      match others with
      | [] | [_] => simp
      | first :: second :: more =>
          obtain ⟨back, he, _⟩ := spellList_prefix_cons h
          cases he
          exact absurd rfl (hcomma _)
  | case3 tokens hcomma hname =>
      refine ⟨List.nil_prefix, ?_⟩
      intro others h
      cases others with
      | nil => simp
      | cons first more =>
          obtain ⟨back, rfl⟩ := spellList_prefix_name h
          exact absurd rfl (hname _ _)

end RayCompiler.KnownNames

namespace RayCompiler

open KnownNames

variable {tokens : List (Located Token)} {program : Program}

-- The functions and externs of a program are those that the keywords of its text introduce, in the
-- order of the text.
structure Program.FollowsText (program : Program) (tokens : List Token) : Prop where
  functions : program.functions.map (·.name) =
    (behind (.keyword .func) tokens).filterMap leadingName?
  externs : ∃ lists, List.Forall₂ CommaList (behind (.keyword .external) tokens) lists ∧
    program.externs.flatMap (·.2) = lists.flatten

theorem Forms.introduced_eq (htokens : EndsOnce tokens) (h : Forms tokens program) :
    program.introduced = .ofTokens (tokens.map (·.value)) := by
  obtain ⟨_, derivation⟩ := h.derivation
  exact derivation.introduced_eq htokens

theorem Forms.followsText (htokens : EndsOnce tokens) (h : Forms tokens program) :
    program.FollowsText (tokens.map (·.value)) := by
  obtain ⟨hfunctions, hexterns⟩ := KnownNames.mk.inj (h.introduced_eq htokens)
  refine ⟨hfunctions.trans (functionNames_eq _), _, ?_, hexterns.trans (externNames_eq _)⟩
  refine List.forall₂_map_right_iff.mpr (List.forall₂_same.mpr ?_)
  exact fun rest _ => commaList_listedNames rest

-- The scan over the bare tokens and the tree agree on what a program introduces, and so does the
-- generator with its symbols.
theorem ofTokens_eq_of_parse (htokens : EndsOnce tokens) (h : parse tokens = .ok program) :
    program.FollowsText (tokens.map (·.value)) ∧
      KnownNames.ofTokens (tokens.map (·.value)) =
        ⟨program.functions.map (·.name), program.externs.flatMap (·.2)⟩ ∧
      ∀ imports, program.imports = .ok imports →
        KnownNames.ofTokens (tokens.map (·.value)) = ⟨program.functions.map (·.name), imports⟩ := by
  have hforms := forms_of_parse htokens h
  have hscan := (hforms.introduced_eq htokens).symm
  refine ⟨hforms.followsText htokens, hscan, ?_⟩
  intro imports himports
  rw [hscan, (Program.imports_ok_iff.mp himports).2, Program.declared_names]
  rfl

-- Externs and a function inside a function, and an extern behind it:
-- func f(a) { extern p, q (end of line) func g() => p(&f) (end of line) } extern r
def enclosedTokens : List (Located Token) :=
  [.keyword .func, .name "f", .symbol .openParen, .name "a", .symbol .closeParen, .symbol .openCurly,
    .keyword .external, .name "p", .symbol .comma, .name "q", .lineEnd, .keyword .func, .name "g",
    .symbol .openParen, .symbol .closeParen, .symbol .arrow, .name "p", .symbol .openParen,
    .symbol .ampersand, .name "f", .symbol .closeParen, .lineEnd, .symbol .closeCurly,
    .keyword .external, .name "r", .endOfInput].map (⟨.point .start, ·⟩)

def enclosedProgram : Program :=
  ⟨[.function .start "f" ["a"]
    [.externs .start ["p", "q"],
      .function .start "g" [] [.action .start "g" (.call ⟨"p", [.symbolAddress "f"]⟩)]
        ⟨[], [.result 0]⟩] ⟨["a"], []⟩, .externs .start ["r"]], []⟩

theorem endsOnce_enclosedTokens : EndsOnce enclosedTokens :=
  ⟨enclosedTokens.dropLast, .point .start, rfl, by decide⟩

theorem ofTokens_enclosedTokens : EndsOnce enclosedTokens ∧
    parse enclosedTokens = .ok enclosedProgram ∧
    enclosedProgram.FollowsText (enclosedTokens.map (·.value)) ∧
    enclosedProgram.imports = .ok ["p", "q", "r"] ∧
    KnownNames.ofTokens (enclosedTokens.map (·.value)) = ⟨["f", "g"], ["p", "q", "r"]⟩ := by
  have hparse : parse enclosedTokens = .ok enclosedProgram := rfl
  have himports : enclosedProgram.imports = .ok ["p", "q", "r"] := rfl
  obtain ⟨hfollows, _, hsymbols⟩ := ofTokens_eq_of_parse endsOnce_enclosedTokens hparse
  exact ⟨endsOnce_enclosedTokens, hparse, hfollows, himports, hsymbols _ himports⟩

end RayCompiler
