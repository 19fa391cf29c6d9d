import RayCompiler.Proofs.Compilation
import RayCompiler.Proofs.Grammar.Recasting
import RayCompiler.Proofs.Token.Scanning

namespace RayCompiler

namespace Text

-- A text with a carriage return in front of each line feed.
def withReturns (text : List Char) : List Char :=
  text.flatMap fun c => if c = '\n' then ['\r', '\n'] else [c]

@[simp] theorem withReturns_nil : withReturns [] = [] := rfl

@[simp] theorem withReturns_append (first second : List Char) :
    withReturns (first ++ second) = withReturns first ++ withReturns second := List.flatMap_append

theorem withReturns_newline (text : List Char) :
    withReturns ('\n' :: text) = '\r' :: '\n' :: withReturns text := rfl

theorem withReturns_cons {c : Char} (h : c ≠ '\n') (text : List Char) :
    withReturns (c :: text) = c :: withReturns text := by
  simp [withReturns, h]

theorem withReturns_of_notMem {text : List Char} (h : '\n' ∉ text) : withReturns text = text := by
  induction text with
  | nil => rfl
  | cons c text ih =>
      rw [List.mem_cons, not_or] at h
      rw [withReturns_cons (Ne.symm h.1), ih h.2]

-- A text begins as before, or with a return.
theorem head?_withReturns (text : List Char) :
    ∀ c ∈ (withReturns text).head?, c ∈ text.head? ∨ c = '\r' := by
  intro c hm
  cases text with
  | nil => cases hm
  | cons first text =>
      by_cases hfirst : first = '\n'
      · subst hfirst
        cases hm
        exact .inr rfl
      · rw [withReturns_cons hfirst] at hm
        exact .inl hm

-- Each line but the last one with a carriage return behind it.
def returnLines : List (List Char) → List (List Char)
  | [] => []
  | [last] => [last]
  | line :: next :: more => (line ++ ['\r']) :: returnLines (next :: more)

theorem lines_withReturns (text : List Char) :
    lines (withReturns text) = returnLines (lines text) := by
  induction text with
  | nil => rfl
  | cons c text ih =>
      cases hlines : lines text with
      | nil => exact absurd hlines (lines_ne_nil text)
      | cons first more =>
          rw [hlines] at ih
          by_cases hc : c = '\n'
          · subst hc
            have hreturn : lines (withReturns ('\n' :: text)) =
                ['\r'] :: lines (withReturns text) := by
              simp [withReturns_newline, lines, split]
            have hline : lines ('\n' :: text) = [] :: first :: more := by
              simp [lines, split, ← hlines]
            rw [hreturn, hline, ih]
            rfl
          · have hline : ∀ {rest first more}, lines rest = first :: more →
                lines (c :: rest) = (c :: first) :: more := by
              intro rest first more hrest
              simp only [lines, split, if_neg hc]
              rw [← lines, hrest]
            rw [withReturns_cons hc, hline hlines]
            cases more with
            | nil => exact hline ih
            | cons next others => exact hline ih

end Text

open Text

-- No comment is closed earlier than before.
theorem closer_infix_of_withReturns {text : List Char} (h : closer <:+: withReturns text) :
    closer <:+: text := by
  induction text with
  | nil => exact h
  | cons c text ih =>
      by_cases hc : c = '\n'
      · subst hc
        rw [withReturns_newline, List.infix_cons_iff, List.infix_cons_iff,
          Reading.closer_prefix_iff, Reading.closer_prefix_iff] at h
        rcases h with ⟨hstar, _⟩ | ⟨hstar, _⟩ | h
        · cases hstar
        · cases hstar
        · exact (ih h).trans (List.suffix_cons _ _).isInfix
      · rw [withReturns_cons hc, List.infix_cons_iff, Reading.closer_prefix_iff] at h
        rw [List.infix_cons_iff, Reading.closer_prefix_iff]
        rcases h with ⟨hstar, hslash⟩ | h
        · left
          refine ⟨hstar, ?_⟩
          rcases head?_withReturns text '/' hslash with hm | he
          · exact hm
          · cases he
        · exact .inr (ih h)

namespace Position

theorem shown_eq_iff {first second : Position} :
    first.shown = second.shown ↔ first.line = second.line ∧ first.column = second.column := by
  simp [shown]

theorem shown_step {first second : Position} (h : first.shown = second.shown) (c : Char) :
    (first.step c).shown = (second.step c).shown := by
  obtain ⟨hline, hcolumn⟩ := shown_eq_iff.mp h
  unfold step
  split <;> simp [shown, newline, advance, hline, hcolumn]

-- A return moves the column, and the line feed behind it sets it back.
theorem shown_past_withReturns {first second : Position} (h : first.shown = second.shown)
    (text : List Char) : (first.past (withReturns text)).shown = (second.past text).shown := by
  induction text generalizing first second with
  | nil => exact h
  | cons c text ih =>
      by_cases hc : c = '\n'
      · subst hc
        rw [withReturns_newline, past_cons, past_cons, past_cons]
        refine ih ?_
        obtain ⟨hline, _⟩ := shown_eq_iff.mp h
        simp [shown, step, newline, advance, hline]
      · rw [withReturns_cons hc, past_cons, past_cons]
        exact ih (shown_step h c)

end Position

namespace Grammar

theorem Recast.append {first first' second second' : List (Located Token)}
    (h : Recast first first') (h' : Recast second second') :
    Recast (first ++ second) (first' ++ second') := by
  induction h with
  | nil => exact h'
  | token place _ ih => exact .token place ih
  | stop trivia stop texts _ ih =>
      rw [List.cons_append, List.cons_append, List.append_assoc]
      exact .stop trivia stop texts ih
  | text _ ih => exact .text ih

section Comments

open Reading

variable {span span' : Span} {token : Token} {rest rest' : List (Located Token)}

theorem Recast.moved (htrivia : Trivia token) (hstop : LineStop token) (h : Recast rest rest') :
    Recast (⟨span, token⟩ :: rest) (⟨span', token⟩ :: rest') :=
  .stop htrivia hstop (List.forall_mem_nil _) h

-- A return at the end of a line of a comment makes its text longer, or is its only text.
theorem recast_commentLexeme (htrivia : Trivia token) (hstop : LineStop token) (line : List Char)
    (block : Bool) (place place' : Position) (h : Recast rest rest') :
    Recast (⟨span, token⟩ :: (locate place (commentLexeme line block) ++ rest))
      (⟨span', token⟩ :: (locate place' (commentLexeme (line ++ ['\r']) block) ++ rest')) := by
  cases line with
  | nil =>
      refine .stop htrivia hstop ?_ h
      intro extra hm
      rw [List.mem_singleton.mp hm]
      exact ⟨_, _, rfl⟩
  | cons c line => exact .moved htrivia hstop (.text h)

theorem closedLines_cons {lines : List (List Char)} (h : lines ≠ []) (line : List Char) :
    closedLines (line :: lines) =
      commentLexeme line true ++ ⟨['\n'], some .lineEnd⟩ :: closedLines lines := by
  cases lines with
  | nil => exact absurd rfl h
  | cons next more => rfl

theorem recast_closedLines (htrivia : Trivia token) (hstop : LineStop token)
    (lines : List (List Char)) (place place' : Position) :
    Recast (⟨span, token⟩ :: locate place (closedLines lines))
      (⟨span', token⟩ :: locate place' (closedLines (returnLines lines))) := by
  fun_induction closedLines lines generalizing span span' token place place' with
  | case1 => exact .moved htrivia hstop .nil
  | case2 last =>
      apply Recast.moved htrivia hstop
      cases last with
      | nil => exact .nil
      | cons c last => exact .text .nil
  | case3 line next more ih =>
      have hne : returnLines (next :: more) ≠ [] := by cases more <;> simp [returnLines]
      rw [locate_append, returnLines, closedLines_cons hne, locate_append]
      exact recast_commentLexeme htrivia hstop line true _ _ (ih .lineEnd .lineEnd _ _)

end Comments

end Grammar

open Grammar Reading

theorem Spells.inline {text after : List Char} {token : Token} (h : Spells text token after)
    (hplain : token.Plain) (hline : token ≠ .lineEnd)
    (hstring : ∀ contents, token = .string contents → '\n' ∉ contents.toList) : '\n' ∉ text := by
  cases h with
  | name word => exact word.notMem (by decide)
  | @keyword keyword => exact (isWord_word keyword).notMem (by decide)
  | number _ run =>
      intro hm
      exact absurd (run _ hm) (by decide)
  | string =>
      have hcontents := hstring _ rfl
      simp [hcontents, quote]
  | lineEnd => exact absurd rfl hline
  | @symbol symbol => cases symbol <;> decide
  | _ => exact hplain.elim

section Returns

theorem opens_withReturns {style : CommentStyle} {inside : List Char} (h : style.Opens inside) :
    style.Opens (withReturns inside) := by
  have hhead : ∀ {c}, c ≠ '\r' → inside.head? ≠ some c → (withReturns inside).head? ≠ some c := by
    intro c hc hinside he
    rcases head?_withReturns inside c he with hm | hreturn
    · exact hinside hm
    · exact hc hreturn
  cases style with
  | block => exact hhead (by decide) h
  | doc => exact hhead (by decide) h

theorem unclosed_withReturns {inside : List Char} (h : ¬closer <:+: inside ++ ['*']) :
    ¬closer <:+: withReturns inside ++ ['*'] := by
  intro hclosed
  have hstar : withReturns inside ++ ['*'] = withReturns (inside ++ ['*']) := by simp [withReturns]
  rw [hstar] at hclosed
  exact h (closer_infix_of_withReturns hclosed)

variable {position position' : Position} {text : List Char} {tokens : List (Located Token)}

-- The text with returns is scanned too, and has the same tokens outside comments.
def ScansWithReturns (position : Position) (text : List Char) (tokens : List (Located Token)) : Prop :=
  ∀ position', position'.shown = position.shown →
    ∃ tokens', Scans [] position' (withReturns text) tokens' ∧ Recast tokens tokens'

theorem scansWithReturns_token {token : Token} {rest : List Char} (hspells : Spells text token rest)
    (hplain : token.Plain)
    (hstring : ∀ contents, token = .string contents → '\n' ∉ contents.toList)
    (hmore : ScansWithReturns (position.past text) rest tokens) :
    ScansWithReturns position (text ++ rest) (⟨⟨position, position.past text⟩, token⟩ :: tokens) := by
  intro position' hshown
  by_cases hline : token = .lineEnd
  · subst hline
    cases hspells
    obtain ⟨tokens', hscans, hrecast⟩ :=
      hmore _ (Position.shown_past_withReturns hshown ['\n'])
    have hnext : Scans [] (position'.step '\r') (['\n'] ++ withReturns rest) _ :=
      .token .lineEnd trivial hscans
    exact ⟨_, .gap (by decide) hnext, .moved .lineEnd .lineEnd hrecast⟩
  · have htext := withReturns_of_notMem (hspells.inline hplain hline hstring)
    have hplace := Position.shown_past_withReturns hshown text
    rw [htext] at hplace
    obtain ⟨tokens', hscans, hrecast⟩ := hmore _ hplace
    have hspells' : Spells text token (withReturns rest ++ []) := by
      refine hspells.before hplain ?_
      intro c hm
      rw [List.append_nil] at hm
      rcases head?_withReturns rest c hm with hm | rfl
      · exact .inl hm
      · exact .inr (by decide)
    rw [withReturns_append, htext]
    exact ⟨_, .token hspells' hplain hscans, .token hshown hrecast⟩

theorem scansWithReturns_lineComment {contents rest : List Char} (hinline : '\n' ∉ contents)
    (hends : ∀ c ∈ rest.head?, c = '\n')
    (hmore : ScansWithReturns (position.past ('/' :: '/' :: contents)) rest tokens) :
    ScansWithReturns position ('/' :: '/' :: contents ++ rest)
      (locate position (⟨['/', '/'], some .comment⟩ :: commentLexeme contents false) ++ tokens) := by
  intro position' hshown
  have hopening : withReturns ('/' :: '/' :: contents) = '/' :: '/' :: contents := by
    refine withReturns_of_notMem ?_
    simpa using hinline
  have hplace := Position.shown_past_withReturns hshown ('/' :: '/' :: contents)
  rw [hopening] at hplace
  obtain ⟨tokens', hscans, hrecast⟩ := hmore _ hplace
  rw [withReturns_append, hopening]
  cases rest with
  | nil =>
      refine ⟨_, .lineComment hinline (by simp) hscans, .moved .comment .comment ?_⟩
      cases contents with
      | nil => exact hrecast
      | cons c contents => exact .text hrecast
  | cons c rest =>
      -- The return before the line feed becomes part of the comment.
      obtain rfl := hends c rfl
      have hmore' := hscans.of_gap (by decide)
      have hreturn : '\n' ∉ contents ++ ['\r'] := by simpa using hinline
      have hplace' : position'.past ('/' :: '/' :: (contents ++ ['\r'])) =
          (position'.past ('/' :: '/' :: contents)).step '\r' := by
        simp
      rw [← hplace'] at hmore'
      have hwhole := Scans.lineComment hreturn (by simp) hmore'
      have htext : '/' :: '/' :: (contents ++ ['\r']) ++ '\n' :: withReturns rest =
          '/' :: '/' :: contents ++ withReturns ('\n' :: rest) := by
        simp [withReturns_newline]
      exact ⟨_, htext ▸ hwhole, recast_commentLexeme .comment .comment contents false _ _ hrecast⟩

theorem scansWithReturns_blockComment {style : CommentStyle} {inside rest : List Char}
    (hopens : style.Opens inside) (hinside : ¬closer <:+: inside ++ ['*'])
    (hmore : ScansWithReturns (position.past ((opening style).text ++ inside ++ closer)) rest tokens) :
    ScansWithReturns position ((opening style).text ++ inside ++ closer ++ rest)
      (locate position (opening style :: closedLines (lines inside)) ++ tokens) := by
  intro position' hshown
  have htext : withReturns ((opening style).text ++ inside ++ closer) =
      (opening style).text ++ withReturns inside ++ closer := by
    cases style <;> simp [opening, closer, withReturns]
  have hplace := Position.shown_past_withReturns hshown ((opening style).text ++ inside ++ closer)
  rw [htext] at hplace
  obtain ⟨tokens', hscans, hrecast⟩ := hmore _ hplace
  rw [withReturns_append, htext]
  refine ⟨_, .blockComment (opens_withReturns hopens) (unclosed_withReturns hinside) hscans, ?_⟩
  refine Recast.append ?_ hrecast
  rw [lines_withReturns]
  cases style with
  | block => exact recast_closedLines (.openComment _) (.openComment _) _ _ _
  | doc => exact recast_closedLines (.openComment _) (.openComment _) _ _ _

-- The induction is over what the scan takes off the text.
theorem Scans.withReturns (h : Scans [] position text tokens)
    (hstrings : ∀ contents ∈ stringsOf tokens, '\n' ∉ contents.toList) :
    ScansWithReturns position text tokens := by
  induction h with
  | nil => exact fun _ _ => ⟨[], .nil, .nil⟩
  | @gap c text tokens position blank more ih =>
      intro position' hshown
      have hc : c ≠ '\n' := by
        rintro rfl
        exact absurd blank (by decide)
      obtain ⟨tokens', hscans, hrecast⟩ := ih hstrings _ (Position.shown_step hshown c)
      rw [withReturns_cons hc]
      exact ⟨tokens', .gap blank hscans, hrecast⟩
  | @takes lexemes text tokens position taken more ih =>
      rw [stringsOf_append] at hstrings
      have hmore := ih fun contents hm => hstrings contents (List.mem_append_right _ hm)
      rw [List.append_nil] at taken
      cases taken with
      | @token front found _ spells plain =>
          have hcovering : covering [⟨front, some found⟩] = front := List.append_nil front
          rw [hcovering] at hmore ⊢
          refine scansWithReturns_token spells plain ?_ hmore
          rintro contents rfl
          exact hstrings contents (List.mem_append_left _ (by simp [locate, stringsOf]))
      | lineComment inline ends =>
          rw [covering_lineComment] at hmore ⊢
          exact scansWithReturns_lineComment inline ends hmore
      | blockComment opens unclosed =>
          rw [covering_blockComment] at hmore ⊢
          exact scansWithReturns_blockComment opens unclosed hmore

end Returns

def Source.withReturns (source : Source) : Source :=
  ⟨source.name, String.ofList (Text.withReturns source.text.toList)⟩

theorem tokenize_withReturns {source : Source} {tokens : List (Located Token)}
    (h : tokenize source = .ok tokens)
    (hstrings : ∀ contents ∈ stringsOf tokens, '\n' ∉ contents.toList) :
    ∃ tokens', tokenize source.withReturns = .ok tokens' ∧ Recast tokens tokens' := by
  obtain ⟨found, hscans, rfl⟩ := scans_of_tokensFrom h
  rw [stringsOf_append] at hstrings
  obtain ⟨found', hscans', hrecast⟩ := hscans.withReturns
    (fun contents hm => hstrings contents (List.mem_append_left _ hm)) .start rfl
  have hend : Recast [endAt (Position.start.past source.text.toList)]
      [endAt (Position.start.past (Text.withReturns source.text.toList))] :=
    .token (Position.shown_past_withReturns rfl _) .nil
  refine ⟨_, ?_, hrecast.append hend⟩
  rw [tokenize, Source.withReturns, String.toList_ofList, hscans'.tokensFrom_eq]

-- How lines end makes no difference: where no string goes over the end of a line, the source with
-- carriage returns has the same listing.
theorem compile_withReturns {source : Source} {text : String} (h : compile source = .ok text)
    (hstrings : ∀ tokens, tokenize source = .ok tokens →
      ∀ contents ∈ stringsOf tokens, '\n' ∉ contents.toList) :
    compile source.withReturns = .ok text := by
  obtain ⟨program, listing, hcompiled, rfl⟩ := compile_eq_ok_iff.mp h
  obtain ⟨hassembles, rfl⟩ := hcompiled.assembles
  obtain ⟨tokens, htokens, hprogram, _⟩ := hcompiled
  obtain ⟨tokens', htokens', hrecast⟩ := tokenize_withReturns htokens (hstrings tokens htokens)
  have hends := endsOnce_tokenize htokens'
  obtain ⟨other, hforms, hlooks⟩ :=
    (forms_of_parse (endsOnce_tokenize htokens) hprogram).recast hends hrecast
  refine compile_eq_ok_iff.mpr ⟨other, other.listing, ⟨tokens', htokens', ?_, ?_⟩, ?_⟩
  · exact parse_of_forms hends hforms
  · exact Program.assemble_ok_iff.mpr ⟨hlooks.assembles hforms hassembles, rfl⟩
  · exact hlooks.render_listing.symm

-- An empty comment, and a short body that ends at a comment with an empty line.
def commentedSource : Source where
  name := "commented.ray"
  text := "//\nfunc main()=>exit()/*\n\n*/"

def commentedTokens : List (Located Token) :=
  [⟨⟨⟨0, 1, 1⟩, ⟨2, 1, 3⟩⟩, .comment⟩, ⟨⟨⟨2, 1, 3⟩, ⟨3, 2, 1⟩⟩, .lineEnd⟩,
    ⟨⟨⟨3, 2, 1⟩, ⟨7, 2, 5⟩⟩, .keyword .func⟩, ⟨⟨⟨8, 2, 6⟩, ⟨12, 2, 10⟩⟩, .name "main"⟩,
    ⟨⟨⟨12, 2, 10⟩, ⟨13, 2, 11⟩⟩, .symbol .openParen⟩,
    ⟨⟨⟨13, 2, 11⟩, ⟨14, 2, 12⟩⟩, .symbol .closeParen⟩, ⟨⟨⟨14, 2, 12⟩, ⟨16, 2, 14⟩⟩, .symbol .arrow⟩,
    ⟨⟨⟨16, 2, 14⟩, ⟨20, 2, 18⟩⟩, .keyword .exit⟩, ⟨⟨⟨20, 2, 18⟩, ⟨21, 2, 19⟩⟩, .symbol .openParen⟩,
    ⟨⟨⟨21, 2, 19⟩, ⟨22, 2, 20⟩⟩, .symbol .closeParen⟩,
    ⟨⟨⟨22, 2, 20⟩, ⟨24, 2, 22⟩⟩, .openComment .block⟩, ⟨⟨⟨24, 2, 22⟩, ⟨25, 3, 1⟩⟩, .lineEnd⟩,
    ⟨⟨⟨25, 3, 1⟩, ⟨26, 4, 1⟩⟩, .lineEnd⟩, endAt ⟨28, 4, 3⟩]

def commentedProgram : Program :=
  ⟨[.function ⟨3, 2, 1⟩ "main" [] [.action ⟨16, 2, 14⟩ "main" (.exit .absent)] ⟨[], []⟩], []⟩

theorem tokenize_commented : tokenize commentedSource = .ok commentedTokens := by decide +kernel

theorem compile_commented : compile commentedSource = .ok commentedProgram.listing.render :=
  compile_eq_ok_iff.mpr ⟨commentedProgram, _, ⟨commentedTokens, tokenize_commented, rfl, rfl⟩, rfl⟩

theorem compile_commented_withReturns : compile commentedSource = .ok commentedProgram.listing.render ∧
    compile commentedSource.withReturns = .ok commentedProgram.listing.render := by
  refine ⟨compile_commented, compile_withReturns compile_commented ?_⟩
  intro tokens htokens
  rw [tokenize_commented] at htokens
  cases htokens
  exact List.forall_mem_nil _

end RayCompiler
