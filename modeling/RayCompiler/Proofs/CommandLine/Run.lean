import RayCompiler.CommandLine.Run
import RayCompiler.Proofs.CommandLine.OutputPath
import RayCompiler.Proofs.Compilation

namespace RayCompiler

namespace FileTree

variable {α : Type} {path : String} {bytes : ByteArray} {tree after : FileTree} {error : FileError}

theorem store_read_bind (path : String) (next : Except FileError ByteArray → StateM FileTree α)
    (tree : FileTree) : (store.read path >>= next).run tree = (next (tree.read path)).run tree := rfl

theorem store_write_bind_of_ok (h : tree.write path bytes = .ok after)
    (next : Except FileError Unit → StateM FileTree α) :
    (store.write path bytes >>= next).run tree = (next (.ok ())).run after := by
  simp [store, h]

theorem store_write_bind_of_error (h : tree.write path bytes = .error error)
    (next : Except FileError Unit → StateM FileTree α) :
    (store.write path bytes >>= next).run tree = (next (.error error)).run tree := by
  simp [store, h]

end FileTree

namespace CommandLine

-- What a run can show of its source: the tokens, and the tree if the tokens form one.
def shownTokens (source : Source) : String :=
  match tokenize source with
  | .error _ => ""
  | .ok tokens => Dump.tokens source.name tokens ++ "\n"

def shownTree (source : Source) : String :=
  match tokenize source with
  | .error _ => ""
  | .ok tokens =>
    match parse tokens with
    | .error _ => ""
    | .ok program => Dump.program program ++ "\n"

-- The representations asked for, tokens first, as far as they exist.
def shown (dumps : List Representation) (source : Source) : String :=
  (if .tokens ∈ dumps then shownTokens source else "") ++
    if .tree ∈ dumps then shownTree source else ""

theorem build_eq (dumps : List Representation) (source : Source) :
    build dumps source = ⟨shown dumps source, compile source⟩ := by
  unfold build shown shownTokens shownTree compile
  cases htokens : tokenize source with
  | error error => simp [Except.mapError, bind, Except.bind]
  | ok tokens =>
      cases hparse : parse tokens with
      | error error => simp [hparse, Except.mapError, bind, Except.bind]
      | ok program => simp [hparse, Except.mapError, bind, Except.bind]

theorem decode_ok_iff {bytes : ByteArray} {text : String} :
    decode bytes = .ok text ↔ bytes = text.toUTF8 := by
  unfold decode
  constructor
  · intro h
    split at h
    · next found hfound =>
        cases h
        unfold String.fromUTF8? at hfound
        split at hfound
        · cases hfound
          rfl
        · cases hfound
    · cases h
  · rintro rfl
    rw [String.fromUTF8?, String.toUTF8_eq_toByteArray, dif_pos text.isValidUTF8]
    rfl

theorem bind_decode_ok_iff {bytes : Except FileError ByteArray} {text : String} :
    bytes.bind decode = .ok text ↔ bytes = .ok text.toUTF8 := by
  cases bytes with
  | error error => simp [Except.bind]
  | ok bytes => exact decode_ok_iff.trans (by simp)

section Conventions

variable (conventions : Conventions)

-- What a run does with a source it has read.
def carryOut (options : Options) (source : Source) (tree : FileTree) : Outcome × FileTree :=
  match compile source with
  | .error error => (⟨1, "", shown options.dumps source ++ error.report source⟩, tree)
  | .ok listing =>
    match options.destination with
    | .standardOutput => (⟨0, listing, shown options.dumps source⟩, tree)
    | .file path =>
      match tree.write path listing.toUTF8 with
      | .ok after => (⟨0, "", shown options.dumps source⟩, after)
      | .error error => (⟨1, "", shown options.dumps source ++ writeFailure conventions path error⟩, tree)

theorem runOptions_eq (options : Options) (tree : FileTree) :
    (runOptions conventions FileTree.store options).run tree =
      match (tree.read options.input).bind decode with
      | .error error => (⟨1, "", readFailure conventions options.input error⟩, tree)
      | .ok text => carryOut conventions options ⟨options.input, text⟩ tree := by
  rw [runOptions, FileTree.store_read_bind]
  cases (tree.read options.input).bind decode with
  | error error => rfl
  | ok text =>
      simp only [carryOut, build_eq]
      cases compile ⟨options.input, text⟩ with
      | error error => rfl
      | ok listing =>
          cases options.destination with
          | standardOutput => rfl
          | file path =>
              dsimp only
              cases hwrite : tree.write path listing.toUTF8 with
              | ok after =>
                  rw [FileTree.store_write_bind_of_ok hwrite]
                  rfl
              | error error =>
                  rw [FileTree.store_write_bind_of_error hwrite]
                  rfl

end Conventions

end CommandLine

-- No statement of a program begins with a name.
theorem Grammar.not_statementsAt_name {known : KnownNames} {slots later : SlotTable} {span : Span}
    {name : String} {rest : List (Located Token)} {data : List UInt8} {body : List Statement}
    {after : Cursor} :
    ¬StatementsAt known .module slots ⟨⟨span, .name name⟩ :: rest, data⟩ body later after := by
  intro h
  cases h with
  | stop stop => cases stop
  | skip skip =>
      cases skip with
      | module trivia => cases trivia
  | action owner => cases owner

theorem Listing.exists_render_eq (listing : Listing) :
    ∃ more, listing.render = "format " ++ more := by
  refine ⟨"ELF64\n" ++ renderImports listing.imports ++ "\nsection '.text' executable\n" ++
    String.join (listing.blocks.map (·.render)) ++ renderData listing.data, ?_⟩
  unfold render
  simp only [← String.append_assoc]
  rfl

theorem head_of_tokenize {source : Source} {tokens : List (Located Token)} {more : String}
    (htext : source.text = "format " ++ more) (h : tokenize source = .ok tokens) :
    ∃ span rest, tokens = ⟨span, .name "format"⟩ :: rest := by
  have hgap : source.text.toList.dropWhile isGap = 'f' :: ("ormat ".toList ++ more.toList) := by
    rw [htext, String.toList_append]
    rfl
  cases rounds_of_tokensFrom h with
  | ended blank => cases hgap.symm.trans blank
  | read body reading more =>
      rw [hgap] at body
      cases body
      exact ⟨_, _, rfl⟩

-- A listing is no program, so no source is compiled to itself.
theorem compile_ne {source : Source} {listing : String} (h : compile source = .ok listing) :
    source.text ≠ listing := by
  obtain ⟨program, whole, ⟨tokens, htokens, hprogram, _⟩, rfl⟩ := compile_eq_ok_iff.mp h
  intro he
  obtain ⟨more, hmore⟩ := whole.exists_render_eq
  obtain ⟨span, rest, rfl⟩ := head_of_tokenize (he.trans hmore) htokens
  obtain ⟨_, derivation⟩ := (forms_of_parse (endsOnce_tokenize htokens) hprogram).derivation
  exact Grammar.not_statementsAt_name derivation

end RayCompiler
