import RayCompiler.Proofs.CommandLine.Run

namespace RayCompiler

open CommandLine

-- The path of a name with `asm` as its extension, in the same directory.
def ReplacesExtension (path other : String) : Prop :=
  ∃ directory name renamed, IsNamed path directory name ∧ Renames name renamed ∧
    other = directory ++ renamed

-- The file that a listing is meant for: the one asked for, or the one beside the input.
def Options.MeantFor (options : Options) (path : String) : Prop :=
  (options.output = some path ∧ path ≠ "-") ∨
    options.output = none ∧ ReplacesExtension options.input path

-- Without its extension, the name of the input is two dots.
def Options.LosesName (options : Options) : Prop :=
  options.output = none ∧ ∃ directory name, IsNamed options.input directory name ∧ HasTwoDots name

def FileTree.Writable (tree : FileTree) (path : String) : Prop :=
  ∃ location, tree.LeadsTo path location ∧ tree.entry? location ≠ some .directory

-- A listing is in the file that a path leads to, and what is anywhere else is as it was.
structure FileTree.Delivered (tree after : FileTree) (path listing : String) : Prop where
  found : after.read path = .ok listing.toUTF8
  kept : ∀ location, ¬tree.LeadsTo path location → after.entry? location = tree.entry? location

namespace FileTree

variable {tree after : FileTree} {path directory name listing : String} {location : FileLocation}

theorem delivered_of_write (h : tree.write path listing.toUTF8 = .ok after) :
    tree.Delivered after path listing := by
  obtain ⟨location, hleads, hentry, rfl⟩ := write_ok_iff.mp h
  have hnames := hleads.names_ne_nil
  constructor
  · refine read_ok_iff.mpr ⟨location, (leadsTo_put hnames hentry).mpr hleads, ?_⟩
    rw [lookup_put hnames, if_pos rfl]
  · intro other hother
    rw [lookup_put hnames, if_neg]
    rintro rfl
    exact hother hleads

theorem exists_write_iff {bytes : ByteArray} :
    (∃ after, tree.write path bytes = .ok after) ↔ tree.Writable path := by
  simp only [write_ok_iff, Writable]
  constructor
  · rintro ⟨_, location, hleads, hentry, _⟩
    exact ⟨location, hleads, hentry⟩
  · rintro ⟨location, hleads, hentry⟩
    exact ⟨_, location, hleads, hentry, rfl⟩

end FileTree

namespace Options

variable {options : Options} {path : String}

theorem destination_of_meantFor {tree : FileTree} {location : FileLocation}
    (hleads : tree.LeadsTo options.input location) (h : options.MeantFor path)
    (hname : ¬options.LosesName) : options.destination = .file path := by
  rcases h with ⟨hout, hdash⟩ | ⟨hout, directory, name, renamed, hnamed, hrenames, rfl⟩
  · simp [destination, hout, hdash]
  · have hproper := ((FileTree.leadsTo_iff_of_isNamed hnamed).mp hleads).1
    have hdots : ¬HasTwoDots name := fun hdots => hname ⟨hout, directory, name, hnamed, hdots⟩
    have hpath := withListingExtension_eq hnamed hproper.1 hdots hrenames
    have hdash := (hrenames.isNamed hnamed).ne_dash hrenames.ne_dash
    simp [destination, hout, hpath, hdash]

-- The output is then the directory above the one where the input is.
theorem destination_of_losesName (h : options.LosesName) :
    ∃ directory, options.destination = .file (directory ++ "..") ∧
      IsNamed (directory ++ "..") directory ".." := by
  obtain ⟨hout, directory, name, hnamed, hdots⟩ := h
  have hpath := withListingExtension_twoDots hnamed hdots
  have habove : IsNamed (directory ++ "..") directory ".." := hnamed.rename (by decide) (by decide)
  have hdash := habove.ne_dash (by decide)
  refine ⟨directory, ?_, habove⟩
  simp [destination, hout, hpath, hdash]

end Options

namespace CommandLine

section Run

variable {conventions : Conventions} {options : Options} {source : Source} {tree : FileTree}
  {path listing : String}

theorem carryOut_of_writable (hcompile : compile source = .ok listing)
    (hplace : options.destination = .file path) (h : tree.Writable path) :
    ∃ after, carryOut conventions options source tree = (⟨0, "", shown options.dumps source⟩, after) ∧
      tree.Delivered after path listing := by
  obtain ⟨after, hwrite⟩ := FileTree.exists_write_iff.mpr h
  refine ⟨after, ?_, FileTree.delivered_of_write hwrite⟩
  simp only [carryOut, hcompile, hplace, hwrite]

theorem carryOut_of_not_writable (hcompile : compile source = .ok listing)
    (hplace : options.destination = .file path) (h : ¬tree.Writable path) :
    ∃ error, carryOut conventions options source tree =
      (⟨1, "", shown options.dumps source ++ writeFailure conventions path error⟩, tree) := by
  cases hwrite : tree.write path listing.toUTF8 with
  | ok after => exact absurd (FileTree.exists_write_iff.mp ⟨after, hwrite⟩) h
  | error error =>
      refine ⟨error, ?_⟩
      simp only [carryOut, hcompile, hplace, hwrite]

theorem not_writable_of_losesName {directory : String}
    (h : IsNamed (directory ++ "..") directory "..") : ¬tree.Writable (directory ++ "..") := by
  rintro ⟨location, hleads, _⟩
  exact ((FileTree.leadsTo_iff_of_isNamed h).mp hleads).1.2 rfl

theorem runWith_eq {arguments : List String} {text : String}
    (harguments : conventions.invocation arguments = .run options)
    (hread : tree.read options.input = .ok text.toUTF8) :
    (runWith conventions FileTree.store arguments).run tree =
      carryOut conventions options ⟨options.input, text⟩ tree := by
  rw [runWith, harguments]
  exact (runOptions_eq conventions options tree).trans (by rw [bind_decode_ok_iff.mpr hread])

end Run

-- What a run leaves behind, its outcome and the files, is what compiling the text of its input gives.
-- On the way to the listing or the error it shows the representations that are asked for.
structure Agrees (conventions : Conventions) (options : Options) (text : String) (tree : FileTree)
    (result : Outcome × FileTree) : Prop where
  printed : ∀ listing, compile ⟨options.input, text⟩ = .ok listing → options.output = some "-" →
    result = (⟨0, listing, shown options.dumps ⟨options.input, text⟩⟩, tree)
  written : ∀ listing path, compile ⟨options.input, text⟩ = .ok listing → options.MeantFor path →
    tree.Writable path → ¬options.LosesName →
      result.1 = ⟨0, "", shown options.dumps ⟨options.input, text⟩⟩ ∧
        tree.Delivered result.2 path listing
  refused : ∀ listing path, compile ⟨options.input, text⟩ = .ok listing → options.MeantFor path →
    ¬tree.Writable path ∨ options.LosesName → ∃ target error,
      result = (⟨1, "", shown options.dumps ⟨options.input, text⟩ ++
        writeFailure conventions target error⟩, tree)
  failed : ∀ error, compile ⟨options.input, text⟩ = .error error →
    result = (⟨1, "", shown options.dumps ⟨options.input, text⟩ ++
      error.report ⟨options.input, text⟩⟩, tree)

-- What holds of `carryOut` holds of every run whose input is text, however arguments are read: such a
-- run compiles that text.
theorem run_agrees (conventions : Conventions) {arguments : List String} {options : Options}
    {tree : FileTree} {text : String}
    (harguments : conventions.invocation arguments = .run options)
    (hread : tree.read options.input = .ok text.toUTF8) :
    Agrees conventions options text tree
      ((runWith conventions FileTree.store arguments).run tree) := by
  rw [runWith_eq harguments hread]
  obtain ⟨location, hleads, _⟩ := FileTree.read_ok_iff.mp hread
  refine ⟨?_, ?_, ?_, ?_⟩
  · intro listing hcompile hout
    have hplace : options.destination = .standardOutput := by simp [Options.destination, hout]
    simp only [carryOut, hcompile, hplace]
  · intro listing path hcompile hmeant hwritable hname
    have hplace := Options.destination_of_meantFor hleads hmeant hname
    obtain ⟨after, hresult, hdelivered⟩ := carryOut_of_writable hcompile hplace hwritable
    rw [hresult]
    exact ⟨rfl, hdelivered⟩
  · intro listing path hcompile hmeant hrefused
    by_cases hname : options.LosesName
    · obtain ⟨directory, hplace, hnamed⟩ := Options.destination_of_losesName hname
      exact ⟨_, carryOut_of_not_writable hcompile hplace (not_writable_of_losesName hnamed)⟩
    · have hplace := Options.destination_of_meantFor hleads hmeant hname
      exact ⟨path, carryOut_of_not_writable hcompile hplace (hrefused.resolve_right hname)⟩
  · intro error hcompile
    simp only [carryOut, hcompile]

-- The listing of a program that only ends the process.
def exitListing : String :=
  "format ELF64\n\nsection '.text' executable\n\n; --- main ---\npublic main\nmain:\n" ++
    "\tpush    rbp\n\tmov     rbp, rsp\n\t; 1:16\n\tmov     rdi, 0\n\tmov     rax, 60\n\tsyscall\n" ++
    "\txor     eax, eax\n\tmov     rsp, rbp\n\tpop     rbp\n\tret\n"

def exitText : String := "func main() => exit(0)"

-- A tree with one file, whose program only ends the process.
def exitTree (path : String) : FileTree := FileTree.empty.plant path (.file exitText.toUTF8)

def exitArguments : List String := ["--dump", "ast", "sub/prog.ray", "--dump=tokens"]

def exitOptions : Options := ⟨"sub/prog.ray", none, [.tree, .tokens]⟩

-- The listing goes to a file beside the input.
theorem delivered_exitListing :
    Invocation.ofArguments exitArguments = .run exitOptions ∧
      (exitTree "sub/prog.ray").read "sub/prog.ray" = .ok exitText.toUTF8 ∧
      compile ⟨"sub/prog.ray", exitText⟩ = .ok exitListing ∧
      (exitTree "sub/prog.ray").Delivered
        ((run FileTree.store exitArguments).run (exitTree "sub/prog.ray")).2
        "sub/prog.asm" exitListing := by
  have harguments : standard.invocation exitArguments = .run exitOptions := by decide +kernel
  have hread : (exitTree "sub/prog.ray").read "sub/prog.ray" = .ok exitText.toUTF8 := by
    decide +kernel
  have hcompile : compile ⟨"sub/prog.ray", exitText⟩ = .ok exitListing := by decide +kernel
  have hnamed : IsNamed "sub/prog.ray" "sub/" "prog.ray" :=
    ⟨rfl, .inr (by decide), by decide, by decide⟩
  have hrenames : Renames "prog.ray" "prog.asm" :=
    @Renames.extension "prog" "ray" (by decide) (by decide)
  have hleads : (exitTree "sub/prog.ray").LeadsTo "sub/prog.asm" ⟨0, ["sub", "prog.asm"]⟩ :=
    @FileTree.LeadsTo.file _ _ ["sub"] ⟨0, ["sub"]⟩ "prog.asm" (by decide) rfl (by decide) (by decide)
  have hentry : FileTree.entry? (exitTree "sub/prog.ray") ⟨0, ["sub", "prog.asm"]⟩ = none := rfl
  have hname : ¬exitOptions.LosesName := by
    rintro ⟨_, directory, name, hother, extension, rfl, _⟩
    have hfirst := congrArg (·.toList.head?) (hother.name_eq hnamed)
    simp at hfirst
  exact ⟨harguments, hread, hcompile, ((run_agrees standard harguments hread).written exitListing
    "sub/prog.asm" hcompile (.inr ⟨rfl, "sub/", "prog.ray", "prog.asm", hnamed, hrenames, rfl⟩)
    ⟨_, hleads, by simp [hentry]⟩ hname).2⟩

-- A listing meant for `..asm`, which can be written, gets nowhere.
theorem refused_dotsInput :
    Invocation.ofArguments ["..ray"] = .run ⟨"..ray", none, []⟩ ∧
      (exitTree "..ray").read "..ray" = .ok exitText.toUTF8 ∧
      compile ⟨"..ray", exitText⟩ = .ok exitListing ∧
      ReplacesExtension "..ray" "..asm" ∧ (exitTree "..ray").Writable "..asm" ∧
      (run FileTree.store ["..ray"]).run (exitTree "..ray") =
        (⟨1, "", "Error: Failed to emit to file: ..\n\nCaused by:\n    Is a directory (os error 21)\n"⟩,
          exitTree "..ray") := by
  have harguments : standard.invocation ["..ray"] = .run ⟨"..ray", none, []⟩ := by decide +kernel
  have hread : (exitTree "..ray").read "..ray" = .ok exitText.toUTF8 := by decide +kernel
  have hcompile : compile ⟨"..ray", exitText⟩ = .ok exitListing := by decide +kernel
  have hplace : (Options.mk "..ray" none []).destination = .file ".." := by decide +kernel
  have hwrite : (exitTree "..ray").write ".." exitListing.toUTF8 = .error .isDirectory := rfl
  have hentry : FileTree.entry? (exitTree "..ray") ⟨0, ["..asm"]⟩ = none := rfl
  have hnamed : IsNamed "..ray" "" "..ray" := ⟨rfl, .inl rfl, by decide, by decide⟩
  have hrenames : Renames "..ray" "..asm" := @Renames.extension "." "ray" (by decide) (by decide)
  have hleads : (exitTree "..ray").LeadsTo "..asm" ⟨0, ["..asm"]⟩ :=
    @FileTree.LeadsTo.file _ _ [] .here "..asm" (by decide) rfl (by decide) (by decide)
  refine ⟨harguments, hread, hcompile, ⟨"", "..ray", "..asm", hnamed, hrenames, rfl⟩,
    ⟨_, hleads, by simp [hentry]⟩, ?_⟩
  rw [run, runWith_eq harguments hread]
  simp only [carryOut, hcompile, hplace, hwrite]
  rfl

end CommandLine

end RayCompiler
