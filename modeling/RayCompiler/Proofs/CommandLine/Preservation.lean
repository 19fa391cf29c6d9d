import RayCompiler.Proofs.CommandLine.Theorems

namespace RayCompiler

open CommandLine

-- A path that already has `asm` for its extension.
def HasListingName (path : String) : Prop :=
  ∃ directory stem, IsNamed path directory (stem ++ ".asm") ∧ stem ≠ "" ∧ stem ≠ "."

-- The input has the name of its own listing, and there is a listing.
def FileTree.Overwrites (tree : FileTree) (path : String) : Prop :=
  HasListingName path ∧ ∃ text listing, tree.read path = .ok text.toUTF8 ∧
    compile ⟨path, text⟩ = .ok listing

theorem not_hasTwoDots {stem : String} (hstem : stem ≠ "") (hdot : stem ≠ ".") :
    ¬HasTwoDots (stem ++ ".asm") := by
  rintro ⟨extension, he, hplain⟩
  have hlist : stem.toList ++ ".asm".toList = '.' :: '.' :: extension.toList := by
    simpa using congrArg String.toList he
  match hchars : stem.toList with
  | [] => exact hstem (String.toList_inj.mp hchars)
  | [c] =>
      rw [hchars] at hlist
      refine hdot (String.toList_inj.mp ?_)
      rw [hchars, (List.cons.inj hlist).1]
      rfl
  | c :: next :: rest =>
      rw [hchars] at hlist
      have htail := (List.cons.inj (List.cons.inj hlist).2).2
      rw [← htail] at hplain
      simp at hplain

section Names

variable {path directory name renamed : String}

-- Replacing the extension changes a name unless it is `asm` already.
theorem hasListingName_iff (hnamed : IsNamed path directory name) (hproper : name ≠ ".")
    (hdots : ¬HasTwoDots name) (hrenames : Renames name renamed) :
    HasListingName path ↔ renamed = name := by
  constructor
  · rintro ⟨directory', stem, hnamed', hstem, hdot⟩
    have hname : name = stem ++ "." ++ "asm" := by
      rw [hnamed.name_eq hnamed', String.append_assoc]
      rfl
    have hsame : Renames name (stem ++ ".asm") := by
      rw [hname]
      exact .extension hstem (by decide)
    have hboth := (withListingExtension_eq hnamed hproper hdots hrenames).symm.trans
      (withListingExtension_eq hnamed hproper hdots hsame)
    rw [hnamed.name_eq hnamed']
    simpa using hboth
  · intro he
    cases hrenames with
    | @extension stem extension named last =>
        refine ⟨directory, stem, by rwa [he], named, ?_⟩
        rintro rfl
        exact hdots ⟨extension, rfl, last⟩
    | bare named plain =>
        have hlength := congrArg String.length he
        have hasm : ".asm".length = 4 := rfl
        rw [String.length_append] at hlength
        omega

end Names

namespace FileTree

variable {tree after : FileTree} {path : String} {location place : FileLocation}
  {bytes found : ByteArray}

theorem writable_of_read (hread : tree.read path = .ok bytes) : tree.Writable path := by
  obtain ⟨location, hleads, hentry⟩ := read_ok_iff.mp hread
  exact ⟨location, hleads, by simp [hentry]⟩

-- What is read after a write: the new bytes where they were written, and elsewhere the old ones.
theorem read_of_write (hwrite : tree.write path bytes = .ok after)
    (hpath : tree.LeadsTo path location) {input : String} (hinput : tree.LeadsTo input place) :
    after.read input = .ok found ↔
      if place = location then found = bytes else tree.read input = .ok found := by
  obtain ⟨location', hpath', hentry, rfl⟩ := write_ok_iff.mp hwrite
  have hlocation := hpath.eq hpath'
  subst hlocation
  have hnames := hpath.names_ne_nil
  have hfound : ∀ (tree : FileTree), tree.LeadsTo input place →
      (tree.read input = .ok found ↔ tree.entry? place = some (.file found)) := by
    intro tree hleads
    rw [read_ok_iff]
    constructor
    · rintro ⟨other, hother, hread⟩
      rwa [hleads.eq hother]
    · exact fun hread => ⟨place, hleads, hread⟩
  rw [hfound _ ((leadsTo_put hnames hentry).mpr hinput), hfound _ hinput, lookup_put hnames]
  by_cases he : place = location
  · rw [if_pos he, if_pos he]
    simp [eq_comm]
  · rw [if_neg he, if_neg he]

-- A write in the directory of a file changes that file only under its own name.
theorem read_of_write_beside {directory name other : String} (hnamed : IsNamed path directory name)
    (hother : IsNamed (directory ++ other) directory other) (hread : tree.read path = .ok bytes)
    (hwrite : tree.write (directory ++ other) found = .ok after) (hne : bytes ≠ found) :
    after.read path = .ok bytes ↔ other ≠ name := by
  obtain ⟨place, hleads, _⟩ := read_ok_iff.mp hread
  obtain ⟨location, htarget, _⟩ := write_ok_iff.mp hwrite
  obtain ⟨_, parent, hwalk, hplace⟩ := (leadsTo_iff_of_isNamed hnamed).mp hleads
  obtain ⟨_, parent', hwalk', hlocation⟩ := (leadsTo_iff_of_isNamed hother).mp htarget
  have hparents : parent = parent' := Except.ok.inj (hwalk.symm.trans hwalk')
  have hplaces : place = location ↔ other = name := by
    rw [hplace, hlocation, hparents, FileLocation.enter_inj, eq_comm]
  rw [read_of_write hwrite htarget hleads]
  by_cases he : other = name
  · simp [hplaces, he, hne]
  · simp [hplaces, he, hread]

end FileTree

namespace CommandLine

section Run

variable {conventions : Conventions} {options : Options} {tree : FileTree} {text listing : String}

theorem toUTF8_inj {first second : String} : first.toUTF8 = second.toUTF8 ↔ first = second := by
  simp [String.toByteArray_inj]

theorem not_hasListingName_of_losesName (h : options.LosesName) : ¬HasListingName options.input := by
  obtain ⟨_, directory, name, hnamed, hdots⟩ := h
  rintro ⟨_, stem, hother, hstem, hdot⟩
  rw [hnamed.name_eq hother] at hdots
  exact not_hasTwoDots hstem hdot hdots

-- Whether a default run that gets as far as a listing keeps its input.
theorem read_carryOut_iff (hout : options.output = none)
    (hread : tree.read options.input = .ok text.toUTF8)
    (hcompile : compile ⟨options.input, text⟩ = .ok listing) :
    (carryOut conventions options ⟨options.input, text⟩ tree).2.read options.input =
      tree.read options.input ↔ ¬HasListingName options.input := by
  by_cases hname : options.LosesName
  · obtain ⟨above, hplace, habove⟩ := Options.destination_of_losesName hname
    obtain ⟨error, hresult⟩ := @carryOut_of_not_writable conventions options _ tree _ _ hcompile hplace
      (not_writable_of_losesName habove)
    simp [hresult, not_hasListingName_of_losesName hname]
  · obtain ⟨place, hleads, _⟩ := FileTree.read_ok_iff.mp hread
    obtain ⟨directory, name, hnamed⟩ := hleads.exists_isNamed
    obtain ⟨renamed, hrenames⟩ := exists_renames hnamed.nonempty
    have hdots : ¬HasTwoDots name := fun hdots => hname ⟨hout, directory, name, hnamed, hdots⟩
    have hproper := ((FileTree.leadsTo_iff_of_isNamed hnamed).mp hleads).1
    have hplace := Options.destination_of_meantFor hleads
      (.inr ⟨hout, directory, name, renamed, hnamed, hrenames, rfl⟩) hname
    rw [hasListingName_iff hnamed hproper.1 hdots hrenames]
    cases hwrite : tree.write (directory ++ renamed) listing.toUTF8 with
    | error error =>
        -- The input itself can be written, so the file that cannot has another name.
        have hne : renamed ≠ name := by
          rintro rfl
          rw [← hnamed.eq] at hwrite
          obtain ⟨after, hafter⟩ := FileTree.exists_write_iff.mpr (FileTree.writable_of_read hread)
          cases hwrite.symm.trans hafter
        simp only [carryOut, hcompile, hplace, hwrite]
        simp [hne]
    | ok after =>
        have hchanged : text.toUTF8 ≠ listing.toUTF8 :=
          fun hbytes => compile_ne hcompile (toUTF8_inj.mp hbytes)
        simp only [carryOut, hcompile, hplace, hwrite, hread]
        exact FileTree.read_of_write_beside hnamed (hrenames.isNamed hnamed) hread hwrite hchanged

theorem overwrites_iff (hread : tree.read options.input = .ok text.toUTF8) :
    tree.Overwrites options.input ↔ HasListingName options.input ∧
      ∃ listing, compile ⟨options.input, text⟩ = .ok listing := by
  simp only [FileTree.Overwrites, hread, Except.ok.injEq, toUTF8_inj]
  simp

end Run

-- Without an output in its arguments a run keeps the bytes of its input, unless the input has the name
-- of its own listing and there is one. Without an input it keeps everything.
theorem input_kept_iff (conventions : Conventions) (arguments : List String) (tree : FileTree) :
    (∀ options, conventions.invocation arguments = .run options → options.output = none →
      (((runWith conventions FileTree.store arguments).run tree).2.read options.input =
        tree.read options.input ↔ ¬tree.Overwrites options.input)) ∧
    ((∀ options, conventions.invocation arguments ≠ .run options) →
      ((runWith conventions FileTree.store arguments).run tree).2 = tree) := by
  constructor
  · intro options harguments hout
    cases hdecode : (tree.read options.input).bind decode with
    | error error =>
        have hresult : ((runWith conventions FileTree.store arguments).run tree).2 = tree := by
          rw [runWith, harguments]
          have hrun := runOptions_eq conventions options tree
          rw [hdecode] at hrun
          exact congrArg Prod.snd hrun
        have hnot : ¬tree.Overwrites options.input := by
          rintro ⟨_, text, _, hread, _⟩
          rw [bind_decode_ok_iff.mpr hread] at hdecode
          cases hdecode
        simp [hresult, hnot]
    | ok text =>
        have hread := bind_decode_ok_iff.mp hdecode
        rw [runWith_eq harguments hread, overwrites_iff hread]
        cases hcompile : compile ⟨options.input, text⟩ with
        | error error => simp [carryOut, hcompile]
        | ok listing =>
            rw [read_carryOut_iff hout hread hcompile]
            simp
  · intro h
    cases harguments : conventions.invocation arguments with
    | run options => exact absurd harguments (h options)
    | wrongUsage | version | help =>
        rw [runWith, harguments]
        rfl

theorem kept_sourceTree :
    Invocation.ofArguments exitArguments = .run exitOptions ∧ exitOptions.output = none ∧
      (((run FileTree.store exitArguments).run (exitTree "sub/prog.ray")).2.read "sub/prog.ray" =
        (exitTree "sub/prog.ray").read "sub/prog.ray" ↔
          ¬(exitTree "sub/prog.ray").Overwrites "sub/prog.ray") ∧
      (∀ options, Invocation.ofArguments ["--help"] ≠ .run options) ∧
      ((run FileTree.store ["--help"]).run (exitTree "sub/prog.ray")).2 = exitTree "sub/prog.ray" := by
  have harguments : standard.invocation exitArguments = .run exitOptions := by decide +kernel
  have hhelp : Invocation.ofArguments ["--help"] = .help := by decide +kernel
  have hnot : ∀ options, Invocation.ofArguments ["--help"] ≠ .run options := by simp [hhelp]
  exact ⟨harguments, rfl, (input_kept_iff standard exitArguments _).1 exitOptions harguments rfl,
    hnot, (input_kept_iff standard ["--help"] _).2 hnot⟩

-- A program in a file that is already named as a listing is lost.
theorem overwritten_listingTree :
    Invocation.ofArguments ["a.asm"] = .run ⟨"a.asm", none, []⟩ ∧
      (exitTree "a.asm").read "a.asm" = .ok exitText.toUTF8 ∧
      ((run FileTree.store ["a.asm"]).run (exitTree "a.asm")).2.read "a.asm" =
        .ok exitListing.toUTF8 ∧ exitText.toUTF8 ≠ exitListing.toUTF8 := by
  have harguments : standard.invocation ["a.asm"] = .run ⟨"a.asm", none, []⟩ := by decide +kernel
  have hread : (exitTree "a.asm").read "a.asm" = .ok exitText.toUTF8 := by decide +kernel
  have hcompile : compile ⟨"a.asm", exitText⟩ = .ok exitListing := by decide +kernel
  have hplace : (Options.mk "a.asm" none []).destination = .file "a.asm" := by decide +kernel
  have hwritable := FileTree.writable_of_read hread
  obtain ⟨after, hresult, hdelivered⟩ :=
    @carryOut_of_writable standard ⟨"a.asm", none, []⟩ _ _ _ _ hcompile hplace hwritable
  rw [run, runWith_eq harguments hread, hresult]
  exact ⟨harguments, hread, hdelivered.found, fun hbytes => compile_ne hcompile (toUTF8_inj.mp hbytes)⟩

end CommandLine

end RayCompiler
