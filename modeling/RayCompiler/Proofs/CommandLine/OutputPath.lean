import RayCompiler.CommandLine.OutputPath
import RayCompiler.Proofs.CommandLine.FileTree
import RayCompiler.Proofs.Listing.Data

namespace RayCompiler

open Text

-- A path taken apart behind its last slash.
structure IsNamed (path directory name : String) : Prop where
  eq : path = directory ++ name
  closed : directory = "" ∨ directory.toList.getLast? = some '/'
  plain : '/' ∉ name.toList
  nonempty : name ≠ ""

-- A name and the name with `asm` as its extension. An extension is what follows the last dot, unless
-- that dot begins the name.
inductive Renames : String → String → Prop where
  | extension {stem extension : String} (named : stem ≠ "") (last : '.' ∉ extension.toList) :
      Renames (stem ++ "." ++ extension) (stem ++ ".asm")
  | bare {name : String} (named : name ≠ "") (plain : '.' ∉ name.toList.tail) :
      Renames name (name ++ ".asm")

-- Two dots and an extension.
def HasTwoDots (name : String) : Prop :=
  ∃ extension, name = ".." ++ extension ∧ '.' ∉ extension.toList

section Names

variable {path directory name other : String}

theorem IsNamed.pathNames_eq (h : IsNamed path directory name) :
    pathNames path = pathNames directory ++ [name] := by
  have hname : name.toList ≠ [] := by simpa using h.nonempty
  have hlast : ((split '/' name.toList).filter (!·.isEmpty)).map String.ofList = [name] := by
    simp [split_of_notMem h.plain, hname]
  rcases h.closed with hempty | hclosed
  · rw [h.eq, hempty, String.empty_append]
    exact hlast
  · obtain ⟨front, hfront⟩ := List.getLast?_eq_some_iff.mp hclosed
    have hnil : split '/' [] = [[]] := rfl
    rw [pathNames, pathNames, h.eq, String.toList_append, hfront, List.append_assoc,
      List.singleton_append, split_append_mark, split_append_mark, List.filter_append,
      List.filter_append, List.map_append, hlast, hnil]
    simp

theorem IsNamed.ends (h : IsNamed path directory name) : path.toList.getLast? ≠ some '/' := by
  have hname : name.toList ≠ [] := by simpa using h.nonempty
  rw [h.eq, String.toList_append, List.getLast?_append_of_ne_nil _ hname]
  exact fun hlast => h.plain (List.mem_of_getLast? hlast)

theorem IsNamed.rename (h : IsNamed path directory name) (hplain : '/' ∉ other.toList)
    (hother : other ≠ "") : IsNamed (directory ++ other) directory other :=
  ⟨rfl, h.closed, hplain, hother⟩

theorem exists_last_mark {mark : Char} {text : List Char} (h : mark ∈ text) :
    ∃ front back, text = front ++ mark :: back ∧ mark ∉ back := by
  obtain ⟨back, front, hsplit, hback⟩ := List.eq_append_cons_of_mem (List.mem_reverse.mpr h)
  refine ⟨front.reverse, back.reverse, ?_, by simpa using hback⟩
  have htext := congrArg List.reverse hsplit
  simpa using htext

theorem exists_isNamed (hends : path.toList.getLast? ≠ some '/') (hne : path ≠ "") :
    ∃ directory name, IsNamed path directory name := by
  by_cases hslash : '/' ∈ path.toList
  · obtain ⟨front, back, hsplit, hback⟩ := exists_last_mark hslash
    have hpath : path = .ofList (front ++ ['/']) ++ .ofList back := by
      apply String.toList_inj.mp
      simp [hsplit]
    refine ⟨.ofList (front ++ ['/']), .ofList back, hpath, .inr (by simp), by simpa using hback, ?_⟩
    rintro hempty
    refine hends ?_
    rw [hpath, hempty]
    simp
  · exact ⟨"", path, by simp, .inl rfl, hslash, hne⟩

theorem exists_renames (h : name ≠ "") : ∃ other, Renames name other := by
  by_cases hdot : '.' ∈ name.toList.tail
  · obtain ⟨front, back, hsplit, hback⟩ := exists_last_mark hdot
    cases hname : name.toList with
    | nil => simp [hname] at hdot
    | cons c rest =>
        rw [hname, List.tail_cons] at hsplit
        have hparts : name = .ofList (c :: front) ++ "." ++ .ofList back := by
          apply String.toList_inj.mp
          simp [hname, hsplit]
        rw [hparts]
        exact ⟨_, .extension (by simp) (by simpa using hback)⟩
  · exact ⟨_, .bare h hdot⟩

-- A path can only be taken apart in one way.
theorem IsNamed.name_eq {directory' name' : String} (h : IsNamed path directory name)
    (h' : IsNamed path directory' name') : name = name' := by
  have hnames := h.pathNames_eq.symm.trans h'.pathNames_eq
  exact List.singleton_inj.mp (List.append_inj' hnames rfl).2

theorem IsNamed.ne_dash (h : IsNamed path directory name) (hname : name ≠ "-") : path ≠ "-" := by
  rintro rfl
  exact hname (h.name_eq ⟨rfl, .inl rfl, by decide, by decide⟩)

theorem Renames.isNamed (h : Renames name other) (hnamed : IsNamed path directory name) :
    IsNamed (directory ++ other) directory other := by
  have hplain := hnamed.plain
  cases h with
  | extension =>
      simp only [String.toList_append, List.mem_append, not_or] at hplain
      exact hnamed.rename (by simp [hplain.1.1]) (by simp)
  | bare => exact hnamed.rename (by simp [hplain]) (by simp)

theorem Renames.ne_dash (h : Renames name other) : other ≠ "-" := by
  have hends : ∀ stem, stem ++ ".asm" ≠ "-" := by
    intro stem he
    have hlast := congrArg (·.toList.getLast?) he
    simp at hlast
  cases h with
  | extension => exact hends _
  | bare => exact hends _

end Names

namespace FileTree

variable {tree : FileTree} {path directory name : String} {location : FileLocation}

theorem LeadsTo.exists_isNamed (h : tree.LeadsTo path location) :
    ∃ directory name, IsNamed path directory name := by
  cases h with
  | file names _ _ ends =>
      refine RayCompiler.exists_isNamed ends ?_
      rintro rfl
      simp [pathNames, Text.split] at names

theorem leadsTo_iff_of_isNamed (h : IsNamed path directory name) :
    tree.LeadsTo path location ↔ (name ≠ "." ∧ name ≠ "..") ∧
      ∃ place, tree.walk (pathNames directory) = .ok place ∧ location = place.enter name := by
  constructor
  · intro hleads
    cases hleads with
    | @file directories place last names walk proper _ =>
        rw [h.pathNames_eq] at names
        obtain ⟨rfl, hlast⟩ := List.append_inj' names rfl
        rw [List.singleton_inj.mp hlast]
        exact ⟨proper, place, walk, rfl⟩
  · rintro ⟨proper, place, hwalk, rfl⟩
    exact .file h.pathNames_eq hwalk proper h.ends

end FileTree

namespace CommandLine

-- A name and the directory before it, both written backwards.
structure Backwards (name directory : List Char) : Prop where
  plain : '/' ∉ name
  nonempty : name ≠ []
  proper : name ≠ ['.']
  closed : directory = [] ∨ ∃ rest, directory = '/' :: rest

section Backwards

variable {name directory : List Char}

theorem Backwards.trimPath_eq (h : Backwards name directory) :
    trimPath (name ++ directory) = name ++ directory := by
  cases hname : name with
  | nil => exact absurd hname h.nonempty
  | cons c rest =>
      have hplain := h.plain
      rw [hname, List.mem_cons, not_or] at hplain
      rw [List.cons_append, trimPath.eq_def]
      split
      · next heq =>
          cases heq
          exact absurd rfl hplain.1
      · next heq =>
          cases rest with
          | nil =>
              cases heq
              exact absurd hname h.proper
          | cons next more =>
              cases heq
              exact absurd (List.mem_cons_self) hplain.2
      · rfl

theorem Backwards.takeWhile_eq (h : Backwards name directory) :
    (name ++ directory).takeWhile (· != '/') = name := by
  have hall : ∀ c ∈ name, (c != '/') = true := by
    intro c hm
    rw [bne_iff_ne]
    rintro rfl
    exact h.plain hm
  rw [List.takeWhile_append_of_pos hall]
  rcases h.closed with rfl | ⟨rest, rfl⟩ <;> simp

theorem Backwards.dropWhile_eq (h : Backwards name directory) :
    (name ++ directory).dropWhile (· != '/') = directory := by
  have hsplit := List.takeWhile_append_dropWhile (p := (· != '/')) (l := name ++ directory)
  rw [h.takeWhile_eq] at hsplit
  exact List.append_cancel_left hsplit

theorem Backwards.lastName_eq (h : Backwards name directory) :
    lastName (name ++ directory) = name := by
  rw [lastName, h.trimPath_eq, h.takeWhile_eq]

theorem Backwards.setListingExtension_eq (h : Backwards name directory) (hdots : name ≠ ['.', '.']) :
    setListingExtension (name ++ directory) =
      String.ofList (stem name ++ directory).reverse ++ ".asm" := by
  simp only [setListingExtension, h.lastName_eq, h.trimPath_eq, h.dropWhile_eq]
  rw [if_neg]
  simp [h.nonempty, h.proper, hdots]

theorem Backwards.setListingExtension_twoDots (h : Backwards ['.', '.'] directory) :
    setListingExtension (['.', '.'] ++ directory) = String.ofList (directory.reverse ++ ['.', '.']) := by
  simp only [setListingExtension, h.lastName_eq]
  simp

end Backwards

theorem stem_extension {stem extension : List Char} (hstem : stem ≠ []) (h : '.' ∉ extension) :
    CommandLine.extension (extension ++ '.' :: stem) = extension ∧
      CommandLine.stem ('.' :: stem) = stem := by
  have hall : ∀ c ∈ extension, (c != '.') = true := by
    intro c hm
    rw [bne_iff_ne]
    rintro rfl
    exact h hm
  cases stem with
  | nil => exact absurd rfl hstem
  | cons c rest =>
      constructor
      · rw [CommandLine.extension, List.dropWhile_append_of_pos hall, List.takeWhile_append_of_pos hall]
        simp
      · simp [CommandLine.stem]

-- Only a dot at the front of a name, which is the last one backwards, begins no extension.
theorem extension_bare {name : List Char} (h : '.' ∉ name.dropLast) :
    extension name = [] ∧ stem name = name := by
  cases hrest : name.dropWhile (· != '.') with
  | nil => simp [extension, stem, hrest]
  | cons c more =>
      cases more with
      | nil => simp [extension, stem, hrest]
      | cons next others =>
          have hdot : c = '.' := by
            have hhead := List.head?_dropWhile_not (· != '.') name
            simpa [hrest] using hhead
          have hsplit := List.takeWhile_append_dropWhile (p := (· != '.')) (l := name)
          rw [hrest, hdot] at hsplit
          rw [← hsplit, List.dropLast_append_of_ne_nil (by simp)] at h
          simp at h

section Paths

variable {path directory name other : String}

theorem backwards_of_isNamed (h : IsNamed path directory name) (hproper : name ≠ ".") :
    Backwards name.toList.reverse directory.toList.reverse := by
  refine ⟨by simpa using h.plain, by simpa using h.nonempty, ?_, ?_⟩
  · intro hdot
    refine hproper (String.toList_inj.mp ?_)
    simpa using congrArg List.reverse hdot
  · rcases h.closed with rfl | hclosed
    · exact .inl rfl
    · obtain ⟨front, hfront⟩ := List.getLast?_eq_some_iff.mp hclosed
      exact .inr ⟨front.reverse, by simp [hfront]⟩

-- The extension is cut off, and then the dot before it counts as an extension of its own.
theorem withListingExtension_of_extension {stem extension : String}
    (h : IsNamed path directory (stem ++ "." ++ extension)) (named : stem ≠ "")
    (last : '.' ∉ extension.toList) :
    withListingExtension path =
      setListingExtension ((stem ++ ".").toList.reverse ++ directory.toList.reverse) := by
  have hproper : stem ++ "." ++ extension ≠ "." := by
    intro he
    have hlength := congrArg String.length he
    have hstem : stem.length ≠ 0 := by simpa using named
    simp only [String.length_append] at hlength
    have hdot : ".".length = 1 := rfl
    omega
  have hreverse : path.toList.reverse =
      (stem ++ "." ++ extension).toList.reverse ++ directory.toList.reverse := by
    rw [h.eq, String.toList_append, List.reverse_append]
  have hname : (stem ++ "." ++ extension).toList.reverse =
      extension.toList.reverse ++ (stem ++ ".").toList.reverse := by simp
  have hdot : (stem ++ ".").toList.reverse = '.' :: stem.toList.reverse := by simp
  have hextension := (@stem_extension stem.toList.reverse extension.toList.reverse
    (by simpa using named) (by simpa using last)).1
  simp only [withListingExtension, hreverse, (backwards_of_isNamed h hproper).lastName_eq]
  rw [hname, hdot, hextension, List.append_assoc, List.drop_left]

-- The default output of a named file has `asm` for its extension.
theorem withListingExtension_eq (h : IsNamed path directory name) (hproper : name ≠ ".")
    (hdots : ¬HasTwoDots name) (hrenames : Renames name other) :
    withListingExtension path = directory ++ other := by
  cases hrenames with
  | @extension stem extension named last =>
      have hstem : stem ≠ "." := fun he => hdots ⟨extension, by rw [he]; rfl, last⟩
      have hcut : IsNamed (directory ++ (stem ++ ".")) directory (stem ++ ".") := by
        refine h.rename ?_ (by simp)
        have hplain := h.plain
        simp only [String.toList_append, List.mem_append, not_or] at hplain ⊢
        exact hplain.1
      have hback := backwards_of_isNamed hcut (by simpa using named)
      have hdot : (stem ++ ".").toList.reverse = '.' :: stem.toList.reverse := by simp
      have hrest := (@stem_extension stem.toList.reverse extension.toList.reverse
        (by simpa using named) (by simpa using last)).2
      rw [withListingExtension_of_extension h named last, hback.setListingExtension_eq, hdot, hrest]
      · apply String.toList_inj.mp
        simp
      · intro hdotdot
        rw [hdot] at hdotdot
        refine hstem (String.toList_inj.mp ?_)
        simpa using (List.cons.inj hdotdot).2
  | bare named plain =>
      have hback := backwards_of_isNamed h hproper
      have hreverse : path.toList.reverse = name.toList.reverse ++ directory.toList.reverse := by
        rw [h.eq, String.toList_append, List.reverse_append]
      obtain ⟨hextension, hstem⟩ := @extension_bare name.toList.reverse (by simpa using plain)
      simp only [withListingExtension, hreverse, hback.lastName_eq]
      rw [hextension, List.length_nil, List.drop_zero, hback.setListingExtension_eq, hstem]
      · apply String.toList_inj.mp
        simp
      · intro hdotdot
        have hname : name.toList = ['.', '.'] := by simpa using congrArg List.reverse hdotdot
        simp [hname] at plain

-- Without its extension the name is that of the directory above, which has no extension to replace.
theorem withListingExtension_twoDots (h : IsNamed path directory name) (hdots : HasTwoDots name) :
    withListingExtension path = directory ++ ".." := by
  obtain ⟨extension, rfl, last⟩ := hdots
  have hname : ".." ++ extension = "." ++ "." ++ extension := rfl
  rw [hname] at h
  have hcut : IsNamed (directory ++ "..") directory ".." := h.rename (by decide) (by decide)
  have hback := backwards_of_isNamed hcut (by decide)
  have hdot : ("." ++ ".").toList.reverse = ['.', '.'] := rfl
  rw [withListingExtension_of_extension h (by decide) last, hdot, hback.setListingExtension_twoDots]
  apply String.toList_inj.mp
  simp

end Paths

end CommandLine

end RayCompiler
