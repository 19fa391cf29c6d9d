import RayCompiler.CommandLine.FileTree
import RayCompiler.Proofs.Listing.Domain

namespace RayCompiler

theorem FileLocation.enter_names_ne_nil (location : FileLocation) (name : String) :
    (location.enter name).names ≠ [] := by
  simp [enter]

theorem FileLocation.enter_inj {location : FileLocation} {name other : String} :
    location.enter name = location.enter other ↔ name = other := by
  simp [enter]

namespace FileTree

variable {tree : FileTree} {location : FileLocation} {bytes : ByteArray}

-- An entry at its location, with the new one in place of that of the given location.
def replace (location : FileLocation) (entry : FileEntry) (pair : FileLocation × FileEntry) :
    FileLocation × FileEntry :=
  if pair.1 = location then (pair.1, entry) else pair

@[simp] theorem replace_fst (location : FileLocation) (entry : FileEntry)
    (pair : FileLocation × FileEntry) : (replace location entry pair).1 = pair.1 := by
  unfold replace
  split <;> rfl

theorem put_eq (tree : FileTree) (location : FileLocation) (entry : FileEntry) :
    tree.put location entry =
      if tree.entries.any (·.1 == location) then ⟨tree.entries.map (replace location entry)⟩
      else ⟨tree.entries ++ [(location, entry)]⟩ := rfl

-- A location that is given an entry has it, and every other one keeps its own.
theorem lookup_put (h : location.names ≠ []) (entry : FileEntry) (other : FileLocation) :
    FileTree.entry? (tree.put location entry) other =
      if other = location then some entry else tree.entry? other := by
  by_cases hother : other.names = []
  · have hne : other ≠ location := fun he => h (he ▸ hother)
    simp [hother, hne, entry?]
  simp only [hother, if_false, put_eq, entry?]
  have hkeys : (·.1 == other) ∘ replace location entry = (·.1 == other) := by
    funext pair
    simp
  by_cases hany : tree.entries.any (·.1 == location)
  · rw [if_pos hany, List.find?_map, hkeys]
    cases hfind : tree.entries.find? (·.1 == other) with
    | none =>
        have hne : other ≠ location := by
          rintro rfl
          obtain ⟨pair, hm, hpair⟩ := List.any_eq_true.mp hany
          exact List.find?_eq_none.mp hfind pair hm hpair
        simp [hne]
    | some pair =>
        have hpair : pair.1 = other := by simpa using List.find?_some hfind
        by_cases he : other = location <;> simp [replace, hpair, he]
  · have hnone : tree.entries.find? (·.1 == location) = none :=
      List.find?_eq_none.mpr fun pair hm hpair => hany (List.any_eq_true.mpr ⟨pair, hm, hpair⟩)
    rw [if_neg hany, List.find?_append]
    by_cases he : other = location
    · subst he
      simp [hnone]
    · have hlast : [(location, entry)].find? (·.1 == other) = none := by simp [Ne.symm he]
      simp [hlast, he]

-- Where a path leads to, if a file can be there: down the directories to a name that is none.
inductive LeadsTo (tree : FileTree) (path : String) : FileLocation → Prop where
  | file {directories : List String} {directory : FileLocation} {name : String}
      (names : pathNames path = directories ++ [name]) (walk : tree.walk directories = .ok directory)
      (proper : name ≠ "." ∧ name ≠ "..") (ends : path.toList.getLast? ≠ some '/') :
      tree.LeadsTo path (directory.enter name)

theorem LeadsTo.names_ne_nil {path : String} (h : tree.LeadsTo path location) :
    location.names ≠ [] := by
  cases h
  exact FileLocation.enter_names_ne_nil _ _

theorem LeadsTo.eq {path : String} {other : FileLocation} (h : tree.LeadsTo path location)
    (h' : tree.LeadsTo path other) : location = other := by
  obtain ⟨names, walk, _, _⟩ := h
  obtain ⟨names', walk', _, _⟩ := h'
  obtain ⟨rfl, hname⟩ := List.append_inj' (names.symm.trans names') rfl
  rw [walk] at walk'
  cases walk'
  cases hname
  rfl

theorem leadsTo_iff {path : String} : tree.LeadsTo path location ↔
    ∃ parts directory, PathParts.ofString? path = some parts ∧
      tree.walk parts.directories = .ok directory ∧ parts.target? directory = some location ∧
      parts.slash = false := by
  constructor
  · intro h
    cases h with
    | @file directories directory name names walk proper ends =>
        refine ⟨⟨directories, name, path.toList.getLast? == some '/'⟩, directory, ?_, walk, ?_, ?_⟩
        · rw [PathParts.ofString?, names, List.getLast?_concat, List.dropLast_concat]
        · simp [PathParts.target?, proper]
        · simpa using ends
  · rintro ⟨parts, directory, hparts, hwalk, htarget, hslash⟩
    simp only [PathParts.ofString?] at hparts
    split at hparts
    · next last hlast =>
        cases hparts
        unfold PathParts.target? at htarget
        split at htarget
        · cases htarget
        · next hproper =>
            cases htarget
            refine .file (List.dropLast_append_getLast? last hlast).symm hwalk (not_or.mp hproper) ?_
            simpa using hslash
    · cases hparts

-- Reading and writing both go down a path first, and neither goes on behind a slash.
theorem reach_ok_iff {α : Type} {path : String} {result : α}
    {next : PathParts → FileLocation → Except FileError α} {condition : FileLocation → Prop}
    (h : ∀ parts target, next parts target = .ok result ↔ parts.slash = false ∧ condition target) :
    (do
      let some parts := PathParts.ofString? path | throw FileError.notFound
      let directory ← tree.walk parts.directories
      let some target := parts.target? directory | throw FileError.isDirectory
      next parts target : Except FileError α) = .ok result ↔
    ∃ location, tree.LeadsTo path location ∧ condition location := by
  simp only [leadsTo_iff]
  cases PathParts.ofString? path with
  | none => simp [except_throw_ne_ok]
  | some parts =>
      rw [except_bind_eq_ok]
      constructor
      · rintro ⟨directory, hwalk, hnext⟩
        cases htarget : parts.target? directory with
        | none =>
            rw [htarget] at hnext
            cases hnext
        | some target =>
            rw [htarget] at hnext
            obtain ⟨hslash, hcondition⟩ := (h parts target).mp hnext
            exact ⟨target, ⟨parts, directory, rfl, hwalk, htarget, hslash⟩, hcondition⟩
      · rintro ⟨target, ⟨_, directory, ⟨⟩, hwalk, htarget, hslash⟩, hcondition⟩
        refine ⟨directory, hwalk, ?_⟩
        rw [htarget]
        exact (h parts target).mpr ⟨hslash, hcondition⟩

theorem read_ok_iff {path : String} : tree.read path = .ok bytes ↔
    ∃ location, tree.LeadsTo path location ∧ tree.entry? location = some (.file bytes) := by
  unfold read
  apply reach_ok_iff
  intro parts target
  cases tree.entry? target with
  | none => simp [except_throw_ne_ok]
  | some entry =>
      cases entry with
      | directory => simp [except_throw_ne_ok]
      | file found => cases parts.slash <;> simp [except_throw_ne_ok, pure, Except.pure]

theorem write_ok_iff {path : String} {after : FileTree} : tree.write path bytes = .ok after ↔
    ∃ location, tree.LeadsTo path location ∧ tree.entry? location ≠ some .directory ∧
      after = tree.put location (.file bytes) := by
  unfold write
  apply reach_ok_iff
  intro parts target
  cases parts.slash with
  | true =>
      refine ⟨fun h => ?_, fun h => nomatch h.1⟩
      cases h
  | false =>
      cases tree.entry? target with
      | none => simp [except_pure_eq_ok]
      | some entry =>
          cases entry with
          | directory => simp [except_throw_ne_ok]
          | file found => simp [except_pure_eq_ok]

-- A new file stands in no way: it takes the place of a file or of nothing.
theorem step_put (hnames : location.names ≠ []) (h : tree.entry? location ≠ some .directory)
    {here next : FileLocation} {name : String} :
    (tree.put location (.file bytes)).step here name = .ok next ↔ tree.step here name = .ok next := by
  unfold step
  by_cases hdot : name = "."
  · simp [hdot]
  by_cases hdots : name = ".."
  · simp [hdots]
  simp only [hdot, hdots, if_false, lookup_put hnames]
  by_cases he : here.enter name = location
  · subst he
    simp only [if_true]
    cases hentry : tree.entry? (here.enter name) with
    | none => simp
    | some entry =>
        cases entry with
        | file => simp
        | directory => exact absurd hentry h
  · simp only [he, if_false]

theorem walk_put (hnames : location.names ≠ []) (h : tree.entry? location ≠ some .directory)
    {names : List String} {directory : FileLocation} :
    (tree.put location (.file bytes)).walk names = .ok directory ↔
      tree.walk names = .ok directory := by
  unfold walk
  generalize FileLocation.here = start
  induction names generalizing start with
  | nil => rfl
  | cons name more ih =>
      simp only [List.foldlM_cons, except_bind_eq_ok, step_put hnames h, ih]

theorem leadsTo_put (hnames : location.names ≠ []) (h : tree.entry? location ≠ some .directory)
    {path : String} {other : FileLocation} :
    (tree.put location (.file bytes)).LeadsTo path other ↔ tree.LeadsTo path other := by
  constructor
  · rintro ⟨names, walk, proper, ends⟩
    exact ⟨names, (walk_put hnames h).mp walk, proper, ends⟩
  · rintro ⟨names, walk, proper, ends⟩
    exact ⟨names, (walk_put hnames h).mpr walk, proper, ends⟩

end FileTree

end RayCompiler
