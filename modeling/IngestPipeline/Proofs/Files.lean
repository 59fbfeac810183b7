import IngestPipeline.File

/-! # Reading back what was written

The laws of files: what a file holds after one was written, and what the path that was written leads
to afterwards. They are stated for any **file system**, and they hold for trees of files.

* **`FileSystem`**: files that paths lead to, with reading and writing. What is written can be read
  back, and every other file holds what it held before.
* **`FileTree.content?_put`**: putting a file changes what is at that position and nothing else.
* **`FileTree.walk_eq_file_of_isDirectory_eq`**: the path to a file leads there still, as long as
  the directories are the same.
* **`FileTree.system`**: a tree of files is a file system. -/

namespace IngestPipeline

/-- **A file system**: in each state, paths lead to files, and files hold bytes. A file may be
reached by several paths, and a path may lead to a file that is not there yet. Writing gives the new
state, or none: it succeeds as a whole, or changes nothing. -/
structure FileSystem (σ ι : Type) where
  /-- The file that a path leads to. -/
  file? : σ → String → Option ι
  /-- The bytes of a file that is there. -/
  bytes? : σ → ι → Option ByteArray
  /-- Read the file at a path. -/
  read : σ → String → Except FileError ByteArray
  /-- Write the file at a path. -/
  write : σ → String → ByteArray → Except FileError σ
  /-- What is read at a path are the bytes of the file that it leads to. -/
  read_eq_ok_iff {s : σ} {path : String} {bytes : ByteArray} :
    read s path = .ok bytes ↔ ∃ i, file? s path = some i ∧ bytes? s i = some bytes
  /-- A file that was written is where its path leads, and holds what was written. -/
  file?_of_write {s s' : σ} {path : String} {bytes : ByteArray} :
    write s path bytes = .ok s' →
      ∃ i, file? s path = some i ∧ file? s' path = some i ∧ bytes? s' i = some bytes ∧
        ∀ j, j ≠ i → bytes? s' j = bytes? s j

namespace FileSystem

variable {σ ι : Type} (fs : FileSystem σ ι)

/-- Access to the files of a file system. -/
def access : FileAccess (StateM σ) := .ofState fs.read fs.write

/-- Writing gives the new state, or leaves the state as it is. -/
@[simp] theorem access_write (path : String) (bytes : ByteArray) (s : σ) :
    (fs.access.write path bytes).run s =
      match fs.write s path bytes with
      | .ok s' => (.ok (), s')
      | .error e => (.error e, s) := rfl

/-- A path that was written reads as the bytes that were written. -/
theorem read_of_write {s s' : σ} {path : String} {bytes : ByteArray}
    (h : fs.write s path bytes = .ok s') : fs.read s' path = .ok bytes := by
  obtain ⟨i, -, hfile, hbytes, -⟩ := fs.file?_of_write h
  exact fs.read_eq_ok_iff.2 ⟨i, hfile, hbytes⟩

end FileSystem

namespace FileTree

/-! ### Contents -/

/-- There is nothing below a file. -/
@[simp] theorem content?_file_cons (bytes : ByteArray) (name : String) (names : List String) :
    (FileTree.file bytes).content? (name :: names) = none := rfl

/-- A tree is at its own root. -/
@[simp] theorem content?_file_nil (bytes : ByteArray) :
    (FileTree.file bytes).content? [] = some (.file bytes) := rfl

/-- A directory is at its own root. -/
@[simp] theorem content?_directory_nil (entries : List (String × FileTree)) :
    (FileTree.directory entries).content? [] = some .directory := rfl

/-- The way down from a directory begins with one of its entries. -/
@[simp] theorem content?_directory_cons (entries : List (String × FileTree)) (name : String)
    (names : List String) :
    (FileTree.directory entries).content? (name :: names) =
      (entries.lookup name).bind fun t => t.content? names := rfl

/-- A directory is told by what is at its position. -/
theorem isDirectory_iff {t : FileTree} {position : List String} :
    t.isDirectory position = true ↔ t.content? position = some .directory := by
  unfold isDirectory
  split
  · rename_i h
    rw [h]
    exact ⟨fun _ => rfl, fun _ => rfl⟩
  · rename_i h
    exact ⟨fun hfalse => absurd hfalse Bool.false_ne_true, fun hdirectory => absurd hdirectory h⟩

/-- **Putting a file** into a directory changes what is at its position, and nothing else. -/
theorem content?_put {t : FileTree} {parent : List String} {name : String}
    (hparent : t.content? parent = some .directory)
    (hfile : t.content? (parent ++ [name]) ≠ some .directory) (bytes : ByteArray)
    (position : List String) :
    (t.put bytes (parent ++ [name])).content? position =
      if position = parent ++ [name] then some (.file bytes) else t.content? position := by
  induction parent generalizing t position with
  | nil =>
      cases t with
      | file old => cases hparent
      | directory entries =>
          rw [List.nil_append, put]
          cases position with
          | nil => simp
          | cons first rest =>
              rw [content?_directory_cons, Assoc.lookup_insert, put]
              by_cases hfirst : first = name
              · subst hfirst
                cases rest with
                | nil => simp
                | cons second rest =>
                    -- what was there before is no directory, so there is nothing below it
                    have hnone : (FileTree.directory entries).content? (first :: second :: rest) =
                        none := by
                      rw [content?_directory_cons]
                      cases hentry : entries.lookup first with
                      | none => rfl
                      | some u =>
                          cases u with
                          | file old => rfl
                          | directory inner => simp [hentry] at hfile
                    rw [hnone]
                    simp
              · simp [hfirst]
  | cons head parent ih =>
      cases t with
      | file old => cases hparent
      | directory entries =>
          rw [content?_directory_cons, Option.bind_eq_some_iff] at hparent
          obtain ⟨u, hentry, hu⟩ := hparent
          rw [List.cons_append, content?_directory_cons, hentry, Option.bind_some] at hfile
          rw [List.cons_append, put, hentry, Option.getD_some]
          cases position with
          | nil => simp
          | cons first rest =>
              rw [content?_directory_cons, Assoc.lookup_insert]
              -- the way down to the new file, or a way to another entry
              by_cases hfirst : first = head
              · subst hfirst
                rw [if_pos (beq_self_eq_true first), Option.bind_some, ih hu hfile,
                  content?_directory_cons, hentry, Option.bind_some]
                simp
              · simp [hfirst]

/-- What is no directory has another content. -/
theorem content?_ne_directory {t : FileTree} {position : List String}
    (h : t.isDirectory position = false) : t.content? position ≠ some .directory := by
  intro hcontent
  rw [isDirectory_iff.2 hcontent] at h
  cases h

/-- The bytes of a file are at its position and nowhere else. -/
theorem bytes?_put {t : FileTree} {parent : List String} {name : String}
    (hparent : t.isDirectory parent = true) (hfile : t.isDirectory (parent ++ [name]) = false)
    (bytes : ByteArray) (position : List String) :
    (t.put bytes (parent ++ [name])).bytes? position =
      if position = parent ++ [name] then some bytes else t.bytes? position := by
  unfold bytes?
  rw [content?_put (isDirectory_iff.1 hparent) (content?_ne_directory hfile)]
  by_cases hposition : position = parent ++ [name]
  · rw [if_pos hposition, if_pos hposition]
  · rw [if_neg hposition, if_neg hposition]

/-- Putting a file makes no directory and takes none away. -/
theorem isDirectory_put {t : FileTree} {parent : List String} {name : String}
    (hparent : t.isDirectory parent = true) (hfile : t.isDirectory (parent ++ [name]) = false)
    (bytes : ByteArray) (position : List String) :
    (t.put bytes (parent ++ [name])).isDirectory position = t.isDirectory position := by
  rw [Bool.eq_iff_iff, isDirectory_iff, isDirectory_iff,
    content?_put (isDirectory_iff.1 hparent) (content?_ne_directory hfile)]
  by_cases hposition : position = parent ++ [name]
  · subst hposition
    rw [if_pos rfl]
    exact ⟨(nomatch ·), fun h => absurd h (content?_ne_directory hfile)⟩
  · rw [if_neg hposition]

/-! ### Paths -/

/-- A component leads to the same directory where there are the same directories. -/
theorem enter?_congr {t u : FileTree}
    (h : ∀ position, u.isDirectory position = t.isDirectory position) (position : List String)
    (component : List Char) : u.enter? position component = t.enter? position component := by
  unfold enter?
  dsimp only
  rw [h]

/-- A component that leads to no directory is not the name of one, unless it is too long. -/
theorem isDirectory_of_enter?_eq_none {t : FileTree} {position : List String}
    {component : List Char} (h : t.enter? position component = none)
    (hname : (String.ofList component).utf8ByteSize ≤ maxName) :
    t.isDirectory (position ++ [String.ofList component]) = false := by
  unfold enter? at h
  dsimp only at h
  split at h
  · cases h
  split at h
  · cases h
  split at h
  · cases h
  · rename_i hdirectory
    rw [decide_eq_true hname, Bool.true_and] at hdirectory
    exact Bool.eq_false_iff.2 hdirectory

/-- A component leads to a file if it is the last one, in a directory, and its name is not too
long. -/
theorem arrive_eq_file_iff {t : FileTree} {position file : List String} {component : List Char}
    {last : Bool} :
    t.arrive position component last = .file file ↔
      (String.ofList component).utf8ByteSize ≤ maxName ∧ last = true ∧
        t.isDirectory position = true ∧ position ++ [String.ofList component] = file := by
  unfold arrive
  dsimp only
  by_cases hlong : maxName < (String.ofList component).utf8ByteSize
  · rw [if_pos hlong]
    exact ⟨(nomatch ·), fun h => absurd h.1 (Nat.not_le.2 hlong)⟩
  rw [if_neg hlong]
  cases last with
  | false =>
      rw [Bool.false_and, if_neg Bool.false_ne_true]
      refine ⟨fun h => ?_, fun h => absurd h.2.1 Bool.false_ne_true⟩
      split at h <;> cases h
  | true =>
      rw [Bool.true_and]
      by_cases hdirectory : t.isDirectory position = true
      · rw [if_pos hdirectory, Place.file.injEq]
        exact ⟨fun h => ⟨Nat.not_lt.1 hlong, rfl, hdirectory, h⟩, fun h => h.2.2.2⟩
      · rw [if_neg hdirectory]
        refine ⟨fun h => ?_, fun h => absurd h.2.2.1 hdirectory⟩
        split at h <;> cases h

/-- **A path to a file** leads through a directory, and not to one. -/
theorem of_walk_eq_file {t : FileTree} {position file : List String} {parts : List (List Char)}
    (h : t.walk position parts = .file file) :
    ∃ parent name, file = parent ++ [name] ∧ t.isDirectory parent = true ∧
      t.isDirectory (parent ++ [name]) = false := by
  induction parts generalizing position with
  | nil => cases h
  | cons component rest ih =>
      rw [walk] at h
      cases henter : t.enter? position component with
      | some next =>
          rw [henter] at h
          exact ih h
      | none =>
          rw [henter] at h
          obtain ⟨hname, -, hparent, rfl⟩ := arrive_eq_file_iff.1 h
          exact ⟨position, _, rfl, hparent, isDirectory_of_enter?_eq_none henter hname⟩

/-- **The path to a file leads there still** where there are the same directories. -/
theorem walk_eq_file_of_isDirectory_eq {t u : FileTree}
    (hsame : ∀ position, u.isDirectory position = t.isDirectory position)
    {position file : List String} {parts : List (List Char)}
    (h : t.walk position parts = .file file) : u.walk position parts = .file file := by
  induction parts generalizing position with
  | nil => cases h
  | cons component rest ih =>
      rw [walk] at h ⊢
      rw [enter?_congr hsame]
      cases henter : t.enter? position component with
      | some next =>
          rw [henter] at h
          exact ih h
      | none =>
          rw [henter] at h
          obtain ⟨hname, hlast, hparent, hfile⟩ := arrive_eq_file_iff.1 h
          exact arrive_eq_file_iff.2 ⟨hname, hlast, (hsame position).trans hparent, hfile⟩

/-! ### Reading and writing -/

/-- The file that a path leads to. -/
def file? (here : List String) (t : FileTree) (path : String) : Option (List String) :=
  match locate here t path with
  | .file position => some position
  | _ => none

/-- A path leads to a file if it can be located there. -/
@[simp] theorem file?_eq_some_iff {here : List String} {t : FileTree} {path : String}
    {position : List String} :
    file? here t path = some position ↔ locate here t path = .file position := by
  unfold file?
  cases locate here t path <;> simp

/-- What is read at a path are the bytes of the file that it leads to. -/
theorem read_eq_ok_iff {here : List String} {t : FileTree} {path : String} {bytes : ByteArray} :
    read here t path = .ok bytes ↔
      ∃ position, file? here t path = some position ∧ t.bytes? position = some bytes := by
  unfold read file?
  cases locate here t path with
  | directory => simp
  | nowhere cause => simp
  | file position =>
      dsimp only
      cases hbytes : t.bytes? position <;> simp [hbytes]

/-- **A path can be written** if it leads to the place of a file and does not ask for a
directory. -/
theorem write_eq_ok_iff {here : List String} {t u : FileTree} {path : String}
    {bytes : ByteArray} :
    write here t path bytes = .ok u ↔
      asksForDirectory here t path = false ∧
        ∃ position, locate here t path = .file position ∧ u = t.put bytes position := by
  unfold write
  cases asksForDirectory here t path with
  | true => simp
  | false =>
      rw [if_neg Bool.false_ne_true]
      cases locate here t path with
      | directory => simp
      | nowhere cause => simp
      | file position => simp [eq_comm]

/-- **A file that was written is where its path leads**, and all other files are as they were. -/
theorem file?_of_write {here : List String} {t u : FileTree} {path : String} {bytes : ByteArray}
    (h : write here t path bytes = .ok u) :
    ∃ position, file? here t path = some position ∧ file? here u path = some position ∧
      u.bytes? position = some bytes ∧
        ∀ other, other ≠ position → u.bytes? other = t.bytes? other := by
  obtain ⟨-, position, hlocate, rfl⟩ := write_eq_ok_iff.1 h
  obtain ⟨absolute, parts, hroute, hwalk⟩ : ∃ absolute parts, route path = .ok (absolute, parts) ∧
      t.walk (origin here absolute) parts = .file position := by
    unfold locate at hlocate
    split at hlocate
    · cases hlocate
    · rename_i hroute
      exact ⟨_, _, hroute, hlocate⟩
  obtain ⟨parent, name, rfl, hparent, hfile⟩ := of_walk_eq_file hwalk
  refine ⟨parent ++ [name], file?_eq_some_iff.2 hlocate, ?_, ?_, ?_⟩
  -- writing makes no directory, so the path leads where it led before
  · rw [file?_eq_some_iff, locate, hroute]
    exact walk_eq_file_of_isDirectory_eq (isDirectory_put hparent hfile bytes) hwalk
  · rw [bytes?_put hparent hfile, if_pos rfl]
  · intro other hother
    rw [bytes?_put hparent hfile, if_neg hother]

/-- **A tree of files is a file system**, whatever directory relative paths start from. -/
def system (here : List String) : FileSystem FileTree (List String) where
  file? := file? here
  bytes? := bytes?
  read := read here
  write := write here
  read_eq_ok_iff := read_eq_ok_iff
  file?_of_write := file?_of_write

end FileTree

end IngestPipeline
