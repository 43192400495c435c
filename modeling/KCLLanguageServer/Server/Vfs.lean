import KCLLanguageServer.Protocol.Url
import Mathlib.Logic.Function.Basic

/-! # The virtual file system

The `ra_ap_vfs::Vfs` the server keeps its documents in: an interner that gives
every path a stable `FileId`, the contents of each file, and the list of changes
since the last `take_changes`. Paths are interned up to `Path` equality.
-/
namespace KCLLanguageServer

/-- A `FileId`: the index of its path in the interner. -/
abbrev FileId := Nat

/-- An absolute path as the VFS keeps it (`AbsPathBuf`), by its bytes. -/
abbrev VfsPath := List UInt8

/-- File contents as the VFS stores them (`Vec<u8>`): text, or bytes that are
not valid UTF-8. -/
inductive FileContents where
  | text (s : String)
  | binary (bytes : List UInt8)
deriving DecidableEq, Repr

inductive ChangeKind where
  | create | modify | delete
deriving DecidableEq, Repr

structure ChangedFile where
  fileId : FileId
  changeKind : ChangeKind
deriving DecidableEq, Repr

structure Vfs where
  interner : List VfsPath
  data : FileId → Option FileContents
  changes : List ChangedFile
  /-- The interner is a map keyed by `Path`: it holds each path once, up to `Path`
  equality. -/
  interned : interner.Pairwise fun a b => pathEq a b = false

/-- `Vfs::default`. -/
def Vfs.empty : Vfs := ⟨[], fun _ => none, [], .nil⟩

namespace Vfs

def lookup (vfs : Vfs) (path : VfsPath) : Option FileId :=
  vfs.interner.findIdx? (pathEq · path)

theorem interned_append {vfs : Vfs} {path : VfsPath} (h : vfs.lookup path = none) :
    (vfs.interner ++ [path]).Pairwise fun a b => pathEq a b = false := by
  have hnew : ∀ a ∈ vfs.interner, pathEq a path = false := List.findIdx?_eq_none_iff.mp h
  refine List.pairwise_append.mpr ⟨vfs.interned, List.pairwise_singleton _ _, fun a ha b hb => ?_⟩
  rw [List.mem_singleton.mp hb]
  exact hnew a ha

def allocFileId (vfs : Vfs) (path : VfsPath) : FileId × Vfs :=
  match h : vfs.lookup path with
  | some id => (id, vfs)
  | none => (vfs.interner.length,
      { vfs with interner := vfs.interner ++ [path], interned := interned_append h })

/-- The change `set_file_contents` records, if the contents differ. -/
def changeKind? : Option FileContents → Option FileContents → Option ChangeKind
  | none, none => none
  | some old, some new => if old = new then none else some .modify
  | none, some _ => some .create
  | some _, none => some .delete

/-- `Vfs::set_file_contents`: intern the path, and when the contents differ
store them and record the change. -/
def setFileContents (vfs : Vfs) (path : VfsPath) (contents : Option FileContents) : Vfs :=
  let id := (vfs.allocFileId path).1
  let interned := (vfs.allocFileId path).2
  match changeKind? (vfs.data id) contents with
  | none => interned
  | some kind =>
    { interned with data := Function.update vfs.data id contents,
                    changes := vfs.changes ++ [⟨id, kind⟩] }

/-- `Vfs::file_id`: only a file that has contents has an id. -/
def fileId (vfs : Vfs) (path : VfsPath) : Option FileId :=
  (vfs.lookup path).filter fun id => (vfs.data id).isSome

/-- `Vfs::file_contents` (which panics where this is `none`). -/
def fileContents (vfs : Vfs) (id : FileId) : Option FileContents := vfs.data id

def filePath (vfs : Vfs) (id : FileId) : Option VfsPath := vfs.interner[id]?

def takeChanges (vfs : Vfs) : List ChangedFile × Vfs := (vfs.changes, { vfs with changes := [] })

/-- The text the VFS holds for a path, as a compile against the VFS reads it. -/
def readText (vfs : Vfs) (path : VfsPath) : Option String :=
  match (vfs.fileId path).bind vfs.data with
  | some (.text s) => some s
  | _ => none

@[simp] theorem takeChanges_fst (vfs : Vfs) : vfs.takeChanges.1 = vfs.changes := rfl
@[simp] theorem takeChanges_changes (vfs : Vfs) : vfs.takeChanges.2.changes = [] := rfl
@[simp] theorem takeChanges_data (vfs : Vfs) : vfs.takeChanges.2.data = vfs.data := rfl
@[simp] theorem takeChanges_interner (vfs : Vfs) :
    vfs.takeChanges.2.interner = vfs.interner := rfl

theorem takeChanges_of_nil {vfs : Vfs} (h : vfs.changes = []) : vfs.takeChanges.2 = vfs := by
  cases vfs
  subst h
  rfl

theorem allocFileId_interner (vfs : Vfs) (path : VfsPath) :
    ∃ extra, (vfs.allocFileId path).2.interner = vfs.interner ++ extra := by
  unfold allocFileId
  split
  · exact ⟨[], by simp⟩
  · exact ⟨[path], rfl⟩

@[simp] theorem allocFileId_data (vfs : Vfs) (path : VfsPath) :
    (vfs.allocFileId path).2.data = vfs.data := by
  unfold allocFileId; split <;> rfl

@[simp] theorem allocFileId_changes (vfs : Vfs) (path : VfsPath) :
    (vfs.allocFileId path).2.changes = vfs.changes := by
  unfold allocFileId; split <;> rfl

/-- The interner only grows, so a file keeps its path. -/
theorem setFileContents_interner (vfs : Vfs) (path : VfsPath) (c : Option FileContents) :
    ∃ extra, (vfs.setFileContents path c).interner = vfs.interner ++ extra := by
  obtain ⟨extra, h⟩ := allocFileId_interner vfs path
  refine ⟨extra, ?_⟩
  dsimp only [setFileContents]
  split <;> exact h

theorem setFileContents_interner_grows (vfs : Vfs) (path : VfsPath) (c : Option FileContents) :
    vfs.interner <+: (vfs.setFileContents path c).interner := by
  obtain ⟨extra, h⟩ := setFileContents_interner vfs path c
  exact h ▸ List.prefix_append _ _

/-- A file keeps its path in every VFS whose interner extends the one it was
interned in. -/
theorem filePath_of_interner_grows {vfs vfs' : Vfs} (h : vfs.interner <+: vfs'.interner)
    {id : FileId} (hid : id < vfs.interner.length) : vfs'.filePath id = vfs.filePath id := by
  obtain ⟨t, ht⟩ := h
  simp only [filePath, ← ht, List.getElem?_append_left hid]

theorem filePath_setFileContents {vfs : Vfs} {id : FileId} {p : VfsPath}
    (h : vfs.filePath id = some p) (path : VfsPath) (c : Option FileContents) :
    (vfs.setFileContents path c).filePath id = some p := by
  obtain ⟨extra, he⟩ := setFileContents_interner vfs path c
  have hlt : id < vfs.interner.length := (List.getElem?_eq_some_iff.mp h).1
  simp only [filePath, he, List.getElem?_append_left hlt]
  exact h

/-- What `set_file_contents` does to the change list: at most one new change. -/
theorem setFileContents_changes (vfs : Vfs) (path : VfsPath) (c : Option FileContents) :
    (vfs.setFileContents path c).changes = vfs.changes ∨
      ∃ k, (vfs.setFileContents path c).changes =
        vfs.changes ++ [⟨(vfs.allocFileId path).1, k⟩] := by
  dsimp only [setFileContents]
  split
  · exact .inl (allocFileId_changes vfs path)
  · exact .inr ⟨_, rfl⟩

theorem lookup_of_fileId {vfs : Vfs} {path : VfsPath} {id : FileId} (h : vfs.fileId path = some id) :
    vfs.lookup path = some id ∧ (vfs.data id).isSome = true := by
  unfold fileId at h
  cases hl : vfs.lookup path
  · simp [hl] at h
  · simp only [hl, Option.filter, Option.ite_none_right_eq_some, Option.some.injEq] at h
    obtain ⟨hs, rfl⟩ := h
    exact ⟨rfl, hs⟩

theorem lookup_lt {vfs : Vfs} {path : VfsPath} {id : FileId} (h : vfs.lookup path = some id) :
    id < vfs.interner.length :=
  (List.findIdx?_eq_some_iff_getElem.mp h).1

/-- The path interned at a file's id is equal, as a `Path`, to each path that finds it. -/
theorem lookup_spec {vfs : Vfs} {path : VfsPath} {id : FileId} (h : vfs.lookup path = some id) :
    ∃ p, vfs.interner[id]? = some p ∧ pathEq p path = true := by
  obtain ⟨hi, hp, -⟩ := List.findIdx?_eq_some_iff_getElem.mp h
  exact ⟨_, List.getElem?_eq_getElem hi, hp⟩

/-- Two interned paths equal as `Path`s are one entry of the interner. -/
theorem eq_of_pathEq_interner {vfs : Vfs} {i j : FileId} {p q : VfsPath}
    (hi : vfs.interner[i]? = some p) (hj : vfs.interner[j]? = some q) (h : pathEq p q = true) :
    i = j := by
  obtain ⟨hi', rfl⟩ := List.getElem?_eq_some_iff.mp hi
  obtain ⟨hj', rfl⟩ := List.getElem?_eq_some_iff.mp hj
  have hp := List.pairwise_iff_getElem.mp vfs.interned
  rcases Nat.lt_trichotomy i j with hij | rfl | hij
  · simp [hp i j hi' hj' hij] at h
  · rfl
  · rw [pathEq_comm] at h
    simp [hp j i hj' hi' hij] at h

theorem changeKind?_eq_none {old new : Option FileContents} (h : changeKind? old new = none) :
    old = new := by
  unfold changeKind? at h
  split at h
  · rfl
  · split at h
    · subst_vars; rfl
    · cases h
  · cases h
  · cases h

/-- Setting the contents of an interned path changes the contents of its file
and nothing else a rebuilt index reads. -/
theorem setFileContents_of_lookup {vfs : Vfs} {path : VfsPath} {id : FileId}
    (h : vfs.lookup path = some id) (c : Option FileContents) :
    (vfs.setFileContents path c).interner = vfs.interner ∧
      (vfs.setFileContents path c).data = Function.update vfs.data id c := by
  have ha : vfs.allocFileId path = (id, vfs) := by
    unfold allocFileId
    split <;> simp_all
  unfold setFileContents
  rw [ha]
  dsimp only
  split
  · rename_i hk
    exact ⟨rfl, by rw [← changeKind?_eq_none hk, Function.update_eq_self]⟩
  · exact ⟨rfl, rfl⟩

end Vfs

end KCLLanguageServer
