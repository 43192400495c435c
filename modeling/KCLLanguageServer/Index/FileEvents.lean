import KCLLanguageServer.Server.Notification

/-! # Deleted and renamed files

`on_did_delete_files` and `on_did_rename_files` take the URI string of each file
as a `Path` (`Path::new(&file.uri)`). A URI the protocol sends is
`file:///...`: as a path it is relative, since it starts with its scheme. So
`Url::from_file_path` of it fails and a deleted file is skipped, and it never
starts with a root path, which is absolute, so a rename rewrites no index. Either
way the word indexes keep every location of the file under its old URI.
-/
namespace KCLLanguageServer

namespace LanguageServerState

theorem onDidDeleteFile_of_relative {file : FileDelete}
    (h : isAbsolute (utf8Bytes file.uri) = false) (st : LanguageServerState) :
    onDidDeleteFile file st = .ok () st := by
  dsimp only [onDidDeleteFile]
  rw [fromFilePath_of_relative h]
  rfl

/-- Deleting files named by `file:` URIs leaves the whole state as it was, every
word index included. -/
theorem onDidDeleteFiles_of_fileUris {files : List FileDelete}
    (h : ∀ file ∈ files, ∃ rest, file.uri = "file:" ++ rest) (st : LanguageServerState) :
    onDidDeleteFiles files st = .ok () st := by
  induction files with
  | nil => rfl
  | cons file rest ih =>
    obtain ⟨s, hs⟩ := h file (List.mem_cons_self _ _)
    have hf := onDidDeleteFile_of_relative (hs ▸ isAbsolute_file s) st
    show (onDidDeleteFile file >>= fun _ => onDidDeleteFiles rest) st = _
    rw [bind_of_ok hf, ih fun f hm => h f (List.mem_cons_of_mem _ hm)]

/-- A root `/w` whose index holds the word `a` in `/w/a.k`. -/
def sampleWordIndexMap : WordIndexMap :=
  ⟨[(⟨"file", "", "/w"⟩, [("a", ⟨⟨"file", "", "/w/a.k"⟩, ⟨⟨0, 0⟩, ⟨0, 1⟩⟩⟩)])], by decide⟩

/-- Deleting `file:///w/a.k`, whose URL is the one the index holds a location in,
keeps that location. -/
theorem deleted_file_stays_indexed :
    Url.fromFilePath (utf8Bytes "/w/a.k") = some ⟨"file", "", "/w/a.k"⟩ ∧
    onDidDeleteFiles [⟨"file:///w/a.k"⟩]
        { LanguageServerState.new ⟨[], none⟩ with wordIndexMap := sampleWordIndexMap } =
      .ok () { LanguageServerState.new ⟨[], none⟩ with wordIndexMap := sampleWordIndexMap } :=
  ⟨rfl, onDidDeleteFiles_of_fileUris (by simp only [List.mem_singleton, forall_eq]; exact ⟨"///w/a.k", rfl⟩) _⟩

theorem renameInRoots_of_relative {oldUri : List UInt8} (newUri : List UInt8)
    (h : isAbsolute oldUri = false)
    {roots : List (Url × WordIndex)} (hroots : ∀ e ∈ roots, isAbsolute (utf8Bytes e.1.path))
    (st : LanguageServerState) :
    renameInRoots oldUri newUri roots st = .ok (roots.map (·.2)) st := by
  induction roots with
  | nil => rfl
  | cons root rest ih =>
    have hk := pathStartsWith_of_relative h (hroots root (List.mem_cons_self _ _))
    have hr : renameInRoot oldUri newUri root.1 root.2 st = .ok root.2 st := by
      simp [renameInRoot, hk]
    show (renameInRoot oldUri newUri root.1 root.2 >>= fun value =>
      renameInRoots oldUri newUri rest >>= fun rest => pure (value :: rest)) st = _
    rw [bind_of_ok hr, bind_of_ok (ih fun e he => hroots e (List.mem_cons_of_mem _ he))]
    rfl

/-- Renaming files named by `file:` URIs never panics, and changes nothing but
the log messages sent: every word index keeps the old URIs. -/
theorem onDidRenameFiles_of_fileUris {files : List FileRename}
    (h : ∀ file ∈ files, ∃ rest, file.oldUri = "file:" ++ rest) (st : LanguageServerState) :
    ∃ s, onDidRenameFiles files st = .ok () { st with sender := s } := by
  induction files generalizing st with
  | nil => exact ⟨st.sender, rfl⟩
  | cons file rest ih =>
    obtain ⟨s, hs⟩ := h file (List.mem_cons_self _ _)
    obtain ⟨s₁, h₁⟩ := logMessage_spec
      s!"on rename file: {debugPath (utf8Bytes file.oldUri)} to {debugPath (utf8Bytes file.newUri)}" st
    have h₂ := renameInRoots_of_relative (utf8Bytes file.newUri) (hs ▸ isAbsolute_file s) st.wordIndexMap.rootsAbsolute { st with sender := s₁ }
    obtain ⟨s₂, h₃⟩ := ih (fun f hm => h f (List.mem_cons_of_mem _ hm)) { st with sender := s₁ }
    refine ⟨s₂, ?_⟩
    show (logMessage _ >>= fun _ => get >>= fun st => renameInRoots _ _ st.wordIndexMap.entries >>=
      fun values => modify (fun st => { st with wordIndexMap := st.wordIndexMap.setValues values }) >>=
        fun _ => onDidRenameFiles rest) st = _
    rw [bind_of_ok h₁, bind_of_ok get_apply, bind_of_ok h₂, bind_of_ok (modify_apply _)]
    simpa only [WordIndexMap.setValues_self] using h₃

/-- Renaming `file:///w/a.k` to `file:///w/b.k` leaves the index with its location
in `/w/a.k`, under the old URI. -/
theorem renamed_file_keeps_old_uri :
    ∃ s, onDidRenameFiles [⟨"file:///w/a.k", "file:///w/b.k"⟩]
        { LanguageServerState.new ⟨[], none⟩ with wordIndexMap := sampleWordIndexMap } =
      .ok () { LanguageServerState.new ⟨[], none⟩ with
        wordIndexMap := sampleWordIndexMap, sender := s } :=
  onDidRenameFiles_of_fileUris
    (by simp only [List.mem_singleton, forall_eq]; exact ⟨"///w/a.k", rfl⟩) _

end LanguageServerState

end KCLLanguageServer
