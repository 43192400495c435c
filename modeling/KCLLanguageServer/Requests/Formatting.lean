import KCLLanguageServer.Server.Frames

/-! # Formatting requests

The two formatting handlers differ in where they read the document:
`handle_range_formatting` takes the text from the shared VFS, where the
client's edits are, while `handle_formatting` reads the file from disk with
`std::fs::read_to_string` and never looks at its snapshot. After an edit that is
not saved, a whole-document format is the format of the text on disk, and its
edit replaces the client's buffer with it.
-/
namespace KCLLanguageServer

section Formatting
variable (env : Env)

/-- `handle_range_formatting` formats the range of the text the VFS holds. -/
theorem handleRangeFormatting_of_vfs {vfs : Vfs} {uri : Url}
    {file : String} {path : VfsPath} {id : FileId} {text : String} (range : Range)
    (hfile : filePathFromUrl uri = .ok file) (hpath : absPath uri = .ok path)
    (hid : vfs.fileId path = some id)
    (htext : vfs.fileContents id = some (.text text)) (tasks : List Task) :
    handleRangeFormatting env vfs uri range tasks =
      (match env.textRangeGet text range with
       | some src => HandlerM.lift (env.format file src (some range))
       | none => pure none) tasks := by
  cases hr : env.textRangeGet text range <;>
    simp only [handleRangeFormatting, hfile, hpath, HandlerM.lift, pure_bind, hid, htext, hr]

/-- `handle_formatting` formats the file as it is on disk, whatever the VFS holds:
the answer to a formatting request is the same on every VFS and every snapshot. -/
theorem handleFormatting_of_disk {uri : Url} {file src : String}
    (hfile : filePathFromUrl uri = .ok file) (hdisk : env.readToString (utf8Bytes file) = some src) :
    (∀ tasks, handleFormatting env uri tasks = HandlerM.lift (env.format file src none) tasks) ∧
    ∀ (vfs vfs' : Vfs) (snapshot snapshot' : LanguageServerSnapshot) (id : RequestId),
      runRequest env vfs snapshot ⟨id, .formatting uri⟩ =
        runRequest env vfs' snapshot' ⟨id, .formatting uri⟩ := by
  refine ⟨fun tasks => ?_, fun _ _ _ _ _ => rfl⟩
  simp only [handleFormatting, hfile, HandlerM.lift, pure_bind, hdisk]

end Formatting

/-- A disk that holds `b = 1` for every file, and a formatter that gives back the
text it was given as one edit. -/
def echoFormatEnv : Env :=
  { Env.empty with
    readToString := fun _ => some "b = 1"
    format := fun _ src _ => .ok (some [⟨⟨⟨0, 0⟩, ⟨0, 0⟩⟩, src⟩]) }

open LanguageServerState in
/-- `/w/a.k` opened with the text `a = 1`, which the VFS then holds, is formatted
as `b = 1`, the text on disk. -/
theorem formatting_after_unsaved_open :
    (finalState (onDidOpenTextDocument ⟨"file", "", "/w/a.k"⟩ "a = 1"
        (LanguageServerState.new ⟨[], none⟩))).vfs.readText (utf8Bytes "/w/a.k") = some "a = 1" ∧
    handleFormatting echoFormatEnv ⟨"file", "", "/w/a.k"⟩ [] =
      .ok (some [⟨⟨⟨0, 0⟩, ⟨0, 0⟩⟩, "b = 1"⟩]) [] :=
  ⟨by decide, (handleFormatting_of_disk echoFormatEnv
    (show filePathFromUrl ⟨"file", "", "/w/a.k"⟩ = .ok "/w/a.k" from rfl) rfl).1 []⟩

end KCLLanguageServer
