import KCLLanguageServer.Server.State

/-! # Notification handlers

The handlers of `notification.rs` and the dispatch of `on_notification`. The
notification dispatcher is not in the sources; it is modelled from the spec.
-/
namespace KCLLanguageServer

namespace LanguageServerState

/-- `IndexSet::insert`: a new element goes last, a present one stays where it is. -/
def indexSetInsert (s : List FileId) (id : FileId) : List FileId :=
  if id ∈ s then s else s ++ [id]

/-- `IndexSet::remove`, which is `swap_remove`: the last element takes the
removed one's place. -/
def indexSetRemove (s : List FileId) (id : FileId) : List FileId :=
  match s.indexOf? id with
  | none => s
  | some i => if i + 1 = s.length then s.dropLast else (s.set i (s.getLast?.getD id)).dropLast

def onDidOpenTextDocument (uri : Url) (text : String) : ServerM Unit := do
  let path ← liftExcept (absPath uri)
  logMessage s!"on did open file: {debugAbsPath path}"
  modify fun st => { st with vfs := st.vfs.setFileContents path (some (.text text)) }
  if let some id := (← get).vfs.fileId path then
    modify fun st => { st with openedFiles := indexSetInsert st.openedFiles id }

def onDidSaveTextDocument (uri : Url) : ServerM Unit := do
  let path ← liftExcept (absPath uri)
  logMessage s!"on did save file: {debugAbsPath path}"

/-- The word-index update of `on_did_change_text_document`: every root whose
path is a prefix of the document's URI path loses the old fragment and gains the
new one. -/
def updateWordIndexOnChange (m : WordIndexMap) (uri : Url) (oldIndex newIndex : WordIndex) :
    WordIndexMap :=
  m.update fun key value =>
    if pathStartsWith (utf8Bytes uri.path) (utf8Bytes key.path) then
      wordIndexAdd (wordIndexSubtract value oldIndex) newIndex
    else value

/-- `String::from_utf8(vfs.file_contents(file_id).to_vec())?`, where
`file_contents` panics on a file without contents. -/
def fileText : Option FileContents → ServerM String
  | some (.text text) => pure text
  | some (.binary _) => throw (.other "invalid utf-8 sequence")
  | none => throw (.panicked "called `Option::unwrap()` on a `None` value")

def onDidChangeTextDocument (env : Env) (uri : Url)
    (contentChanges : List TextDocumentContentChangeEvent) : ServerM Unit := do
  let path ← liftExcept (absPath uri)
  logMessage s!"on did_change file: {debugAbsPath path}"
  let st ← get
  let some fileId := st.vfs.fileId path
    | throw (.other "Already checked that the file_id exists!")
  let text ← fileText (st.vfs.fileContents fileId)
  let oldText := text
  let newText := env.applyDocumentChanges text contentChanges
  modify fun st => { st with vfs := st.vfs.setFileContents path (some (.text newText)) }
  let oldWordIndex := buildWordIndexForFileContent env.wordsOf oldText uri
  let newWordIndex := buildWordIndexForFileContent env.wordsOf newText uri
  modify fun st =>
    { st with wordIndexMap := updateWordIndexOnChange st.wordIndexMap uri oldWordIndex newWordIndex }

def onDidCloseTextDocument (uri : Url) : ServerM Unit := do
  let path ← liftExcept (absPath uri)
  if let some id := (← get).vfs.fileId path then
    modify fun st => { st with openedFiles := indexSetRemove st.openedFiles id }

/-- `on_did_change_watched_files`: each path is handed to the VFS loader. The
loader's messages go to a channel whose receiver `new` drops, so invalidation has
no effect on the state; only an invalid URI stops the loop. -/
def onDidChangeWatchedFiles : List Url → ServerM Unit
  | [] => pure ()
  | uri :: rest => do
    let _ ← liftExcept (absPath uri)
    onDidChangeWatchedFiles rest

/-- The word-index update of `on_did_delete_files` for one file. -/
def removeFileFromWordIndex (m : WordIndexMap) (filePath : List UInt8) (url : Url) : WordIndexMap :=
  m.update fun key value =>
    if pathStartsWith filePath (utf8Bytes key.path) then wordIndexFileRemove value url else value

/-- The loop body of `on_did_delete_files`: the URI string itself is taken as a path. -/
def onDidDeleteFile (file : FileDelete) : ServerM Unit := do
  let filePath := utf8Bytes file.uri
  if let some url := Url.fromFilePath filePath then
    let path ← liftExcept (absPath url)
    logMessage s!"on close file: {debugAbsPath path}"
    modify fun st => { st with wordIndexMap := removeFileFromWordIndex st.wordIndexMap filePath url }

def onDidDeleteFiles : List FileDelete → ServerM Unit
  | [] => pure ()
  | file :: rest => do
    onDidDeleteFile file
    onDidDeleteFiles rest

/-- `Result::unwrap` on the `Result<Url, ()>` of `Url::from_file_path`. -/
def unwrapUrl : Option Url → ServerM Url
  | some u => pure u
  | none => throw (.panicked "called `Result::unwrap()` on an `Err` value: ()")

/-- The loop body over the roots in `on_did_rename_files`: a root whose path is
a prefix of the old URI string unwraps both URLs and rewrites its index. -/
def renameInRoot (oldUri newUri : List UInt8) (key : Url) (value : WordIndex) :
    ServerM WordIndex :=
  if pathStartsWith oldUri (utf8Bytes key.path) then do
    let oldUrl ← unwrapUrl (Url.fromFilePath oldUri)
    let newUrl ← unwrapUrl (Url.fromFilePath newUri)
    pure (wordIndexUrlUpdate value oldUrl newUrl)
  else pure value

/-- The loop over the roots, giving the new index of each root in order. -/
def renameInRoots (oldUri newUri : List UInt8) : List (Url × WordIndex) → ServerM (List WordIndex)
  | [] => pure []
  | (key, value) :: rest => do
    let value ← renameInRoot oldUri newUri key value
    let rest ← renameInRoots oldUri newUri rest
    pure (value :: rest)

def onDidRenameFiles : List FileRename → ServerM Unit
  | [] => pure ()
  | fileRename :: rest => do
    let oldUri := utf8Bytes fileRename.oldUri
    let newUri := utf8Bytes fileRename.newUri
    logMessage s!"on rename file: {debugPath oldUri} to {debugPath newUri}"
    let values ← renameInRoots oldUri newUri (← get).wordIndexMap.entries
    modify fun st => { st with wordIndexMap := st.wordIndexMap.setValues values }
    onDidRenameFiles rest

/-- Modelled from the spec: `dispatcher::NotificationDispatcher` is not in the
sources. A notification goes to the handler of its method, and "a handler
returning an error is surfaced as a log notification to the client and does not
crash the loop"; a failed send of that message propagates, as channel-send
failures do. A panic is not caught. -/
def dispatchNotification (handler : ServerM Unit) : ServerM Unit := fun st =>
  match handler st with
  | .ok _ st' => .ok () st'
  | .error (.panicked message) st' => .error (.panicked message) st'
  | .error e st' => send (.notification (logMessageNotification e.message)) st'

/-- `on_notification`. A notification no handler takes is left alone. -/
def onNotification (env : Env) (notification : Notification) : ServerM Unit := do
  logMessage s!"on notification {notification.method}"
  match notification with
  | .didOpenTextDocument uri text => dispatchNotification (onDidOpenTextDocument uri text)
  | .didChangeTextDocument uri changes =>
    dispatchNotification (onDidChangeTextDocument env uri changes)
  | .didSaveTextDocument uri => dispatchNotification (onDidSaveTextDocument uri)
  | .didCloseTextDocument uri => dispatchNotification (onDidCloseTextDocument uri)
  | .didChangeWatchedFiles changes => dispatchNotification (onDidChangeWatchedFiles changes)
  | .didRenameFiles files => dispatchNotification (onDidRenameFiles files)
  | .didDeleteFiles files => dispatchNotification (onDidDeleteFiles files)
  | _ => pure ()

end LanguageServerState

end KCLLanguageServer
