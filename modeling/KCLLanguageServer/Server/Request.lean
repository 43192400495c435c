import KCLLanguageServer.Server.State

/-! # Request handlers

The handlers of `request.rs`, each run by a worker on a snapshot, and
`on_request`, which runs on the loop. A handler's log messages go to the task
channel, so a handler is a program over the tasks it has sent; its error keeps
the tasks sent before it. The request dispatcher is not in the sources and is
modelled from the spec.
-/
namespace KCLLanguageServer

/-- A request handler run by a worker: it sends tasks and returns a result. -/
abbrev HandlerM := EStateM String (List Task)

namespace HandlerM

def lift {α : Type} : Except String α → HandlerM α
  | .ok a => pure a
  | .error e => throw e

/-- The free `log_message`, whose send to the task channel cannot fail. -/
def logMessage (message : String) : HandlerM Unit :=
  modify (· ++ [.notify (LanguageServerState.logMessageNotification message)])

end HandlerM

/-- A path as `{path}` prints it. -/
def displayPath (p : List UInt8) : String := String.mk (p.map fun b => Char.ofNat b.toNat)

/-- `LanguageServerSnapshot::get_db`, which reads the shared VFS as it is then. -/
def LanguageServerSnapshot.getDb (snapshot : LanguageServerSnapshot) (vfs : Vfs) (path : VfsPath) :
    Except String AnalysisDatabase :=
  match vfs.fileId path with
  | some id =>
    match snapshot.db id with
    | some db => .ok db
    | none => .error s!"Path {displayPath path} AnalysisDatabase not found"
  | none => .error s!"Path {displayPath path} fileId not found"

section Handlers
variable (env : Env) (vfs : Vfs) (snapshot : LanguageServerSnapshot)
open HandlerM

/-- The shape of the position queries: find the file's database, ask the
resolver at the position, and log when it finds nothing. -/
def positionQuery {α : Type} (query : AnalysisDatabase → KclPos → Option α)
    (notFound : String) (uri : Url) (position : Position) : HandlerM (Option α) := do
  let file ← lift (filePathFromUrl uri)
  let path ← lift (absPath uri)
  let db ← lift (snapshot.getDb vfs path)
  let kclPos := env.kclPos file position
  let res := query db kclPos
  if res.isNone then logMessage notFound
  pure res

def handleGotoDefinition (uri : Url) (position : Position) :
    HandlerM (Option GotoDefinitionResponse) :=
  positionQuery env vfs snapshot (fun db pos => env.gotoDefinition db.prog pos db.scope)
    "Definition item not found" uri position

def handleCompletion (uri : Url) (position : Position) (triggerCharacter : Option String) :
    HandlerM (Option String) :=
  positionQuery env vfs snapshot
    (fun db pos => env.completion (triggerCharacter.bind (·.data.head?)) db.prog pos db.scope)
    "Completion item not found" uri position

def handleHover (uri : Url) (position : Position) : HandlerM (Option String) :=
  positionQuery env vfs snapshot (fun db pos => env.hover db.prog pos db.scope)
    "Hover definition not found" uri position

def handleDocumentSymbol (uri : Url) : HandlerM (Option String) := do
  let file ← lift (filePathFromUrl uri)
  let path ← lift (absPath uri)
  let db ← lift (snapshot.getDb vfs path)
  let res := env.documentSymbol file db.prog db.scope
  if res.isNone then logMessage s!"File {file} Document symbol not found"
  pure res

def handleCodeAction (uri : Url) (diagnostics : List Diagnostic) : HandlerM (List String) :=
  pure (env.quickFix uri diagnostics)

/-- `handle_reference`: what `find_references` logs through the sender goes to the
task channel, then its result is returned. -/
def handleReference (uri : Url) (position : Position) (includeDeclaration : Bool) :
    HandlerM (Option (List Location)) := do
  let (messages, result) := env.findReferences uri position includeDeclaration
  messages.forM logMessage
  lift result

/-- `handle_formatting`: the text formatted is the file as it is on disk. A file
the disk does not give fails with the text of the `NotFound` io error. -/
def handleFormatting (uri : Url) : HandlerM (Option (List TextEdit)) := do
  let file ← lift (filePathFromUrl uri)
  let some src := env.readToString (utf8Bytes file)
    | throw "No such file or directory (os error 2)"
  lift (env.format file src none)

/-- `handle_range_formatting`: the text formatted is the contents of the shared VFS. -/
def handleRangeFormatting (uri : Url) (range : Range) : HandlerM (Option (List TextEdit)) := do
  let file ← lift (filePathFromUrl uri)
  let path ← lift (absPath uri)
  let some fileId := vfs.fileId path
    | throw "Already checked that the file_id exists!"
  let text ← match vfs.fileContents fileId with
    | some (.text text) => pure text
    | _ => throw "invalid utf-8 sequence"
  match env.textRangeGet text range with
  | some src => lift (env.format file src (some range))
  | none => pure none

/-- The handler of a request the worker pool runs, with its result as a
response value. -/
def handleRequest : RequestKind → HandlerM ResponseValue
  | .gotoDefinition uri position =>
    .gotoDefinition <$> handleGotoDefinition env vfs snapshot uri position
  | .references uri position includeDeclaration =>
    .locations <$> handleReference env uri position includeDeclaration
  | .completion uri position trigger =>
    (fun r => .json (toString (repr r))) <$> handleCompletion env vfs snapshot uri position trigger
  | .hover uri position =>
    (fun r => .json (toString (repr r))) <$> handleHover env vfs snapshot uri position
  | .documentSymbol uri =>
    (fun r => .json (toString (repr r))) <$> handleDocumentSymbol env vfs snapshot uri
  | .codeAction uri diagnostics =>
    (fun r => .json (toString (repr r))) <$> handleCodeAction env uri diagnostics
  | .formatting uri => .textEdits <$> handleFormatting env uri
  | .rangeFormatting uri range => .textEdits <$> handleRangeFormatting env vfs uri range
  | .shutdown | .other _ => pure .null

/-- Modelled from the spec: the worker closure of `RequestDispatcher::on` is not
in the sources. It runs the handler on the snapshot and sends the result back as a
`Task::Response`; a handler error becomes a log notification and an error response
to the request. `vfs` is the shared VFS as the worker reads it. -/
def runRequest (req : Request) : List Task :=
  match handleRequest env vfs snapshot req.kind [] with
  | .ok value tasks => tasks ++ [.response ⟨req.id, .ok value⟩]
  | .error e tasks =>
    tasks ++ [.notify (LanguageServerState.logMessageNotification e),
      .response (Response.newErr req.id ErrorCode.internalError e)]

end Handlers

namespace LanguageServerState

/-- Modelled from the spec: `dispatcher::RequestDispatcher` is not in the
sources. `on_sync::<Shutdown>` sets the flag and answers on the loop; `on::<R>`
gives the request and a snapshot to a worker; `finish` answers a request of no
known method with a "method not found" error (the spec's "unexpected messages,
surfaced as protocol-level error responses"), dropping the result of that send
since `finish` returns `()`. -/
def dispatchRequest (req : Request) : ServerM Unit :=
  match req.kind with
  | .shutdown => do
    modify fun st => { st with shutdownRequested := true }
    respond ⟨req.id, .ok .null⟩
  | .other _ => discard (respond (Response.newErr req.id ErrorCode.methodNotFound "unknown request"))
  | _ => do spawn (.request req (← get).snapshot)

/-- `on_request`. -/
def onRequest (req : Request) : ServerM Unit := do
  logMessageTask s!"on request {req.method}"
  registerRequest req
  if (← get).shutdownRequested then
    respond (Response.newErr req.id ErrorCode.invalidRequest "shutdown was requested")
  else
    dispatchRequest req

end LanguageServerState

end KCLLanguageServer
