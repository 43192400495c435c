import Mathlib.Logic.Basic

/-! # Protocol values exchanged between the client and the language server

The `lsp_types` and `lsp_server` values the server core reads or builds. JSON is
out of scope: every message is a typed value, and a notification or request of a
method the server does not know is kept only by its method name.
-/
namespace KCLLanguageServer

/-- A position in a document, in protocol (line, character) coordinates. -/
structure Position where
  line : Nat
  character : Nat
deriving DecidableEq, Repr

structure Range where
  start : Position
  «end» : Position
deriving DecidableEq, Repr

/-- A parsed URL. `path` is the serialized, percent-encoded path, which is what
`Url::path` returns; two URLs are equal when their serializations are. -/
structure Url where
  scheme : String
  host : String
  path : String
deriving DecidableEq, Repr

structure Location where
  uri : Url
  range : Range
deriving DecidableEq, Repr

structure LocationLink where
  originSelectionRange : Option Range
  targetUri : Url
  targetRange : Range
  targetSelectionRange : Range
deriving DecidableEq, Repr

inductive GotoDefinitionResponse where
  | scalar (loc : Location)
  | array (locs : List Location)
  | link (links : List LocationLink)
deriving DecidableEq, Repr

structure TextEdit where
  range : Range
  newText : String
deriving DecidableEq, Repr

/-- A protocol diagnostic, as built by the resolver's conversion function. -/
structure Diagnostic where
  range : Range
  message : String
deriving DecidableEq, Repr

structure TextDocumentContentChangeEvent where
  range : Option Range
  text : String
deriving DecidableEq, Repr

/-- `FileRename` of `workspace/didRenameFiles`: both URIs are plain strings. -/
structure FileRename where
  oldUri : String
  newUri : String
deriving DecidableEq, Repr

/-- `FileDelete` of `workspace/didDeleteFiles`: the URI is a plain string. -/
structure FileDelete where
  uri : String
deriving DecidableEq, Repr

inductive MessageType where
  | error | warning | info | log
deriving DecidableEq, Repr

inductive RequestId where
  | num (n : Int)
  | str (s : String)
deriving DecidableEq, Repr

/-- Notifications in either direction. `other` is a notification of a method
that no handler of the server takes. -/
inductive Notification where
  | didOpenTextDocument (uri : Url) (text : String)
  | didChangeTextDocument (uri : Url) (contentChanges : List TextDocumentContentChangeEvent)
  | didSaveTextDocument (uri : Url)
  | didCloseTextDocument (uri : Url)
  | didChangeWatchedFiles (changes : List Url)
  | didRenameFiles (files : List FileRename)
  | didDeleteFiles (files : List FileDelete)
  | exit
  | logMessage (typ : MessageType) (message : String)
  | publishDiagnostics (uri : Url) (diagnostics : List Diagnostic) (version : Option Int)
  | other (method : String)
deriving DecidableEq, Repr

def Notification.method : Notification → String
  | .didOpenTextDocument .. => "textDocument/didOpen"
  | .didChangeTextDocument .. => "textDocument/didChange"
  | .didSaveTextDocument .. => "textDocument/didSave"
  | .didCloseTextDocument .. => "textDocument/didClose"
  | .didChangeWatchedFiles .. => "workspace/didChangeWatchedFiles"
  | .didRenameFiles .. => "workspace/didRenameFiles"
  | .didDeleteFiles .. => "workspace/didDeleteFiles"
  | .exit => "exit"
  | .logMessage .. => "window/logMessage"
  | .publishDiagnostics .. => "textDocument/publishDiagnostics"
  | .other method => method

/-- The requests of the server's dispatch table, with their parameters. -/
inductive RequestKind where
  | shutdown
  | gotoDefinition (uri : Url) (position : Position)
  | references (uri : Url) (position : Position) (includeDeclaration : Bool)
  | completion (uri : Url) (position : Position) (triggerCharacter : Option String)
  | hover (uri : Url) (position : Position)
  | documentSymbol (uri : Url)
  | codeAction (uri : Url) (diagnostics : List Diagnostic)
  | formatting (uri : Url)
  | rangeFormatting (uri : Url) (range : Range)
  | other (method : String)
deriving DecidableEq, Repr

def RequestKind.method : RequestKind → String
  | .shutdown => "shutdown"
  | .gotoDefinition .. => "textDocument/definition"
  | .references .. => "textDocument/references"
  | .completion .. => "textDocument/completion"
  | .hover .. => "textDocument/hover"
  | .documentSymbol .. => "textDocument/documentSymbol"
  | .codeAction .. => "textDocument/codeAction"
  | .formatting .. => "textDocument/formatting"
  | .rangeFormatting .. => "textDocument/rangeFormatting"
  | .other method => method

structure Request where
  id : RequestId
  kind : RequestKind
deriving DecidableEq, Repr

def Request.method (r : Request) : String := r.kind.method

/-- `lsp_server::ErrorCode` values the server uses. -/
def ErrorCode.invalidRequest : Int := -32600
def ErrorCode.methodNotFound : Int := -32601
def ErrorCode.internalError : Int := -32603

structure ResponseError where
  code : Int
  message : String
deriving DecidableEq, Repr

/-- Results of the request handlers. Completion, hover, symbol and code-action
results are built by collaborators outside the core and are kept as their JSON text. -/
inductive ResponseValue where
  | null
  | gotoDefinition (res : Option GotoDefinitionResponse)
  | locations (res : Option (List Location))
  | textEdits (res : Option (List TextEdit))
  | json (text : String)
deriving DecidableEq, Repr

/-- The `result` or `error` member of a response. -/
inductive ResponseResult where
  | ok (value : ResponseValue)
  | err (error : ResponseError)
deriving DecidableEq, Repr

structure Response where
  id : RequestId
  result : ResponseResult
deriving DecidableEq, Repr

/-- `Response::new_err`. -/
def Response.newErr (id : RequestId) (code : Int) (message : String) : Response :=
  ⟨id, .err ⟨code, message⟩⟩

inductive Message where
  | request (req : Request)
  | response (resp : Response)
  | notification (not : Notification)
deriving DecidableEq, Repr

/-- `Task`: what background work sends back to the event loop. -/
inductive Task where
  | response (resp : Response)
  | notify (not : Notification)
deriving DecidableEq, Repr

inductive Event where
  | task (task : Task)
  | lsp (msg : Message)
deriving DecidableEq, Repr

end KCLLanguageServer
