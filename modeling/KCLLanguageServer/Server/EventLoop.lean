import KCLLanguageServer.Server.Notification
import KCLLanguageServer.Server.Request

/-! # The event loop

`process_vfs_changes`, `handle_diagnostics`, `handle_task`, `handle_event` and
`run` of `state.rs`. The loop takes events in any order from the client and from
its task channel, so a run is a list of events. `Reachable` collects the states in
which the loop takes its next event, with the history of what it compiled.
-/
namespace KCLLanguageServer

namespace LanguageServerState

/-- The compile `process_vfs_changes` makes of one changed file. -/
def compileFile (env : Env) (vfs : Vfs) (id : FileId) : Except String AnalysisDatabase := do
  let filename ← getFileName vfs id
  parseParamAndCompile env filename (some vfs)

/-- The loop body of `process_vfs_changes` for one changed file. -/
def processChangedFile (env : Env) (file : ChangedFile) : ServerM Unit := fun st =>
  match getFileName st.vfs file.fileId with
  | .ok filename =>
    match parseParamAndCompile env filename (some st.vfs) with
    | .ok db => .ok () { st with analysis := st.analysis.setDb file.fileId db }
    | .error _ => logMessage s!"{filename} compilation failed" st
  | .error _ => logMessage s!"FileId({file.fileId}) not found" st

def processChangedFiles (env : Env) : List ChangedFile → ServerM Unit
  | [] => pure ()
  | file :: rest => do
    processChangedFile env file
    processChangedFiles env rest

/-- `process_vfs_changes`: take the changes and recompile every changed file;
`true` when there were changes. -/
def processVfsChanges (env : Env) : ServerM Bool := do
  let changedFiles := (← get).vfs.takeChanges.1
  modify fun st => { st with vfs := st.vfs.takeChanges.2 }
  if changedFiles.isEmpty then
    pure false
  else
    processChangedFiles env changedFiles
    pure true

/-- `handle_task`: a notification is forwarded with the result of its send
dropped; a response goes through `respond`. -/
def handleTask : Task → ServerM Unit
  | .notify notification => discard (send (.notification notification))
  | .response response => respond response

/-- Step 1 of `handle_event`: process the incoming event. -/
def dispatchEvent (env : Env) : Event → ServerM Unit
  | .task task => handleTask task
  | .lsp (.request req) => onRequest req
  | .lsp (.notification notification) => onNotification env notification
  | .lsp (.response _) => pure ()

/-- Steps 2 and 3 of `handle_event`: process the changes, and if there were
any, give a diagnostics job on a snapshot to the thread pool. -/
def handleChanges (env : Env) : ServerM Unit := do
  let stateChanged ← processVfsChanges env
  if stateChanged then
    spawn (.diagnostics (← get).snapshot)

def handleEvent (env : Env) (event : Event) : ServerM Unit := do
  dispatchEvent env event
  handleChanges env

end LanguageServerState

/-- The `Exit` notification, which ends `run` before it is handled. -/
def Event.isExit : Event → Bool
  | .lsp (.notification notification) => notification.method == "exit"
  | _ => false

open LanguageServerState in
/-- `run`: handle events until `Exit`, an error, or the end of the client's messages. -/
def run (env : Env) : List Event → ServerM Unit
  | [] => pure ()
  | event :: rest => if event.isExit then pure () else do
    handleEvent env event
    run env rest

open LanguageServerState in
/-- `run` hands an event that is not `Exit` to `handle_event` and goes on from the
state it leaves. -/
theorem run_cons_of_ok {env : Env} {event : Event} {st st' : LanguageServerState}
    (h : handleEvent env event st = .ok () st') (hexit : event.isExit = false)
    (rest : List Event) : run env (event :: rest) st = run env rest st' := by
  simp only [run, hexit, Bool.false_eq_true, if_false]
  exact bind_of_ok h

/-- `handle_diagnostics`: for each open file in order, publish the diagnostics of
its database; a failed name or URL lookup ends the job. The names and URLs come
from the shared VFS `vfs`. -/
def handleDiagnostics (env : Env) (vfs : Vfs) (snapshot : LanguageServerSnapshot) :
    List FileId → HandlerM Unit
  | [] => pure ()
  | fileId :: rest => do
    let filename ← HandlerM.lift (getFileName vfs fileId)
    let uri ← HandlerM.lift (fileUrl vfs fileId)
    if let some db := snapshot.db fileId then
      let diagnostics := db.diags.flatMap fun diag => env.kclDiagToLspDiags diag filename
      modify (· ++ [.notify (.publishDiagnostics uri diagnostics none)])
    handleDiagnostics env vfs snapshot rest

/-- The tasks a job of the thread pool sends when a worker runs it, reading the
shared VFS as `vfs`. -/
def Job.run (env : Env) (vfs : Vfs) : Job → List Task
  | .diagnostics snapshot =>
    match handleDiagnostics env vfs snapshot snapshot.openedFiles [] with
    | .ok _ tasks => tasks
    | .error _ tasks => tasks
  | .request req snapshot => runRequest env vfs snapshot req

/-- One round of recompilation: the changes an event's handler made and the VFS
they were compiled against. -/
structure Round where
  changed : List ChangedFile
  vfs : Vfs

/-- An event the loop has handled, with its round of recompilation. -/
structure Handled where
  event : Event
  round : Round

open LanguageServerState in
/-- The states in which the loop takes its next event, reached from a new server
whose client connection is `sender`, with the events handled so far. -/
inductive Reachable (env : Env) (sender : Sender) : List Handled → LanguageServerState → Prop
  | new : Reachable env sender [] (LanguageServerState.new sender)
  | handle {hist : List Handled} {st st₁ st' : LanguageServerState} (event : Event)
      (hr : Reachable env sender hist st) (hexit : event.isExit = false)
      (hd : dispatchEvent env event st = .ok () st₁) (hc : handleChanges env st₁ = .ok () st') :
      Reachable env sender (hist ++ [⟨event, st₁.vfs.changes, st₁.vfs⟩]) st'

end KCLLanguageServer
