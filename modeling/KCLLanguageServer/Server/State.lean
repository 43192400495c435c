import KCLLanguageServer.Server.Collaborators

/-! # The state of the language server

`LanguageServerState` of `state.rs` with the operations every handler uses:
`send`, `respond`, `register_request`, `log_message` and `snapshot`. Handlers are
programs in `ServerM`, an `EStateM` over the state: a Rust `?` returns the error
and keeps every change made so far, as `&mut self` methods do.

The client connection is the list of messages the client has received and the
point at which it drops its receiver; the loop thread is the only one that sends
to the client, so this fixes every moment a disconnect can happen.
-/
namespace KCLLanguageServer

structure Sender where
  sent : List Message
  receiverDropsAt : Option Nat

/-- A send succeeds until the client has dropped its receiver. -/
def Sender.connected (s : Sender) : Bool :=
  match s.receiverDropsAt with
  | none => true
  | some n => s.sent.length < n

/-- `ReqQueue::incoming`: the method of each registered request not yet completed
(the receipt time is not modelled). -/
structure ReqQueue where
  incoming : RequestId → Option String

/-- The word index of each package root. Roots are package directories made into
file URLs, so every root's path is absolute. -/
structure WordIndexMap where
  entries : List (Url × WordIndex)
  rootsAbsolute : ∀ e ∈ entries, isAbsolute (utf8Bytes e.1.path)

def WordIndexMap.empty : WordIndexMap := ⟨[], by simp⟩

/-- `for (key, value) in &mut self.word_index_map`: each root's index replaced by
a function of the root and the index. -/
def WordIndexMap.update (m : WordIndexMap) (f : Url → WordIndex → WordIndex) : WordIndexMap :=
  ⟨m.entries.map fun e => (e.1, f e.1 e.2), by
    simp only [List.mem_map]
    rintro _ ⟨e, he, rfl⟩
    exact m.rootsAbsolute e he⟩

@[simp] theorem WordIndexMap.update_entries (m : WordIndexMap) (f : Url → WordIndex → WordIndex) :
    (m.update f).entries = m.entries.map fun e => (e.1, f e.1 e.2) := rfl

/-- The map with the roots in place and new indexes, in root order. -/
def WordIndexMap.setValues (m : WordIndexMap) (values : List WordIndex) : WordIndexMap :=
  ⟨m.entries.zipWith (fun e v => (e.1, v)) values, by
    intro e he
    obtain ⟨i, hi, rfl⟩ := List.getElem_of_mem he
    simp only [List.getElem_zipWith]
    exact m.rootsAbsolute _ (List.getElem_mem _)⟩

/-- Setting every root's index to the one it has changes nothing. -/
theorem WordIndexMap.setValues_self (m : WordIndexMap) : m.setValues (m.entries.map (·.2)) = m := by
  rcases m with ⟨entries, h⟩
  simp only [setValues, mk.injEq]
  clear h
  induction entries with
  | nil => rfl
  | cons e rest ih => simp [ih]

structure Analysis where
  db : FileId → Option AnalysisDatabase

def Analysis.setDb (a : Analysis) (id : FileId) (db : AnalysisDatabase) : Analysis :=
  ⟨Function.update a.db id (some db)⟩

/-- `LanguageServerSnapshot`: copies of the databases, the open files and the word
indexes. Its `vfs` is the loop's `Arc<RwLock<Vfs>>` itself, shared and not copied:
a worker reads the VFS as it is when the job runs, so the VFS is not part of the
snapshot but an argument of the job when a worker runs it (`Job.run`). -/
structure LanguageServerSnapshot where
  db : FileId → Option AnalysisDatabase
  openedFiles : List FileId
  wordIndexMap : WordIndexMap

/-- A closure handed to the thread pool. -/
inductive Job where
  | diagnostics (snapshot : LanguageServerSnapshot)
  | request (req : Request) (snapshot : LanguageServerSnapshot)

structure LanguageServerState where
  sender : Sender
  requestQueue : ReqQueue
  /-- The tasks sent to the loop's own task channel. -/
  taskSender : List Task
  /-- The closures given to the thread pool, oldest first. -/
  threadPool : List Job
  vfs : Vfs
  shutdownRequested : Bool
  analysis : Analysis
  openedFiles : List FileId
  wordIndexMap : WordIndexMap

/-- `LanguageServerState::new`. -/
def LanguageServerState.new (sender : Sender) : LanguageServerState where
  sender := sender
  requestQueue := ⟨fun _ => none⟩
  taskSender := []
  threadPool := []
  vfs := Vfs.empty
  shutdownRequested := false
  analysis := ⟨fun _ => none⟩
  openedFiles := []
  wordIndexMap := WordIndexMap.empty

inductive Error where
  /-- A send on the client channel failed: the client dropped its receiver. -/
  | disconnected
  | other (message : String)
  | panicked (message : String)
deriving DecidableEq, Repr

def Error.message : Error → String
  | .disconnected => "sending on a disconnected channel"
  | .other message => message
  | .panicked message => message

abbrev ServerM := EStateM Error LanguageServerState

/-- A `?` on an `anyhow::Result` computed outside the state. -/
def liftExcept {α : Type} : Except String α → ServerM α
  | .ok a => pure a
  | .error e => throw (.other e)

/-- A call whose `Result` is dropped (`self.send(..);`). -/
def discard (x : ServerM Unit) : ServerM Unit := fun st =>
  match x st with
  | .ok _ st' => .ok () st'
  | .error _ st' => .ok () st'

namespace LanguageServerState

/-- `send`. -/
def send (message : Message) : ServerM Unit := fun st =>
  if st.sender.connected then
    .ok () { st with sender := { st.sender with sent := st.sender.sent ++ [message] } }
  else .error .disconnected st

/-- `respond`: only a registered request is answered, and answering completes it. -/
def respond (response : Response) : ServerM Unit := fun st =>
  match st.requestQueue.incoming response.id with
  | some _ =>
    send (.response response)
      { st with requestQueue := ⟨Function.update st.requestQueue.incoming response.id none⟩ }
  | none => .ok () st

/-- `register_request`. -/
def registerRequest (request : Request) : ServerM Unit := modify fun st =>
  { st with requestQueue :=
      ⟨Function.update st.requestQueue.incoming request.id (some request.method)⟩ }

def logMessageNotification (message : String) : Notification := .logMessage .info message

/-- `log_message` of the state, which drops the result of its send. -/
def logMessage (message : String) : ServerM Unit :=
  discard (send (.notification (logMessageNotification message)))

/-- The free `log_message`, which sends to the task channel; that send cannot fail
while the loop holds the receiver. -/
def logMessageTask (message : String) : ServerM Unit := modify fun st =>
  { st with taskSender := st.taskSender ++ [.notify (logMessageNotification message)] }

/-- `thread_pool.execute`. -/
def spawn (job : Job) : ServerM Unit := modify fun st =>
  { st with threadPool := st.threadPool ++ [job] }

/-- `snapshot`: the VFS is shared with the loop, the rest is cloned. -/
def snapshot (st : LanguageServerState) : LanguageServerSnapshot :=
  ⟨st.analysis.db, st.openedFiles, st.wordIndexMap⟩

end LanguageServerState

/-! ## Running `ServerM` programs -/

section Run
variable {ε σ α β : Type} {x : EStateM ε σ α} {f : α → EStateM ε σ β} {st st' : σ}

theorem bind_of_ok {a : α} (h : x st = .ok a st') : (x >>= f) st = f a st' := by
  show EStateM.bind x f st = _
  simp only [EStateM.bind, h]

theorem bind_of_error {e : ε} (h : x st = .error e st') : (x >>= f) st = .error e st' := by
  show EStateM.bind x f st = _
  simp only [EStateM.bind, h]

/-- A bind that ran to the end ran both of its parts to the end. -/
theorem bind_eq_ok {b : β} {st'' : σ} (h : (x >>= f) st = .ok b st'') :
    ∃ a st', x st = .ok a st' ∧ f a st' = .ok b st'' := by
  cases hx : x st with
  | ok a st' => rw [bind_of_ok hx] at h; exact ⟨a, st', rfl, h⟩
  | error e st' => rw [bind_of_error hx] at h; cases h

@[simp] theorem pure_apply (a : α) : (pure a : EStateM ε σ α) st = .ok a st := rfl

@[simp] theorem modify_apply (g : σ → σ) : (modify g : EStateM ε σ PUnit) st = .ok ⟨⟩ (g st) := rfl

@[simp] theorem get_apply : (get : EStateM ε σ σ) st = .ok st st := rfl

@[simp] theorem modify_bind_apply (g : σ → σ) (f : PUnit → EStateM ε σ β) :
    (modify g >>= f) st = f ⟨⟩ (g st) := rfl

@[simp] theorem get_bind_apply (f : σ → EStateM ε σ β) : (get >>= f) st = f st st := rfl

@[simp] theorem throw_bind_apply (e : ε) (f : α → EStateM ε σ β) :
    (throw e >>= f) st = .error e st := rfl

theorem discard_ok {y : ServerM Unit} {st : LanguageServerState} : ∃ s, discard y st = .ok () s := by
  unfold discard; split <;> exact ⟨_, rfl⟩

/-- `log_message` sends its message while the client is connected, and never fails. -/
theorem LanguageServerState.logMessage_eq (message : String) (st : LanguageServerState) :
    LanguageServerState.logMessage message st = .ok ()
      (if st.sender.connected then
        { st with sender := { st.sender with sent := st.sender.sent ++
            [.notification (LanguageServerState.logMessageNotification message)] } }
      else st) := by
  by_cases h : st.sender.connected <;>
    simp [LanguageServerState.logMessage, discard, LanguageServerState.send, h]

/-- `log_message` changes nothing but the client channel. -/
theorem LanguageServerState.logMessage_spec (message : String) (st : LanguageServerState) :
    ∃ s, LanguageServerState.logMessage message st = .ok () { st with sender := s } := by
  rw [LanguageServerState.logMessage_eq]
  split
  · exact ⟨_, rfl⟩
  · exact ⟨st.sender, rfl⟩

end Run

end KCLLanguageServer
