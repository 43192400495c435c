import KCLLanguageServer.Server.EventLoop

/-! # What each handler can change

A frame is a reflexive and transitive relation between a state and a later one;
a program keeps a frame when every run of it, failed or not, ends in a state
related to its start. Frames are closed under the monad's operations, so each
handler is checked once against the kinds of change it makes, and every
invariant of the loop that tolerates those changes follows.
-/
namespace KCLLanguageServer

/-- The state a run ends in, whether it succeeded or not. -/
def finalState {α : Type} : EStateM.Result Error LanguageServerState α → LanguageServerState
  | .ok _ st => st
  | .error _ st => st

structure Frame where
  rel : LanguageServerState → LanguageServerState → Prop
  refl : ∀ st, rel st st
  trans : ∀ {a b c}, rel a b → rel b c → rel a c

/-- The frame of programs that leave one part of the state alone. -/
def Frame.unchanged {β : Type} (part : LanguageServerState → β) : Frame :=
  ⟨fun a b => part b = part a, fun _ => rfl, fun h₁ h₂ => h₂.trans h₁⟩

/-- The frame of programs that keep an invariant of the state. -/
def Frame.invariant (P : LanguageServerState → Prop) : Frame :=
  ⟨fun a b => P a → P b, fun _ h => h, fun h₁ h₂ h => h₂ (h₁ h)⟩

/-- Every run of `x` ends in a state `F`-related to its start. -/
def Keeps (F : Frame) {α : Type} (x : ServerM α) : Prop := ∀ st, F.rel st (finalState (x st))

namespace Keeps
variable {F : Frame} {α β : Type} {x : ServerM α}

theorem pure' (a : α) : Keeps F (pure a : ServerM α) := fun st => F.refl st

theorem get' : Keeps F (get : ServerM LanguageServerState) := fun st => F.refl st

theorem throw' (e : Error) : Keeps F (throw e : ServerM α) := fun st => F.refl st

theorem modify' {g : LanguageServerState → LanguageServerState} (h : ∀ st, F.rel st (g st)) :
    Keeps F (modify g : ServerM PUnit) := h

theorem bind {f : α → ServerM β} (hx : Keeps F x) (hf : ∀ a, Keeps F (f a)) :
    Keeps F (x >>= f) := by
  intro st
  cases h : x st with
  | ok a st' =>
    rw [bind_of_ok h]
    have := hx st
    rw [h] at this
    exact F.trans this (hf a st')
  | error e st' =>
    rw [bind_of_error h]
    have := hx st
    rwa [h] at this

/-- A program that reads the state keeps `F` when what it goes on with does, run
from the state it read. -/
theorem get_bind {f : LanguageServerState → ServerM β} (h : ∀ st, F.rel st (finalState (f st st))) :
    Keeps F (get >>= f) := h

theorem liftExcept' (r : Except String α) : Keeps F (liftExcept r) := by
  cases r <;> first | exact pure' _ | exact throw' _

theorem discard' {y : ServerM Unit} (h : Keeps F y) : Keeps F (discard y) := by
  intro st
  have := h st
  unfold discard
  split <;> simp_all only [finalState]

end Keeps

/-- The kinds of change a frame tolerates, one field at a time: the ones every
handler makes. The documents change only by `set_file_contents` and
`take_changes`, which never take a path out of the interner. Opening and closing
files, answering requests and spawning diagnostics jobs are asked for where they
happen. -/
structure Frame.Tolerates (F : Frame) : Prop where
  vfs : ∀ st v, st.vfs.interner <+: v.interner → F.rel st { st with vfs := v }
  wordIndexMap : ∀ st w, F.rel st { st with wordIndexMap := w }
  taskSender : ∀ st t, F.rel st { st with taskSender := t }
  spawnRequest : ∀ st req snapshot,
    F.rel st { st with threadPool := st.threadPool ++ [.request req snapshot] }
  notify : ∀ st n, F.rel st
    { st with sender := { st.sender with sent := st.sender.sent ++ [.notification n] } }

/-- The part of `Frame.Tolerates` that the notification handlers and the
recompilation need: they edit the documents and the word indexes and log to the
client, and neither send a task nor give a request to a worker. -/
structure Frame.Edits (F : Frame) : Prop where
  vfs : ∀ st v, st.vfs.interner <+: v.interner → F.rel st { st with vfs := v }
  wordIndexMap : ∀ st w, F.rel st { st with wordIndexMap := w }
  log : ∀ st m, F.rel st { st with sender :=
    { st.sender with sent := st.sender.sent ++
      [.notification (LanguageServerState.logMessageNotification m)] } }

theorem Frame.Tolerates.edits {F : Frame} (h : F.Tolerates) : F.Edits :=
  ⟨h.vfs, h.wordIndexMap, fun st _ => h.notify st _⟩

namespace LanguageServerState

theorem finalState_send (message : Message) (st : LanguageServerState) :
    ∃ s, finalState (send message st) = { st with sender := s } := by
  unfold send
  split
  · exact ⟨_, rfl⟩
  · exact ⟨st.sender, rfl⟩

/-- The notification dispatcher ends where its handler ended, but for the client
channel, on which it logs a handler's error. -/
theorem finalState_dispatchNotification (handler : ServerM Unit) (st : LanguageServerState) :
    ∃ s, finalState (dispatchNotification handler st) =
      { finalState (handler st) with sender := s } := by
  unfold dispatchNotification
  cases handler st with
  | ok _ st' => exact ⟨st'.sender, rfl⟩
  | error e st' =>
    cases e with
    | panicked _ => exact ⟨st'.sender, rfl⟩
    | disconnected | other _ => exact finalState_send _ st'

theorem keeps_sendNotification {F : Frame} {n : Notification} (hn : ∀ st, F.rel st
    { st with sender := { st.sender with sent := st.sender.sent ++ [.notification n] } }) :
    Keeps F (send (.notification n)) := by
  intro st
  unfold send
  split
  · exact hn st
  · exact F.refl st

theorem keeps_logMessage {F : Frame} (hF : F.Edits) (message : String) :
    Keeps F (logMessage message) :=
  Keeps.discard' (keeps_sendNotification (hF.log · message))

variable {F : Frame} (hF : F.Edits)
include hF

theorem keeps_dispatchNotification {handler : ServerM Unit} (h : Keeps F handler) :
    Keeps F (dispatchNotification handler) := by
  intro st
  have hh := h st
  unfold dispatchNotification
  split
  · simpa only [finalState, *] using hh
  · simpa only [finalState, *] using hh
  · rename_i e st' _ he
    rw [he] at hh
    exact F.trans hh (keeps_sendNotification (hF.log · _) st')

section Open
variable (ho : ∀ st o, F.rel st { st with openedFiles := o })
include ho

theorem keeps_onDidOpenTextDocument (uri : Url) (text : String) :
    Keeps F (onDidOpenTextDocument uri text) := by
  unfold onDidOpenTextDocument
  refine .bind (.liftExcept' _) fun _ => .bind (keeps_logMessage hF _) fun _ =>
    .bind (.modify' fun st => hF.vfs st _ (Vfs.setFileContents_interner_grows _ _ _)) fun _ =>
    .bind .get' fun _ => ?_
  split
  · exact .modify' fun st => ho st _
  · exact .pure' _

omit hF in
theorem keeps_onDidCloseTextDocument (uri : Url) : Keeps F (onDidCloseTextDocument uri) := by
  unfold onDidCloseTextDocument
  refine .bind (.liftExcept' _) fun _ => .bind .get' fun _ => ?_
  split
  · exact .modify' fun st => ho st _
  · exact .pure' _

end Open

theorem keeps_onDidSaveTextDocument (uri : Url) : Keeps F (onDidSaveTextDocument uri) :=
  .bind (.liftExcept' _) fun _ => keeps_logMessage hF _

theorem keeps_onDidChangeTextDocument (env : Env) (uri : Url)
    (changes : List TextDocumentContentChangeEvent) :
    Keeps F (onDidChangeTextDocument env uri changes) := by
  unfold onDidChangeTextDocument
  refine .bind (.liftExcept' _) fun _ => .bind (keeps_logMessage hF _) fun _ =>
    .bind .get' fun st => ?_
  split
  · refine .bind ?_ fun _ =>
      .bind (.modify' fun st => hF.vfs st _ (Vfs.setFileContents_interner_grows _ _ _)) fun _ =>
      .modify' fun st => hF.wordIndexMap st _
    unfold fileText
    split <;> first | exact .pure' _ | exact .throw' _
  · exact .throw' _

omit hF in
theorem keeps_onDidChangeWatchedFiles (changes : List Url) :
    Keeps F (onDidChangeWatchedFiles changes) := by
  induction changes with
  | nil => exact .pure' _
  | cons uri rest ih => exact .bind (.liftExcept' _) fun _ => ih

theorem keeps_onDidDeleteFile (file : FileDelete) : Keeps F (onDidDeleteFile file) := by
  dsimp only [onDidDeleteFile]
  split
  · exact .bind (.liftExcept' _) fun _ => .bind (keeps_logMessage hF _) fun _ =>
      .modify' fun st => hF.wordIndexMap st _
  · exact .pure' _

theorem keeps_onDidDeleteFiles (files : List FileDelete) : Keeps F (onDidDeleteFiles files) := by
  induction files with
  | nil => exact .pure' _
  | cons file rest ih => exact .bind (keeps_onDidDeleteFile hF file) fun _ => ih

omit hF in
theorem keeps_unwrapUrl (u : Option Url) : Keeps F (unwrapUrl u) := by
  cases u
  · exact .throw' _
  · exact .pure' _

omit hF in
theorem keeps_renameInRoots (oldUri newUri : List UInt8) (roots : List (Url × WordIndex)) :
    Keeps F (renameInRoots oldUri newUri roots) := by
  induction roots with
  | nil => exact .pure' _
  | cons root rest ih =>
    refine .bind ?_ fun _ => .bind ih fun _ => .pure' _
    unfold renameInRoot
    split
    · exact .bind (keeps_unwrapUrl _) fun _ => .bind (keeps_unwrapUrl _) fun _ => .pure' _
    · exact .pure' _

theorem keeps_onDidRenameFiles (files : List FileRename) : Keeps F (onDidRenameFiles files) := by
  induction files with
  | nil => exact .pure' _
  | cons file rest ih =>
    exact .bind (keeps_logMessage hF _) fun _ => .bind .get' fun _ =>
      .bind (keeps_renameInRoots _ _ _) fun _ => .bind (.modify' fun st => hF.wordIndexMap st _)
        fun _ => ih

/-- Every notification is handled within the changes a tolerating frame allows. -/
theorem keeps_onNotification (ho : ∀ st o, F.rel st { st with openedFiles := o }) (env : Env)
    (notification : Notification) : Keeps F (onNotification env notification) := by
  refine .bind (keeps_logMessage hF _) fun _ => ?_
  cases notification with
  | didOpenTextDocument uri text =>
    exact keeps_dispatchNotification hF (keeps_onDidOpenTextDocument hF ho uri text)
  | didChangeTextDocument uri changes =>
    exact keeps_dispatchNotification hF (keeps_onDidChangeTextDocument hF env uri changes)
  | didSaveTextDocument uri =>
    exact keeps_dispatchNotification hF (keeps_onDidSaveTextDocument hF uri)
  | didCloseTextDocument uri =>
    exact keeps_dispatchNotification hF (keeps_onDidCloseTextDocument ho uri)
  | didChangeWatchedFiles changes =>
    exact keeps_dispatchNotification hF (keeps_onDidChangeWatchedFiles changes)
  | didRenameFiles files => exact keeps_dispatchNotification hF (keeps_onDidRenameFiles hF files)
  | didDeleteFiles files => exact keeps_dispatchNotification hF (keeps_onDidDeleteFiles hF files)
  | exit | logMessage _ _ | publishDiagnostics _ _ _ | other _ => exact .pure' _

/-! ## Requests, tasks and recompilation -/

omit hF in
/-- `respond` keeps a frame that tolerates completing a request and sending on the
client channel. -/
theorem keeps_respond (hq : ∀ st q s, F.rel st { st with requestQueue := q, sender := s })
    (response : Response) : Keeps F (respond response) := by
  intro st
  unfold respond
  split
  · unfold send
    split
    · exact hq st _ _
    · exact hq st _ st.sender
  · exact F.refl st

section Loop
variable (ha : ∀ st a, F.rel st { st with analysis := a })

include ha in
theorem keeps_processChangedFile (env : Env) (file : ChangedFile) :
    Keeps F (processChangedFile env file) := by
  intro st
  unfold processChangedFile
  split
  · split
    · exact ha st _
    · exact keeps_logMessage hF _ st
  · exact keeps_logMessage hF _ st

include ha in
theorem keeps_processVfsChanges (env : Env) : Keeps F (processVfsChanges env) := by
  have hfiles : ∀ files, Keeps F (processChangedFiles env files) := by
    intro files
    induction files with
    | nil => exact .pure' _
    | cons file rest ih => exact .bind (keeps_processChangedFile hF ha env file) fun _ => ih
  unfold processVfsChanges
  refine .bind .get' fun _ => .bind (.modify' fun st => hF.vfs st _ (List.prefix_refl _)) fun _ => ?_
  split
  · exact .pure' _
  · exact .bind (hfiles _) fun _ => .pure' _

include ha in
theorem keeps_handleChanges
    (hdiag : ∀ st, F.rel st { st with threadPool := st.threadPool ++ [.diagnostics st.snapshot] })
    (env : Env) : Keeps F (handleChanges env) := by
  refine .bind (keeps_processVfsChanges hF ha env) fun changed => ?_
  cases changed
  · exact .pure' _
  · exact .get_bind hdiag

end Loop

end LanguageServerState

namespace LanguageServerState
variable {F : Frame} (hF : F.Tolerates)
include hF

theorem keeps_logMessageTask (message : String) : Keeps F (logMessageTask message) :=
  Keeps.modify' fun st => hF.taskSender st _

theorem keeps_spawnRequest (req : Request) (snapshot : LanguageServerSnapshot) :
    Keeps F (spawn (.request req snapshot)) :=
  Keeps.modify' fun st => hF.spawnRequest st req snapshot

section Loop
variable (hresp : ∀ response, Keeps F (respond response))

include hresp in
theorem keeps_handleTask (task : Task) : Keeps F (handleTask task) := by
  cases task with
  | response r => exact hresp r
  | notify n => exact Keeps.discard' (keeps_sendNotification (hF.notify · n))

variable (hs : ∀ st, F.rel st { st with shutdownRequested := true })

include hresp hs in
theorem keeps_dispatchRequest (req : Request) : Keeps F (dispatchRequest req) := by
  unfold dispatchRequest
  split
  · exact .bind (.modify' hs) fun _ => hresp _
  · exact Keeps.discard' (hresp _)
  · exact .bind .get' fun st => keeps_spawnRequest hF req st.snapshot

variable (hreg : ∀ st q, F.rel st { st with requestQueue := q })

include hresp hs hreg in
theorem keeps_onRequest (req : Request) : Keeps F (onRequest req) := by
  refine .bind (keeps_logMessageTask hF _) fun _ =>
    .bind (.modify' fun st => hreg st _) fun _ => .bind .get' fun _ => ?_
  split
  · exact hresp _
  · exact keeps_dispatchRequest hF hresp hs req

include hresp hs hreg in
/-- Step 1 of `handle_event` keeps every frame that tolerates what the handlers
change: the documents, the open files, the word indexes, the request queue, the
flag, the channels and the request jobs. -/
theorem keeps_dispatchEvent (ho : ∀ st o, F.rel st { st with openedFiles := o }) (env : Env)
    (event : Event) : Keeps F (dispatchEvent env event) := by
  rcases event with task | msg
  · exact keeps_handleTask hF hresp task
  · rcases msg with req | resp | n
    · exact keeps_onRequest hF hresp hs hreg req
    · exact .pure' _
    · exact keeps_onNotification hF.edits ho env n

end Loop

end LanguageServerState

open LanguageServerState in
/-- A run keeps every frame that the handling of each of its events keeps. -/
theorem keeps_run {F : Frame} {env : Env} {events : List Event}
    (h : ∀ e ∈ events, Keeps F (handleEvent env e)) : Keeps F (run env events) := by
  induction events with
  | nil => exact .pure' ()
  | cons e rest ih =>
    unfold run
    split
    · exact .pure' ()
    · exact .bind (h e (List.mem_cons_self _ _)) fun _ =>
        ih fun e' he => h e' (List.mem_cons_of_mem _ he)

end KCLLanguageServer
