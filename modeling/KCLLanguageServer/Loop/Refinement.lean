import KCLLanguageServer.Loop.World

/-! # The loop with its workers refines `run` on the client's messages

The handlers read the documents, the databases, the open files, the word indexes
and the shutdown flag, and write them only from what they read there and from the
event. The request queue and the client channel they also touch feed nothing back
into these, as long as every send goes through. So two runs of a handler from
states that agree on them, with clients that stay connected, end alike
(`Similar`). A task the loop takes from its channel changes only the request
queue and the client channel. Hence, in every state of a run of the loop with its
thread pool and task channel, the snapshot handed to the workers, the VFS they read
and the flag are the ones `run` computes from the client's messages alone, whatever
the workers did and in whatever order their tasks arrived
(`snapshot_independent_of_workers`).
-/
namespace KCLLanguageServer

namespace LanguageServerState

/-- Two states that agree on what the handlers read but the request queue and the
channels, with both clients connected. -/
structure Agree (a b : LanguageServerState) : Prop where
  vfs : a.vfs = b.vfs
  analysis : a.analysis = b.analysis
  shutdownRequested : a.shutdownRequested = b.shutdownRequested
  openedFiles : a.openedFiles = b.openedFiles
  wordIndexMap : a.wordIndexMap = b.wordIndexMap
  left : a.sender.receiverDropsAt = none
  right : b.sender.receiverDropsAt = none

/-- States that agree hand the workers the same snapshot. -/
theorem Agree.snapshot_eq {a b : LanguageServerState} (h : Agree a b) : a.snapshot = b.snapshot := by
  simp only [LanguageServerState.snapshot, h.analysis, h.openedFiles, h.wordIndexMap]

/-- Two ends of one program: the same outcome, with the same value or error, in
states that agree. -/
def ResultAgree {α : Type} :
    EStateM.Result Error LanguageServerState α → EStateM.Result Error LanguageServerState α → Prop
  | .ok x a, .ok y b => x = y ∧ Agree a b
  | .error e a, .error f b => e = f ∧ Agree a b
  | _, _ => False

/-- Results that agree both succeed with one value or both fail with one error. -/
theorem ResultAgree.cases {α : Type} {r s : EStateM.Result Error LanguageServerState α}
    (h : ResultAgree r s) :
    (∃ v a b, r = .ok v a ∧ s = .ok v b ∧ Agree a b) ∨
      ∃ e a b, r = .error e a ∧ s = .error e b ∧ Agree a b := by
  rcases r with ⟨v, a⟩ | ⟨e, a⟩ <;> rcases s with ⟨v', b⟩ | ⟨e', b⟩
  · obtain ⟨rfl, h⟩ := h
    exact .inl ⟨v, a, b, rfl, rfl, h⟩
  · exact h.elim
  · exact h.elim
  · obtain ⟨rfl, h⟩ := h
    exact .inr ⟨e, a, b, rfl, rfl, h⟩

/-- `x` ends alike when run from states that agree. -/
def Similar {α : Type} (x : ServerM α) : Prop := ∀ a b, Agree a b → ResultAgree (x a) (x b)

namespace Similar
variable {α β : Type} {x : ServerM α}

theorem pure' (v : α) : Similar (pure v : ServerM α) := fun _ _ h => ⟨rfl, h⟩

theorem throw' (e : Error) : Similar (throw e : ServerM α) := fun _ _ h => ⟨rfl, h⟩

theorem modify' {g : LanguageServerState → LanguageServerState}
    (hg : ∀ a b, Agree a b → Agree (g a) (g b)) : Similar (modify g : ServerM PUnit) :=
  fun a b h => ⟨rfl, hg a b h⟩

theorem bind {f : α → ServerM β} (hx : Similar x) (hf : ∀ v, Similar (f v)) :
    Similar (x >>= f) := by
  intro a b h
  rcases (hx a b h).cases with ⟨v, a', b', ha, hb, h'⟩ | ⟨e, a', b', ha, hb, h'⟩
  · rw [bind_of_ok ha, bind_of_ok hb]
    exact hf v a' b' h'
  · rw [bind_of_error ha, bind_of_error hb]
    exact ⟨rfl, h'⟩

/-- A program that reads the state, and goes on alike from states that agree. -/
theorem get_bind {f : LanguageServerState → ServerM β}
    (hf : ∀ a b, Agree a b → ResultAgree (f a a) (f b b)) : Similar (get >>= f) := hf

theorem liftExcept' (r : Except String α) : Similar (liftExcept r) := by
  cases r
  · exact throw' _
  · exact pure' _

theorem discard' {y : ServerM Unit} (hy : Similar y) : Similar (discard y) := by
  intro a b h
  unfold discard
  rcases (hy a b h).cases with ⟨_, _, _, ha, hb, h'⟩ | ⟨_, _, _, ha, hb, h'⟩ <;> rw [ha, hb] <;>
    exact ⟨rfl, h'⟩

end Similar

/-! ## Every handler -/

theorem send_of_connected (message : Message) {st : LanguageServerState}
    (h : st.sender.receiverDropsAt = none) :
    send message st = .ok () { st with sender := { st.sender with sent := st.sender.sent ++ [message] } } := by
  simp [send, Sender.connected, h]

theorem similar_send (message : Message) : Similar (send message) := fun a b h => by
  rw [send_of_connected message h.left, send_of_connected message h.right]
  exact ⟨rfl, h.1, h.2, h.3, h.4, h.5, h.6, h.7⟩

theorem similar_logMessage (message : String) : Similar (logMessage message) :=
  .discard' (similar_send _)

theorem similar_handleTask (task : Task) : Similar (handleTask task) := fun a b h => by
  obtain ⟨q, s, ha, hs⟩ := handleTask_ok task h.left
  obtain ⟨q', s', hb, hs'⟩ := handleTask_ok task h.right
  rw [ha, hb]
  exact ⟨rfl, h.1, h.2, h.3, h.4, h.5, hs, hs'⟩

theorem similar_respond (response : Response) : Similar (respond response) :=
  similar_handleTask (.response response)

theorem similar_dispatchNotification {handler : ServerM Unit} (hh : Similar handler) :
    Similar (dispatchNotification handler) := by
  intro a b h
  unfold dispatchNotification
  rcases (hh a b h).cases with ⟨_, _, _, ha, hb, h'⟩ | ⟨e, a', b', ha, hb, h'⟩ <;> rw [ha, hb]
  · exact ⟨rfl, h'⟩
  · cases e
    case panicked => exact ⟨rfl, h'⟩
    all_goals exact similar_send _ a' b' h'

theorem similar_onDidOpenTextDocument (uri : Url) (text : String) :
    Similar (onDidOpenTextDocument uri text) := by
  refine .bind (.liftExcept' _) fun path => .bind (similar_logMessage _) fun _ =>
    .bind (.modify' fun a b h => ⟨by rw [h.vfs], h.2, h.3, h.4, h.5, h.6, h.7⟩) fun _ =>
    .get_bind fun a b h => ?_
  rw [h.vfs]
  refine (?_ : Similar _) a b h
  cases b.vfs.fileId path
  · exact .pure' _
  · exact .modify' fun a b h => ⟨h.1, h.2, h.3, by rw [h.openedFiles], h.5, h.6, h.7⟩

theorem similar_onDidCloseTextDocument (uri : Url) : Similar (onDidCloseTextDocument uri) := by
  refine .bind (.liftExcept' _) fun path => .get_bind fun a b h => ?_
  rw [h.vfs]
  refine (?_ : Similar _) a b h
  cases b.vfs.fileId path
  · exact .pure' _
  · exact .modify' fun a b h => ⟨h.1, h.2, h.3, by rw [h.openedFiles], h.5, h.6, h.7⟩

theorem similar_onDidSaveTextDocument (uri : Url) : Similar (onDidSaveTextDocument uri) :=
  .bind (.liftExcept' _) fun _ => similar_logMessage _

theorem similar_fileText (c : Option FileContents) : Similar (fileText c) := by
  unfold fileText
  split
  · exact .pure' _
  · exact .throw' _
  · exact .throw' _

theorem similar_onDidChangeTextDocument (env : Env) (uri : Url)
    (changes : List TextDocumentContentChangeEvent) :
    Similar (onDidChangeTextDocument env uri changes) := by
  refine .bind (.liftExcept' _) fun path => .bind (similar_logMessage _) fun _ =>
    .get_bind fun a b h => ?_
  rw [h.vfs]
  refine (?_ : Similar _) a b h
  cases b.vfs.fileId path
  · exact .throw' _
  · exact .bind (similar_fileText _) fun text => .bind
      (.modify' fun a b h => ⟨by rw [h.vfs], h.2, h.3, h.4, h.5, h.6, h.7⟩) fun _ =>
      .modify' fun a b h => ⟨h.1, h.2, h.3, h.4, by rw [h.wordIndexMap], h.6, h.7⟩

theorem similar_onDidChangeWatchedFiles (changes : List Url) :
    Similar (onDidChangeWatchedFiles changes) := by
  induction changes with
  | nil => exact .pure' _
  | cons uri rest ih => exact .bind (.liftExcept' _) fun _ => ih

theorem similar_onDidDeleteFiles (files : List FileDelete) : Similar (onDidDeleteFiles files) := by
  induction files with
  | nil => exact .pure' _
  | cons file rest ih =>
    refine .bind ?_ fun _ => ih
    dsimp only [onDidDeleteFile]
    split
    · exact .bind (.liftExcept' _) fun _ => .bind (similar_logMessage _) fun _ =>
        .modify' fun a b h => ⟨h.1, h.2, h.3, h.4, by rw [h.wordIndexMap], h.6, h.7⟩
    · exact .pure' _

theorem similar_unwrapUrl (u : Option Url) : Similar (unwrapUrl u) := by
  cases u
  · exact .throw' _
  · exact .pure' _

theorem similar_renameInRoots (oldUri newUri : List UInt8) (roots : List (Url × WordIndex)) :
    Similar (renameInRoots oldUri newUri roots) := by
  induction roots with
  | nil => exact .pure' _
  | cons root rest ih =>
    refine .bind ?_ fun _ => .bind ih fun _ => .pure' _
    unfold renameInRoot
    split
    · exact .bind (similar_unwrapUrl _) fun _ => .bind (similar_unwrapUrl _) fun _ => .pure' _
    · exact .pure' _

theorem similar_onDidRenameFiles (files : List FileRename) : Similar (onDidRenameFiles files) := by
  induction files with
  | nil => exact .pure' _
  | cons file rest ih =>
    refine .bind (similar_logMessage _) fun _ => .get_bind fun a b h => ?_
    rw [h.wordIndexMap]
    refine (?_ : Similar _) a b h
    exact .bind (similar_renameInRoots _ _ _) fun _ => .bind
      (.modify' fun a b h => ⟨h.1, h.2, h.3, h.4, by rw [h.wordIndexMap], h.6, h.7⟩) fun _ => ih

theorem similar_onNotification (env : Env) (notification : Notification) :
    Similar (onNotification env notification) := by
  refine .bind (similar_logMessage _) fun _ => ?_
  cases notification with
  | didOpenTextDocument uri text =>
    exact similar_dispatchNotification (similar_onDidOpenTextDocument uri text)
  | didChangeTextDocument uri changes =>
    exact similar_dispatchNotification (similar_onDidChangeTextDocument env uri changes)
  | didSaveTextDocument uri => exact similar_dispatchNotification (similar_onDidSaveTextDocument uri)
  | didCloseTextDocument uri =>
    exact similar_dispatchNotification (similar_onDidCloseTextDocument uri)
  | didChangeWatchedFiles changes =>
    exact similar_dispatchNotification (similar_onDidChangeWatchedFiles changes)
  | didRenameFiles files => exact similar_dispatchNotification (similar_onDidRenameFiles files)
  | didDeleteFiles files => exact similar_dispatchNotification (similar_onDidDeleteFiles files)
  | exit | logMessage _ _ | publishDiagnostics _ _ _ | other _ => exact .pure' _

theorem similar_dispatchRequest (req : Request) : Similar (dispatchRequest req) := by
  unfold dispatchRequest
  split
  · exact .bind (.modify' fun a b h => ⟨h.1, h.2, rfl, h.4, h.5, h.6, h.7⟩) fun _ =>
      similar_respond _
  · exact .discard' (similar_respond _)
  · exact .get_bind fun a b h => ⟨rfl, h.1, h.2, h.3, h.4, h.5, h.6, h.7⟩

theorem similar_onRequest (req : Request) : Similar (onRequest req) := by
  refine .bind (.modify' fun a b h => ⟨h.1, h.2, h.3, h.4, h.5, h.6, h.7⟩) fun _ =>
    .bind (.modify' fun a b h => ⟨h.1, h.2, h.3, h.4, h.5, h.6, h.7⟩) fun _ =>
    .get_bind fun a b h => ?_
  rw [h.shutdownRequested]
  split
  · exact similar_respond _ a b h
  · exact similar_dispatchRequest req a b h

theorem similar_processChangedFile (env : Env) (file : ChangedFile) :
    Similar (processChangedFile env file) := fun a b h => by
  unfold processChangedFile
  rw [h.vfs]
  cases getFileName b.vfs file.fileId with
  | ok filename =>
    dsimp only
    cases parseParamAndCompile env filename (some b.vfs) with
    | ok db => exact ⟨rfl, rfl, by rw [h.analysis], h.3, h.4, h.5, h.6, h.7⟩
    | error e => exact similar_logMessage _ a b h
  | error e => exact similar_logMessage _ a b h

theorem similar_handleChanges (env : Env) : Similar (handleChanges env) := by
  have hfiles : ∀ files, Similar (processChangedFiles env files) := by
    intro files
    induction files with
    | nil => exact .pure' _
    | cons file rest ih => exact .bind (similar_processChangedFile env file) fun _ => ih
  refine .bind (.get_bind fun a b h => ?_) fun changed => ?_
  · rw [h.vfs]
    refine (?_ : Similar _) a b h
    refine .bind (.modify' fun a b h => ⟨by rw [h.vfs], h.2, h.3, h.4, h.5, h.6, h.7⟩) fun _ => ?_
    split
    · exact .pure' _
    · exact .bind (hfiles _) fun _ => .pure' _
  · cases changed
    · exact .pure' _
    · exact .get_bind fun a b h => ⟨rfl, h.1, h.2, h.3, h.4, h.5, h.6, h.7⟩

/-- Every event is handled alike from states that agree. -/
theorem similar_handleEvent (env : Env) (event : Event) : Similar (handleEvent env event) := by
  refine .bind ?_ fun _ => similar_handleChanges env
  rcases event with task | req | _ | n
  · exact similar_handleTask task
  · exact similar_onRequest req
  · exact .pure' _
  · exact similar_onNotification env n

end LanguageServerState

/-! ## The refinement -/

open LanguageServerState in
/-- A forward simulation of the loop with its workers by `run` on the client's
messages: a worker step or a task the loop takes is matched by no step of `run`,
and a client message by the step `run` takes on it. -/
theorem World.agree_run {env : Env} {client : LanguageServerState → Message → Prop}
    {sender : Sender} (hs : sender.receiverDropsAt = none) {w : World}
    (hw : World.Reach env client sender w) :
    (∀ m ∈ w.received, (Event.lsp m).isExit = false) ∧
    ∃ st, run env (w.received.map .lsp) (LanguageServerState.new sender) = .ok () st ∧
      Agree st w.server := by
  induction hw with
  | refl => exact ⟨fun _ h => (nomatch h), _, rfl, ⟨rfl, rfl, rfl, rfl, rfl, hs, hs⟩⟩
  | @tail w w' hr hstep ih =>
    obtain ⟨hex, st, hrun, hag⟩ := ih
    cases hstep with
    | @receive st' msg _ hexit h =>
      have hsim := similar_handleEvent env (.lsp msg) st w.server hag
      rw [h] at hsim
      rcases hst : handleEvent env (.lsp msg) st with ⟨_, st''⟩ | ⟨e, st''⟩ <;> rw [hst] at hsim
      · refine ⟨fun m hm => ?_, st'', ?_, ?_⟩
        · rcases List.mem_append.mp hm with hm | hm
          · exact hex m hm
          · rwa [List.mem_singleton.mp hm]
        · rw [List.map_append, run_append env (fun e he => by
            obtain ⟨m, hm, rfl⟩ := List.mem_map.mp he; exact hex m hm), bind_of_ok hrun]
          simp only [List.map_cons, List.map_nil, run, hexit, Bool.false_eq_true, if_false]
          rw [bind_of_ok hst]
          rfl
        · exact ⟨hsim.2.1, hsim.2.2, hsim.2.3, hsim.2.4, hsim.2.5, hsim.2.6, hsim.2.7⟩
      · exact hsim.elim
    | take task rest hq h =>
      have hi := World.inv_of_reach hr
      obtain ⟨q, s, hev, hs'⟩ := handleEvent_task_ok env task (hi.receiverDropsAt.trans hs) hi.changes
      rw [hev] at h
      cases h
      exact ⟨hex, st, hrun, ⟨hag.1, hag.2, hag.3, hag.4, hag.5, hag.6, hs'⟩⟩
    | start => exact ⟨hex, st, hrun, hag⟩
    | send => exact ⟨hex, st, hrun, hag⟩

/-- Worker scheduling does not change what the loop knows. In every state of a run
of the loop with its thread pool and task channel, with a client that stays
connected, `run` on the client's messages taken so far goes through them all from
a new server, and ends with the same snapshot (databases, open files, word
indexes), the same VFS (the documents the workers read) and the same shutdown
flag. What the workers did, and the order in which their tasks reached the loop,
change none of these. -/
theorem snapshot_independent_of_workers (env : Env) (client : LanguageServerState → Message → Prop)
    (sender : Sender) (hs : sender.receiverDropsAt = none) (w : World)
    (hw : World.Reach env client sender w) :
    ∃ st, run env (w.received.map .lsp) (LanguageServerState.new sender) = .ok () st ∧
      st.snapshot = w.server.snapshot ∧ st.vfs = w.server.vfs ∧
      st.shutdownRequested = w.server.shutdownRequested := by
  obtain ⟨-, st, hrun, hag⟩ := World.agree_run hs hw
  exact ⟨st, hrun, hag.snapshot_eq, hag.vfs, hag.shutdownRequested⟩

/-- After the workers have run both jobs of `askedWorld` and the loop has taken
every task, `run` on `openA` and `gotoA` alone ends with the loop's snapshot, VFS
and flag. -/
theorem answered_world_snapshot_from_messages :
    (⟨[], none⟩ : Sender).receiverDropsAt = none ∧
    World.Reach cleanCompileEnv freshIds ⟨[], none⟩ answeredWorld ∧
    answeredWorld.received = [openA, gotoA] ∧ answeredWorld.Quiescent ∧
    ∃ st, run cleanCompileEnv ([openA, gotoA].map .lsp) (LanguageServerState.new ⟨[], none⟩) =
        .ok () st ∧
      st.snapshot = answeredWorld.server.snapshot ∧ st.vfs = answeredWorld.server.vfs ∧
      st.shutdownRequested = answeredWorld.server.shutdownRequested :=
  ⟨rfl, reach_answeredWorld fun _ _ h => h, rfl, ⟨rfl, by decide, rfl⟩,
    snapshot_independent_of_workers cleanCompileEnv freshIds ⟨[], none⟩ rfl answeredWorld
      (reach_answeredWorld fun _ _ h => h)⟩

end KCLLanguageServer
