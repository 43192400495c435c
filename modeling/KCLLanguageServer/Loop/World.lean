import KCLLanguageServer.Loop.Diagnostics
import KCLLanguageServer.Requests.Workers
import Mathlib.Logic.Relation

/-! # The loop with its thread pool and task channel

`run` takes its events through the `select!` of `next_event` from the client and
from the task channel, on which the loop's log messages and everything the jobs
send arrive. A `World` is the loop with the pool's queue of jobs, the jobs being
run and the channel. A step is the loop taking a client message or the oldest
task, a worker starting the oldest queued job on the VFS as it is then, or a
running job sending its next task, in any interleaving. A request is owed a
response only while one is on its way (`World.Inv`), so the workers and the loop
can always finish their work and leave nothing owed
(`requests_answered_after_drain`, `each_request_answered_once`).
-/
namespace KCLLanguageServer

/-- A task that carries a response to the request `id`. -/
def Task.isResponseTo (id : RequestId) : Task → Bool
  | .response r => r.id == id
  | .notify _ => false

/-- The requests with id `id` among the client's messages. -/
def requestsTo (id : RequestId) (msgs : List Message) : Nat :=
  msgs.countP fun m => (Event.lsp m).registers id

/-- A client that never sends a request with the id of one still awaiting its
response, as the protocol asks of it. -/
def freshIds (st : LanguageServerState) : Message → Prop
  | .request req => st.requestQueue.incoming req.id = none
  | _ => True

instance (st : LanguageServerState) : DecidablePred (freshIds st)
  | .request req => inferInstanceAs (Decidable (st.requestQueue.incoming req.id = none))
  | .response _ => isTrue trivial
  | .notification _ => isTrue trivial

/-- Whether a job ends with a response to `id`: a request job of that id. -/
def Job.answersTo (id : RequestId) : Job → Bool
  | .request req _ => req.id == id
  | .diagnostics _ => false

@[simp] theorem jobResponse_id (env : Env) (vfs : Vfs) (snapshot : LanguageServerSnapshot)
    (req : Request) : (jobResponse env vfs snapshot req).id = req.id := by
  unfold jobResponse
  split <;> rfl

theorem Job.filter_run (env : Env) (vfs : Vfs) (id : RequestId) (job : Job) :
    (Job.run env vfs job).filter (·.isResponseTo id) =
      match job with
      | .request req snapshot =>
        if req.id = id then [.response (jobResponse env vfs snapshot req)] else []
      | .diagnostics _ => [] := by
  cases job with
  | request req snapshot =>
    obtain ⟨messages, h⟩ := runRequest_eq env vfs snapshot req
    have hlog : (logTasks messages).filter (·.isResponseTo id) = [] := by
      simp [logTasks, Task.isResponseTo]
    simp only [Job.run, h, List.filter_append, hlog, List.nil_append]
    by_cases hid : req.id = id <;> simp [Task.isResponseTo, hid]
  | diagnostics snapshot =>
    exact List.filter_eq_nil_iff.mpr fun t ht hid => by
      cases t with
      | notify _ => cases hid
      | response r => exact response_not_mem_diagnostics env vfs snapshot r ht

theorem countP_flatMap_run (env : Env) (vfs : Vfs) (id : RequestId) (jobs : List Job) :
    (jobs.flatMap (Job.run env vfs)).countP (·.isResponseTo id) = jobs.countP (Job.answersTo id) := by
  induction jobs with
  | nil => rfl
  | cons job rest ih =>
    rw [List.flatMap_cons, List.countP_append, ih, List.countP_eq_length_filter, Job.filter_run,
      List.countP_cons, Nat.add_comm]
    cases job with
    | request req _ => by_cases h : req.id = id <;> simp [Job.answersTo, h]
    | diagnostics _ => rfl

theorem ReqQueue.owed_update_none (q : ReqQueue) (id id' : RequestId) :
    ReqQueue.owed ⟨Function.update q.incoming id none⟩ id' ≤ q.owed id' := by
  by_cases h : id' = id
  · subst h; simp [ReqQueue.owed]
  · simp [ReqQueue.owed, Function.update_noteq h]

namespace LanguageServerState

/-! ## One event -/

/-- The frame of steps that keep the point at which the client drops its receiver. -/
def dropsFrame : Frame := Frame.unchanged (·.sender.receiverDropsAt)

theorem dropsFrame_tolerates : dropsFrame.Tolerates :=
  ⟨fun _ _ _ => rfl, fun _ _ => rfl, fun _ _ => rfl, fun _ _ _ => rfl, fun _ _ => rfl⟩

theorem keeps_respond_drops (response : Response) : Keeps dropsFrame (respond response) := by
  intro st
  unfold respond send
  split
  · split <;> rfl
  · rfl

theorem keeps_handleEvent_drops (env : Env) (event : Event) :
    Keeps dropsFrame (handleEvent env event) :=
  .bind (keeps_dispatchEvent dropsFrame_tolerates keeps_respond_drops (fun _ => rfl)
      (fun _ _ => rfl) (fun _ _ => rfl) env event)
    fun _ => keeps_handleChanges dropsFrame_tolerates.edits (fun _ _ => rfl) (fun _ => rfl) env

/-- The frame of steps that add jobs only at the end of the pool and owe no request
more than before. -/
def owedFrame : Frame :=
  ⟨fun a b => a.threadPool <+: b.threadPool ∧
      ∀ id, b.requestQueue.owed id ≤ a.requestQueue.owed id,
    fun _ => ⟨List.prefix_refl _, fun _ => le_rfl⟩,
    fun h₁ h₂ => ⟨h₁.1.trans h₂.1, fun id => (h₂.2 id).trans (h₁.2 id)⟩⟩

theorem owedFrame_tolerates : owedFrame.Tolerates :=
  ⟨fun _ _ _ => owedFrame.refl _, fun _ _ => owedFrame.refl _, fun _ _ => owedFrame.refl _,
    fun _ _ _ => ⟨List.prefix_append _ _, fun _ => le_rfl⟩, fun _ _ => owedFrame.refl _⟩

theorem keeps_respond_owed (response : Response) : Keeps owedFrame (respond response) := by
  intro st
  unfold respond send
  split
  · split <;> exact ⟨List.prefix_refl _, ReqQueue.owed_update_none _ _⟩
  · exact owedFrame.refl st

theorem respond_owed_self (response : Response) (st : LanguageServerState) :
    (finalState (respond response st)).requestQueue.owed response.id = 0 := by
  unfold respond send
  split
  · split <;> simp [finalState, ReqQueue.owed]
  · simp [finalState, ReqQueue.owed, *]

theorem keeps_handleChanges_owed (env : Env) : Keeps owedFrame (handleChanges env) :=
  keeps_handleChanges owedFrame_tolerates.edits (fun _ _ => owedFrame.refl _)
    (fun _ => ⟨List.prefix_append _ _, fun _ => le_rfl⟩) env

theorem finalState_discard (y : ServerM Unit) (st : LanguageServerState) :
    finalState (discard y st) = finalState (y st) := by
  unfold discard
  split <;> simp only [finalState, *]

theorem finalState_handleEvent_rel {F : Frame} {env : Env} (hc : Keeps F (handleChanges env))
    (event : Event) (st : LanguageServerState) :
    F.rel (finalState (dispatchEvent env event st)) (finalState (handleEvent env event st)) := by
  show F.rel _ (finalState ((dispatchEvent env event >>= fun _ => handleChanges env) st))
  cases h : dispatchEvent env event st with
  | ok _ st₁ => rw [bind_of_ok h]; exact hc st₁
  | error e st₁ => rw [bind_of_error h]; exact F.refl _

/-- The dispatch of a request leaves it owed only when it gave the request to a
worker, whose job then ends with a response to it. -/
theorem dispatchRequest_covers (req : Request) (st : LanguageServerState) :
    (finalState (dispatchRequest req st)).requestQueue.owed req.id ≤
      (finalState (dispatchRequest req st)).threadPool.countP (Job.answersTo req.id) := by
  have howed : st.requestQueue.owed req.id ≤ 1 := by unfold ReqQueue.owed; split <;> omega
  cases hk : req.kind
  case shutdown =>
    simp only [dispatchRequest, hk, modify_bind_apply]
    exact (respond_owed_self _ _).trans_le (Nat.zero_le _)
  case other method =>
    simp only [dispatchRequest, hk, finalState_discard]
    exact (respond_owed_self _ _).trans_le (Nat.zero_le _)
  -- Every other request is given to a worker.
  all_goals
    simp only [dispatchRequest, hk, get_bind_apply, spawn, modify_apply, finalState,
      List.countP_append, List.countP_singleton, Job.answersTo, beq_self_eq_true, if_true]
    omega

theorem dispatchEvent_lsp_owed (env : Env) (msg : Message) (st : LanguageServerState) :
    st.threadPool <+: (finalState (dispatchEvent env (.lsp msg) st)).threadPool ∧
    ∀ id, (finalState (dispatchEvent env (.lsp msg) st)).requestQueue.owed id ≤
      st.requestQueue.owed id +
        (finalState (dispatchEvent env (.lsp msg) st)).threadPool.countP (Job.answersTo id) := by
  rcases msg with req | _ | n
  · show st.threadPool <+: (finalState (onRequest req st)).threadPool ∧ ∀ id,
      (finalState (onRequest req st)).requestQueue.owed id ≤ _ +
        (finalState (onRequest req st)).threadPool.countP _
    rw [onRequest_eq]
    set st₀ : LanguageServerState := { st with
      taskSender := st.taskSender ++ [.notify (logMessageNotification s!"on request {req.method}")]
      requestQueue := ⟨Function.update st.requestQueue.incoming req.id (some req.method)⟩ }
    have hk : owedFrame.rel st₀ (finalState ((if st.shutdownRequested then
        respond (Response.newErr req.id ErrorCode.invalidRequest "shutdown was requested")
        else dispatchRequest req) st₀)) := by
      split
      · exact keeps_respond_owed _ st₀
      · exact keeps_dispatchRequest owedFrame_tolerates keeps_respond_owed
          (fun _ => owedFrame.refl _) req st₀
    refine ⟨hk.1, fun id => ?_⟩
    by_cases hid : req.id = id
    · subst hid
      refine le_trans ?_ (Nat.le_add_left _ _)
      split
      · exact (respond_owed_self _ _).trans_le (Nat.zero_le _)
      · exact dispatchRequest_covers req st₀
    · refine Nat.le_add_right_of_le ((hk.2 id).trans (le_of_eq ?_))
      simp only [st₀, ReqQueue.owed, Function.update_noteq (Ne.symm hid)]
  · exact ⟨List.prefix_refl _, fun _ => Nat.le_add_right _ _⟩
  · have hk := keeps_onNotification owedFrame_tolerates.edits (fun _ _ => owedFrame.refl _) env n st
    exact ⟨hk.1, fun id => Nat.le_add_right_of_le (hk.2 id)⟩

theorem handleEvent_lsp_owed (env : Env) (msg : Message) (st : LanguageServerState) (id : RequestId) :
    (finalState (handleEvent env (.lsp msg) st)).requestQueue.owed id ≤
      st.requestQueue.owed id +
        (finalState (handleEvent env (.lsp msg) st)).threadPool.countP (Job.answersTo id) := by
  obtain ⟨hp, hd⟩ := dispatchEvent_lsp_owed env msg st
  have hc := finalState_handleEvent_rel (keeps_handleChanges_owed env) (.lsp msg) st
  calc _ ≤ _ := hc.2 id
    _ ≤ _ := hd id
    _ ≤ _ := Nat.add_le_add_left (hc.1.sublist.countP_le _) _

theorem handleEvent_task_owed (env : Env) (task : Task) (st : LanguageServerState) :
    owedFrame.rel st (finalState (handleEvent env (.task task) st)) ∧
    ∀ id, task.isResponseTo id = true →
      (finalState (handleEvent env (.task task) st)).requestQueue.owed id = 0 := by
  have hc := finalState_handleEvent_rel (keeps_handleChanges_owed env) (.task task) st
  refine ⟨owedFrame.trans (keeps_handleTask owedFrame_tolerates keeps_respond_owed task st) hc,
    fun id hid => ?_⟩
  cases task with
  | notify n => cases hid
  | response r =>
    obtain rfl : r.id = id := by simpa [Task.isResponseTo] using hid
    exact Nat.le_zero.mp ((hc.2 r.id).trans_eq (respond_owed_self r st))

/-- The frame of steps that, while the client is connected, keep it connected and
lower no request's responses plus the one owed. -/
def growFrame : Frame :=
  ⟨fun a b => a.sender.receiverDropsAt = none →
      b.sender.receiverDropsAt = none ∧ ∀ id, a.answers id ≤ b.answers id,
    fun _ h => ⟨h, fun _ => le_rfl⟩,
    fun h₁ h₂ h => ⟨(h₂ (h₁ h).1).1, fun id => ((h₁ h).2 id).trans ((h₂ (h₁ h).1).2 id)⟩⟩

theorem growFrame_tolerates : growFrame.Tolerates :=
  ⟨fun _ _ _ h => ⟨h, fun _ => le_rfl⟩, fun _ _ h => ⟨h, fun _ => le_rfl⟩,
    fun _ _ h => ⟨h, fun _ => le_rfl⟩, fun _ _ _ h => ⟨h, fun _ => le_rfl⟩,
    fun _ _ h => ⟨h, fun _ => by simp [answers, Message.isResponseTo]⟩⟩

theorem keeps_respond_grow (response : Response) : Keeps growFrame (respond response) := by
  intro st hs
  have hc : st.sender.connected = true := by simp [Sender.connected, hs]
  unfold respond send
  split
  · rename_i m hm
    simp only [hc, if_true, finalState]
    refine ⟨hs, fun id => ?_⟩
    by_cases h : response.id = id
    · subst h; simp [answers, ReqQueue.owed, hm, Message.isResponseTo]
    · simp [answers, ReqQueue.owed, Function.update_noteq (Ne.symm h), Message.isResponseTo, h]
  · exact ⟨hs, fun _ => le_rfl⟩

/-- With the client connected, no event lowers a request's responses plus the one
owed, and a request whose id is not owed raises its count by one. -/
theorem handleEvent_answers_grow (env : Env) (event : Event) {st : LanguageServerState}
    (hs : st.sender.receiverDropsAt = none)
    (hfresh : ∀ req, event = .lsp (.request req) → st.requestQueue.incoming req.id = none)
    (id : RequestId) :
    st.answers id + (if event.registers id then 1 else 0) ≤
      (finalState (handleEvent env event st)).answers id := by
  have hc := finalState_handleEvent_rel (keeps_handleChanges growFrame_tolerates.edits
    (fun _ _ h => ⟨h, fun _ => le_rfl⟩) (fun _ h => ⟨h, fun _ => le_rfl⟩) env) event st
  suffices hd : (finalState (dispatchEvent env event st)).sender.receiverDropsAt = none ∧
      st.answers id + (if event.registers id then 1 else 0) ≤
        (finalState (dispatchEvent env event st)).answers id from
    hd.2.trans ((hc hd.1).2 id)
  rcases event with task | ⟨req⟩ | _ | n
  · have := keeps_handleTask growFrame_tolerates keeps_respond_grow task st hs
    exact ⟨this.1, this.2 id⟩
  · show (finalState (onRequest req st)).sender.receiverDropsAt = none ∧ _ ≤
      (finalState (onRequest req st)).answers id
    rw [onRequest_eq]
    set st₀ : LanguageServerState := { st with
      taskSender := st.taskSender ++ [.notify (logMessageNotification s!"on request {req.method}")]
      requestQueue := ⟨Function.update st.requestQueue.incoming req.id (some req.method)⟩ }
    -- A fresh id is owed one response more once registered.
    have hreg : st.answers id + (if (Event.lsp (.request req)).registers id then 1 else 0) =
        st₀.answers id := by
      by_cases h : req.id = id
      · subst h
        simp [st₀, answers, ReqQueue.owed, hfresh req rfl, Event.registers]
      · simp [st₀, answers, ReqQueue.owed, Function.update_noteq (Ne.symm h), Event.registers, h]
    have hk : growFrame.rel st₀ (finalState ((if st.shutdownRequested then
        respond (Response.newErr req.id ErrorCode.invalidRequest "shutdown was requested")
        else dispatchRequest req) st₀)) := by
      split
      · exact keeps_respond_grow _ st₀
      · exact keeps_dispatchRequest growFrame_tolerates keeps_respond_grow
          (fun _ h => ⟨h, fun _ => le_rfl⟩) req st₀
    exact ⟨(hk hs).1, hreg.trans_le ((hk hs).2 id)⟩
  · exact ⟨hs, le_rfl⟩
  · have := keeps_onNotification growFrame_tolerates.edits (fun _ _ h => ⟨h, fun _ => le_rfl⟩) env n st hs
    exact ⟨this.1, this.2 id⟩

theorem handleTask_ok (task : Task) {st : LanguageServerState}
    (hs : st.sender.receiverDropsAt = none) :
    ∃ q s, handleTask task st = .ok () { st with requestQueue := q, sender := s } ∧
      s.receiverDropsAt = none := by
  have hc : ∀ st' : LanguageServerState, st'.sender = st.sender →
      st'.sender.connected = true := fun _ h => by simp [Sender.connected, h, hs]
  cases task with
  | notify n =>
    refine ⟨st.requestQueue, { st.sender with sent := st.sender.sent ++ [.notification n] }, ?_, hs⟩
    simp only [handleTask, discard, send, hc st rfl, if_true]
  | response r =>
    show ∃ q s, respond r st = _ ∧ _
    unfold respond
    split
    · refine ⟨⟨Function.update st.requestQueue.incoming r.id none⟩,
        { st.sender with sent := st.sender.sent ++ [.response r] }, ?_, hs⟩
      simp only [send, hc _ rfl, if_true]
    · exact ⟨st.requestQueue, st.sender, rfl, hs⟩

theorem handleEvent_task_ok (env : Env) (task : Task) {st : LanguageServerState}
    (hs : st.sender.receiverDropsAt = none) (hc : st.vfs.changes = []) :
    ∃ q s, handleEvent env (.task task) st = .ok () { st with requestQueue := q, sender := s } ∧
      s.receiverDropsAt = none := by
  obtain ⟨q, s, h, hs'⟩ := handleTask_ok task hs
  have hd : (finalState (handleTask task st)).vfs.changes = [] := by rw [h]; exact hc
  exact ⟨q, s, (bind_handleChanges_of_nil env hd).trans h, hs'⟩

theorem handleEvent_changes {env : Env} {event : Event} {st st' : LanguageServerState}
    (h : handleEvent env event st = .ok () st') : st'.vfs.changes = [] := by
  obtain ⟨_, st₁, -, h₁⟩ := bind_eq_ok h
  obtain ⟨st'', h', hv, -⟩ := handleChanges_spec env st₁
  rw [h₁] at h'
  cases h'
  rw [hv]

end LanguageServerState

/-! ## The loop, the pool and the channel -/

/-- The loop with the thread pool and the task channel. Between two events the
loop's state holds no job and no task: what it spawns and sends while it handles
one moves to the pool's queue and to the channel. -/
structure World where
  server : LanguageServerState
  /-- The jobs given to the pool that no worker has started, oldest first. -/
  queued : List Job
  /-- What each started job has still to send, in the order the jobs started. -/
  running : List (List Task)
  /-- The tasks sent and not yet taken by the loop, oldest first. -/
  channel : List Task
  /-- The client's messages the loop has taken, oldest first. -/
  received : List Message

namespace World

/-- A new server whose client connection is `sender`, with an idle pool and an
empty channel. -/
def init (sender : Sender) : World := ⟨LanguageServerState.new sender, [], [], [], []⟩

/-- The world once the loop has handled an event to the end in `st`, with
`channel` the tasks still on the channel: the jobs and the tasks the event sent
join the queue and the channel. -/
def afterEvent (w : World) (st : LanguageServerState) (channel : List Task) : World :=
  { w with
    server := { st with taskSender := [], threadPool := [] }
    queued := w.queued ++ st.threadPool
    channel := channel ++ st.taskSender }

/-- Every task still to reach the loop: those the queued jobs send when run on the
VFS as it is now, what the running jobs have still to send, and the channel. -/
def pending (env : Env) (w : World) : List Task :=
  w.queued.flatMap (Job.run env w.server.vfs) ++ w.running.flatten ++ w.channel

/-- Nothing is left to do: no job is queued or running, and the channel is empty. -/
def Quiescent (w : World) : Prop := w.queued = [] ∧ (∀ r ∈ w.running, r = []) ∧ w.channel = []

open LanguageServerState in
/-- One step of the system, with a client that sends only the messages `client`
allows in the loop's state. -/
inductive Step (env : Env) (client : LanguageServerState → Message → Prop) : World → World → Prop
  /-- The loop takes a client message other than `Exit` and handles it to the end. -/
  | receive {w : World} {st : LanguageServerState} (msg : Message) (hc : client w.server msg)
      (hexit : (Event.lsp msg).isExit = false)
      (h : handleEvent env (.lsp msg) w.server = .ok () st) :
      Step env client w { w.afterEvent st w.channel with received := w.received ++ [msg] }
  /-- The loop takes the oldest task and handles it to the end. -/
  | take {w : World} {st : LanguageServerState} (task : Task) (rest : List Task)
      (hq : w.channel = task :: rest) (h : handleEvent env (.task task) w.server = .ok () st) :
      Step env client w (w.afterEvent st rest)
  /-- A worker starts the oldest queued job, which reads the shared VFS as it is then. -/
  | start {w : World} (job : Job) (rest : List Job) (hq : w.queued = job :: rest) :
      Step env client w
        { w with queued := rest, running := w.running ++ [Job.run env w.server.vfs job] }
  /-- A running job sends its next task. -/
  | send {w : World} (i : Nat) (task : Task) (rest : List Task)
      (hi : w.running[i]? = some (task :: rest)) :
      Step env client w { w with running := w.running.set i rest, channel := w.channel ++ [task] }

/-- The worlds a run reaches from a new server whose client connection is `sender`. -/
def Reach (env : Env) (client : LanguageServerState → Message → Prop) (sender : Sender)
    (w : World) : Prop :=
  Relation.ReflTransGen (Step env client) (init sender) w

/-- A choice of the next step of the system. -/
inductive Choice where
  | receive (msg : Message)
  | take
  | start
  | send (i : Nat)

/-- The step a choice makes, as a function, with a client that reuses no id:
`none` when the choice is not enabled. -/
def step? (env : Env) (w : World) : Choice → Option World
  | .receive msg =>
    if (Event.lsp msg).isExit = false ∧ freshIds w.server msg then
      match LanguageServerState.handleEvent env (.lsp msg) w.server with
      | .ok _ st => some { w.afterEvent st w.channel with received := w.received ++ [msg] }
      | .error _ _ => none
    else none
  | .take =>
    match w.channel with
    | task :: rest =>
      match LanguageServerState.handleEvent env (.task task) w.server with
      | .ok _ st => some (w.afterEvent st rest)
      | .error _ _ => none
    | [] => none
  | .start =>
    match w.queued with
    | job :: rest =>
      some { w with queued := rest, running := w.running ++ [Job.run env w.server.vfs job] }
    | [] => none
  | .send i =>
    match w.running[i]? with
    | some (task :: rest) =>
      some { w with running := w.running.set i rest, channel := w.channel ++ [task] }
    | _ => none

/-- The world a schedule of choices reaches, if each is enabled in turn. -/
def steps? (env : Env) (w : World) : List Choice → Option World
  | [] => some w
  | c :: cs => (w.step? env c).bind fun w' => w'.steps? env cs

section Schedule
variable {env : Env} {client : LanguageServerState → Message → Prop}
  (hclient : ∀ st msg, freshIds st msg → client st msg)
include hclient

theorem step_of_step? {w w' : World} {c : Choice} (h : w.step? env c = some w') :
    Step env client w w' := by
  cases c with
  | receive msg =>
    simp only [step?] at h
    split at h
    · rename_i hc
      split at h
      · rename_i st hst
        cases h
        exact .receive msg (hclient _ _ hc.2) hc.1 hst
      · cases h
    · cases h
  | take =>
    simp only [step?] at h
    split at h
    · rename_i task rest hq
      split at h
      · rename_i st hst
        cases h
        exact .take task rest hq hst
      · cases h
    · cases h
  | start =>
    simp only [step?] at h
    split at h
    · rename_i job rest hq
      cases h
      exact .start job rest hq
    · cases h
  | send i =>
    simp only [step?] at h
    split at h
    · rename_i task rest hi
      cases h
      exact .send i task rest hi
    · cases h

theorem reflTransGen_of_steps? {w w' : World} {cs : List Choice} (h : w.steps? env cs = some w') :
    Relation.ReflTransGen (Step env client) w w' := by
  induction cs generalizing w with
  | nil => cases h; exact .refl
  | cons c cs ih =>
    obtain ⟨w₁, h₁, h₂⟩ := Option.bind_eq_some.mp h
    exact .head (step_of_step? hclient h₁) (ih h₂)

end Schedule

/-! ## The invariant -/

/-- What holds in every world a run reaches. -/
structure Inv (env : Env) (sender : Sender) (w : World) : Prop where
  threadPool : w.server.threadPool = []
  taskSender : w.server.taskSender = []
  /-- The loop takes every event with no change pending. -/
  changes : w.server.vfs.changes = []
  receiverDropsAt : w.server.sender.receiverDropsAt = sender.receiverDropsAt
  /-- A request is owed a response only while a response to it is on its way. -/
  covered : ∀ id, w.server.requestQueue.owed id ≤ (w.pending env).countP (Task.isResponseTo id)

theorem flatten_perm_set {running : List (List Task)} {i : Nat} {task : Task} {rest : List Task}
    (h : running[i]? = some (task :: rest)) :
    running.flatten.Perm (task :: (running.set i rest).flatten) := by
  induction running generalizing i with
  | nil => cases h
  | cons l ls ih =>
    cases i with
    | zero =>
      obtain rfl : l = task :: rest := by simpa using h
      exact .refl _
    | succ i =>
      simp only [List.flatten_cons, List.set_cons_succ]
      exact ((ih (by simpa using h)).append_left l).trans List.perm_middle

theorem inv_init (env : Env) (sender : Sender) : Inv env sender (init sender) :=
  ⟨rfl, rfl, rfl, rfl, fun _ => by simp [ReqQueue.owed, init, LanguageServerState.new]⟩

open LanguageServerState in
theorem inv_step {env : Env} {client : LanguageServerState → Message → Prop} {sender : Sender}
    {w w' : World} (hi : Inv env sender w) (hs : Step env client w w') : Inv env sender w' := by
  cases hs with
  | receive msg _ _ h =>
    have hd := keeps_handleEvent_drops env (.lsp msg) w.server
    have ho := handleEvent_lsp_owed env msg w.server
    rw [h] at hd ho
    dsimp only [finalState] at hd ho
    have hc := handleEvent_changes h
    refine ⟨rfl, rfl, hc, hd.trans hi.receiverDropsAt, fun id => ?_⟩
    have := hi.covered id
    have := ho id
    simp only [pending, afterEvent, List.flatMap_append, List.countP_append,
      countP_flatMap_run] at *
    omega
  | take task rest hq h =>
    have hd := keeps_handleEvent_drops env (.task task) w.server
    obtain ⟨ho, hself⟩ := handleEvent_task_owed env task w.server
    rw [h] at hd ho hself
    dsimp only [finalState] at hd ho hself
    have hc := handleEvent_changes h
    refine ⟨rfl, rfl, hc, hd.trans hi.receiverDropsAt, fun id => ?_⟩
    by_cases ht : task.isResponseTo id = true
    · exact (hself id ht).trans_le (Nat.zero_le _)
    · have := hi.covered id
      have := ho.2 id
      simp only [pending, afterEvent, hq, ht, List.flatMap_append, List.countP_append,
        List.countP_cons, if_false, Bool.false_eq_true, countP_flatMap_run] at *
      omega
  | start job rest hq =>
    refine ⟨hi.threadPool, hi.taskSender, hi.changes, hi.receiverDropsAt, fun id => ?_⟩
    have := hi.covered id
    simp only [pending, hq, List.flatMap_cons, List.flatten_append, List.flatten_singleton,
      List.countP_append] at this ⊢
    omega
  | send i task rest h =>
    refine ⟨hi.threadPool, hi.taskSender, hi.changes, hi.receiverDropsAt, fun id => ?_⟩
    have := hi.covered id
    simp only [pending, (flatten_perm_set h).countP_eq, List.countP_cons,
      List.countP_append] at this ⊢
    omega

/-- The invariant holds in every world a run reaches. -/
theorem inv_of_reach {env : Env} {client : LanguageServerState → Message → Prop} {sender : Sender}
    {w : World} (hw : Reach env client sender w) : Inv env sender w := by
  induction hw with
  | refl => exact inv_init env sender
  | tail _ hs ih => exact inv_step ih hs

open LanguageServerState in
/-- With a connected client that never reuses the id of a request awaiting its
response, the responses the client has to each id, plus the one still owed, are
those it had at the start plus its requests with that id. -/
theorem answers_of_reach_fresh {env : Env} {sender : Sender} (hs : sender.receiverDropsAt = none)
    {w : World} (hw : Reach env freshIds sender w) (id : RequestId) :
    w.server.answers id = responsesTo id sender.sent + requestsTo id w.received := by
  induction hw with
  | refl => simp [answers, ReqQueue.owed, init, LanguageServerState.new, requestsTo]
  | @tail w w' hr hstep ih =>
    have hi := inv_of_reach hr
    have hconn : w.server.sender.receiverDropsAt = none := hi.receiverDropsAt.trans hs
    cases hstep with
    | @receive st msg hc _ h =>
      have hle := handleEvent_answers env (.lsp msg) w.server id
      have hge := handleEvent_answers_grow env (.lsp msg) hconn
        (fun req hreq => by cases hreq; exact hc) id
      rw [h] at hle hge
      show st.answers id = _ + requestsTo id (w.received ++ [msg])
      simp only [requestsTo, List.countP_append, List.countP_singleton] at ih ⊢
      dsimp only [finalState] at hle hge
      omega
    | take task rest hq h =>
      have hle := handleEvent_answers env (.task task) w.server id
      have hge := handleEvent_answers_grow env (.task task) hconn (fun _ h => nomatch h) id
      rw [h] at hle hge
      dsimp only [finalState, Event.registers] at hle hge
      simp only [Bool.false_eq_true, if_false, Nat.add_zero] at hle hge
      exact (le_antisymm hle hge).trans ih
    | start => exact ih
    | send => exact ih

/-! ## Emptying the pool and the channel -/

section Drain
variable (env : Env) (client : LanguageServerState → Message → Prop)

theorem exists_start_all : ∀ (jobs : List Job) (w : World), w.queued = jobs →
    ∃ w', Relation.ReflTransGen (Step env client) w w' ∧ w'.queued = [] ∧ w'.server = w.server ∧
      w'.channel = w.channel ∧ w'.received = w.received
  | [], w, h => ⟨w, .refl, h, rfl, rfl, rfl⟩
  | job :: rest, w, h => by
    obtain ⟨w', hr, hq, hs, hc, hm⟩ := exists_start_all rest
      { w with queued := rest, running := w.running ++ [Job.run env w.server.vfs job] } rfl
    exact ⟨w', .head (.start job rest h) hr, hq, hs, hc, hm⟩

theorem exists_send_all : ∀ (n : Nat) (w : World), w.running.flatten.length = n →
    ∃ w', Relation.ReflTransGen (Step env client) w w' ∧ (∀ r ∈ w'.running, r = []) ∧
      w'.queued = w.queued ∧ w'.server = w.server ∧ w'.received = w.received
  | 0, w, h => ⟨w, .refl, List.flatten_eq_nil_iff.mp (List.length_eq_zero.mp h), rfl, rfl, rfl⟩
  | n + 1, w, h => by
    obtain ⟨r, hr, hne⟩ : ∃ r ∈ w.running, r ≠ [] := by
      by_contra hall
      push_neg at hall
      rw [List.flatten_eq_nil_iff.mpr hall] at h
      cases h
    obtain ⟨i, hi⟩ := List.mem_iff_getElem?.mp hr
    obtain ⟨task, rest, rfl⟩ := List.exists_cons_of_ne_nil hne
    have hlen := (flatten_perm_set hi).length_eq
    obtain ⟨w', hr', hrun, hq, hs, hm⟩ := exists_send_all n
      { w with running := w.running.set i rest, channel := w.channel ++ [task] }
      (by show (w.running.set i rest).flatten.length = n; simp only [List.length_cons] at hlen; omega)
    exact ⟨w', .head (.send i task rest hi) hr', hrun, hq, hs, hm⟩

theorem exists_take_all : ∀ (tasks : List Task) (w : World), w.channel = tasks →
    w.server.sender.receiverDropsAt = none → w.server.vfs.changes = [] →
    w.server.threadPool = [] → w.server.taskSender = [] →
    ∃ w', Relation.ReflTransGen (Step env client) w w' ∧ w'.channel = [] ∧
      w'.queued = w.queued ∧ w'.running = w.running ∧ w'.received = w.received
  | [], w, h, _, _, _, _ => ⟨w, .refl, h, rfl, rfl, rfl⟩
  | task :: rest, w, h, hs, hc, hp, ht => by
    obtain ⟨q, s, hev, hs'⟩ := LanguageServerState.handleEvent_task_ok env task hs hc
    obtain ⟨w', hr, hch, hq, hrun, hm⟩ := exists_take_all rest
      (w.afterEvent { w.server with requestQueue := q, sender := s } rest)
      (by simp [afterEvent, ht]) hs' hc rfl rfl
    refine ⟨w', .head (.take task rest h hev) hr, hch, ?_, hrun, hm⟩
    rw [hq]
    simp [afterEvent, hp]

/-- From every world a run reaches with a connected client, the workers and the
loop, taking no client message, can finish every job and empty the channel. -/
theorem exists_quiescent {env : Env} {client : LanguageServerState → Message → Prop}
    {sender : Sender} (hs : sender.receiverDropsAt = none) {w : World}
    (hw : Reach env client sender w) :
    ∃ w', Relation.ReflTransGen (Step env client) w w' ∧ w'.Quiescent ∧ w'.received = w.received := by
  have hi := inv_of_reach hw
  obtain ⟨w₁, hr₁, hq₁, hs₁, -, hm₁⟩ := exists_start_all env client _ w rfl
  obtain ⟨w₂, hr₂, hrun₂, hq₂, hs₂, hm₂⟩ := exists_send_all env client _ w₁ rfl
  obtain ⟨w₃, hr₃, hch₃, hq₃, hrun₃, hm₃⟩ := exists_take_all env client _ w₂
    rfl (by rw [hs₂, hs₁]; exact hi.receiverDropsAt.trans hs) (by rw [hs₂, hs₁]; exact hi.changes)
    (by rw [hs₂, hs₁]; exact hi.threadPool) (by rw [hs₂, hs₁]; exact hi.taskSender)
  exact ⟨w₃, (hr₁.trans hr₂).trans hr₃, ⟨hq₃.trans (hq₂.trans hq₁), hrun₃ ▸ hrun₂, hch₃⟩,
    hm₃.trans (hm₂.trans hm₁)⟩

theorem pending_of_quiescent (env : Env) {w : World} (hq : w.Quiescent) : w.pending env = [] := by
  simp [pending, hq.1, hq.2.2, List.flatten_eq_nil_iff.mpr hq.2.1]

theorem owed_of_quiescent {env : Env} {sender : Sender} {w : World} (hi : Inv env sender w)
    (hq : w.Quiescent) (id : RequestId) : w.server.requestQueue.owed id = 0 := by
  simpa [pending_of_quiescent env hq] using hi.covered id

end Drain

end World

/-- A goto-definition request on `/w/a.k`, with id 1. -/
def gotoA : Message := .request ⟨.num 1, .gotoDefinition ⟨"file", "", "/w/a.k"⟩ ⟨0, 0⟩⟩

/-- A new server whose loop has taken `openA` and `gotoA`: a diagnostics job and the
request's job are queued. -/
def askedWorld : World :=
  ((World.init ⟨[], none⟩).steps? cleanCompileEnv [.receive openA, .receive gotoA]).getD
    (World.init ⟨[], none⟩)

/-- `askedWorld` once the workers have run both jobs and the loop has taken every task. -/
def answeredWorld : World :=
  (askedWorld.steps? cleanCompileEnv
    [.start, .start, .send 0, .send 1, .send 1, .take, .take, .take, .take]).getD askedWorld

theorem reach_askedWorld {client : LanguageServerState → Message → Prop}
    (hclient : ∀ st msg, freshIds st msg → client st msg) :
    World.Reach cleanCompileEnv client ⟨[], none⟩ askedWorld :=
  World.reflTransGen_of_steps? hclient (show (World.init ⟨[], none⟩).steps? cleanCompileEnv
    [.receive openA, .receive gotoA] = some askedWorld from rfl)

theorem askedWorld_answered {client : LanguageServerState → Message → Prop}
    (hclient : ∀ st msg, freshIds st msg → client st msg) :
    Relation.ReflTransGen (World.Step cleanCompileEnv client) askedWorld answeredWorld :=
  World.reflTransGen_of_steps? hclient (show askedWorld.steps? cleanCompileEnv
    [.start, .start, .send 0, .send 1, .send 1, .take, .take, .take, .take] =
      some answeredWorld from rfl)

theorem reach_answeredWorld {client : LanguageServerState → Message → Prop}
    (hclient : ∀ st msg, freshIds st msg → client st msg) :
    World.Reach cleanCompileEnv client ⟨[], none⟩ answeredWorld :=
  (reach_askedWorld hclient).trans (askedWorld_answered hclient)

open World in
/-- No request is left hanging. From every state a run of the loop, its thread pool
and its task channel reaches, with any client that stays connected, the workers and
the loop can, taking no further client message, finish every job and empty the
task channel; the loop then owes no request a response. -/
theorem requests_answered_after_drain (env : Env) (client : LanguageServerState → Message → Prop)
    (sender : Sender) (hs : sender.receiverDropsAt = none) (w : World)
    (hw : World.Reach env client sender w) :
    ∃ w', Relation.ReflTransGen (World.Step env client) w w' ∧ w'.Quiescent ∧
      w'.received = w.received ∧ ∀ id, w'.server.requestQueue.incoming id = none := by
  obtain ⟨w', hr, hq, hm⟩ := exists_quiescent hs hw
  refine ⟨w', hr, hq, hm, fun id => ?_⟩
  have := owed_of_quiescent (inv_of_reach (hw.trans hr)) hq id
  simpa [ReqQueue.owed] using this

/-- Once the loop has taken `openA` and `gotoA`, the request awaits its response
with both jobs queued; the workers and the loop can finish them. -/
theorem asked_world_drains :
    (⟨[], none⟩ : Sender).receiverDropsAt = none ∧
    World.Reach cleanCompileEnv freshIds ⟨[], none⟩ askedWorld ∧
    askedWorld.server.requestQueue.incoming (.num 1) = some "textDocument/definition" ∧
    ∃ w', Relation.ReflTransGen (World.Step cleanCompileEnv freshIds) askedWorld w' ∧
      w'.Quiescent ∧ w'.received = askedWorld.received ∧
      ∀ id, w'.server.requestQueue.incoming id = none :=
  ⟨rfl, reach_askedWorld fun _ _ h => h, rfl, requests_answered_after_drain cleanCompileEnv freshIds
    ⟨[], none⟩ rfl askedWorld (reach_askedWorld fun _ _ h => h)⟩

open World in
/-- Each request is answered exactly once. With a client that stays connected and
never reuses the id of a request awaiting its response, in every state of a run the
responses the client has to an id, plus the one still owed, are the ones it had at
the start plus its requests with that id; and the workers and the loop can finish
all their work, after which the client has exactly one response to each of its
requests. -/
theorem each_request_answered_once (env : Env) (sender : Sender)
    (hs : sender.receiverDropsAt = none) (w : World) (hw : World.Reach env freshIds sender w) :
    (∀ id, responsesTo id w.server.sender.sent + w.server.requestQueue.owed id =
      responsesTo id sender.sent + requestsTo id w.received) ∧
    ∃ w', Relation.ReflTransGen (World.Step env freshIds) w w' ∧ w'.Quiescent ∧
      ∀ id, responsesTo id w'.server.sender.sent = responsesTo id sender.sent + requestsTo id w.received := by
  refine ⟨answers_of_reach_fresh hs hw, ?_⟩
  obtain ⟨w', hr, hq, hm⟩ := exists_quiescent hs hw
  refine ⟨w', hr, hq, fun id => ?_⟩
  have h := answers_of_reach_fresh hs (hw.trans hr) id
  rwa [hm, LanguageServerState.answers, owed_of_quiescent (inv_of_reach (hw.trans hr)) hq id,
    Nat.add_zero] at h

/-- Once the loop has taken `openA` and `gotoA`, the client has sent one request
with id 1 and has no response to it yet; the workers and the loop can finish, after
which it has exactly one. -/
theorem asked_world_answers_once :
    (⟨[], none⟩ : Sender).receiverDropsAt = none ∧
    World.Reach cleanCompileEnv freshIds ⟨[], none⟩ askedWorld ∧
    requestsTo (.num 1) askedWorld.received = 1 ∧
    responsesTo (.num 1) askedWorld.server.sender.sent = 0 ∧
    ((∀ id, responsesTo id askedWorld.server.sender.sent + askedWorld.server.requestQueue.owed id =
      responsesTo id [] + requestsTo id askedWorld.received) ∧
    ∃ w', Relation.ReflTransGen (World.Step cleanCompileEnv freshIds) askedWorld w' ∧
      w'.Quiescent ∧
      ∀ id, responsesTo id w'.server.sender.sent = responsesTo id [] + requestsTo id askedWorld.received) :=
  ⟨rfl, reach_askedWorld fun _ _ h => h, rfl, by decide,
    each_request_answered_once cleanCompileEnv ⟨[], none⟩ rfl askedWorld (reach_askedWorld fun _ _ h => h)⟩

end KCLLanguageServer
