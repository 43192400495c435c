import KCLLanguageServer.Loop.Refinement

/-! # What the client receives, whatever the workers do

The loop answers a shutdown request, a request of no known method and every
request after a shutdown itself, and gives every other request to the thread pool
with a snapshot; after every event that changed a file it gives the pool a
diagnostics job on a snapshot. The VFS is not in the snapshot: a job reads it as it
is when a worker starts the job. The jobs run side by side and send their tasks
back through the task channel in any order. What the client gets is still
accounted for by the client's own messages:

* every response it has answers one of its requests on the snapshot the request
  found, with the documents of a state `run` reaches on the messages up to the
  request and some after it (`responses_linearizable`);
* every diagnostics it has is, for a file open in some state the loop went
  through, the diagnostics of that file's database there
  (`diagnostics_of_reached_states`).

The proof follows what a state has out: tasks sent or on their way, and queued
jobs, which have read no VFS yet (`World.Sound`).
-/
namespace KCLLanguageServer

/-- The answer to `req` of a loop that handles each request on the spot, in state
`st`, with the handler reading the documents of `vfs`. -/
def answerOn (env : Env) (st : LanguageServerState) (vfs : Vfs) (req : Request) : Response :=
  if st.shutdownRequested then
    Response.newErr req.id ErrorCode.invalidRequest "shutdown was requested"
  else
    match req.kind with
    | .shutdown => ⟨req.id, .ok .null⟩
    | .other _ => Response.newErr req.id ErrorCode.methodNotFound "unknown request"
    | _ => jobResponse env vfs st.snapshot req

theorem answerOn_congr (env : Env) {a b : LanguageServerState} (h : LanguageServerState.Agree a b)
    (vfs : Vfs) (req : Request) : answerOn env a vfs req = answerOn env b vfs req := by
  simp only [answerOn, h.snapshot_eq, h.shutdownRequested]

@[simp] theorem answerOn_id (env : Env) (st : LanguageServerState) (vfs : Vfs) (req : Request) :
    (answerOn env st vfs req).id = req.id := by
  unfold answerOn
  split
  · rfl
  · split <;> simp [Response.newErr]

/-- `r` answers the request `q.2`, which the client sent after the messages `q.1`,
among its messages `received`: it is the answer on the spot on the state `run`
reaches on `q.1`, with the documents of the state `run` reaches on the messages up
to the request and some after it. -/
def AnswersAfter (env : Env) (sender : Sender) (received : List Message) (r : Response)
    (q : List Message × Request) : Prop :=
  ∃ st, run env (q.1.map .lsp) (LanguageServerState.new sender) = .ok () st ∧
    ∃ mid st', q.1 ++ .request q.2 :: mid <+: received ∧
      run env ((q.1 ++ .request q.2 :: mid).map .lsp) (LanguageServerState.new sender) = .ok () st' ∧
      r = answerOn env st st'.vfs q.2

theorem AnswersAfter.mono {env : Env} {sender : Sender} {received received' : List Message}
    {r : Response} {q : List Message × Request} (h : AnswersAfter env sender received r q)
    (hp : received <+: received') : AnswersAfter env sender received' r q :=
  let ⟨st, hrun, mid, st', hmid, hrun', hr⟩ := h
  ⟨st, hrun, mid, st', hmid.trans hp, hrun', hr⟩

/-- The message `handle_task` sends the client for a task. -/
def Task.message : Task → Message
  | .notify n => .notification n
  | .response r => .response r

theorem Task.message_injective : Function.Injective Task.message := by
  intro a b h
  cases a <;> cases b <;> simp_all [Task.message]

/-- A log message, which the loop and the workers send freely. -/
def Task.isLog : Task → Bool
  | .notify (.logMessage _ _) => true
  | _ => false

/-- A request job sends log messages and one response: its handler's answer. -/
theorem mem_runRequest {env : Env} {vfs : Vfs} {snapshot : LanguageServerSnapshot}
    {req : Request} {t : Task} (h : t ∈ runRequest env vfs snapshot req) :
    t.isLog = true ∨ t = .response (jobResponse env vfs snapshot req) := by
  obtain ⟨messages, hm⟩ := runRequest_eq env vfs snapshot req
  rw [hm, List.mem_append, List.mem_singleton] at h
  refine h.imp_left fun h => ?_
  obtain ⟨m, -, rfl⟩ := List.mem_map.mp h
  rfl

/-- `run` on the client's messages after a first part, from the state it reaches on
that part. -/
theorem run_of_append {env : Env} {pre post : List Message}
    (hex : ∀ m ∈ pre, (Event.lsp m).isExit = false) {s st st' : LanguageServerState}
    (h₁ : run env (pre.map .lsp) s = .ok () st) (h₂ : run env ((pre ++ post).map .lsp) s = .ok () st') :
    run env (post.map .lsp) st = .ok () st' := by
  rwa [List.map_append, run_append env (fun e he => by
    obtain ⟨m, hm, rfl⟩ := List.mem_map.mp he; exact hex m hm), bind_of_ok h₁] at h₂

/-! ## What one event puts out -/

/-- The tasks a state has out: sent to the client, or queued on the task channel. -/
def Outstanding (st : LanguageServerState) (t : Task) : Prop :=
  t.message ∈ st.sender.sent ∨ t ∈ st.taskSender

/-- The frame of steps that put out, besides log messages, only tasks that satisfy
`P`, and give the pool only jobs that satisfy `J`. -/
def emitsFrame (P : Task → Prop) (J : Job → Prop) : Frame :=
  ⟨fun a b => (∀ t, Outstanding b t → Outstanding a t ∨ t.isLog ∨ P t) ∧
      ∀ job ∈ b.threadPool, job ∈ a.threadPool ∨ J job,
    fun _ => ⟨fun _ h => .inl h, fun _ h => .inl h⟩,
    fun h₁ h₂ => ⟨fun t h => (h₂.1 t h).elim (h₁.1 t) .inr,
      fun job h => (h₂.2 job h).elim (h₁.2 job) .inr⟩⟩

namespace emitsFrame
variable {P P' : Task → Prop} {J J' : Job → Prop} {a b : LanguageServerState}

theorem mono (h : (emitsFrame P J).rel a b) (hP : ∀ t, P t → P' t) (hJ : ∀ job, J job → J' job) :
    (emitsFrame P' J').rel a b :=
  ⟨fun t ht => (h.1 t ht).imp_right (Or.imp_right (hP t)),
    fun job hj => (h.2 job hj).imp_right (hJ job)⟩

/-- A step that changes no outbox puts out nothing. -/
theorem of_outboxes (hs : b.sender.sent = a.sender.sent) (ht : b.taskSender = a.taskSender)
    (hp : b.threadPool = a.threadPool) : (emitsFrame P J).rel a b :=
  ⟨fun _ h => .inl (by rwa [Outstanding, hs, ht] at h), fun _ h => .inl (hp ▸ h)⟩

/-- Sending the client the message of a task puts out that task. -/
theorem sent {t : Task} (ht : t.isLog = true ∨ P t) (st : LanguageServerState) :
    (emitsFrame P J).rel st
      { st with sender := { st.sender with sent := st.sender.sent ++ [t.message] } } := by
  refine ⟨fun t' h => ?_, fun _ h => .inl h⟩
  simp only [Outstanding, List.mem_append, List.mem_singleton] at h
  rcases h with (h | h) | h
  · exact .inl (.inl h)
  · rw [Task.message_injective h]
    exact .inr ht
  · exact .inl (.inr h)

theorem edits (P : Task → Prop) (J : Job → Prop) : (emitsFrame P J).Edits :=
  ⟨fun _ _ _ => of_outboxes rfl rfl rfl, fun _ _ => of_outboxes rfl rfl rfl,
    fun st m => sent (t := .notify (LanguageServerState.logMessageNotification m)) (.inl rfl) st⟩

end emitsFrame

namespace LanguageServerState

/-- `respond` puts out at most the response it is given. -/
theorem respond_emits {J : Job → Prop} (response : Response) (st : LanguageServerState) :
    (emitsFrame (· = .response response) J).rel st (finalState (respond response st)) := by
  unfold respond send
  split
  · split
    · exact emitsFrame.sent (P := (· = .response response)) (J := J) (.inr rfl)
        { st with requestQueue := ⟨Function.update st.requestQueue.incoming response.id none⟩ }
    · exact emitsFrame.of_outboxes rfl rfl rfl
  · exact (emitsFrame _ J).refl st

/-- The recompilation puts out no task, and gives the pool at most a diagnostics job
on the snapshot it ends with. -/
theorem handleChanges_emits {P : Task → Prop} (env : Env) {st st' : LanguageServerState}
    (h : handleChanges env st = .ok () st') :
    (emitsFrame P (· = .diagnostics st'.snapshot)).rel st st' := by
  unfold handleChanges at h
  obtain ⟨changed, st₁, h₁, h₂⟩ := bind_eq_ok h
  have hk := keeps_processVfsChanges (emitsFrame.edits P (· = .diagnostics st'.snapshot))
    (fun _ _ => emitsFrame.of_outboxes rfl rfl rfl) env st
  rw [h₁] at hk
  refine (emitsFrame _ _).trans hk ?_
  cases changed <;> cases h₂
  · exact (emitsFrame _ _).refl _
  · exact ⟨fun t h => .inl h, fun job h => (List.mem_append.mp h).imp_right List.mem_singleton.mp⟩

/-- What the dispatch of an event in state `st` may put out besides log messages:
the task it takes; or, for a request, its answer on the spot, on any VFS. -/
def Emitted (env : Env) (st : LanguageServerState) (vfs : Vfs) : Event → Task → Prop
  | .task task, t => t = task
  | .lsp msg, t => ∃ req, msg = .request req ∧ t = .response (answerOn env st vfs req)

/-- The job the dispatch of an event may give the pool: for a request, a job on the
state's snapshot whose answer on whatever VFS it reads is the answer on the spot. -/
def Spawned (env : Env) (st : LanguageServerState) : Event → Job → Prop
  | .task _, _ => False
  | .lsp msg, job => ∃ req, msg = .request req ∧ job = .request req st.snapshot ∧
      ∀ vfs, answerOn env st vfs req = jobResponse env vfs st.snapshot req

/-- Outside a shutdown, the dispatch of a request puts out at most its answer on the
spot, or gives the pool its job. -/
theorem dispatchRequest_emits (env : Env) (vfs : Vfs) (req : Request) {st : LanguageServerState}
    (hs : st.shutdownRequested = false) :
    (emitsFrame (· = .response (answerOn env st vfs req)) (Spawned env st (.lsp (.request req)))).rel
      st (finalState (dispatchRequest req st)) := by
  cases hk : req.kind
  case shutdown =>
    simp only [dispatchRequest, hk, modify_bind_apply]
    refine (emitsFrame _ _).trans (emitsFrame.of_outboxes rfl rfl rfl)
      (emitsFrame.mono (respond_emits _ _) (fun t ht => ?_) fun _ h => h)
    simp [ht, answerOn, hs, hk]
  case other =>
    simp only [dispatchRequest, hk, finalState_discard]
    exact emitsFrame.mono (respond_emits _ st) (fun t ht => by simp [ht, answerOn, hs, hk])
      fun _ h => h
  all_goals
    simp only [dispatchRequest, hk, get_bind_apply, spawn, modify_apply, finalState]
    exact ⟨fun t h => .inl h, fun job h => (List.mem_append.mp h).imp_right fun h =>
      ⟨req, rfl, List.mem_singleton.mp h, fun _ => by simp [answerOn, hs, hk]⟩⟩

theorem dispatchEvent_emits (env : Env) (vfs : Vfs) (event : Event) (st : LanguageServerState) :
    (emitsFrame (Emitted env st vfs event) (Spawned env st event)).rel st
      (finalState (dispatchEvent env event st)) := by
  rcases event with task | req | _ | n
  · cases task with
    | notify n =>
      exact Keeps.discard' (keeps_sendNotification
        (emitsFrame.sent (P := Emitted env st vfs (.task (.notify n)))
          (J := Spawned env st (.task (.notify n))) (t := .notify n) (.inr rfl))) st
    | response r => exact respond_emits r st
  · show (emitsFrame _ _).rel st (finalState (onRequest req st))
    rw [onRequest_eq]
    set st₀ : LanguageServerState := { st with
      taskSender := st.taskSender ++ [.notify (logMessageNotification s!"on request {req.method}")]
      requestQueue := ⟨Function.update st.requestQueue.incoming req.id (some req.method)⟩ }
    -- Registering the request and logging it put out a log message.
    have h₀ : (emitsFrame (Emitted env st vfs (.lsp (.request req)))
        (Spawned env st (.lsp (.request req)))).rel st st₀ := by
      refine ⟨fun t h => ?_, fun _ h => .inl h⟩
      simp only [Outstanding, st₀, List.mem_append, List.mem_singleton] at h
      rcases h with h | h | rfl
      · exact .inl (.inl h)
      · exact .inl (.inr h)
      · exact .inr (.inl rfl)
    refine (emitsFrame _ _).trans h₀ ?_
    cases hs : st.shutdownRequested
    · exact emitsFrame.mono (dispatchRequest_emits env vfs req hs) (fun t ht => ⟨req, rfl, ht⟩)
        fun _ h => h
    · exact emitsFrame.mono (respond_emits (J := fun _ => False) _ st₀)
        (fun t ht => ⟨req, rfl, by simp [ht, answerOn, hs]⟩) fun _ h => h.elim
  · exact (emitsFrame _ _).refl st
  · exact keeps_onNotification (emitsFrame.edits _ _)
      (fun _ _ => emitsFrame.of_outboxes rfl rfl rfl) env n st

/-- An event puts out, besides log messages, what its dispatch may put out; it gives
the pool what its dispatch may, and a diagnostics job on the snapshot it ends with. -/
theorem handleEvent_emits (env : Env) (vfs : Vfs) (event : Event) {st st' : LanguageServerState}
    (h : handleEvent env event st = .ok () st') :
    (emitsFrame (Emitted env st vfs event)
      fun job => Spawned env st event job ∨ job = .diagnostics st'.snapshot).rel st st' := by
  obtain ⟨_, st₁, h₁, h₂⟩ := bind_eq_ok h
  have hd := dispatchEvent_emits env vfs event st
  rw [h₁] at hd
  exact (emitsFrame _ _).trans (emitsFrame.mono hd (fun _ h => h) fun _ => .inl)
    (emitsFrame.mono (handleChanges_emits env h₂) (fun _ h => h) fun _ => .inr)

end LanguageServerState

/-! ## Over every run of the loop with its workers -/

namespace World

/-- Where a task the world has out comes from: the client had its message at the
start; it is a log message; it answers a request of the client (`AnswersAfter`);
or it is a task of a diagnostics job on the state `run` reaches on some first
messages of the client, with that state's VFS. -/
inductive Accounted (env : Env) (sender : Sender) (received : List Message) : Task → Prop
  | initial {t : Task} : t.message ∈ sender.sent → Accounted env sender received t
  | log {t : Task} : t.isLog = true → Accounted env sender received t
  | answer {r : Response} {q : List Message × Request} :
      AnswersAfter env sender received r q → Accounted env sender received (.response r)
  | diagnostics {pre post : List Message} {st : LanguageServerState} {t : Task} :
      received = pre ++ post →
      run env (pre.map .lsp) (LanguageServerState.new sender) = .ok () st →
      t ∈ Job.run env st.vfs (.diagnostics st.snapshot) → Accounted env sender received t

/-- Where a queued job comes from: a request of the client, whose answer on any VFS
is the answer on the spot on the state `run` reaches on the messages before it; or a
diagnostics job on the snapshot of a state `run` reaches on some first messages. -/
inductive JobAccounted (env : Env) (sender : Sender) (received : List Message) : Job → Prop
  | request {pre : List Message} {req : Request} {post : List Message} {st : LanguageServerState}
      {snapshot : LanguageServerSnapshot} : received = pre ++ .request req :: post →
      run env (pre.map .lsp) (LanguageServerState.new sender) = .ok () st →
      (∀ vfs, answerOn env st vfs req = jobResponse env vfs snapshot req) →
      JobAccounted env sender received (.request req snapshot)
  | diagnostics {pre post : List Message} {st : LanguageServerState} :
      received = pre ++ post →
      run env (pre.map .lsp) (LanguageServerState.new sender) = .ok () st →
      JobAccounted env sender received (.diagnostics st.snapshot)

section Append
variable {env : Env} {sender : Sender} {received : List Message} (msgs : List Message)

theorem Accounted.append {t : Task} (h : Accounted env sender received t) :
    Accounted env sender (received ++ msgs) t := by
  cases h with
  | initial h => exact .initial h
  | log h => exact .log h
  | answer h => exact .answer (h.mono (List.prefix_append _ _))
  | @diagnostics pre post _ _ hr hrun ht =>
    exact .diagnostics (show _ = pre ++ (post ++ msgs) by simp [hr]) hrun ht

theorem JobAccounted.append {job : Job} (h : JobAccounted env sender received job) :
    JobAccounted env sender (received ++ msgs) job := by
  cases h with
  | @request pre req post _ _ hr hrun ha =>
    exact .request (show _ = pre ++ .request req :: (post ++ msgs) by simp [hr]) hrun ha
  | @diagnostics pre post _ hr hrun =>
    exact .diagnostics (show _ = pre ++ (post ++ msgs) by simp [hr]) hrun

end Append

/-- The tasks the world has out: sent to the client, or on their way from a running
job or on the channel. -/
def Out (w : World) (t : Task) : Prop :=
  t.message ∈ w.server.sender.sent ∨ t ∈ w.running.flatten ++ w.channel

/-- Every task the world has out, and every queued job, is accounted for. -/
def Sound (env : Env) (sender : Sender) (w : World) : Prop :=
  (∀ t, Out w t → Accounted env sender w.received t) ∧
    ∀ job ∈ w.queued, JobAccounted env sender w.received job

/-- A task the world has out after the loop handled an event is one the state the
event ended in has out, or one that was on its way already. -/
theorem out_afterEvent {w : World} {st : LanguageServerState} {channel : List Task} {t : Task}
    (h : Out (w.afterEvent st channel) t) :
    Outstanding st t ∨ t ∈ w.running.flatten ++ channel := by
  simp only [Out, afterEvent, List.mem_append] at h
  rcases h with h | h | h | h
  · exact .inl (.inl h)
  · exact .inr (List.mem_append_left _ h)
  · exact .inr (List.mem_append_right _ h)
  · exact .inl (.inr h)

/-- A diagnostics job on the snapshot of a state `run` reaches publishes, when a
worker starts it later, what it would have published on that state's VFS. -/
theorem jobRun_diagnostics_later {env : Env} {sender : Sender} {received pre post : List Message}
    (hex : ∀ m ∈ received, (Event.lsp m).isExit = false) (hr : received = pre ++ post)
    {st stw : LanguageServerState}
    (hrun : run env (pre.map .lsp) (LanguageServerState.new sender) = .ok () st)
    (hw : run env (received.map .lsp) (LanguageServerState.new sender) = .ok () stw) :
    Job.run env stw.vfs (.diagnostics st.snapshot) = Job.run env st.vfs (.diagnostics st.snapshot) := by
  subst hr
  obtain ⟨_, hreach, -⟩ := reachable_of_run .new hrun
  exact jobRun_diagnostics_of_run hreach
    (run_of_append (fun m hm => hex m (List.mem_append_left _ hm)) hrun hw)

open LanguageServerState in
/-- What a worker starting a queued job sends is accounted for: the job read the VFS
of the state `run` reaches on every message taken so far. -/
theorem accounted_start {env : Env} {sender : Sender} {received : List Message}
    (hex : ∀ m ∈ received, (Event.lsp m).isExit = false) {stw : LanguageServerState}
    (hw : run env (received.map .lsp) (LanguageServerState.new sender) = .ok () stw) {job : Job}
    (hj : JobAccounted env sender received job) {t : Task} (ht : t ∈ Job.run env stw.vfs job) :
    Accounted env sender received t := by
  cases hj with
  | @request pre req post st _ hr hrun ha =>
    rcases mem_runRequest ht with ht | rfl
    · exact .log ht
    · rw [← ha]
      exact .answer (q := (pre, req)) ⟨st, hrun, post, stw, hr ▸ List.prefix_refl _, hr ▸ hw, rfl⟩
  | diagnostics hr hrun =>
    exact .diagnostics hr hrun (jobRun_diagnostics_later hex hr hrun hw ▸ ht)

open LanguageServerState in
theorem sound_step {env : Env} {client : LanguageServerState → Message → Prop} {sender : Sender}
    (hs : sender.receiverDropsAt = none) {w w' : World} (hw : Reach env client sender w)
    (hl : Sound env sender w) (hstep : Step env client w w') : Sound env sender w' := by
  have hi := inv_of_reach hw
  obtain ⟨hex, st₀, hrun₀, hag₀⟩ := agree_run hs hw
  obtain ⟨-, st₁, hrun₁, hag₁⟩ := agree_run hs (hw.tail hstep)
  -- A task the loop's state had out is sent to the client, and so accounted for.
  have hold : ∀ t, Outstanding w.server t → Accounted env sender w.received t := fun t h =>
    hl.1 t (.inl (by simpa [Outstanding, hi.taskSender] using h))
  cases hstep with
  | @receive st msg _ _ h =>
    have he := handleEvent_emits env st.vfs (.lsp msg) h
    refine ⟨fun t ht => ?_, fun job hj => ?_⟩
    · rcases out_afterEvent ht with ht | ht
      · rcases he.1 t ht with ht | ht | ⟨req, rfl, rfl⟩
        · exact (hold t ht).append _
        · exact .log ht
        · rw [← answerOn_congr env hag₀, show st.vfs = st₁.vfs from hag₁.vfs.symm]
          exact .answer (q := (w.received, req)) ⟨st₀, hrun₀, [], st₁, List.prefix_refl _, hrun₁, rfl⟩
      · exact (hl.1 t (.inr ht)).append _
    · rcases List.mem_append.mp hj with hj | hj
      · exact (hl.2 job hj).append _
      rcases he.2 job hj with hj | ⟨req, rfl, rfl, ha⟩ | rfl
      · exact absurd hj (by simp [hi.threadPool])
      · exact .request (show w.received ++ [.request req] = w.received ++ .request req :: [] from rfl)
          hrun₀ fun vfs => (answerOn_congr env hag₀ vfs req).trans (ha vfs)
      · rw [show st.snapshot = st₁.snapshot from hag₁.snapshot_eq.symm]
        exact .diagnostics (List.append_nil (w.received ++ [msg])).symm hrun₁
  | take task rest hq h =>
    have he := handleEvent_emits env st₀.vfs (.task task) h
    obtain ⟨q, s, hev, -⟩ := handleEvent_task_ok env task (hi.receiverDropsAt.trans hs) hi.changes
    rw [hev] at h
    cases h
    refine ⟨fun t ht => ?_, fun job hj => hl.2 job (by simpa [afterEvent, hi.threadPool] using hj)⟩
    rcases out_afterEvent ht with ht | ht
    · rcases he.1 t ht with ht | ht | rfl
      · exact hold t ht
      · exact .log ht
      · exact hl.1 _ (.inr (by simp [hq]))
    · -- The channel lost its first task.
      refine hl.1 t (.inr ?_)
      rw [hq]
      exact ((List.sublist_cons_self task rest).append_left _).subset ht
  | start job rest hq =>
    refine ⟨fun t ht => ?_, fun j hj => hl.2 j (by simp [hq, hj])⟩
    simp only [Out, List.flatten_append, List.flatten_singleton, List.mem_append] at ht
    rcases ht with ht | (ht | ht) | ht
    · exact hl.1 t (.inl ht)
    · exact hl.1 t (.inr (List.mem_append_left _ ht))
    · exact accounted_start hex hrun₀ (hl.2 job (by simp [hq])) (hag₀.vfs ▸ ht)
    · exact hl.1 t (.inr (List.mem_append_right _ ht))
  | send i task rest h =>
    refine ⟨fun t ht => hl.1 t (ht.imp_right fun h' => ?_), hl.2⟩
    simp only [List.mem_append, List.mem_singleton] at h' ⊢
    rw [(flatten_perm_set h).mem_iff, List.mem_cons]
    simpa only [or_comm, or_left_comm, or_assoc] using h'

theorem sound_of_reach {env : Env} {client : LanguageServerState → Message → Prop}
    {sender : Sender} (hs : sender.receiverDropsAt = none) {w : World}
    (hw : Reach env client sender w) : Sound env sender w := by
  induction hw with
  | refl =>
    exact ⟨fun t ht => .initial (by simpa [Out, init, LanguageServerState.new] using ht),
      fun _ h => nomatch h⟩
  | tail hr hstep ih => exact sound_step hs hr ih hstep

end World

/-- The responses are linearizable. In every state of a run of the loop with its
thread pool and task channel, with a client that stays connected, every response
the client has that it did not have at the start answers one of its requests as a
loop that handled it on the spot would: on the snapshot of the state `run` reaches
on the client's messages before it, with the documents the worker found when it
started, those of a state `run` reaches on the messages up to the request and some
after it. -/
theorem responses_linearizable (env : Env) (client : LanguageServerState → Message → Prop)
    (sender : Sender) (hs : sender.receiverDropsAt = none) (w : World)
    (hw : World.Reach env client sender w) :
    ∀ r, .response r ∈ w.server.sender.sent → .response r ∈ sender.sent ∨
      ∃ pre req, AnswersAfter env sender w.received r (pre, req) := by
  intro r hsent
  cases (World.sound_of_reach hs hw).1 (.response r) (.inl hsent) with
  | initial h => exact .inl h
  | log h => cases h
  | answer h => exact .inr ⟨_, _, h⟩
  | diagnostics _ _ ht => exact absurd ht (response_not_mem_diagnostics env _ _ r)

/-- After the workers ran the jobs of `openA` and `gotoA`, the client has the
definition response, and it answers `gotoA`. -/
theorem answered_world_responses_linearizable :
    (⟨[], none⟩ : Sender).receiverDropsAt = none ∧
    World.Reach cleanCompileEnv freshIds ⟨[], none⟩ answeredWorld ∧
    Message.response ⟨.num 1, .ok (.gotoDefinition none)⟩ ∈ answeredWorld.server.sender.sent ∧
    ∀ r, .response r ∈ answeredWorld.server.sender.sent → .response r ∈ ([] : List Message) ∨
      ∃ pre req, AnswersAfter cleanCompileEnv ⟨[], none⟩ answeredWorld.received r (pre, req) :=
  ⟨rfl, reach_answeredWorld fun _ _ h => h, by decide,
    responses_linearizable cleanCompileEnv freshIds ⟨[], none⟩ rfl answeredWorld
      (reach_answeredWorld fun _ _ h => h)⟩

/-- The diagnostics come from states the loop went through. In every state of a run
of the loop with its thread pool and task channel, with a client that stays
connected, every diagnostics the client has that it did not have at the start is
the diagnostics of a file open in the state `run` reaches on some first messages
of the client: the URL, and the diagnostics of the file's database there. The order
in which the jobs ran may make them stale, but never mixes two states. -/
theorem diagnostics_of_reached_states (env : Env)
    (client : LanguageServerState → Message → Prop) (sender : Sender)
    (hs : sender.receiverDropsAt = none) (w : World) (hw : World.Reach env client sender w) :
    ∀ uri diagnostics version,
      .notification (.publishDiagnostics uri diagnostics version) ∈ w.server.sender.sent →
      .notification (.publishDiagnostics uri diagnostics version) ∈ sender.sent ∨
      ∃ pre post, w.received = pre ++ post ∧
        ∃ st, run env (pre.map .lsp) (LanguageServerState.new sender) = .ok () st ∧
          ∃ id ∈ st.openedFiles, publishOf env st.vfs st.snapshot id =
            some (.notify (.publishDiagnostics uri diagnostics version)) := by
  intro uri diagnostics version hsent
  cases (World.sound_of_reach hs hw).1 (.notify (.publishDiagnostics uri diagnostics version))
    (.inl hsent) with
  | initial h => exact .inl h
  | log h => cases h
  | diagnostics hr hrun ht => exact .inr ⟨_, _, hr, _, hrun, publishOf_of_mem ht⟩

/-- After the workers ran the jobs of `openA` and `gotoA`, the client has the
diagnostics of `/w/a.k`, and they come from a state the loop went through. -/
theorem answered_world_diagnostics_of_reached_states :
    (⟨[], none⟩ : Sender).receiverDropsAt = none ∧
    World.Reach cleanCompileEnv freshIds ⟨[], none⟩ answeredWorld ∧
    Message.notification (.publishDiagnostics ⟨"file", "", "/w/a.k"⟩ [] none) ∈
      answeredWorld.server.sender.sent ∧
    ∀ uri diagnostics version,
      .notification (.publishDiagnostics uri diagnostics version) ∈
        answeredWorld.server.sender.sent →
      .notification (.publishDiagnostics uri diagnostics version) ∈ ([] : List Message) ∨
      ∃ pre post, answeredWorld.received = pre ++ post ∧
        ∃ st, run cleanCompileEnv (pre.map .lsp) (LanguageServerState.new ⟨[], none⟩) = .ok () st ∧
          ∃ id ∈ st.openedFiles, publishOf cleanCompileEnv st.vfs st.snapshot id =
            some (.notify (.publishDiagnostics uri diagnostics version)) :=
  ⟨rfl, reach_answeredWorld fun _ _ h => h, by decide,
    diagnostics_of_reached_states cleanCompileEnv freshIds ⟨[], none⟩ rfl answeredWorld
      (reach_answeredWorld fun _ _ h => h)⟩

end KCLLanguageServer
