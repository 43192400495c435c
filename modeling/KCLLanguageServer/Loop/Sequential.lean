import KCLLanguageServer.Loop.Linearizable

/-! # Each id's responses answer its requests, in order

With a client that stays connected and never reuses the id of a request awaiting
its response, the responses the client has to each id answer the requests under
that id one by one, in order, as `AnswersAfter` says; only the last may still be
unanswered, and once the workers and the loop finish none is
(`responses_pair_with_requests`). From any state, nothing on its way to the client
is lost or sent twice (`on_its_way_delivered_once`).

The invariant `World.Owes` says, per id, where the one response still owed comes
from: a task on its way, or the request's queued job, which reads the VFS only when
a worker starts it.
-/
namespace KCLLanguageServer

/-- The request under `id` that the message `m` after the messages `pre` is, if any. -/
def requestAt (id : RequestId) (pre : List Message) : Message → List (List Message × Request)
  | .request req => if req.id = id then [(pre, req)] else []
  | _ => []

/-- The requests under `id` among the client's messages, in order, each with the
messages before it. -/
def requestsUnder (id : RequestId) : List Message → List (List Message × Request)
  | [] => []
  | m :: rest => requestAt id [] m ++ (requestsUnder id rest).map fun q => (m :: q.1, q.2)

theorem requestAt_map (id : RequestId) (pre : List Message) (m m' : Message) :
    (requestAt id pre m).map (fun q => (m' :: q.1, q.2)) = requestAt id (m' :: pre) m := by
  rcases m with req | _ | _
  · simp only [requestAt]
    split <;> rfl
  all_goals rfl

theorem requestsUnder_append (id : RequestId) (msgs : List Message) (m : Message) :
    requestsUnder id (msgs ++ [m]) = requestsUnder id msgs ++ requestAt id msgs m := by
  induction msgs with
  | nil => simp [requestsUnder]
  | cons m' msgs ih => simp [requestsUnder, ih, requestAt_map]

/-- Each entry is a request under `id`, after the messages it comes with. -/
theorem requestsUnder_mem {id : RequestId} {msgs : List Message} {q : List Message × Request}
    (h : q ∈ requestsUnder id msgs) : q.2.id = id ∧ ∃ post, msgs = q.1 ++ .request q.2 :: post := by
  induction msgs generalizing q with
  | nil => cases h
  | cons m rest ih =>
    rcases List.mem_append.mp h with h | h
    · rcases m with req | _ | _ <;> simp only [requestAt, List.not_mem_nil] at h
      split at h
      · obtain rfl := List.mem_singleton.mp h
        exact ⟨‹_›, rest, rfl⟩
      · cases h
    · obtain ⟨q', hq', rfl⟩ := List.mem_map.mp h
      obtain ⟨hid, post, rfl⟩ := ih hq'
      exact ⟨hid, post, rfl⟩

/-! ## What a state shows of one id -/

/-- The responses to `id` the client has, in order. -/
def sentTo (id : RequestId) (st : LanguageServerState) : List Message :=
  st.sender.sent.filter (·.isResponseTo id)

/-- The responses to `id` on the loop's task channel. -/
def outTo (id : RequestId) (st : LanguageServerState) : List Task :=
  st.taskSender.filter (·.isResponseTo id)

/-- The jobs given to the pool that end with a response to `id`. -/
def jobsTo (id : RequestId) (st : LanguageServerState) : List Job :=
  st.threadPool.filter (·.answersTo id)

/-- What a state shows of one request id. -/
def view (id : RequestId) (st : LanguageServerState) :
    List Message × Option String × List Task × List Job :=
  (sentTo id st, st.requestQueue.incoming id, outTo id st, jobsTo id st)

theorem view_eq_iff {id : RequestId} {st : LanguageServerState} {s : List Message}
    {q : Option String} {o : List Task} {j : List Job} :
    view id st = (s, q, o, j) ↔
      sentTo id st = s ∧ st.requestQueue.incoming id = q ∧ outTo id st = o ∧ jobsTo id st = j := by
  simp only [view, Prod.mk.injEq]

namespace LanguageServerState

/-- The frame of steps that change nothing a state shows of `id`. -/
def idFrame (id : RequestId) : Frame := Frame.unchanged (view id)

theorem idFrame_edits (id : RequestId) : (idFrame id).Edits :=
  ⟨fun _ _ _ => rfl, fun _ _ => rfl, fun _ _ => by
    simp [idFrame, Frame.unchanged, view, sentTo, outTo, jobsTo, List.filter_append,
      Message.isResponseTo]⟩

theorem keeps_handleChanges_id (env : Env) (id : RequestId) :
    Keeps (idFrame id) (handleChanges env) :=
  keeps_handleChanges (idFrame_edits id) (fun _ _ => rfl)
    (fun st => by simp [idFrame, Frame.unchanged, view, sentTo, outTo, jobsTo, List.filter_append,
      Job.answersTo])
    env

theorem keeps_onNotification_id (env : Env) (id : RequestId) (n : Notification) :
    Keeps (idFrame id) (onNotification env n) :=
  keeps_onNotification (idFrame_edits id) (fun _ _ => rfl) env n

/-- With the client connected, `respond` to a request awaiting its response sends
the response and completes the request. -/
theorem respond_of_incoming (r : Response) {st : LanguageServerState}
    (hs : st.sender.receiverDropsAt = none) {m : String}
    (hm : st.requestQueue.incoming r.id = some m) :
    respond r st = .ok () { st with
      requestQueue := ⟨Function.update st.requestQueue.incoming r.id none⟩
      sender := { st.sender with sent := st.sender.sent ++ [.response r] } } := by
  simp only [respond, hm]
  exact send_of_connected _ hs

theorem respond_view (r : Response) (st : LanguageServerState)
    (hs : st.sender.receiverDropsAt = none) {m : String}
    (hm : st.requestQueue.incoming r.id = some m) (id : RequestId) :
    view id (finalState (respond r st)) =
      if r.id = id then (sentTo id st ++ [.response r], none, outTo id st, jobsTo id st)
      else view id st := by
  rw [respond_of_incoming r hs hm]
  by_cases h : r.id = id
  · subst h; simp [finalState, view, sentTo, outTo, jobsTo, Message.isResponseTo]
  · simp [finalState, view, sentTo, outTo, jobsTo, Message.isResponseTo, h,
      Function.update_noteq (Ne.symm h)]

theorem spawnRequest_view (req : Request) (snapshot : LanguageServerSnapshot)
    (st : LanguageServerState) (id : RequestId) :
    view id (finalState (spawn (.request req snapshot) st)) =
      if req.id = id then (sentTo id st, st.requestQueue.incoming id, outTo id st,
        jobsTo id st ++ [.request req snapshot])
      else view id st := by
  simp only [spawn, modify_apply, finalState, view, sentTo, outTo, jobsTo, List.filter_append,
    List.filter_cons, List.filter_nil, Job.answersTo]
  by_cases h : req.id = id <;> simp [h]

/-- Outside a shutdown, the dispatch answers a shutdown request and a request of no
known method on the spot, and gives any other request's job to the pool. -/
theorem dispatchRequest_view (env : Env) (vfs : Vfs) (req : Request) {st : LanguageServerState}
    (hs : st.sender.receiverDropsAt = none) (hsd : st.shutdownRequested = false)
    (hm : st.requestQueue.incoming req.id = some req.method) :
    (∀ id, view id (finalState (dispatchRequest req st)) =
      if req.id = id then
        (sentTo id st ++ [.response (answerOn env st vfs req)], none, outTo id st, jobsTo id st)
      else view id st) ∨
    ((∀ vfs', answerOn env st vfs' req = jobResponse env vfs' st.snapshot req) ∧
      ∀ id, view id (finalState (dispatchRequest req st)) =
        if req.id = id then (sentTo id st, st.requestQueue.incoming id, outTo id st,
          jobsTo id st ++ [.request req st.snapshot])
        else view id st) := by
  cases hk : req.kind
  case shutdown =>
    refine .inl fun id => ?_
    simp only [dispatchRequest, hk, modify_bind_apply]
    rw [respond_view _ { st with shutdownRequested := true } hs hm id]
    simp [view, sentTo, outTo, jobsTo, answerOn, hsd, hk]
  case other =>
    refine .inl fun id => ?_
    simp only [dispatchRequest, hk, finalState_discard]
    rw [respond_view _ st hs hm id]
    simp [answerOn, hsd, hk, Response.newErr]
  all_goals
    refine .inr ⟨fun _ => by simp [answerOn, hsd, hk], fun id => ?_⟩
    simp only [dispatchRequest, hk, get_bind_apply]
    exact spawnRequest_view req st.snapshot st id

/-- With the client connected, a request is answered on the spot, or gives its job
to the pool; nothing any other id shows changes. -/
theorem onRequest_view (env : Env) (vfs : Vfs) (req : Request) {st : LanguageServerState}
    (hs : st.sender.receiverDropsAt = none) :
    (∀ id, view id (finalState (onRequest req st)) =
      if req.id = id then
        (sentTo id st ++ [.response (answerOn env st vfs req)], none, outTo id st, jobsTo id st)
      else view id st) ∨
    ((∀ vfs', answerOn env st vfs' req = jobResponse env vfs' st.snapshot req) ∧
      ∀ id, view id (finalState (onRequest req st)) =
        if req.id = id then
          (sentTo id st, some req.method, outTo id st, jobsTo id st ++ [.request req st.snapshot])
        else view id st) := by
  set st₀ : LanguageServerState := { st with
    taskSender := st.taskSender ++ [.notify (logMessageNotification s!"on request {req.method}")]
    requestQueue := ⟨Function.update st.requestQueue.incoming req.id (some req.method)⟩ }
  have hm : st₀.requestQueue.incoming req.id = some req.method := Function.update_same _ _ _
  have hout : ∀ id, outTo id st₀ = outTo id st := fun _ => by
    simp [st₀, outTo, List.filter_append, Task.isResponseTo]
  have hother : ∀ id, req.id ≠ id → view id st₀ = view id st := fun id h => by
    simp [view, hout, sentTo, jobsTo, st₀, Function.update_noteq (Ne.symm h)]
  have hsent : ∀ id, sentTo id st₀ = sentTo id st := fun _ => rfl
  have hjobs : ∀ id, jobsTo id st₀ = jobsTo id st := fun _ => rfl
  have hans : answerOn env st₀ vfs req = answerOn env st vfs req := rfl
  have hsnap : st₀.snapshot = st.snapshot := rfl
  rw [onRequest_eq]
  by_cases hsd : st.shutdownRequested
  · refine .inl fun id => ?_
    rw [if_pos hsd, respond_view _ st₀ hs hm id]
    by_cases h : req.id = id <;>
      simp [h, hother, hout, hsent, hjobs, answerOn, hsd, Response.newErr]
  rw [if_neg hsd]
  rcases dispatchRequest_view env vfs req (show st₀.sender.receiverDropsAt = none from hs)
    (by simpa using hsd) hm with hd | ⟨ha, hd⟩
  · refine .inl fun id => ?_
    rw [hd id, hans]
    by_cases h : req.id = id <;> simp [h, hother, hout, hsent, hjobs]
  · refine .inr ⟨ha, fun id => ?_⟩
    rw [hd id]
    by_cases h : req.id = id
    · subst h; simp [hout, hm, hsent, hjobs, hsnap]
    · simp [h, hother]

/-- The end of `handle_event` changes nothing any id shows. -/
theorem view_of_handleEvent {env : Env} {event : Event} {st st' : LanguageServerState}
    (h : handleEvent env event st = .ok () st') :
    ∃ s, dispatchEvent env event st = .ok () s ∧ ∀ id, view id st' = view id s := by
  obtain ⟨_, s, h₁, h₂⟩ := bind_eq_ok h
  refine ⟨s, h₁, fun id => ?_⟩
  have := keeps_handleChanges_id env id s
  rwa [h₂] at this

/-- A client message other than a request changes nothing any id shows. -/
theorem handleEvent_other_view (env : Env) {msg : Message} (hm : ∀ req, msg ≠ .request req)
    {st st' : LanguageServerState} (h : handleEvent env (.lsp msg) st = .ok () st') (id : RequestId) :
    view id st' = view id st := by
  obtain ⟨s, hd, hv⟩ := view_of_handleEvent h
  rw [hv]
  cases msg with
  | request req => exact absurd rfl (hm req)
  | notification n =>
    have := keeps_onNotification_id env id n st
    simp only [dispatchEvent] at hd
    rwa [hd] at this
  | response r => cases hd; rfl

/-- With the client connected, a request is answered on the spot, with its answer on
any VFS, or gives the pool its job on the state's snapshot. -/
theorem handleEvent_request_view (env : Env) (req : Request) {st st' : LanguageServerState}
    (hs : st.sender.receiverDropsAt = none) (h : handleEvent env (.lsp (.request req)) st = .ok () st') :
    (∀ id, view id st' = if req.id = id then
        (sentTo id st ++ [.response (answerOn env st st'.vfs req)], none, outTo id st, jobsTo id st)
      else view id st) ∨
    ((∀ vfs, answerOn env st vfs req = jobResponse env vfs st.snapshot req) ∧
      ∀ id, view id st' = if req.id = id then
        (sentTo id st, some req.method, outTo id st, jobsTo id st ++ [.request req st.snapshot])
      else view id st) := by
  obtain ⟨s, hd, hv⟩ := view_of_handleEvent h
  change onRequest req st = _ at hd
  rcases onRequest_view env st'.vfs req hs with ho | ⟨ha, ho⟩ <;> simp only [hd, finalState] at ho
  · exact .inl fun id => (hv id).trans (ho id)
  · exact .inr ⟨ha, fun id => (hv id).trans (ho id)⟩

/-- Taking a task from the channel changes nothing an id shows unless the task is a
response to it; a response to a request awaiting one is sent in its place. -/
theorem handleEvent_task_view (env : Env) (task : Task) {st st' : LanguageServerState}
    (hs : st.sender.receiverDropsAt = none) (h : handleEvent env (.task task) st = .ok () st') :
    (∀ id, task.isResponseTo id = false → view id st' = view id st) ∧
    ∀ r, task = .response r → (st.requestQueue.incoming r.id).isSome →
      view r.id st' = (sentTo r.id st ++ [.response r], none, outTo r.id st, jobsTo r.id st) := by
  obtain ⟨s, hd, hv⟩ := view_of_handleEvent h
  cases task with
  | notify n =>
    simp only [dispatchEvent, handleTask, discard, send_of_connected _ hs] at hd
    cases hd
    refine ⟨fun id _ => ?_, fun r hr => nomatch hr⟩
    rw [hv]
    simp [view, sentTo, outTo, jobsTo, Message.isResponseTo]
  | response r =>
    simp only [dispatchEvent, handleTask] at hd
    refine ⟨fun id hid => ?_, fun r' hr hq => ?_⟩
    · cases hq : st.requestQueue.incoming r.id with
      | none =>
        simp only [respond, hq] at hd
        cases hd
        exact hv id
      | some m =>
        have hne : r.id ≠ id := by simpa [Task.isResponseTo] using hid
        have := respond_view r st hs hq id
        rw [hd] at this
        simpa [hv, hne, finalState] using this
    · cases hr
      obtain ⟨m, hm⟩ := Option.isSome_iff_exists.mp hq
      have := respond_view r st hs hm r.id
      rw [hd] at this
      simpa [hv] using this

end LanguageServerState

/-! ## Every run, one id at a time -/

namespace World

/-- The responses to `id` on their way from a running job or on the channel. -/
def flightTo (id : RequestId) (w : World) : List Task :=
  (w.running.flatten ++ w.channel).filter (·.isResponseTo id)

/-- The queued jobs that end with a response to `id`. -/
def queuedTo (id : RequestId) (w : World) : List Job :=
  w.queued.filter (·.answersTo id)

/-- What a world owes the client under one id: the client has the responses it had
at the start, then the answers `rs` to the first requests under `id`. -/
inductive Owes (env : Env) (sender : Sender) (w : World) (id : RequestId) : Prop
  /-- No request under `id` awaits a response; each has its answer. -/
  | settled (rs : List Response) (hq : w.server.requestQueue.incoming id = none)
      (hs : sentTo id w.server = sender.sent.filter (·.isResponseTo id) ++ rs.map .response)
      (hrs : List.Forall₂ (AnswersAfter env sender w.received) rs (requestsUnder id w.received))
      (hj : queuedTo id w = []) (hf : flightTo id w = [])
  /-- The last request under `id` awaits its answer `r`, which is on its way. -/
  | flight (rs : List Response) (r : Response) (hq : (w.server.requestQueue.incoming id).isSome)
      (hs : sentTo id w.server = sender.sent.filter (·.isResponseTo id) ++ rs.map .response)
      (hrs : List.Forall₂ (AnswersAfter env sender w.received) (rs ++ [r])
        (requestsUnder id w.received))
      (hj : queuedTo id w = []) (hf : flightTo id w = [.response r])
  /-- The last request under `id`, `req` after `pre`, awaits its answer; its job is
  queued, and answers as the loop on the spot would on any VFS. -/
  | queued (rs : List Response) (qs : List (List Message × Request)) (pre : List Message)
      (req : Request) (snapshot : LanguageServerSnapshot) (st : LanguageServerState)
      (hq : (w.server.requestQueue.incoming id).isSome)
      (hs : sentTo id w.server = sender.sent.filter (·.isResponseTo id) ++ rs.map .response)
      (hrs : List.Forall₂ (AnswersAfter env sender w.received) rs qs)
      (hreqs : requestsUnder id w.received = qs ++ [(pre, req)])
      (hrun : run env (pre.map .lsp) (LanguageServerState.new sender) = .ok () st)
      (ha : ∀ vfs, answerOn env st vfs req = jobResponse env vfs snapshot req)
      (hj : queuedTo id w = [.request req snapshot]) (hf : flightTo id w = [])

/-- What a world owes depends only on the client's messages, on what its loop shows
of the id and on what is on its way to it, in any order. -/
theorem Owes.congr {env : Env} {sender : Sender} {w w' : World} {id : RequestId}
    (h : Owes env sender w id) (hp : w.received <+: w'.received)
    (hreq : requestsUnder id w'.received = requestsUnder id w.received)
    (hs : sentTo id w'.server = sentTo id w.server)
    (hq : w'.server.requestQueue.incoming id = w.server.requestQueue.incoming id)
    (hj : queuedTo id w' = queuedTo id w) (hf : (flightTo id w').Perm (flightTo id w)) :
    Owes env sender w' id := by
  have hmono : ∀ {rs qs}, List.Forall₂ (AnswersAfter env sender w.received) rs qs →
      List.Forall₂ (AnswersAfter env sender w'.received) rs qs :=
    fun h => h.imp fun _ _ h => h.mono hp
  cases h with
  | settled rs hq₀ hs₀ hrs hj₀ hf₀ =>
    exact .settled rs (hq.trans hq₀) (hs.trans hs₀) (hreq ▸ hmono hrs) (hj.trans hj₀)
      (List.perm_nil.mp (hf₀ ▸ hf))
  | flight rs r hq₀ hs₀ hrs hj₀ hf₀ =>
    exact .flight rs r (hq ▸ hq₀) (hs.trans hs₀) (hreq ▸ hmono hrs) (hj.trans hj₀)
      (List.perm_singleton.mp (hf₀ ▸ hf))
  | queued rs qs pre req snapshot st hq₀ hs₀ hrs hreqs hrun ha hj₀ hf₀ =>
    exact .queued rs qs pre req snapshot st (hq ▸ hq₀) (hs.trans hs₀) (hmono hrs)
      (hreq.trans hreqs) hrun ha (hj.trans hj₀) (List.perm_nil.mp (hf₀ ▸ hf))

theorem queuedTo_afterEvent (w : World) (st : LanguageServerState) (ch : List Task)
    (id : RequestId) : queuedTo id (w.afterEvent st ch) = queuedTo id w ++ jobsTo id st := by
  simp [queuedTo, afterEvent, jobsTo, List.filter_append]

theorem flightTo_afterEvent (w : World) (st : LanguageServerState) (ch : List Task)
    (id : RequestId) : flightTo id (w.afterEvent st ch) =
      (w.running.flatten ++ ch).filter (·.isResponseTo id) ++ outTo id st := by
  simp [flightTo, afterEvent, outTo, List.filter_append]

open LanguageServerState in
/-- The loop taking a client message: a fresh request under `id` is answered on the
spot, or its job is queued; any other message changes nothing the id shows. -/
theorem owes_receive {env : Env} {sender : Sender} (hs : sender.receiverDropsAt = none)
    {w : World} (hw : Reach env freshIds sender w) {st : LanguageServerState} {msg : Message}
    (hc : freshIds w.server msg) (hexit : (Event.lsp msg).isExit = false)
    (h : handleEvent env (.lsp msg) w.server = .ok () st) {id : RequestId}
    (ho : Owes env sender w id) :
    Owes env sender { w.afterEvent st w.channel with received := w.received ++ [msg] } id := by
  have hi := inv_of_reach hw
  have hconn := hi.receiverDropsAt.trans hs
  have hout : outTo id w.server = [] := by simp [outTo, hi.taskSender]
  have hjobs : jobsTo id w.server = [] := by simp [jobsTo, hi.threadPool]
  have hqw : queuedTo id { w.afterEvent st w.channel with received := w.received ++ [msg] } =
      queuedTo id w ++ jobsTo id st := queuedTo_afterEvent w st w.channel id
  have hfw : flightTo id { w.afterEvent st w.channel with received := w.received ++ [msg] } =
      flightTo id w ++ outTo id st := flightTo_afterEvent w st w.channel id
  have hreq := requestsUnder_append id w.received msg
  have hsame : view id st = view id w.server → requestAt id w.received msg = [] →
      Owes env sender { w.afterEvent st w.channel with received := w.received ++ [msg] } id := by
    intro hv hr
    obtain ⟨hsent, hq', hout', hjobs'⟩ := view_eq_iff.mp hv
    exact ho.congr (List.prefix_append _ _) (by rw [hreq, hr, List.append_nil]) hsent hq'
      (by rw [hqw, hjobs', hjobs, List.append_nil])
      (by rw [hfw, hout', hout, List.append_nil])
  rcases msg with req | r | n
  case response | notification =>
    exact hsame (handleEvent_other_view env (fun _ h => by cases h) h id) rfl
  by_cases hid : req.id = id
  swap
  · rcases handleEvent_request_view env req hconn h with hv | ⟨-, hv⟩ <;>
      exact hsame ((hv id).trans (if_neg hid)) (by simp [requestAt, hid])
  subst hid
  -- The request is fresh: nothing was owed under its id.
  obtain ⟨rs, hs₀, hrs, hj₀, hf₀⟩ : ∃ rs, sentTo req.id w.server =
      sender.sent.filter (·.isResponseTo req.id) ++ rs.map .response ∧
      List.Forall₂ (AnswersAfter env sender w.received) rs (requestsUnder req.id w.received) ∧
      queuedTo req.id w = [] ∧ flightTo req.id w = [] := by
    have hnone : w.server.requestQueue.incoming req.id = none := hc
    cases ho with
    | settled rs _ hs₀ hrs hj₀ hf₀ => exact ⟨rs, hs₀, hrs, hj₀, hf₀⟩
    | flight _ _ hq => simp [hnone] at hq
    | queued _ _ _ _ _ _ hq => simp [hnone] at hq
  obtain ⟨-, st₀, hrun₀, hag₀⟩ := agree_run hs hw
  obtain ⟨-, st₁, hrun₁, hag₁⟩ := agree_run hs (hw.tail (.receive (.request req) hc hexit h))
  have hmono := hrs.imp fun _ _ h => h.mono (List.prefix_append w.received [.request req])
  have hreq' : requestsUnder req.id (w.received ++ [.request req]) =
      requestsUnder req.id w.received ++ [(w.received, req)] := by simp [hreq, requestAt]
  rcases handleEvent_request_view env req hconn h with hv | ⟨ha, hv⟩
  · -- answered on the spot
    obtain ⟨hsent, hq', hout', hjobs'⟩ := view_eq_iff.mp ((hv req.id).trans (if_pos rfl))
    refine .settled (rs ++ [answerOn env w.server st.vfs req]) hq' (hsent.trans (by simp [hs₀]))
      ?_ (by rw [hqw, hj₀, hjobs', hjobs]; rfl) (by rw [hfw, hout', hout, List.append_nil]; exact hf₀)
    rw [hreq']
    refine List.rel_append hmono (.cons ⟨st₀, hrun₀, [], st₁, List.prefix_refl _, hrun₁, ?_⟩ .nil)
    rw [answerOn_congr env hag₀, hag₁.vfs]
    rfl
  · -- a job given to the pool
    obtain ⟨hsent, hq', hout', hjobs'⟩ := view_eq_iff.mp ((hv req.id).trans (if_pos rfl))
    refine .queued rs _ w.received req w.server.snapshot st₀ (Option.isSome_iff_exists.mpr ⟨_, hq'⟩)
      (hsent.trans hs₀) hmono hreq' hrun₀ (fun vfs => (answerOn_congr env hag₀ vfs req).trans (ha vfs))
      (by rw [hqw, hj₀, hjobs', hjobs]; rfl) (by rw [hfw, hout', hout, List.append_nil]; exact hf₀)

open LanguageServerState in
/-- The loop taking a task from the channel: a response to `id` is the one owed, and
sending it settles the id; any other task changes nothing the id shows. -/
theorem owes_take {env : Env} {sender : Sender} (hs : sender.receiverDropsAt = none) {w : World}
    (hi : Inv env sender w) {st : LanguageServerState} {task : Task} {rest : List Task}
    (hq : w.channel = task :: rest) (h : handleEvent env (.task task) w.server = .ok () st)
    {id : RequestId} (ho : Owes env sender w id) : Owes env sender (w.afterEvent st rest) id := by
  have hout : outTo id w.server = [] := by simp [outTo, hi.taskSender]
  have hjobs : jobsTo id w.server = [] := by simp [jobsTo, hi.threadPool]
  have hqw := queuedTo_afterEvent w st rest id
  have hfw := flightTo_afterEvent w st rest id
  obtain ⟨hother, hresp⟩ := handleEvent_task_view env task (hi.receiverDropsAt.trans hs) h
  cases ht : task.isResponseTo id
  · obtain ⟨hsent, hq', hout', hjobs'⟩ := view_eq_iff.mp (hother id ht)
    refine ho.congr (List.prefix_refl _) rfl hsent hq' (by rw [hqw, hjobs', hjobs, List.append_nil]) ?_
    rw [hfw, hout', hout, List.append_nil, flightTo, hq]
    simp [List.filter_append, ht]
  obtain ⟨r, rfl, rfl⟩ : ∃ r, task = .response r ∧ r.id = id := by
    cases task with
    | notify => cases ht
    | response r => exact ⟨r, rfl, by simpa [Task.isResponseTo] using ht⟩
  -- The response taken is the one owed, and nothing else is on its way to its id.
  have hp : (flightTo r.id w).Perm
      (.response r :: (w.running.flatten ++ rest).filter (·.isResponseTo r.id)) := by
    rw [flightTo, hq, ← List.filter_cons_of_pos ht]
    exact List.perm_middle.filter _
  rcases ho with ⟨-, -, -, -, -, hf₀⟩ | ⟨rs, r', hq₀, hs₀, hrs, hj₀, hf₀⟩ |
    ⟨-, -, -, -, -, -, -, -, -, -, -, -, -, hf₀⟩
  · exact absurd (hf₀ ▸ hp).length_eq (by simp)
  · obtain ⟨hr, hrest⟩ := List.cons_eq_cons.mp (List.singleton_perm.mp (hf₀ ▸ hp))
    obtain rfl : r = r' := (Task.response.inj hr).symm
    obtain ⟨hsent, hq', hout', hjobs'⟩ := view_eq_iff.mp (hresp r rfl hq₀)
    exact .settled (rs ++ [r]) hq' (hsent.trans (by simp [hs₀])) hrs
      (by rw [hqw, hj₀, hjobs', hjobs]; rfl) (by rw [hfw, ← hrest, hout', hout]; rfl)
  · exact absurd (hf₀ ▸ hp).length_eq (by simp)

/-- A worker starting a queued job: if it answers `id`, the response it will send is
its answer on the VFS it reads now. -/
theorem owes_start {env : Env} {sender : Sender} (hs : sender.receiverDropsAt = none) {w : World}
    (hw : Reach env freshIds sender w) {job : Job} {rest : List Job} (hq : w.queued = job :: rest)
    {id : RequestId} (ho : Owes env sender w id) :
    Owes env sender
      { w with queued := rest, running := w.running ++ [Job.run env w.server.vfs job] } id := by
  have hf' : flightTo id
      { w with queued := rest, running := w.running ++ [Job.run env w.server.vfs job] } =
      w.running.flatten.filter (·.isResponseTo id) ++
        (Job.run env w.server.vfs job).filter (·.isResponseTo id) ++
          w.channel.filter (·.isResponseTo id) := by
    simp [flightTo, List.filter_append]
  have hfw : flightTo id w = w.running.flatten.filter (·.isResponseTo id) ++
      w.channel.filter (·.isResponseTo id) := by rw [flightTo, List.filter_append]
  cases hj : job.answersTo id
  · have hnil : (Job.run env w.server.vfs job).filter (·.isResponseTo id) = [] := by
      rw [Job.filter_run]
      cases job with
      | request req _ => simp [show req.id ≠ id by simpa [Job.answersTo] using hj]
      | diagnostics => rfl
    refine ho.congr (List.prefix_refl _) rfl rfl rfl (by simp [queuedTo, hq, hj]) ?_
    rw [hf', hnil, List.append_nil, hfw]
  obtain ⟨req, snapshot, rfl, rfl⟩ : ∃ req snapshot, job = .request req snapshot ∧ req.id = id := by
    cases job with
    | request req snapshot => exact ⟨req, snapshot, rfl, by simpa [Job.answersTo] using hj⟩
    | diagnostics => cases hj
  have hqueued : queuedTo req.id w = .request req snapshot :: rest.filter (·.answersTo req.id) := by
    simp [queuedTo, hq, Job.answersTo]
  rcases ho with ⟨-, -, -, -, hj₀, -⟩ | ⟨-, -, -, -, -, hj₀, -⟩ |
    ⟨rs, qs, pre, req', snapshot', st, hq₀, hs₀, hrs, hreqs, hrun, ha, hj₀, hf₀⟩
  · simp [hqueued] at hj₀
  · simp [hqueued] at hj₀
  rw [hqueued] at hj₀
  obtain ⟨hjob, hrest⟩ := List.cons_eq_cons.mp hj₀
  obtain ⟨rfl, rfl⟩ : req = req' ∧ snapshot = snapshot' := by simpa using hjob
  -- The request is the last one under its id among the client's messages.
  have hmem : (pre, req) ∈ requestsUnder req.id w.received := by simp [hreqs]
  obtain ⟨-, post, hpost⟩ := requestsUnder_mem hmem
  obtain ⟨-, stw, hrunw, hagw⟩ := agree_run hs hw
  rw [hfw, List.append_eq_nil] at hf₀
  refine .flight rs (jobResponse env w.server.vfs snapshot req) hq₀ hs₀ ?_ hrest ?_
  · rw [hreqs]
    refine List.rel_append hrs (.cons ⟨st, hrun, post, stw, ⟨[], by simp [hpost]⟩, ?_, ?_⟩ .nil)
    · show run env ((pre ++ .request req :: post).map .lsp) _ = _
      rwa [← hpost]
    · rw [hagw.vfs, ha]
  · rw [hf', hf₀.1, hf₀.2, Job.filter_run]
    simp

/-- A running job sending its next task moves it onto the channel. -/
theorem owes_send {env : Env} {sender : Sender} {w : World} {i : Nat} {task : Task}
    {rest : List Task} (hi : w.running[i]? = some (task :: rest)) {id : RequestId}
    (ho : Owes env sender w id) :
    Owes env sender { w with running := w.running.set i rest, channel := w.channel ++ [task] } id := by
  refine ho.congr (List.prefix_refl _) rfl rfl rfl rfl (List.Perm.filter _ ?_)
  rw [← List.append_assoc]
  exact (List.perm_append_singleton task _).trans ((flatten_perm_set hi).symm.append_right _)

/-- Every world a run reaches owes each id at most the answer to its last request. -/
theorem owes_of_reach {env : Env} {sender : Sender} (hs : sender.receiverDropsAt = none)
    {w : World} (hw : Reach env freshIds sender w) (id : RequestId) : Owes env sender w id := by
  induction hw with
  | refl => exact .settled [] rfl (by simp [sentTo, init, LanguageServerState.new]) .nil rfl rfl
  | tail hr hstep ih =>
    cases hstep with
    | receive msg hc hexit h => exact owes_receive hs hr hc hexit h ih
    | take task rest hq h => exact owes_take hs (inv_of_reach hr) hq h ih
    | start job rest hq => exact owes_start hs hr hq ih
    | send i task rest hi => exact owes_send hi ih

end World

open World in
/-- Each id's responses answer its requests, in order. With a client that stays
connected and never reuses the id of a request awaiting its response, in every state
of a run the responses the client has to each id are the ones it had at the start,
then answers to the first requests under that id, one each and in order, as a loop
that handled them on the spot would give with the documents its worker read
(`AnswersAfter`); at most the last request under the id is unanswered. The workers
and the loop can, taking no further client message, finish all their work, after
which every request under each id has its answer. -/
theorem responses_pair_with_requests (env : Env) (sender : Sender)
    (hs : sender.receiverDropsAt = none) (w : World) (hw : World.Reach env freshIds sender w) :
    (∀ id, ∃ rs qs, w.server.sender.sent.filter (·.isResponseTo id) =
        sender.sent.filter (·.isResponseTo id) ++ rs.map Message.response ∧
      List.Forall₂ (AnswersAfter env sender w.received) rs qs ∧
      qs <+: requestsUnder id w.received ∧ (requestsUnder id w.received).length ≤ qs.length + 1) ∧
    ∃ w', Relation.ReflTransGen (World.Step env freshIds) w w' ∧ w'.Quiescent ∧
      w'.received = w.received ∧ ∀ id, ∃ rs, w'.server.sender.sent.filter (·.isResponseTo id) =
        sender.sent.filter (·.isResponseTo id) ++ rs.map Message.response ∧
        List.Forall₂ (AnswersAfter env sender w.received) rs (requestsUnder id w.received) := by
  refine ⟨fun id => ?_, ?_⟩
  · rcases owes_of_reach hs hw id with ⟨rs, -, hs₀, hrs⟩ | ⟨rs, r, -, hs₀, hrs⟩ |
      ⟨rs, qs, pre, req, -, -, -, hs₀, hrs, hreqs⟩
    · exact ⟨rs, _, hs₀, hrs, List.prefix_refl _, Nat.le_succ _⟩
    · have hl := hrs.length_eq
      refine ⟨rs, (requestsUnder id w.received).take rs.length, hs₀, ?_, List.take_prefix _ _, ?_⟩
      · simpa using List.forall₂_take rs.length hrs
      · simp only [List.length_append, List.length_singleton] at hl
        simp [← hl]
    · exact ⟨rs, qs, hs₀, hrs, hreqs ▸ List.prefix_append _ _, by simp [hreqs]⟩
  obtain ⟨w', hr, hq, hm⟩ := exists_quiescent hs hw
  refine ⟨w', hr, hq, hm, fun id => ?_⟩
  have hf : flightTo id w' = [] := by
    simp [flightTo, hq.2.2, List.flatten_eq_nil_iff.mpr hq.2.1]
  rcases owes_of_reach hs (hw.trans hr) id with ⟨rs, -, hs₀, hrs⟩ | ⟨_, _, _, _, _, _, hf₀⟩ |
    ⟨_, _, _, _, _, _, _, _, _, _, _, _, hj₀, _⟩
  · exact ⟨rs, hs₀, hm ▸ hrs⟩
  · simp [hf] at hf₀
  · simp [queuedTo, hq.1] at hj₀

/-- Once the loop has taken `openA` and `gotoA`, the request under id 1 awaits its
answer; the workers and the loop can finish, after which the client has it. -/
theorem asked_world_pairs_responses :
    (⟨[], none⟩ : Sender).receiverDropsAt = none ∧
    World.Reach cleanCompileEnv freshIds ⟨[], none⟩ askedWorld ∧
    requestsUnder (.num 1) askedWorld.received =
      [([openA], ⟨.num 1, .gotoDefinition ⟨"file", "", "/w/a.k"⟩ ⟨0, 0⟩⟩)] ∧
    ((∀ id, ∃ rs qs, askedWorld.server.sender.sent.filter (·.isResponseTo id) =
        ([] : List Message).filter (·.isResponseTo id) ++ rs.map Message.response ∧
      List.Forall₂ (AnswersAfter cleanCompileEnv ⟨[], none⟩ askedWorld.received) rs qs ∧
      qs <+: requestsUnder id askedWorld.received ∧
      (requestsUnder id askedWorld.received).length ≤ qs.length + 1) ∧
    ∃ w', Relation.ReflTransGen (World.Step cleanCompileEnv freshIds) askedWorld w' ∧
      w'.Quiescent ∧ w'.received = askedWorld.received ∧
      ∀ id, ∃ rs, w'.server.sender.sent.filter (·.isResponseTo id) =
        ([] : List Message).filter (·.isResponseTo id) ++ rs.map Message.response ∧
        List.Forall₂ (AnswersAfter cleanCompileEnv ⟨[], none⟩ askedWorld.received) rs
          (requestsUnder id askedWorld.received)) :=
  ⟨rfl, reach_askedWorld fun _ _ h => h, rfl, responses_pair_with_requests cleanCompileEnv
    ⟨[], none⟩ rfl askedWorld (reach_askedWorld fun _ _ h => h)⟩

/-! ## Nothing on its way is lost or sent twice -/

open LanguageServerState in
/-- With the client connected and no change pending, the loop forwards the task it
takes to the client: a notification always, a response while its request awaits one. -/
theorem handleEvent_task_sends (env : Env) (task : Task) {st : LanguageServerState}
    (hs : st.sender.receiverDropsAt = none) (hc : st.vfs.changes = [])
    (hr : ∀ r, task = .response r → (st.requestQueue.incoming r.id).isSome) :
    ∃ q, handleEvent env (.task task) st = .ok () { st with
      requestQueue := q
      sender := { st.sender with sent := st.sender.sent ++ [task.message] } } := by
  obtain ⟨q, h⟩ : ∃ q, handleTask task st = .ok () { st with
      requestQueue := q
      sender := { st.sender with sent := st.sender.sent ++ [task.message] } } := by
    cases task with
    | notify n =>
      exact ⟨st.requestQueue, by simp only [handleTask, discard, send_of_connected _ hs]; rfl⟩
    | response r =>
      obtain ⟨m, hm⟩ := Option.isSome_iff_exists.mp (hr r rfl)
      exact ⟨_, respond_of_incoming r hs hm⟩
  have hd : (finalState (handleTask task st)).vfs.changes = [] := by rw [h]; exact hc
  exact ⟨q, (bind_handleChanges_of_nil env hd).trans h⟩

namespace World

/-- A response on its way answers a request that awaits one. -/
theorem incoming_of_flight {env : Env} {sender : Sender} (hs : sender.receiverDropsAt = none)
    {w : World} (hw : Reach env freshIds sender w) {r : Response}
    (hr : .response r ∈ w.running.flatten ++ w.channel) :
    (w.server.requestQueue.incoming r.id).isSome := by
  have hmem : Task.response r ∈ flightTo r.id w :=
    List.mem_filter.mpr ⟨hr, by simp [Task.isResponseTo]⟩
  rcases owes_of_reach hs hw r.id with ⟨-, -, -, -, -, hf⟩ | ⟨-, -, hq⟩ |
    ⟨-, -, -, -, -, -, -, -, -, -, -, -, -, hf⟩
  · simp [hf] at hmem
  · exact hq
  · simp [hf] at hmem

/-- A worker starting a job moves tasks on their way, and drops none. -/
theorem pending_start (env : Env) (w : World) {job : Job} {rest : List Job}
    (hq : w.queued = job :: rest) :
    ({ w with queued := rest, running := w.running ++ [Job.run env w.server.vfs job] }.pending
      env).Perm (w.pending env) := by
  simp only [pending, hq, List.flatMap_cons, List.flatten_append, List.flatten_singleton]
  exact List.perm_iff_count.mpr fun a => by simp only [List.count_append]; omega

/-- A running job sending its next task moves it onto the channel. -/
theorem pending_send (env : Env) (w : World) {i : Nat} {task : Task} {rest : List Task}
    (hi : w.running[i]? = some (task :: rest)) :
    ({ w with running := w.running.set i rest, channel := w.channel ++ [task] }.pending env).Perm
      (w.pending env) := by
  have h := (flatten_perm_set hi).count_eq
  refine List.perm_iff_count.mpr fun a => ?_
  simp only [pending, List.count_append, h a, List.count_cons, List.count_nil]
  omega

/-- The loop only ever adds to the client messages it has taken. -/
theorem received_grows {env : Env} {client : LanguageServerState → Message → Prop}
    {w w' : World} (hr : Relation.ReflTransGen (Step env client) w w') :
    w.received <+: w'.received := by
  induction hr with
  | refl => exact List.prefix_refl _
  | tail _ hstep ih =>
    cases hstep with
    | receive => exact ih.trans (List.prefix_append _ _)
    | _ => exact ih

open LanguageServerState in
/-- One step that takes no client message sends the client the message of the task
it takes, if any, and moves nothing else off the way. -/
theorem delivered_step {env : Env} {sender : Sender} (hs : sender.receiverDropsAt = none)
    {w w' : World} (hw : Reach env freshIds sender w) (hstep : Step env freshIds w w')
    (hm : w'.received = w.received) :
    ∃ l, w'.server.sender.sent = w.server.sender.sent ++ l ∧
      (l ++ (w'.pending env).map Task.message).Perm ((w.pending env).map Task.message) := by
  have hi := inv_of_reach hw
  cases hstep with
  | receive msg => exact absurd (congrArg List.length hm) (by simp)
  | @take st task rest hq h =>
    have hr : ∀ r, task = .response r → (w.server.requestQueue.incoming r.id).isSome :=
      fun r hr => incoming_of_flight hs hw (by simp [hq, hr])
    obtain ⟨q, h'⟩ := handleEvent_task_sends env task (hi.receiverDropsAt.trans hs) hi.changes hr
    rw [h'] at h
    cases h
    refine ⟨[task.message], rfl, List.perm_iff_count.mpr fun a => ?_⟩
    simp only [pending, afterEvent, hq, hi.threadPool, hi.taskSender, List.append_nil,
      List.map_append, List.map_cons, List.count_append, List.count_cons, List.count_nil]
    omega
  | start job rest hq => exact ⟨[], by simp, (pending_start env w hq).map _⟩
  | send i task rest hi => exact ⟨[], by simp, (pending_send env w hi).map _⟩

/-- A run that ends with the client messages it started with took none on the way. -/
theorem received_eq_of_tail {env : Env} {client : LanguageServerState → Message → Prop}
    {w w₁ w₂ : World} (hr : Relation.ReflTransGen (Step env client) w w₁)
    (hstep : Step env client w₁ w₂) (hm : w₂.received = w.received) : w₁.received = w.received :=
  ((received_grows hr).eq_of_length (le_antisymm (received_grows hr).length_le
    ((received_grows (.single hstep)).length_le.trans_eq (congrArg List.length hm)))).symm

theorem delivered_of_run {env : Env} {sender : Sender} (hs : sender.receiverDropsAt = none)
    {w w' : World} (hw : Reach env freshIds sender w)
    (hr : Relation.ReflTransGen (Step env freshIds) w w') (hm : w'.received = w.received) :
    ∃ l, w'.server.sender.sent = w.server.sender.sent ++ l ∧
      (l ++ (w'.pending env).map Task.message).Perm ((w.pending env).map Task.message) := by
  induction hr with
  | refl => exact ⟨[], by simp, .refl _⟩
  | @tail w₁ w₂ hr₁ hstep ih =>
    have h₁ := received_eq_of_tail hr₁ hstep hm
    obtain ⟨l₁, hs₁, hp₁⟩ := ih h₁
    obtain ⟨l₂, hs₂, hp₂⟩ := delivered_step hs (hw.trans hr₁) hstep (hm.trans h₁.symm)
    refine ⟨l₁ ++ l₂, by rw [hs₂, hs₁, List.append_assoc], ?_⟩
    rw [List.append_assoc]
    exact (hp₂.append_left l₁).trans hp₁

end World

open World in
/-- Nothing on its way is lost or sent twice. With a client that stays connected and
never reuses the id of a request awaiting its response, from every state of a run,
however the workers and the loop go on without taking a client message, the client
gets only what was on its way then (the tasks of the queued and running jobs and
those on the task channel), each at most once, and the rest is still on its way; once
nothing is left to do, it has got all of it, each exactly once, in some order. -/
theorem on_its_way_delivered_once (env : Env) (sender : Sender)
    (hs : sender.receiverDropsAt = none) (w : World) (hw : World.Reach env freshIds sender w)
    (w' : World) (hr : Relation.ReflTransGen (World.Step env freshIds) w w')
    (hm : w'.received = w.received) :
    ∃ l, w'.server.sender.sent = w.server.sender.sent ++ l ∧
      (l ++ (w'.pending env).map Task.message).Perm ((w.pending env).map Task.message) ∧
      (w'.Quiescent → l.Perm ((w.pending env).map Task.message)) := by
  obtain ⟨l, hsent, hperm⟩ := delivered_of_run hs hw hr hm
  exact ⟨l, hsent, hperm, fun hq => by simpa [pending_of_quiescent env hq] using hperm⟩

/-- From `askedWorld`, with four tasks on their way, the run to `answeredWorld` takes
no client message and ends with nothing left to do. -/
theorem asked_world_delivers_once :
    (⟨[], none⟩ : Sender).receiverDropsAt = none ∧
    World.Reach cleanCompileEnv freshIds ⟨[], none⟩ askedWorld ∧
    Relation.ReflTransGen (World.Step cleanCompileEnv freshIds) askedWorld answeredWorld ∧
    answeredWorld.received = askedWorld.received ∧
    (askedWorld.pending cleanCompileEnv).length = 4 ∧ answeredWorld.Quiescent ∧
    ∃ l, answeredWorld.server.sender.sent = askedWorld.server.sender.sent ++ l ∧
      (l ++ (answeredWorld.pending cleanCompileEnv).map Task.message).Perm
        ((askedWorld.pending cleanCompileEnv).map Task.message) ∧
      (answeredWorld.Quiescent →
        l.Perm ((askedWorld.pending cleanCompileEnv).map Task.message)) :=
  ⟨rfl, reach_askedWorld fun _ _ h => h, askedWorld_answered fun _ _ h => h, rfl, rfl,
    ⟨rfl, by decide, rfl⟩, on_its_way_delivered_once cleanCompileEnv ⟨[], none⟩ rfl askedWorld
      (reach_askedWorld fun _ _ h => h) answeredWorld (askedWorld_answered fun _ _ h => h) rfl⟩

end KCLLanguageServer
