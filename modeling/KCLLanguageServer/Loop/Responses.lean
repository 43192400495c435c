import KCLLanguageServer.Loop.Lifecycle

/-! # Responses to the client

`respond` answers a request only while the request queue holds it, and completes
it in the same step. So over any order of worker results (late ones, repeated
ones, ones for ids never seen) the client gets at most one response per
registration of an id. The count kept is the responses the client has received
for an id plus one while the id is still owed one: only a request's registration
raises it.
-/
namespace KCLLanguageServer

/-- A response to the request `id`. -/
def Message.isResponseTo (id : RequestId) : Message → Bool
  | .response r => r.id == id
  | _ => false

/-- The responses to `id` among the messages the client has received. -/
def responsesTo (id : RequestId) (sent : List Message) : Nat :=
  sent.countP (Message.isResponseTo id)

@[simp] theorem responsesTo_append_singleton (id : RequestId) (sent : List Message) (m : Message) :
    responsesTo id (sent ++ [m]) = responsesTo id sent + if m.isResponseTo id then 1 else 0 := by
  simp [responsesTo, List.countP_append, List.countP_singleton]

/-- One while `id` is registered and not yet answered. -/
def ReqQueue.owed (q : ReqQueue) (id : RequestId) : Nat := if (q.incoming id).isSome then 1 else 0

/-- The responses to `id` the server has sent, plus one while it still owes one. -/
def LanguageServerState.answers (st : LanguageServerState) (id : RequestId) : Nat :=
  responsesTo id st.sender.sent + st.requestQueue.owed id

/-- An event that registers `id`: a request with that id. -/
def Event.registers (id : RequestId) : Event → Bool
  | .lsp (.request req) => req.id == id
  | _ => false

/-- The registrations of `id` over the events a run has handled. -/
def registrations (id : RequestId) (hist : List Handled) : Nat :=
  hist.countP (·.event.registers id)

namespace LanguageServerState

/-- The frame of steps that send a response only in place of one owed. -/
def answersFrame : Frame :=
  ⟨fun a b => ∀ id, b.answers id ≤ a.answers id, fun _ _ => le_rfl,
    fun h₁ h₂ id => (h₂ id).trans (h₁ id)⟩

theorem answersFrame_tolerates : answersFrame.Tolerates where
  vfs _ _ _ _ := le_rfl
  wordIndexMap _ _ _ := le_rfl
  taskSender _ _ _ := le_rfl
  spawnRequest _ _ _ _ := le_rfl
  notify st n id := by simp [answers, Message.isResponseTo]

theorem keeps_respond_answers (response : Response) : Keeps answersFrame (respond response) := by
  intro st id
  unfold respond
  split
  · rename_i m hm
    have howed : ∀ s, LanguageServerState.answers
        { st with requestQueue := ⟨Function.update st.requestQueue.incoming response.id none⟩,
                  sender := s } id =
        responsesTo id s.sent + if response.id = id then 0 else st.requestQueue.owed id := by
      intro s
      by_cases h : response.id = id
      · subst h; simp [answers, ReqQueue.owed]
      · simp [answers, ReqQueue.owed, Function.update_noteq (Ne.symm h), h]
    have hm' : st.requestQueue.owed response.id = 1 := by simp [ReqQueue.owed, hm]
    unfold send
    split
    · show LanguageServerState.answers { st with requestQueue := _, sender := _ } id ≤ _
      rw [howed]
      by_cases h : response.id = id
      · subst h; simp [answers, hm', Message.isResponseTo]
      · simp [answers, Message.isResponseTo, h]
    · show LanguageServerState.answers { st with requestQueue := _, sender := st.sender } id ≤ _
      rw [howed]
      split <;> simp [answers]
  · exact le_rfl

theorem answers_register (req : Request) (st : LanguageServerState) (t : List Task) (id : RequestId) :
    LanguageServerState.answers { st with
        taskSender := t
        requestQueue := ⟨Function.update st.requestQueue.incoming req.id (some req.method)⟩ } id ≤
      st.answers id + if (Event.lsp (.request req)).registers id then 1 else 0 := by
  by_cases h : req.id = id
  · subst h
    simp only [answers, ReqQueue.owed, Function.update_same, Option.isSome_some, if_true,
      Event.registers, beq_self_eq_true]
    split <;> omega
  · simp [answers, ReqQueue.owed, Function.update_noteq (Ne.symm h), Event.registers, h]

theorem dispatchEvent_answers (env : Env) (event : Event) (st : LanguageServerState)
    (id : RequestId) :
    (finalState (dispatchEvent env event st)).answers id ≤ st.answers id + if event.registers id then 1 else 0 := by
  rcases event with task | ⟨req⟩ | _ | n
  · exact keeps_handleTask answersFrame_tolerates keeps_respond_answers task st id
  · show (finalState (onRequest req st)).answers id ≤ _
    rw [onRequest_eq]
    refine le_trans ?_ (answers_register req st
      (st.taskSender ++ [.notify (logMessageNotification s!"on request {req.method}")]) id)
    split
    · exact keeps_respond_answers _ _ id
    · exact keeps_dispatchRequest answersFrame_tolerates keeps_respond_answers
        (fun _ _ => le_rfl) req _ id
  · exact le_rfl
  · exact keeps_onNotification answersFrame_tolerates.edits (fun _ _ _ => le_rfl) env n st id

/-- A whole event, whether it ends the run or not, sends a response only in place
of one owed, and owes one more only for a request it registers. -/
theorem handleEvent_answers (env : Env) (event : Event) (st : LanguageServerState)
    (id : RequestId) :
    (finalState (handleEvent env event st)).answers id ≤ st.answers id + if event.registers id then 1 else 0 := by
  have hd := dispatchEvent_answers env event st id
  show (finalState ((dispatchEvent env event >>= fun _ => handleChanges env) st)).answers id ≤ _
  cases h : dispatchEvent env event st with
  | ok _ st₁ =>
    rw [h] at hd
    rw [bind_of_ok h]
    exact (keeps_handleChanges answersFrame_tolerates.edits (fun _ _ _ => le_rfl) (fun _ _ => le_rfl) env st₁ id).trans hd
  | error e st₁ =>
    rw [h] at hd
    rwa [bind_of_error h]

/-- Over a run, the responses sent to `id` and the one still owed never exceed
the registrations of `id`, beyond what the client had received at the start. -/
theorem answers_le_registrations {env : Env} {sender : Sender} {hist : List Handled}
    {st : LanguageServerState} (hr : Reachable env sender hist st) (id : RequestId) :
    st.answers id ≤ responsesTo id sender.sent + registrations id hist := by
  induction hr with
  | new => simp [answers, ReqQueue.owed, LanguageServerState.new]
  | @handle hist st st₁ st' event _ _ hd hc ih =>
    have h₁ := handleEvent_answers env event st id
    have h₂ : (finalState (handleEvent env event st)) = st' := by
      show finalState ((dispatchEvent env event >>= fun _ => handleChanges env) st) = st'
      rw [bind_of_ok hd, hc]
      rfl
    rw [h₂] at h₁
    simp only [registrations, List.countP_append, List.countP_singleton] at ih ⊢
    omega

end LanguageServerState

open LanguageServerState in
/-- Responses over any interleaving of requests and worker results: in every state
of a run, the responses the server has sent to an id, plus the one it still owes,
are at most the times the id was registered; and in every event a response to an
id is sent only while the id is owed one, which the response then completes. -/
theorem responses_le_registrations (env : Env) (sender : Sender) :
    (∀ hist st, Reachable env sender hist st → ∀ id,
      responsesTo id st.sender.sent + st.requestQueue.owed id ≤
        responsesTo id sender.sent + registrations id hist) ∧
    (∀ event st id,
      responsesTo id (finalState (handleEvent env event st)).sender.sent +
          (finalState (handleEvent env event st)).requestQueue.owed id ≤
        responsesTo id st.sender.sent + st.requestQueue.owed id + if event.registers id then 1 else 0) :=
  ⟨fun _ _ hr id => answers_le_registrations hr id, handleEvent_answers env⟩

/-- Once the loop has handled `shutdownReq`, the client has its one response, and
id 1 has its one registration. -/
theorem responses_after_shutdown_request :
    ∃ hist st, Reachable Env.empty ⟨[], none⟩ hist st ∧ hist.map (·.event) = [.lsp shutdownReq] ∧
      responsesTo (.num 1) st.sender.sent = 1 ∧ registrations (.num 1) hist = 1 ∧
      ∀ id, responsesTo id st.sender.sent + st.requestQueue.owed id ≤
        responsesTo id [] + registrations id hist :=
  have hr : Reachable Env.empty ⟨[], none⟩ _ _ := .handle (.lsp shutdownReq) .new rfl rfl rfl
  ⟨_, _, hr, rfl, rfl, rfl, (responses_le_registrations Env.empty ⟨[], none⟩).1 _ _ hr⟩

end KCLLanguageServer
