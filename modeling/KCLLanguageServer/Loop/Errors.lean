import KCLLanguageServer.Loop.Recompile

/-! # What ends the loop

The `?`s of `handle_event` pass on a failed send to the client and nothing else.
A handler's error becomes a log message (the dispatcher's job), and a failed
compile is logged and retried at the next change; only a panic also ends the
loop (`handleEvent_error_isFatal`). Two sends drop their result, though:
`handle_task` forwards a `Task::Notify` with `self.send(..);`, and
`LanguageServerState::log_message` does the same. Those failures are lost, and
the loop goes on to the next event (`handleEvent_drops_failed_sends`).
-/
namespace KCLLanguageServer

/-- The errors that end the loop: a failed send to the client, and a panic. -/
def Error.isFatal : Error → Bool
  | .disconnected => true
  | .panicked _ => true
  | .other _ => false

/-- Every run of `x` that fails, fails with an error `p` accepts. -/
def Raises (p : Error → Bool) {α : Type} (x : ServerM α) : Prop :=
  ∀ st e st', x st = .error e st' → p e = true

namespace Raises
variable {p : Error → Bool} {α β : Type} {x : ServerM α}

theorem pure' (a : α) : Raises p (pure a : ServerM α) := fun _ _ _ h => nomatch h

theorem get' : Raises p (get : ServerM LanguageServerState) := fun _ _ _ h => nomatch h

theorem modify' (g : LanguageServerState → LanguageServerState) :
    Raises p (modify g : ServerM PUnit) := fun _ _ _ h => nomatch h

theorem bind {f : α → ServerM β} (hx : Raises p x) (hf : ∀ a, Raises p (f a)) :
    Raises p (x >>= f) := by
  intro st e st₂ h
  cases hx' : x st with
  | ok a st₁ => rw [bind_of_ok hx'] at h; exact hf a st₁ e st₂ h
  | error e₁ st₁ => rw [bind_of_error hx'] at h; cases h; exact hx st _ _ hx'

/-- A call whose result is dropped never fails. -/
theorem discard' (y : ServerM Unit) : Raises p (discard y) := by
  intro st e st' h
  unfold discard at h
  split at h <;> cases h

end Raises

namespace LanguageServerState

theorem raises_send (message : Message) : Raises Error.isFatal (send message) := by
  intro st e st' h
  unfold send at h
  split at h <;> cases h
  rfl

theorem raises_respond (response : Response) : Raises Error.isFatal (respond response) := by
  intro st e st' h
  unfold respond at h
  split at h
  · exact raises_send _ _ e st' h
  · cases h

/-- Whatever the handler, the dispatcher turns its error into a log message: only
a panic, or a failed send of that message, gets through. -/
theorem raises_dispatchNotification (handler : ServerM Unit) :
    Raises Error.isFatal (dispatchNotification handler) := by
  intro st e st' h
  unfold dispatchNotification at h
  split at h
  · cases h
  · cases h; rfl
  · exact raises_send _ _ e st' h

theorem raises_onNotification (env : Env) (notification : Notification) :
    Raises Error.isFatal (onNotification env notification) := by
  refine .bind (.discard' _) fun _ => ?_
  cases notification <;> first | exact .pure' _ | exact raises_dispatchNotification _

theorem raises_dispatchEvent (env : Env) (event : Event) :
    Raises Error.isFatal (dispatchEvent env event) := by
  rcases event with (_ | _) | req | _ | n
  · exact raises_respond _
  · exact .discard' _
  · refine .bind (.modify' _) fun _ => .bind (.modify' _) fun _ => .bind .get' fun _ => ?_
    split
    · exact raises_respond _
    · unfold dispatchRequest
      split
      · exact .bind (.modify' _) fun _ => raises_respond _
      · exact .discard' _
      · exact .bind .get' fun _ => .modify' _
  · exact .pure' _
  · exact raises_onNotification env n

/-- Recompiling never fails: a file whose name or compile fails is logged. -/
theorem raises_handleChanges (env : Env) : Raises Error.isFatal (handleChanges env) := by
  intro st e st' h
  obtain ⟨_, h', -⟩ := handleChanges_spec env st
  rw [h'] at h
  cases h

/-- An event ends the loop only by a failed send to the client or a panic, never
by the error of a handler. -/
theorem handleEvent_error_isFatal (env : Env) (event : Event) :
    Raises Error.isFatal (handleEvent env event) :=
  .bind (raises_dispatchEvent env event) fun _ => raises_handleChanges env

/-- Once the client has dropped its receiver, forwarding a `Task::Notify` and the
`log_message` of a notification no handler takes both fail to send, and the event
still ends without an error. -/
theorem handleEvent_drops_failed_sends (env : Env) {st : LanguageServerState}
    (hc : st.vfs.changes = []) (hd : st.sender.connected = false) :
    (∀ n, handleEvent env (.task (.notify n)) st = .ok () st) ∧
    (∀ method, handleEvent env (.lsp (.notification (.other method))) st = .ok () st) := by
  have hlog : ∀ m, discard (send m) st = .ok () st := fun _ => by simp [discard, send, hd]
  constructor
  · intro n
    show (discard (send (.notification n)) >>= fun _ => handleChanges env) st = _
    rw [bind_of_ok (hlog _), handleChanges_of_nil env hc]
  · intro method
    have hn : onNotification env (.other method) st = .ok () st := by
      unfold onNotification logMessage
      rw [bind_of_ok (hlog _)]
      rfl
    show (onNotification env (.other method) >>= fun _ => handleChanges env) st = _
    rw [bind_of_ok hn, handleChanges_of_nil env hc]

/-- A notification from a worker, forwarded after the client has gone, ends the
event with `Ok`. -/
theorem handleEvent_notify_of_dropped_receiver :
    handleEvent Env.empty (.task (.notify (logMessageNotification "diagnostics")))
        (LanguageServerState.new ⟨[], some 0⟩) =
      .ok () (LanguageServerState.new ⟨[], some 0⟩) :=
  (handleEvent_drops_failed_sends Env.empty
    (show (LanguageServerState.new ⟨[], some 0⟩).vfs.changes = [] from rfl) rfl).1 _

end LanguageServerState

end KCLLanguageServer
