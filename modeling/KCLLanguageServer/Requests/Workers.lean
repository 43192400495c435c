import KCLLanguageServer.Server.EventLoop

/-! # What a worker sends for a request

Every handler of `request.rs` sends nothing to the task channel but log messages,
whatever it returns (`onlyLogs_handleRequest`), so a request job sends log messages
and then its one response (`runRequest_eq`).
-/
namespace KCLLanguageServer

/-- The tasks that send the given log messages. -/
def logTasks (messages : List String) : List Task :=
  messages.map fun m => .notify (LanguageServerState.logMessageNotification m)

@[simp] theorem logTasks_append (m₁ m₂ : List String) :
    logTasks (m₁ ++ m₂) = logTasks m₁ ++ logTasks m₂ :=
  List.map_append _ _ _

/-- The tasks a handler has sent when it ends, whether it succeeded or not. -/
def sentTasks {α : Type} : EStateM.Result String (List Task) α → List Task
  | .ok _ tasks => tasks
  | .error _ tasks => tasks

/-- A handler that sends nothing to the task channel but log messages. -/
def OnlyLogs {α : Type} (x : HandlerM α) : Prop :=
  ∀ tasks, ∃ messages, sentTasks (x tasks) = tasks ++ logTasks messages

namespace OnlyLogs
variable {α β : Type}

theorem pure' (a : α) : OnlyLogs (pure a : HandlerM α) :=
  fun _ => ⟨[], (List.append_nil _).symm⟩

theorem throw' (e : String) : OnlyLogs (throw e : HandlerM α) :=
  fun _ => ⟨[], (List.append_nil _).symm⟩

theorem lift' (r : Except String α) : OnlyLogs (HandlerM.lift r) := by
  cases r
  · exact throw' _
  · exact pure' _

theorem logMessage' (message : String) : OnlyLogs (HandlerM.logMessage message) :=
  fun _ => ⟨[message], rfl⟩

theorem ite' {c : Prop} [Decidable c] {x y : HandlerM α} (hx : OnlyLogs x) (hy : OnlyLogs y) :
    OnlyLogs (if c then x else y) := by
  split
  · exact hx
  · exact hy

theorem bind {x : HandlerM α} {f : α → HandlerM β} (hx : OnlyLogs x)
    (hf : ∀ a, OnlyLogs (f a)) : OnlyLogs (x >>= f) := by
  intro tasks
  obtain ⟨m₁, h₁⟩ := hx tasks
  cases hr : x tasks with
  | ok a sent =>
    obtain ⟨m₂, h₂⟩ := hf a sent
    have h₁ : sent = tasks ++ logTasks m₁ := by rw [hr] at h₁; exact h₁
    refine ⟨m₁ ++ m₂, ?_⟩
    rw [bind_of_ok hr, h₂, h₁, logTasks_append, List.append_assoc]
  | error e sent =>
    rw [hr] at h₁
    exact ⟨m₁, by rw [bind_of_error hr]; exact h₁⟩

theorem map {x : HandlerM α} (hx : OnlyLogs x) (f : α → β) : OnlyLogs (f <$> x) := by
  rw [map_eq_pure_bind]
  exact hx.bind fun _ => pure' _

theorem forM_logMessage (messages : List String) :
    OnlyLogs (messages.forM HandlerM.logMessage) := by
  induction messages with
  | nil => exact pure' _
  | cons m rest ih => exact (logMessage' m).bind fun _ => ih

end OnlyLogs

section Handlers
variable (env : Env) (vfs : Vfs) (snapshot : LanguageServerSnapshot)
open OnlyLogs

theorem onlyLogs_positionQuery {α : Type} (query : AnalysisDatabase → KclPos → Option α)
    (notFound : String) (uri : Url) (position : Position) :
    OnlyLogs (positionQuery env vfs snapshot query notFound uri position) :=
  .bind (lift' _) fun _ => .bind (lift' _) fun _ => .bind (lift' _) fun _ =>
    ite' (.bind (logMessage' _) fun _ => pure' _) (.bind (pure' _) fun _ => pure' _)

theorem onlyLogs_handleReference (uri : Url) (position : Position) (includeDeclaration : Bool) :
    OnlyLogs (handleReference env uri position includeDeclaration) :=
  .bind (forM_logMessage _) fun _ => lift' _

theorem onlyLogs_handleFormatting (uri : Url) : OnlyLogs (handleFormatting env uri) := by
  refine .bind (lift' _) fun _ => ?_
  split
  · exact lift' _
  · exact throw' _

theorem onlyLogs_handleRangeFormatting (uri : Url) (range : Range) :
    OnlyLogs (handleRangeFormatting env vfs uri range) := by
  refine .bind (lift' _) fun _ => .bind (lift' _) fun _ => ?_
  dsimp only
  split
  · split
    · exact .bind (pure' _) fun _ => by split <;> [exact lift' _; exact pure' _]
    · exact .bind (throw' _) fun _ => by split <;> [exact lift' _; exact pure' _]
  · exact throw' _

/-- Every request handler sends only log messages to the task channel. -/
theorem onlyLogs_handleRequest (kind : RequestKind) :
    OnlyLogs (handleRequest env vfs snapshot kind) := by
  cases kind with
  | gotoDefinition uri position =>
    exact (onlyLogs_positionQuery env vfs snapshot _ _ uri position).map _
  | references uri position includeDeclaration =>
    exact (onlyLogs_handleReference env uri position includeDeclaration).map _
  | completion uri position trigger =>
    exact (onlyLogs_positionQuery env vfs snapshot _ _ uri position).map _
  | hover uri position => exact (onlyLogs_positionQuery env vfs snapshot _ _ uri position).map _
  | documentSymbol uri =>
    exact (OnlyLogs.bind (lift' _) fun _ => .bind (lift' _) fun _ => .bind (lift' _) fun _ =>
      ite' (.bind (logMessage' _) fun _ => pure' _) (.bind (pure' _) fun _ => pure' _)).map _
  | codeAction uri diagnostics => exact (pure' _).map _
  | formatting uri => exact (onlyLogs_handleFormatting env uri).map _
  | rangeFormatting uri range => exact (onlyLogs_handleRangeFormatting env vfs uri range).map _
  | shutdown | other _ => exact pure' _

/-- The response of the worker job for a request: the handler's value, or its
error as an internal error. -/
def jobResponse (req : Request) : Response :=
  match handleRequest env vfs snapshot req.kind [] with
  | .ok value _ => ⟨req.id, .ok value⟩
  | .error e _ => Response.newErr req.id ErrorCode.internalError e

/-- A request job sends log messages and then its one response. -/
theorem runRequest_eq (req : Request) :
    ∃ messages, runRequest env vfs snapshot req =
      logTasks messages ++ [.response (jobResponse env vfs snapshot req)] := by
  obtain ⟨m, h⟩ := onlyLogs_handleRequest env vfs snapshot req.kind []
  unfold runRequest jobResponse
  cases hr : handleRequest env vfs snapshot req.kind [] with
  | ok value tasks =>
    simp only [hr, sentTasks, List.nil_append] at h
    exact ⟨m, by rw [h]⟩
  | error e tasks =>
    simp only [hr, sentTasks, List.nil_append] at h
    exact ⟨m ++ [e], by rw [h, logTasks_append, List.append_assoc]; rfl⟩

end Handlers

end KCLLanguageServer
