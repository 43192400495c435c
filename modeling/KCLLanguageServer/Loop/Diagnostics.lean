import KCLLanguageServer.Loop.Responses

/-! # Diagnostics jobs

The loop spawns a diagnostics job after every event that changed a file, on a
snapshot of the state it has just recompiled. `opened_files` is an `IndexSet`:
`insert` keeps a present file where it is, and `remove` is `swap_remove`, which
moves the last file into the removed one's place. As a set it holds, at every
state of a run, exactly the files whose last open or close was an open
(`openedFiles_invariant`).

`handle_diagnostics` publishes the diagnostics of each open file's database in
the order of `opened_files`, with names and URLs from the shared VFS. Its `?`s end
the job at the first open file whose name or URL cannot be made, and the thread
drops that error: nothing is logged, and the files after it get no diagnostics
(`handleEvent_diagnostics_job`). No file changes its path, so a job sends the same
whenever a worker runs it (`jobRun_diagnostics_of_run`).
-/
namespace KCLLanguageServer

namespace LanguageServerState

/-! ## `IndexSet` insert and remove -/

theorem mem_indexSetInsert {s : List FileId} {id x : FileId} :
    x ∈ indexSetInsert s id ↔ x ∈ s ∨ x = id := by
  unfold indexSetInsert
  split <;> simp_all [or_iff_left_of_imp]

theorem nodup_indexSetInsert {s : List FileId} (hs : s.Nodup) (id : FileId) :
    (indexSetInsert s id).Nodup := by
  unfold indexSetInsert
  split
  · exact hs
  · exact hs.append (List.nodup_singleton id) (by simpa)

theorem indexOf?_eq_some_split {s : List FileId} {id : FileId} {i : Nat}
    (h : s.indexOf? id = some i) : ∃ l₁ l₂, s = l₁ ++ id :: l₂ ∧ l₁.length = i := by
  obtain ⟨hi, heq, -⟩ := List.findIdx?_eq_some_iff_getElem.mp h
  refine ⟨s.take i, s.drop (i + 1), ?_, by simp; omega⟩
  have : s[i] = id := by simpa using heq
  rw [← this, List.getElem_cons_drop, List.take_append_drop]

/-- `swap_remove` is `erase` up to the order of the files. -/
theorem indexSetRemove_perm {s : List FileId} (hs : s.Nodup) (id : FileId) :
    (indexSetRemove s id).Perm (s.erase id) := by
  unfold indexSetRemove
  split
  · rename_i h
    rw [List.erase_of_not_mem (fun hm => by simpa using List.indexOf?_eq_none_iff.mp h id hm)]
  · rename_i i h
    obtain ⟨l₁, l₂, rfl, rfl⟩ := indexOf?_eq_some_split h
    have h₁ : id ∉ l₁ := fun hm => (List.nodup_append.mp hs).2.2 hm (List.mem_cons_self _ _)
    rw [List.erase_append_right _ h₁, List.erase_cons_head]
    split
    · rename_i hlen
      have : l₂ = [] := by simpa using hlen
      subst this
      simp
    · rename_i hlen
      obtain ⟨L, z, rfl⟩ : ∃ L z, l₂ = L ++ [z] := by
        cases l₂ using List.reverseRecOn with
        | nil => simp at hlen
        | append_singleton L z _ => exact ⟨L, z, rfl⟩
      have hz : (id :: (L ++ [z])).getLast? = some z := by
        rw [← List.cons_append, List.getLast?_concat]
      simp only [List.set_append_right _ _ (le_refl _), Nat.sub_self, List.set_cons_zero,
        List.getLast?_append, hz, Option.or_some, Option.getD_some]
      rw [← List.cons_append, ← List.append_assoc, List.dropLast_concat]
      exact (List.perm_append_singleton z L).symm.append_left l₁

theorem mem_indexSetRemove {s : List FileId} (hs : s.Nodup) {id x : FileId} :
    x ∈ indexSetRemove s id ↔ x ∈ s ∧ x ≠ id := by
  rw [(indexSetRemove_perm hs id).mem_iff, hs.mem_erase_iff, and_comm]

theorem nodup_indexSetRemove {s : List FileId} (hs : s.Nodup) (id : FileId) :
    (indexSetRemove s id).Nodup :=
  (indexSetRemove_perm hs id).nodup_iff.mpr (hs.erase id)

end LanguageServerState

/-! ## Opens and closes over a run -/

/-- The file a handled event opens (`true`) or closes (`false`): the id its path
has in the VFS right after the event. -/
def Handled.openClose (h : Handled) : Option (FileId × Bool) :=
  match h.event with
  | .lsp (.notification (.didOpenTextDocument uri _)) =>
    match absPath uri with
    | .ok path => (h.round.vfs.fileId path).map (·, true)
    | .error _ => none
  | .lsp (.notification (.didCloseTextDocument uri)) =>
    match absPath uri with
    | .ok path => (h.round.vfs.fileId path).map (·, false)
    | .error _ => none
  | _ => none

open LanguageServerState in
/-- What a handled event does to `opened_files`. -/
def Handled.applyOpenClose (h : Handled) (ids : List FileId) : List FileId :=
  match h.openClose with
  | some (id, true) => indexSetInsert ids id
  | some (id, false) => indexSetRemove ids id
  | none => ids

/-- Whether `id` is open after the event, given whether it was before. -/
def Handled.openAfter (h : Handled) (id : FileId) (wasOpen : Bool) : Bool :=
  match h.openClose with
  | some (i, opens) => if i = id then opens else wasOpen
  | none => wasOpen

/-- `opened_files` after the events of a run, in its order. -/
def openedFilesOf (hist : List Handled) : List FileId :=
  hist.foldl (fun ids h => h.applyOpenClose ids) []

/-- Whether the last open or close of `id` in a run was an open. -/
def isOpen (hist : List Handled) (id : FileId) : Bool :=
  hist.foldl (fun wasOpen h => h.openAfter id wasOpen) false

open LanguageServerState in
theorem Handled.applyOpenClose_spec (h : Handled) {ids : List FileId} (hn : ids.Nodup) :
    (h.applyOpenClose ids).Nodup ∧
      ∀ x, x ∈ h.applyOpenClose ids ↔ h.openAfter x (decide (x ∈ ids)) = true := by
  unfold applyOpenClose openAfter
  rcases h.openClose with _ | ⟨i, _ | _⟩
  · exact ⟨hn, by simp⟩
  · refine ⟨nodup_indexSetRemove hn i, fun x => ?_⟩
    rw [mem_indexSetRemove hn]
    by_cases hx : i = x <;> simp [hx, eq_comm]
  · refine ⟨nodup_indexSetInsert hn i, fun x => ?_⟩
    rw [mem_indexSetInsert]
    by_cases hx : i = x <;> simp [hx, eq_comm]

/-- In every state of a run, `opened_files` holds each file at most once, and
exactly the files whose last open or close was an open. -/
theorem openedFilesOf_spec (hist : List Handled) :
    (openedFilesOf hist).Nodup ∧ ∀ id, id ∈ openedFilesOf hist ↔ isOpen hist id = true := by
  suffices key : ∀ (ids : List FileId) (f : FileId → Bool), ids.Nodup →
      (∀ x, x ∈ ids ↔ f x = true) →
      (hist.foldl (fun ids h => h.applyOpenClose ids) ids).Nodup ∧
        ∀ x, x ∈ hist.foldl (fun ids h => h.applyOpenClose ids) ids ↔
          hist.foldl (fun wasOpen h => h.openAfter x wasOpen) (f x) = true from
    key [] (fun _ => false) List.nodup_nil (by simp)
  induction hist with
  | nil => exact fun ids f hn hf => ⟨hn, hf⟩
  | cons h rest ih =>
    intro ids f hn hf
    obtain ⟨hn', hf'⟩ := h.applyOpenClose_spec hn
    refine ih _ (fun x => h.openAfter x (f x)) hn' fun x => ?_
    rw [hf' x]
    have : decide (x ∈ ids) = f x := by
      cases hfx : f x <;> simpa [hf x] using hfx
    rw [this]

theorem openedFilesOf_append (hist : List Handled) (h : Handled) :
    openedFilesOf (hist ++ [h]) = h.applyOpenClose (openedFilesOf hist) := by
  simp [openedFilesOf]

namespace LanguageServerState

/-! ## What each event does to the open files -/

theorem onDidOpenTextDocument_openedFiles {uri : Url} {path : VfsPath}
    (hp : absPath uri = .ok path) (text : String) (st : LanguageServerState) :
    ∃ st', onDidOpenTextDocument uri text st = .ok () st' ∧
      st'.openedFiles = match st'.vfs.fileId path with
        | some id => indexSetInsert st.openedFiles id
        | none => st.openedFiles := by
  obtain ⟨s, hlog⟩ := logMessage_spec s!"on did open file: {debugAbsPath path}" st
  unfold onDidOpenTextDocument
  simp only [hp, liftExcept, pure_bind, bind_of_ok hlog, modify_bind_apply, get_bind_apply]
  cases hid : (st.vfs.setFileContents path (some (.text text))).fileId path with
  | none => exact ⟨_, rfl, by simp only [hid]⟩
  | some id => exact ⟨_, rfl, by simp only [hid]⟩

theorem onDidCloseTextDocument_openedFiles {uri : Url} {path : VfsPath}
    (hp : absPath uri = .ok path) (st : LanguageServerState) :
    onDidCloseTextDocument uri st = .ok ()
      { st with
        openedFiles := (match st.vfs.fileId path with
          | some id => indexSetRemove st.openedFiles id
          | none => st.openedFiles) } := by
  unfold onDidCloseTextDocument
  simp only [hp, liftExcept, pure_bind, get_bind_apply]
  cases st.vfs.fileId path <;> rfl

/-- The frame of the handlers that leave the open files alone. -/
theorem openedFiles_tolerates : (Frame.unchanged (·.openedFiles)).Tolerates :=
  ⟨fun _ _ _ => rfl, fun _ _ => rfl, fun _ _ => rfl, fun _ _ _ => rfl, fun _ _ => rfl⟩

/-- A notification changes `opened_files` only by opening or closing its file. -/
theorem onNotification_openedFiles {env : Env} {n : Notification} {st st₁ : LanguageServerState}
    (h : onNotification env n st = .ok () st₁) :
    st₁.openedFiles = Handled.applyOpenClose ⟨.lsp (.notification n), st₁.vfs.changes, st₁.vfs⟩
      st.openedFiles := by
  obtain ⟨s, hlog⟩ := logMessage_spec s!"on notification {n.method}" st
  have of_keeps : ∀ {n}, Keeps (Frame.unchanged (·.openedFiles)) (onNotification env n) →
      onNotification env n st = .ok () st₁ → st₁.openedFiles = st.openedFiles := fun hk h => by
    simpa only [h] using hk st
  /- An open or a close ends where its handler ends, but for the log message of a
  handler error. -/
  have of_handler : ∀ {handler : ServerM Unit},
      dispatchNotification handler { st with sender := s } = .ok () st₁ →
        ∃ s', st₁ = { finalState (handler { st with sender := s }) with sender := s' } := by
    intro handler h
    simpa only [h] using finalState_dispatchNotification handler { st with sender := s }
  cases n
  case didOpenTextDocument uri text =>
    unfold onNotification at h
    rw [bind_of_ok hlog] at h
    obtain ⟨s', rfl⟩ := of_handler h
    cases hp : absPath uri with
    | ok path =>
      obtain ⟨st', ho, hst'⟩ := onDidOpenTextDocument_openedFiles hp text { st with sender := s }
      simp only [ho, finalState, Handled.applyOpenClose, Handled.openClose, hp, hst']
      cases st'.vfs.fileId path <;> rfl
    | error e =>
      simp only [finalState, onDidOpenTextDocument, liftExcept, hp, throw_bind_apply,
        Handled.applyOpenClose, Handled.openClose]
  case didCloseTextDocument uri =>
    unfold onNotification at h
    rw [bind_of_ok hlog] at h
    obtain ⟨s', rfl⟩ := of_handler h
    cases hp : absPath uri with
    | ok path =>
      simp only [onDidCloseTextDocument_openedFiles hp, finalState, Handled.applyOpenClose,
        Handled.openClose, hp]
      cases st.vfs.fileId path <;> rfl
    | error e =>
      simp only [finalState, onDidCloseTextDocument, liftExcept, hp, throw_bind_apply,
        Handled.applyOpenClose, Handled.openClose]
  all_goals
    refine of_keeps ?_ h
    refine .bind (keeps_logMessage openedFiles_tolerates.edits _) fun _ => ?_
  case didChangeTextDocument =>
    exact keeps_dispatchNotification openedFiles_tolerates.edits
      (keeps_onDidChangeTextDocument openedFiles_tolerates.edits _ _ _)
  case didSaveTextDocument =>
    exact keeps_dispatchNotification openedFiles_tolerates.edits
      (keeps_onDidSaveTextDocument openedFiles_tolerates.edits _)
  case didChangeWatchedFiles =>
    exact keeps_dispatchNotification openedFiles_tolerates.edits (keeps_onDidChangeWatchedFiles _)
  case didRenameFiles =>
    exact keeps_dispatchNotification openedFiles_tolerates.edits
      (keeps_onDidRenameFiles openedFiles_tolerates.edits _)
  case didDeleteFiles =>
    exact keeps_dispatchNotification openedFiles_tolerates.edits
      (keeps_onDidDeleteFiles openedFiles_tolerates.edits _)
  all_goals exact .pure' _

/-- Step 1 of `handle_event` changes `opened_files` only by the open or close of
its event. -/
theorem dispatchEvent_openedFiles {env : Env} {event : Event} {st st₁ : LanguageServerState}
    (h : dispatchEvent env event st = .ok () st₁) :
    st₁.openedFiles = Handled.applyOpenClose ⟨event, st₁.vfs.changes, st₁.vfs⟩ st.openedFiles := by
  rcases event with task | ⟨req⟩ | _ | n
  · have := keeps_handleTask openedFiles_tolerates (keeps_respond fun _ _ _ => rfl) task st
    dsimp only [dispatchEvent] at h
    rw [h] at this
    exact this
  · have := keeps_onRequest openedFiles_tolerates (keeps_respond fun _ _ _ => rfl) (fun _ => rfl)
      (fun _ _ => rfl) req st
    dsimp only [dispatchEvent] at h
    rw [h] at this
    exact this
  · cases h
    rfl
  · exact onNotification_openedFiles h

/-- The end of `handle_event` keeps the open files, and when there were changes it
adds to the pool one diagnostics job, on the snapshot it ends with. -/
theorem handleChanges_jobs (env : Env) {st st' : LanguageServerState}
    (h : handleChanges env st = .ok () st') :
    st'.openedFiles = st.openedFiles ∧
      st'.threadPool = st.threadPool ++
        if st.vfs.changes = [] then [] else [.diagnostics st'.snapshot] := by
  obtain ⟨st₁, h₁, -⟩ := processVfsChanges_spec env st
  have hk : (st₁.openedFiles, st₁.threadPool) = (st.openedFiles, st.threadPool) := by
    simpa only [h₁] using keeps_processVfsChanges
      (F := Frame.unchanged fun s => (s.openedFiles, s.threadPool))
      ⟨fun _ _ _ => rfl, fun _ _ => rfl, fun _ _ => rfl⟩ (fun _ _ => rfl) env st
  obtain ⟨ho, hp⟩ := Prod.mk.inj_iff.mp hk
  unfold handleChanges at h
  rw [bind_of_ok h₁] at h
  cases hc : st.vfs.changes with
  | nil =>
    simp only [hc, List.isEmpty_nil, Bool.not_true, Bool.false_eq_true, if_false] at h
    cases h
    exact ⟨ho, by simp [hp]⟩
  | cons c cs =>
    simp only [hc, List.isEmpty_cons, Bool.not_false, if_true, get_bind_apply, spawn,
      modify_apply] at h
    cases h
    exact ⟨ho, by simp [hp]; rfl⟩

/-- At every state of a run, `opened_files` is the result of the run's opens and
closes. -/
theorem openedFiles_of_reachable {env : Env} {sender : Sender} {hist : List Handled}
    {st : LanguageServerState} (hr : Reachable env sender hist st) :
    st.openedFiles = openedFilesOf hist := by
  induction hr with
  | new => rfl
  | handle event _ _ hd hc ih =>
    rw [(handleChanges_jobs _ hc).1, dispatchEvent_openedFiles hd, ih, openedFilesOf_append]

end LanguageServerState

/-- `opened_files` behaves as a set in every state the loop reaches: it holds each
file at most once, and exactly the files whose last open or close was an open. -/
theorem openedFiles_invariant (env : Env) (sender : Sender) :
    ∀ hist st, Reachable env sender hist st →
      st.openedFiles.Nodup ∧ ∀ id, id ∈ st.openedFiles ↔ isOpen hist id = true := by
  intro hist st hr
  rw [LanguageServerState.openedFiles_of_reachable hr]
  exact openedFilesOf_spec hist

open LanguageServerState in
/-- After `/b.k` is opened on a new server, `opened_files` is `[0]`, the id of `/b.k`. -/
theorem openedFiles_after_open :
    ∃ hist st, Reachable Env.empty ⟨[], none⟩ hist st ∧ st.openedFiles = [0] ∧
      st.openedFiles.Nodup ∧ ∀ id, id ∈ st.openedFiles ↔ isOpen hist id = true := by
  have hd : dispatchEvent Env.empty
      (.lsp (.notification (.didOpenTextDocument ⟨"file", "", "/b.k"⟩ "b = 1")))
      (LanguageServerState.new ⟨[], none⟩) =
    .ok () (finalState (dispatchEvent Env.empty
      (.lsp (.notification (.didOpenTextDocument ⟨"file", "", "/b.k"⟩ "b = 1")))
      (LanguageServerState.new ⟨[], none⟩))) := rfl
  have hc : handleChanges Env.empty (finalState (dispatchEvent Env.empty
      (.lsp (.notification (.didOpenTextDocument ⟨"file", "", "/b.k"⟩ "b = 1")))
      (LanguageServerState.new ⟨[], none⟩))) =
    .ok () (finalState (handleChanges Env.empty (finalState (dispatchEvent Env.empty
      (.lsp (.notification (.didOpenTextDocument ⟨"file", "", "/b.k"⟩ "b = 1")))
      (LanguageServerState.new ⟨[], none⟩))))) := rfl
  have hr := Reachable.handle _ .new (by rfl) hd hc
  exact ⟨_, _, hr, rfl, openedFiles_invariant _ _ _ _ hr⟩

/-! ## What a diagnostics job sends -/

/-- Whether the two lookups `handle_diagnostics` makes for an open file, its name
and its URL, both succeed. -/
def resolves (vfs : Vfs) (id : FileId) : Bool :=
  (getFileName vfs id).toBool && (fileUrl vfs id).toBool

/-- The `PublishDiagnostics` a job sends for one file: under the file's URL, the
flat-map of `kcl_diag_to_lsp_diags` over its database's diagnostics, if it has a
database. -/
def publishOf (env : Env) (vfs : Vfs) (snapshot : LanguageServerSnapshot) (id : FileId) :
    Option Task :=
  match getFileName vfs id, fileUrl vfs id, snapshot.db id with
  | .ok filename, .ok uri, some db => some (.notify (.publishDiagnostics uri
      (db.diags.flatMap fun diag => env.kclDiagToLspDiags diag filename) none))
  | _, _, _ => none

open HandlerM in
theorem handleDiagnostics_tasks (env : Env) (vfs : Vfs) (snapshot : LanguageServerSnapshot)
    (ids : List FileId) (tasks : List Task) :
    (match handleDiagnostics env vfs snapshot ids tasks with
      | .ok _ sent => sent
      | .error _ sent => sent) =
      tasks ++ (ids.takeWhile (resolves vfs)).filterMap (publishOf env vfs snapshot) := by
  induction ids generalizing tasks with
  | nil => simp [handleDiagnostics]
  | cons id rest ih =>
    unfold handleDiagnostics
    cases hn : getFileName vfs id with
    | error e =>
      have hres : resolves vfs id = false := by simp [resolves, hn, Except.toBool]
      simp only [lift, pure_bind, throw_bind_apply, hres, Bool.false_eq_true, not_false_eq_true,
        List.takeWhile_cons_of_neg, List.filterMap_nil, List.append_nil]
    | ok filename =>
      cases hu : fileUrl vfs id with
      | error e =>
        have hres : resolves vfs id = false := by simp [resolves, hn, hu, Except.toBool]
        simp only [lift, pure_bind, throw_bind_apply, hres, Bool.false_eq_true, not_false_eq_true,
          List.takeWhile_cons_of_neg, List.filterMap_nil, List.append_nil]
      | ok uri =>
        have hres : resolves vfs id = true := by simp [resolves, hn, hu, Except.toBool]
        cases hdb : snapshot.db id with
        | none =>
          simp only [lift, pure_bind, ih, hres, List.takeWhile_cons_of_pos, publishOf, hn, hu, hdb,
            List.filterMap_cons_none]
        | some db =>
          simp only [lift, pure_bind, modify_bind_apply, ih, List.append_assoc,
            List.singleton_append, hres, List.takeWhile_cons_of_pos, publishOf, hn, hu, hdb,
            List.filterMap_cons]

/-- A diagnostics job publishes, in the order of `opened_files`, the diagnostics of
each open file that has a database, and stops at the first open file whose name or
URL cannot be made. -/
theorem jobRun_diagnostics (env : Env) (vfs : Vfs) (snapshot : LanguageServerSnapshot) :
    Job.run env vfs (.diagnostics snapshot) =
      (snapshot.openedFiles.takeWhile (resolves vfs)).filterMap (publishOf env vfs snapshot) :=
  (handleDiagnostics_tasks env vfs snapshot snapshot.openedFiles []).trans (List.nil_append _)

theorem publishOf_of_mem {env : Env} {vfs : Vfs} {snapshot : LanguageServerSnapshot} {t : Task}
    (h : t ∈ Job.run env vfs (.diagnostics snapshot)) :
    ∃ id ∈ snapshot.openedFiles, publishOf env vfs snapshot id = some t := by
  rw [jobRun_diagnostics] at h
  obtain ⟨id, hid, ht⟩ := List.mem_filterMap.mp h
  exact ⟨id, List.takeWhile_subset _ hid, ht⟩

theorem publishOf_eq_some {env : Env} {vfs : Vfs} {snapshot : LanguageServerSnapshot}
    {id : FileId} {t : Task} (h : publishOf env vfs snapshot id = some t) :
    ∃ uri diagnostics, t = .notify (.publishDiagnostics uri diagnostics none) := by
  unfold publishOf at h
  split at h
  · cases h
    exact ⟨_, _, rfl⟩
  · cases h

/-- A diagnostics job sends no response. -/
theorem response_not_mem_diagnostics (env : Env) (vfs : Vfs) (snapshot : LanguageServerSnapshot)
    (r : Response) : Task.response r ∉ Job.run env vfs (.diagnostics snapshot) := fun h => by
  obtain ⟨_, -, ht⟩ := publishOf_of_mem h
  obtain ⟨_, _, h⟩ := publishOf_eq_some ht
  cases h

/-! ## No file changes its path -/

/-- The frame of steps after which every file keeps its path. -/
def internerFrame : Frame :=
  ⟨fun a b => a.vfs.interner <+: b.vfs.interner, fun _ => List.prefix_refl _,
    fun h₁ h₂ => h₁.trans h₂⟩

theorem internerFrame_tolerates : internerFrame.Tolerates :=
  ⟨fun _ _ h => h, fun _ _ => List.prefix_refl _, fun _ _ => List.prefix_refl _,
    fun _ _ _ => List.prefix_refl _, fun _ _ => List.prefix_refl _⟩

namespace LanguageServerState

theorem keeps_dispatchEvent_interner (env : Env) (event : Event) :
    Keeps internerFrame (dispatchEvent env event) :=
  keeps_dispatchEvent internerFrame_tolerates (keeps_respond fun _ _ _ => List.prefix_refl _)
    (fun _ => List.prefix_refl _) (fun _ _ => List.prefix_refl _) (fun _ _ => List.prefix_refl _)
    env event

theorem keeps_handleChanges_interner (env : Env) : Keeps internerFrame (handleChanges env) :=
  keeps_handleChanges internerFrame_tolerates.edits (fun _ _ => List.prefix_refl _)
    (fun _ => List.prefix_refl _) env

/-- A run only adds paths to the interner. -/
theorem run_interner {env : Env} {events : List Event} {st st' : LanguageServerState}
    (h : run env events st = .ok () st') : st.vfs.interner <+: st'.vfs.interner := by
  have := @keeps_run internerFrame env events (fun e _ => .bind (keeps_dispatchEvent_interner env e)
    fun _ => keeps_handleChanges_interner env) st
  rwa [h] at this

theorem Handled.mem_of_mem_applyOpenClose {h : Handled} {ids : List FileId} (hn : ids.Nodup)
    {x : FileId} (hx : x ∈ h.applyOpenClose ids) : x ∈ ids ∨ h.openClose = some (x, true) := by
  rw [(h.applyOpenClose_spec hn).2 x] at hx
  unfold Handled.openAfter at hx
  split at hx
  · rename_i i opens he
    split at hx
    · subst_vars
      exact .inr he
    · exact .inl (by simpa using hx)
  · exact .inl (by simpa using hx)

/-- The file an event opens or closes is interned in the VFS right after it. -/
theorem Handled.openClose_lt {h : Handled} {x : FileId} {b : Bool}
    (he : h.openClose = some (x, b)) : x < h.round.vfs.interner.length := by
  have of_map : ∀ {o : Option FileId} {b' : Bool}, o.map (·, b') = some (x, b) → o = some x :=
    fun {o} _ hm => by cases o <;> simp_all
  unfold Handled.openClose at he
  split at he <;> (try split at he) <;> first
    | exact Vfs.lookup_lt (Vfs.lookup_of_fileId (of_map he)).1
    | cases he

/-- Every open file is interned. -/
theorem openedFiles_interned {env : Env} {sender : Sender} {hist : List Handled}
    {st : LanguageServerState} (hr : Reachable env sender hist st) :
    ∀ id ∈ st.openedFiles, id < st.vfs.interner.length := by
  induction hr with
  | new => exact fun _ h => nomatch h
  | @handle hist st st₁ st' event hr' _ hd hc ih =>
    have hg₁ : st.vfs.interner <+: st₁.vfs.interner := by
      simpa only [hd] using keeps_dispatchEvent_interner env event st
    have hg₂ : st₁.vfs.interner <+: st'.vfs.interner := by
      simpa only [hc] using keeps_handleChanges_interner env st₁
    intro id hid
    rw [(handleChanges_jobs env hc).1, dispatchEvent_openedFiles hd] at hid
    have hn : st.openedFiles.Nodup := openedFiles_of_reachable hr' ▸ (openedFilesOf_spec hist).1
    rcases Handled.mem_of_mem_applyOpenClose hn hid with h | h
    · exact (ih id h).trans_le (hg₁.trans hg₂).length_le
    · exact (Handled.openClose_lt h).trans_le hg₂.length_le

end LanguageServerState

/-- Two VFSs that give each open file of a snapshot the same path give a diagnostics
job on it the same names and URLs. -/
theorem handleDiagnostics_congr (env : Env) {vfs vfs' : Vfs} (snapshot : LanguageServerSnapshot) :
    ∀ (ids : List FileId), (∀ id ∈ ids, vfs'.filePath id = vfs.filePath id) →
      handleDiagnostics env vfs' snapshot ids = handleDiagnostics env vfs snapshot ids
  | [], _ => rfl
  | id :: rest, h => by
    have hid := h id (List.mem_cons_self _ _)
    simp only [handleDiagnostics, getFileName, fileUrl, hid,
      handleDiagnostics_congr env snapshot rest fun j hj => h j (List.mem_cons_of_mem _ hj)]

open LanguageServerState in
/-- A diagnostics job on the snapshot of a state a run reaches sends the same on the
VFS of any later state of the run as on the VFS of that state. -/
theorem jobRun_diagnostics_of_run {env : Env} {sender : Sender} {hist : List Handled}
    {st st' : LanguageServerState} (hr : Reachable env sender hist st) {events : List Event}
    (h : run env events st = .ok () st') :
    Job.run env st'.vfs (.diagnostics st.snapshot) = Job.run env st.vfs (.diagnostics st.snapshot) := by
  have hg := run_interner h
  simp only [Job.run, handleDiagnostics_congr env st.snapshot st.snapshot.openedFiles fun id hid =>
    Vfs.filePath_of_interner_grows hg (openedFiles_interned hr id hid)]

/-! ## Diagnostics over a run -/

open LanguageServerState in
/-- The diagnostics job an event spawns. After an event that changed a file, the
loop gives the pool one diagnostics job, on the snapshot of the state the event ends
in. Its open files are, each once, the files whose last open or close was an open.
Whatever the shared VFS holds when a worker runs it, the job sends nothing but
`PublishDiagnostics`: in the order of `opened_files`, one for each open file that
has a database, under the file's URL and with the flat-map of
`kcl_diag_to_lsp_diags` over its diagnostics, up to the first open file whose name
or URL cannot be made. That file ends the job without a log message, and the files
after it get no diagnostics. -/
theorem handleEvent_diagnostics_job (env : Env) (sender : Sender) {hist : List Handled}
    {st st₁ st' : LanguageServerState} (event : Event) (hr : Reachable env sender hist st)
    (hd : dispatchEvent env event st = .ok () st₁) (hc : handleChanges env st₁ = .ok () st') :
    st'.threadPool = st₁.threadPool ++
        (if st₁.vfs.changes = [] then [] else [.diagnostics st'.snapshot]) ∧
      st'.snapshot.openedFiles.Nodup ∧
      (∀ id, id ∈ st'.snapshot.openedFiles ↔
        isOpen (hist ++ [⟨event, st₁.vfs.changes, st₁.vfs⟩]) id = true) ∧
      ∀ vfs, Job.run env vfs (.diagnostics st'.snapshot) =
          (st'.snapshot.openedFiles.takeWhile (resolves vfs)).filterMap
            (publishOf env vfs st'.snapshot) ∧
        ∀ t ∈ Job.run env vfs (.diagnostics st'.snapshot),
          ∃ uri diagnostics, t = .notify (.publishDiagnostics uri diagnostics none) := by
  obtain ⟨ho, hp⟩ := handleChanges_jobs env hc
  have hopen : st'.snapshot.openedFiles =
      openedFilesOf (hist ++ [⟨event, st₁.vfs.changes, st₁.vfs⟩]) := by
    show st'.openedFiles = _
    rw [ho, dispatchEvent_openedFiles hd, openedFiles_of_reachable hr, openedFilesOf_append]
  refine ⟨hp, hopen ▸ (openedFilesOf_spec _).1, hopen ▸ (openedFilesOf_spec _).2,
    fun vfs => ⟨jobRun_diagnostics env vfs _, fun t ht => ?_⟩⟩
  obtain ⟨_, -, h⟩ := publishOf_of_mem ht
  exact publishOf_eq_some h

/-- Opening `/%FF.k`, a file whose name is not UTF-8. -/
def openUnnamed : Event :=
  .lsp (.notification (.didOpenTextDocument ⟨"file", "", "/%FF.k"⟩ "a = 1"))

/-- Opening `/b.k`. -/
def openNamed : Event := .lsp (.notification (.didOpenTextDocument ⟨"file", "", "/b.k"⟩ "b = 1"))

open LanguageServerState in
/-- `/%FF.k` is opened, then `/b.k`. The job the second open spawns has both open
and a database for `/b.k`, but the name lookup of `/%FF.k` ends it before `/b.k`:
it sends nothing, and logs nothing. -/
theorem diagnostics_stop_at_unresolved_file :
    ∃ hist st st₁ st', Reachable cleanCompileEnv ⟨[], none⟩ hist st ∧
      dispatchEvent cleanCompileEnv openNamed st = .ok () st₁ ∧
      handleChanges cleanCompileEnv st₁ = .ok () st' ∧
      st'.threadPool.getLast? = some (.diagnostics st'.snapshot) ∧
      st'.snapshot.openedFiles = [0, 1] ∧ (st'.snapshot.db 1).isSome ∧
      Job.run cleanCompileEnv st'.vfs (.diagnostics st'.snapshot) = [] := by
  have h₀ : run cleanCompileEnv [openUnnamed] (LanguageServerState.new ⟨[], none⟩) =
      .ok () (finalState (run cleanCompileEnv [openUnnamed] (LanguageServerState.new ⟨[], none⟩))) :=
    rfl
  obtain ⟨hist, hr, -⟩ := reachable_of_run Reachable.new h₀
  have hd : dispatchEvent cleanCompileEnv openNamed
      (finalState (run cleanCompileEnv [openUnnamed] (LanguageServerState.new ⟨[], none⟩))) =
    .ok () (finalState (dispatchEvent cleanCompileEnv openNamed
      (finalState (run cleanCompileEnv [openUnnamed] (LanguageServerState.new ⟨[], none⟩))))) := rfl
  have hc : handleChanges cleanCompileEnv (finalState (dispatchEvent cleanCompileEnv openNamed
      (finalState (run cleanCompileEnv [openUnnamed] (LanguageServerState.new ⟨[], none⟩))))) =
    .ok () (finalState (handleChanges cleanCompileEnv (finalState (dispatchEvent cleanCompileEnv
      openNamed (finalState (run cleanCompileEnv [openUnnamed]
        (LanguageServerState.new ⟨[], none⟩))))))) := rfl
  have hj := handleEvent_diagnostics_job cleanCompileEnv _ openNamed hr hd hc
  refine ⟨_, _, _, _, hr, hd, hc, by rw [hj.1]; rfl, by decide, by decide,
    ((hj.2.2.2 _).1).trans (by decide)⟩

/-! ## The invariants over `run` -/

open LanguageServerState in
/-- The invariants of the loop hold in every state `run` ends in. A run from a new
server that handles its events without an error ends in a state the loop reaches
after the events it handled: the shutdown flag is set exactly when one of them was a
`shutdown` request, no id has more responses sent and owed than registrations, and
`opened_files` holds each file once, exactly those whose last open or close was an
open. -/
theorem invariants_of_run (env : Env) (sender : Sender) (events : List Event)
    {st : LanguageServerState} (h : run env events (LanguageServerState.new sender) = .ok () st) :
    ∃ hist, Reachable env sender hist st ∧ hist.map (·.event) <+: events ∧
      st.shutdownRequested = hist.any (·.event.isShutdown) ∧
      (∀ id, responsesTo id st.sender.sent + st.requestQueue.owed id ≤
        responsesTo id sender.sent + registrations id hist) ∧
      st.openedFiles.Nodup ∧ ∀ id, id ∈ st.openedFiles ↔ isOpen hist id = true := by
  obtain ⟨hist, hr, hp⟩ := reachable_of_run Reachable.new h
  rw [List.nil_append] at hr
  refine ⟨hist, hr, hp, shutdownRequested_eq_any hr, answers_le_registrations hr, ?_⟩
  rw [openedFiles_of_reachable hr]
  exact openedFilesOf_spec hist

end KCLLanguageServer
