import KCLLanguageServer.Server.Frames

/-! # Recompilation before the next event

`process_vfs_changes` takes every change the handlers made and recompiles each
changed file against the VFS; the loop runs it after every event, before the next
event is taken. So the loop never takes an event with changes pending, and each
file's database is the result of the latest round in which it changed and compiled.
-/
namespace KCLLanguageServer

namespace LanguageServerState

/-- The database after recompiling the changed files against a VFS: a changed
file that compiles gets the new result, every other file keeps its entry. -/
def recompiled (env : Env) (vfs : Vfs) (files : List ChangedFile)
    (db : FileId → Option AnalysisDatabase) (f : FileId) : Option AnalysisDatabase :=
  if f ∈ files.map (·.fileId) then
    match compileFile env vfs f with
    | .ok r => some r
    | .error _ => db f
  else db f

theorem recompiled_cons (env : Env) (vfs : Vfs) (file : ChangedFile) (rest : List ChangedFile)
    (db : FileId → Option AnalysisDatabase) :
    recompiled env vfs rest (recompiled env vfs [file] db) = recompiled env vfs (file :: rest) db := by
  funext f
  unfold recompiled
  by_cases hf : f = file.fileId
  · subst hf
    cases compileFile env vfs file.fileId <;> simp
  · simp [hf]

/-- Recompiling one file replaces its entry when it compiles. -/
theorem recompiled_singleton (env : Env) (vfs : Vfs) (file : ChangedFile)
    (db : FileId → Option AnalysisDatabase) :
    recompiled env vfs [file] db =
      match compileFile env vfs file.fileId with
      | .ok r => Function.update db file.fileId (some r)
      | .error _ => db := by
  funext f
  unfold recompiled
  by_cases hf : f = file.fileId
  · subst hf
    cases compileFile env vfs file.fileId <;> simp
  · cases compileFile env vfs file.fileId <;> simp [hf]

theorem recompiled_of_ok {env : Env} {vfs : Vfs} {files : List ChangedFile}
    {db : FileId → Option AnalysisDatabase} {f : FileId} {r : AnalysisDatabase}
    (hf : f ∈ files.map (·.fileId)) (h : compileFile env vfs f = .ok r) :
    recompiled env vfs files db f = some r := by
  simp only [recompiled, hf, if_true, h]

theorem recompiled_of_not_mem {env : Env} {vfs : Vfs} {files : List ChangedFile}
    {db : FileId → Option AnalysisDatabase} {f : FileId} (hf : f ∉ files.map (·.fileId)) :
    recompiled env vfs files db f = db f := by
  simp only [recompiled, hf, if_false]

theorem recompiled_of_error {env : Env} {vfs : Vfs} {files : List ChangedFile}
    {db : FileId → Option AnalysisDatabase} {f : FileId} {e : String}
    (h : compileFile env vfs f = .error e) : recompiled env vfs files db f = db f := by
  unfold recompiled
  split
  · rw [h]
  · rfl

theorem compileFile_of_ok {env : Env} {vfs : Vfs} {id : FileId} {filename : String}
    (h : getFileName vfs id = .ok filename) :
    compileFile env vfs id = parseParamAndCompile env filename (some vfs) := by
  rw [compileFile, h]
  rfl

theorem compileFile_of_error {env : Env} {vfs : Vfs} {id : FileId} {e : String}
    (h : getFileName vfs id = .error e) : compileFile env vfs id = .error e := by
  rw [compileFile, h]
  rfl

/-- One changed file: its database is replaced when it compiles, and nothing but
the database and the client channel changes. -/
theorem processChangedFile_spec (env : Env) (file : ChangedFile) (st : LanguageServerState) :
    ∃ st', processChangedFile env file st = .ok () st' ∧ st'.vfs = st.vfs ∧
      st'.analysis.db = recompiled env st.vfs [file] st.analysis.db ∧
      st'.wordIndexMap = st.wordIndexMap := by
  dsimp only [processChangedFile]
  rw [recompiled_singleton]
  cases hname : getFileName st.vfs file.fileId with
  | ok filename =>
    rw [compileFile_of_ok hname]
    dsimp only
    cases parseParamAndCompile env filename (some st.vfs) with
    | ok db => exact ⟨_, rfl, rfl, rfl, rfl⟩
    | error e =>
      obtain ⟨s, h⟩ := logMessage_spec s!"{filename} compilation failed" st
      exact ⟨_, h, rfl, rfl, rfl⟩
  | error e =>
    rw [compileFile_of_error hname]
    dsimp only
    obtain ⟨s, h⟩ := logMessage_spec s!"FileId({file.fileId}) not found" st
    exact ⟨_, h, rfl, rfl, rfl⟩

theorem processChangedFiles_spec (env : Env) (files : List ChangedFile) (st : LanguageServerState) :
    ∃ st', processChangedFiles env files st = .ok () st' ∧ st'.vfs = st.vfs ∧
      st'.analysis.db = recompiled env st.vfs files st.analysis.db ∧
      st'.wordIndexMap = st.wordIndexMap := by
  induction files generalizing st with
  | nil => exact ⟨st, rfl, rfl, by funext f; simp [recompiled], rfl⟩
  | cons file rest ih =>
    obtain ⟨st₁, h₁, hv₁, hd₁, hw₁⟩ := processChangedFile_spec env file st
    obtain ⟨st₂, h₂, hv₂, hd₂, hw₂⟩ := ih st₁
    refine ⟨st₂, ?_, hv₂.trans hv₁, ?_, hw₂.trans hw₁⟩
    · show (processChangedFile env file >>= fun _ => processChangedFiles env rest) st = _
      rw [bind_of_ok h₁, h₂]
    · rw [hd₂, hv₁, hd₁, recompiled_cons]

/-- `process_vfs_changes` takes every pending change and recompiles the changed
files, reporting whether there were any. -/
theorem processVfsChanges_spec (env : Env) (st : LanguageServerState) :
    ∃ st', processVfsChanges env st = .ok (!st.vfs.changes.isEmpty) st' ∧
      st'.vfs = { st.vfs with changes := [] } ∧
      st'.analysis.db = recompiled env st.vfs st.vfs.changes st.analysis.db ∧
      st'.wordIndexMap = st.wordIndexMap := by
  let st₀ : LanguageServerState := { st with vfs := st.vfs.takeChanges.2 }
  have hrun : processVfsChanges env st =
      (if st.vfs.changes.isEmpty then pure false
       else processChangedFiles env st.vfs.changes >>= fun _ => pure true) st₀ := rfl
  rw [hrun]
  cases hc : st.vfs.changes.isEmpty
  · obtain ⟨st', h, hv, hd, hw⟩ := processChangedFiles_spec env st.vfs.changes st₀
    exact ⟨st', by simp only [Bool.false_eq_true, if_false]; rw [bind_of_ok h]; rfl, hv, hd, hw⟩
  · refine ⟨st₀, rfl, rfl, ?_, rfl⟩
    funext f
    simp [recompiled, List.isEmpty_iff.mp hc]

/-- `process_vfs_changes` returns whether `take_changes` gave any change, leaves
no change untaken, and sets the database of each changed file whose name resolves
and that compiles against the VFS to the compile's result; every other entry, an
absent one included, stays as it was. -/
theorem processVfsChanges_updates_db (env : Env) (st : LanguageServerState) :
    ∃ b st', processVfsChanges env st = .ok b st' ∧
      (b = true ↔ st.vfs.takeChanges.1 ≠ []) ∧
      st'.vfs = st.vfs.takeChanges.2 ∧ st'.vfs.changes = [] ∧
      ∀ f,
        (f ∈ st.vfs.takeChanges.1.map (·.fileId) → ∀ filename db,
          getFileName st'.vfs f = .ok filename →
          parseParamAndCompile env filename (some st'.vfs) = .ok db →
          st'.analysis.db f = some db) ∧
        (f ∉ st.vfs.takeChanges.1.map (·.fileId) ∨ (∃ e, getFileName st'.vfs f = .error e) ∨
          (∃ filename e, getFileName st'.vfs f = .ok filename ∧
            parseParamAndCompile env filename (some st'.vfs) = .error e) →
          st'.analysis.db f = st.analysis.db f) := by
  obtain ⟨st', h, hv, hdb, -⟩ := processVfsChanges_spec env st
  -- The files compile against the VFS the changes were taken from.
  have hc : ∀ f, compileFile env st'.vfs f = compileFile env st.vfs f := fun f => by
    rw [hv]; rfl
  refine ⟨_, st', h, by simp [List.isEmpty_iff], hv, by rw [hv], fun f => ⟨?_, ?_⟩⟩
  · intro hf filename db hname hcomp
    rw [hdb]
    exact recompiled_of_ok hf (by rw [← hc, compileFile_of_ok hname, hcomp])
  · rintro (hf | ⟨e, hname⟩ | ⟨filename, e, hname, hcomp⟩) <;> rw [hdb]
    · exact recompiled_of_not_mem hf
    · exact recompiled_of_error (by rw [← hc, compileFile_of_error hname])
    · exact recompiled_of_error (by rw [← hc, compileFile_of_ok hname, hcomp])

theorem handleChanges_spec (env : Env) (st : LanguageServerState) :
    ∃ st', handleChanges env st = .ok () st' ∧ st'.vfs = { st.vfs with changes := [] } ∧
      st'.analysis.db = recompiled env st.vfs st.vfs.changes st.analysis.db ∧
      st'.wordIndexMap = st.wordIndexMap := by
  obtain ⟨st₁, h₁, hv₁, hd₁, hw₁⟩ := processVfsChanges_spec env st
  unfold handleChanges
  rw [bind_of_ok h₁]
  cases (!st.vfs.changes.isEmpty)
  · exact ⟨st₁, rfl, hv₁, hd₁, hw₁⟩
  · exact ⟨_, rfl, hv₁, hd₁, hw₁⟩

/-- With no changes pending, `process_vfs_changes` does nothing. -/
theorem processVfsChanges_of_nil (env : Env) {st : LanguageServerState} (h : st.vfs.changes = []) :
    processVfsChanges env st = .ok false st := by
  have hrun : processVfsChanges env st =
      (if st.vfs.changes.isEmpty then pure false
       else processChangedFiles env st.vfs.changes >>= fun _ => pure true)
        { st with vfs := st.vfs.takeChanges.2 } := rfl
  rw [hrun, Vfs.takeChanges_of_nil h, h]
  rfl

/-- With no changes pending, the end of `handle_event` does nothing. -/
theorem handleChanges_of_nil (env : Env) {st : LanguageServerState} (h : st.vfs.changes = []) :
    handleChanges env st = .ok () st := by
  show (processVfsChanges env >>= fun stateChanged => _) st = _
  rw [bind_of_ok (processVfsChanges_of_nil env h)]
  rfl

/-- After a step that leaves no change pending, the recompilation that ends
`handle_event` does nothing. -/
theorem bind_handleChanges_of_nil (env : Env) {x : ServerM Unit} {st : LanguageServerState}
    (h : (finalState (x st)).vfs.changes = []) : (x >>= fun _ => handleChanges env) st = x st := by
  cases hx : x st with
  | ok _ s => rw [bind_of_ok hx, handleChanges_of_nil env (by rwa [hx] at h)]
  | error e s => exact bind_of_error hx

end LanguageServerState

/-! ## The database over a run -/

open LanguageServerState

/-- The latest successful compile of a file over the rounds of a run: the last
round in which the file changed and compiled against that round's VFS. -/
def latestCompile (env : Env) (rounds : List Round) (f : FileId) : Option AnalysisDatabase :=
  rounds.reverse.findSome? fun r =>
    if f ∈ r.changed.map (·.fileId) then (compileFile env r.vfs f).toOption else none

/-- A round of recompilation is `recompiled` on top of the rounds before it. -/
theorem latestCompile_append (env : Env) (rounds : List Round) (r : Round) :
    latestCompile env (rounds ++ [r]) = recompiled env r.vfs r.changed (latestCompile env rounds) := by
  funext f
  unfold latestCompile recompiled
  simp only [List.reverse_append, List.reverse_singleton, List.singleton_append,
    List.findSome?_cons]
  split_ifs <;> cases compileFile env r.vfs f <;> rfl

/-- The frame of the handlers, which never touch the analysis database. -/
theorem analysis_tolerates : (Frame.unchanged (·.analysis)).Tolerates :=
  ⟨fun _ _ _ => rfl, fun _ _ => rfl, fun _ _ => rfl, fun _ _ _ => rfl, fun _ _ => rfl⟩

theorem dispatchEvent_analysis {env : Env} {event : Event} {st st₁ : LanguageServerState}
    (h : dispatchEvent env event st = .ok () st₁) : st₁.analysis = st.analysis := by
  have := keeps_dispatchEvent analysis_tolerates (keeps_respond (fun _ _ _ => rfl)) (fun _ => rfl)
    (fun _ _ => rfl) (fun _ _ => rfl) env event st
  rwa [h] at this

/-- The loop takes no event with a change pending: `handle_event` always ends by
taking them. -/
theorem Reachable.changes_eq_nil {env : Env} {sender : Sender} {hist : List Handled}
    {st : LanguageServerState} (hr : Reachable env sender hist st) : st.vfs.changes = [] := by
  cases hr with
  | new => rfl
  | handle _ _ _ _ hc =>
    obtain ⟨_, h, hv, -⟩ := handleChanges_spec env _
    rw [hc] at h
    cases h
    rw [hv]

/-- Whenever the loop takes an event, no change is pending, and every file's
database is the result of its latest successful compile, made against the VFS
right after the event that last changed it. -/
theorem db_eq_latestCompile {env : Env} {sender : Sender} {hist : List Handled}
    {st : LanguageServerState} (hr : Reachable env sender hist st) :
    st.vfs.changes = [] ∧ st.analysis.db = latestCompile env (hist.map (·.round)) := by
  refine ⟨hr.changes_eq_nil, ?_⟩
  induction hr with
  | new => rfl
  | handle event _ _ hd hc ih =>
    obtain ⟨st', h', -, hdb, -⟩ := handleChanges_spec env _
    rw [hc] at h'
    cases h'
    rw [hdb, dispatchEvent_analysis hd, ih, List.map_append, List.map_singleton,
      latestCompile_append]

/-- A workspace where every compile succeeds with no diagnostics. -/
def cleanCompileEnv : Env := { Env.empty with compile := fun _ _ => .ok ⟨⟨0⟩, ⟨0⟩, []⟩ }

/-- A client that opens `/w/a.k`. -/
def openA : Message := .notification (.didOpenTextDocument ⟨"file", "", "/w/a.k"⟩ "a = 1")

/-- Once the loop has handled `openA`, `/w/a.k` has a database, the one its round
compiled. -/
theorem db_after_open :
    ∃ hist st, Reachable cleanCompileEnv ⟨[], none⟩ hist st ∧ hist.map (·.event) = [.lsp openA] ∧
      (st.analysis.db 0).isSome ∧
      (st.vfs.changes = [] ∧ st.analysis.db = latestCompile cleanCompileEnv (hist.map (·.round))) :=
  have hr : Reachable cleanCompileEnv ⟨[], none⟩ _ _ := .handle (.lsp openA) .new rfl rfl rfl
  ⟨_, _, hr, rfl, rfl, db_eq_latestCompile hr⟩

end KCLLanguageServer
