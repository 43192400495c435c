import KCLLanguageServer.Server.Collaborators

/-! # Find references

`find_refs` of `find_refs.rs`: the textual candidates for a name come from the word
index of the definition's package root, built from disk, and a candidate is kept
when compiling its file from disk and asking for the definition at its start gives
exactly the queried location. The logger's calls are returned with the result.

The result is the index's candidates that the spec's test confirms, in order
(`findRefs_returns_confirmed`). The log is one message per candidate whose file
fails to compile, each naming the cursor's file
(`findRefs_logs_each_failing_candidate`).
-/
namespace KCLLanguageServer

section FindRefs
variable (env : Env) (defLoc : Location) (cursorPath : String)

/-- The filter closure of `find_refs` for one candidate: the message it logs, if
any, and whether the candidate is kept. The logger's result is dropped there. -/
def refMatches (refLoc : Location) : Option String × Bool :=
  let filePath := refLoc.uri.path
  match parseParamAndCompile env filePath none with
  | .ok db =>
    let refPos := env.kclPos filePath refLoc.range.start
    match env.gotoDefinition db.prog refPos db.scope with
    | some (.scalar realDefLoc) => (none, realDefLoc == defLoc)
    | _ => (none, false)
  | .error _ => (some s!"{cursorPath} compilation failed", false)

/-- `locs.into_iter().filter(..).collect()`, with the messages logged on the way. -/
def filterRefs : List Location → List String × List Location
  | [] => ([], [])
  | refLoc :: rest =>
    let r := refMatches env defLoc cursorPath refLoc
    let tail := filterRefs rest
    (r.1.toList ++ tail.1, if r.2 then refLoc :: tail.2 else tail.2)

/-- `find_refs`, with the messages passed to the logger. -/
def findRefs (name : String) (logger : String → Except String Unit) :
    List String × Except String (Option (List Location)) :=
  match env.getPkgRoot defLoc.uri.path with
  | none => ([], .ok none)
  | some root =>
    match env.buildWordIndex root with
    | .ok wordIndex =>
      match wordIndex.get name with
      | some locs =>
        let r := filterRefs env defLoc cursorPath locs
        (r.1, .ok (some r.2))
      | none => ([], .ok none)
    | .error _ =>
      match logger "build word index failed" with
      | .ok () => (["build word index failed"], .ok none)
      | .error e => (["build word index failed"], .error e)

/-! ## The result and the log of `find_refs` -/

/-- The spec's test on a candidate: its file compiles from disk, and goto-definition
at its start gives the single location `defLoc`, with the same URI, start and end. -/
def confirmsDefinition (c : Location) : Bool :=
  match parseParamAndCompile env c.uri.path none with
  | .ok db =>
    env.gotoDefinition db.prog (env.kclPos c.uri.path c.range.start) db.scope ==
      some (.scalar defLoc)
  | .error _ => false

/-- Whether a candidate's file fails to compile from disk. -/
def compileFails (c : Location) : Bool := !(parseParamAndCompile env c.uri.path none).toBool

theorem refMatches_snd (c : Location) :
    (refMatches env defLoc cursorPath c).2 = confirmsDefinition env defLoc c := by
  dsimp only [refMatches, confirmsDefinition]
  cases parseParamAndCompile env c.uri.path none with
  | error e => rfl
  | ok db =>
    dsimp only
    cases env.gotoDefinition db.prog (env.kclPos c.uri.path c.range.start) db.scope with
    | none => rfl
    | some r => cases r <;> simp

theorem refMatches_fst (c : Location) :
    (refMatches env defLoc cursorPath c).1 =
      if compileFails env c then some s!"{cursorPath} compilation failed" else none := by
  dsimp only [refMatches, compileFails]
  cases parseParamAndCompile env c.uri.path none with
  | error e => rfl
  | ok db => dsimp only; split <;> rfl

/-- The filter closure keeps, in order, the candidates the spec's test confirms,
and logs one message per candidate whose file fails to compile. -/
theorem filterRefs_eq (locs : List Location) :
    filterRefs env defLoc cursorPath locs =
      ((locs.filter (compileFails env)).map fun _ => s!"{cursorPath} compilation failed",
        locs.filter (confirmsDefinition env defLoc)) := by
  induction locs with
  | nil => rfl
  | cons c rest ih =>
    simp only [filterRefs, ih, refMatches_fst, refMatches_snd, List.filter_cons]
    cases compileFails env c <;> cases confirmsDefinition env defLoc c <;> rfl

theorem mem_filterRefs {locs : List Location} {l : Location}
    (h : l ∈ (filterRefs env defLoc cursorPath locs).2) :
    l ∈ locs ∧ (refMatches env defLoc cursorPath l).2 = true := by
  rwa [filterRefs_eq, List.mem_filter, ← refMatches_snd env defLoc cursorPath] at h

/-- A kept candidate compiled from disk, and the definition at its start is the
queried location. -/
theorem refMatches_spec {refLoc : Location} (h : (refMatches env defLoc cursorPath refLoc).2 = true) :
    ∃ db, parseParamAndCompile env refLoc.uri.path none = .ok db ∧
      env.gotoDefinition db.prog (env.kclPos refLoc.uri.path refLoc.range.start) db.scope =
        some (.scalar defLoc) := by
  rw [refMatches_snd] at h
  unfold confirmsDefinition at h
  split at h
  · exact ⟨_, ‹_›, beq_iff_eq.mp h⟩
  · cases h

/-- `find_refs` returns `Ok(Some(rs))` exactly when the definition's package root,
its word index and the name's entry in it are all found, and `rs` is then the
name's candidates that the spec's test confirms, in the index's order. It returns
`Ok(None)` when there is no root, no entry for the name, or an index build failure
the logger takes, and `Err` only when the logger fails on an index build failure. -/
theorem findRefs_returns_confirmed (name : String) (logger : String → Except String Unit) :
    (∀ rs, (findRefs env defLoc cursorPath name logger).2 = .ok (some rs) ↔
      ∃ root idx locs, env.getPkgRoot defLoc.uri.path = some root ∧
        env.buildWordIndex root = .ok idx ∧ idx.get name = some locs ∧
        rs = locs.filter (confirmsDefinition env defLoc)) ∧
    ((findRefs env defLoc cursorPath name logger).2 = .ok none ↔
      env.getPkgRoot defLoc.uri.path = none ∨
      (∃ root idx, env.getPkgRoot defLoc.uri.path = some root ∧
        env.buildWordIndex root = .ok idx ∧ idx.get name = none) ∨
      (∃ root e, env.getPkgRoot defLoc.uri.path = some root ∧
        env.buildWordIndex root = .error e ∧ logger "build word index failed" = .ok ())) ∧
    (∀ e, (findRefs env defLoc cursorPath name logger).2 = .error e ↔
      ∃ root e', env.getPkgRoot defLoc.uri.path = some root ∧
        env.buildWordIndex root = .error e' ∧ logger "build word index failed" = .error e) := by
  unfold findRefs
  cases hroot : env.getPkgRoot defLoc.uri.path with
  | none =>
    simp only [Except.ok.injEq, reduceCtorEq, false_and, exists_false, implies_true, or_self,
      or_false, and_self]
  | some root =>
    dsimp only
    cases hidx : env.buildWordIndex root with
    | ok idx =>
      dsimp only
      cases hget : idx.get name with
      | none =>
        simp only [Except.ok.injEq, reduceCtorEq, Option.some.injEq, exists_and_left,
          exists_eq_left', hidx, hget, false_and, exists_false, implies_true, exists_and_right,
          or_false, or_true, and_self]
      | some locs =>
        simp only [filterRefs_eq, eq_comm, Except.ok.injEq, Option.some.injEq, exists_and_left,
          exists_eq_left', hidx, hget, implies_true, reduceCtorEq, exists_and_right, exists_false,
          false_and, or_self, and_self]
    | error e' =>
      dsimp only
      cases hlog : logger "build word index failed" with
      | ok u =>
        simp only [Except.ok.injEq, reduceCtorEq, Option.some.injEq, exists_and_left,
          exists_eq_left', hidx, false_and, exists_false, implies_true, and_true,
          Except.error.injEq, exists_eq', or_true, and_false, and_self]
      | error e =>
        simp only [reduceCtorEq, Option.some.injEq, exists_and_left, exists_eq_left', hidx,
          false_and, exists_false, implies_true, and_false, or_self, Except.error.injEq,
          exists_and_right, exists_eq', true_and, and_self]

/-- Once the candidates are found, `find_refs` calls the logger once per candidate
whose file fails to compile, in the candidates' order, and every call names the
cursor's file, not the failing one. -/
theorem findRefs_logs_each_failing_candidate (name : String)
    (logger : String → Except String Unit) {root : String} {idx : WordIndex}
    {locs : List Location} (hroot : env.getPkgRoot defLoc.uri.path = some root)
    (hidx : env.buildWordIndex root = .ok idx) (hget : idx.get name = some locs) :
    (findRefs env defLoc cursorPath name logger).1 =
      (locs.filter (compileFails env)).map fun _ => s!"{cursorPath} compilation failed" := by
  simp only [findRefs, hroot, hidx, hget, filterRefs_eq]

end FindRefs

/-- The definition of `a` in `/w/main.k`. -/
def mainDef : Location := ⟨⟨"file", "", "/w/main.k"⟩, ⟨⟨0, 0⟩, ⟨0, 1⟩⟩⟩

/-- Two occurrences of `a` in `/w/a.k`. -/
def brokenRefs : List Location :=
  [⟨⟨"file", "", "/w/a.k"⟩, ⟨⟨0, 0⟩, ⟨0, 1⟩⟩⟩, ⟨⟨"file", "", "/w/a.k"⟩, ⟨⟨1, 0⟩, ⟨1, 1⟩⟩⟩]

/-- A package `/w` whose word index finds `a` twice in `/w/a.k`, a file that does
not compile. -/
def brokenFileEnv : Env :=
  { Env.empty with
    getPkgRoot := fun _ => some "/w"
    buildWordIndex := fun _ => .ok (brokenRefs.map ("a", ·)) }

/-- Both candidates lie in the one failing file `/w/a.k`, and the logger is called
twice, each time with the cursor's file `/w/main.k`. -/
theorem failing_file_logged_per_candidate :
    brokenFileEnv.getPkgRoot mainDef.uri.path = some "/w" ∧
    brokenFileEnv.buildWordIndex "/w" = .ok (brokenRefs.map ("a", ·)) ∧
    WordIndex.get (brokenRefs.map ("a", ·)) "a" = some brokenRefs ∧
    (findRefs brokenFileEnv mainDef "/w/main.k" "a" (fun _ => .ok ())).1 =
      ["/w/main.k compilation failed", "/w/main.k compilation failed"] :=
  ⟨rfl, rfl, rfl, (findRefs_logs_each_failing_candidate brokenFileEnv mainDef "/w/main.k" "a"
    (fun _ => .ok ()) rfl rfl rfl).trans rfl⟩

end KCLLanguageServer
