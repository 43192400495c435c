import KCLLanguageServer.Index.FindRefs
import KCLLanguageServer.Server.Frames

/-! # References and goto-definition

`find_refs` keeps a candidate when goto-definition on the candidate's file compiled
from disk answers the queried definition; `handle_goto_definition` answers from the
snapshot's database, compiled from the VFS, and decodes the URL's path. The two agree
exactly when the database is the one from disk and the path needs no decoding
(`findRefs_confirmed_by_gotoDefinition`); they disagree on a file the client never
opened or has unsaved edits in (`goto_disagrees_with_find_refs`), and a package under
a directory whose URL is escaped has no references at all
(`escaped_workspace_finds_nothing`).
-/
namespace KCLLanguageServer

theorem refMatches_of_findRefs {env : Env} {defLoc : Location} {cursorPath name : String}
    {logger : String → Except String Unit} {locs : List Location}
    (h : (findRefs env defLoc cursorPath name logger).2 = .ok (some locs)) {l : Location}
    (hl : l ∈ locs) : (refMatches env defLoc cursorPath l).2 = true := by
  unfold findRefs at h
  split at h
  · cases h
  · split at h
    · split at h
      · cases h
        exact (mem_filterRefs env defLoc cursorPath hl).2
      · cases h
    · split at h <;> cases h

theorem handleGotoDefinition_of_db {env : Env} {vfs : Vfs} {snapshot : LanguageServerSnapshot}
    {uri : Url} {file : String} {path : VfsPath} {db : AnalysisDatabase}
    {res : GotoDefinitionResponse} (hfile : filePathFromUrl uri = .ok file)
    (hpath : absPath uri = .ok path) (hdb : snapshot.getDb vfs path = .ok db) {position : Position}
    (hres : env.gotoDefinition db.prog (env.kclPos file position) db.scope = some res)
    (tasks : List Task) :
    handleGotoDefinition env vfs snapshot uri position tasks = .ok (some res) tasks := by
  simp only [handleGotoDefinition, positionQuery, HandlerM.lift, hfile, hpath, hdb, hres,
    Option.isNone_iff_eq_none, bind_pure_comp, map_pure, pure_bind, reduceCtorEq, if_false,
    pure_apply]

/-- Every location `find_refs` returns is confirmed by goto-definition on a
snapshot whose database for the location's file is what compiling that file from
disk gives, when the location's URL path needs no decoding. -/
theorem findRefs_confirmed_by_gotoDefinition (env : Env) (defLoc : Location)
    (cursorPath name : String) (logger : String → Except String Unit)
    (vfs : Vfs) (snapshot : LanguageServerSnapshot) {locs : List Location}
    (h : (findRefs env defLoc cursorPath name logger).2 = .ok (some locs)) {l : Location}
    (hl : l ∈ locs) {path : VfsPath} (hfile : filePathFromUrl l.uri = .ok l.uri.path)
    (hpath : absPath l.uri = .ok path)
    (hdb : snapshot.getDb vfs path = parseParamAndCompile env l.uri.path none) (tasks : List Task) :
    handleGotoDefinition env vfs snapshot l.uri l.range.start tasks =
      .ok (some (.scalar defLoc)) tasks := by
  obtain ⟨db, hdisk, hgoto⟩ := refMatches_spec env defLoc cursorPath (refMatches_of_findRefs h hl)
  exact handleGotoDefinition_of_db hfile hpath (hdb.trans hdisk) hgoto tasks

/-- The definition of `/w/a.k` at line 0. -/
def defLocAt (column : Nat) : Location :=
  ⟨⟨"file", "", "/w/a.k"⟩, ⟨⟨0, column⟩, ⟨0, column⟩⟩⟩

/-- The occurrence of `a` at the start of `/w/a.k`. -/
def refLoc : Location := ⟨⟨"file", "", "/w/a.k"⟩, ⟨⟨0, 0⟩, ⟨0, 1⟩⟩⟩

/-- A workspace `/w` whose disk holds `a` for every file, whose word index finds
`a` at `refLoc`, and whose resolver puts the definition at the column given by the
length of the file's text. -/
def refsEnv : Env :=
  { Env.empty with
    readToString := fun _ => some "a"
    compile := fun file sources => .ok ⟨⟨((sources (utf8Bytes file)).getD "").length⟩, ⟨0⟩, []⟩
    gotoDefinition := fun prog _ _ => some (.scalar (defLocAt prog.tag))
    getPkgRoot := fun _ => some "/w"
    buildWordIndex := fun _ => .ok [("a", refLoc)] }

open LanguageServerState in
/-- `/w/a.k` open with its disk text `a`. -/
def savedState : LanguageServerState :=
  finalState (handleEvent refsEnv
    (.lsp (.notification (.didOpenTextDocument ⟨"file", "", "/w/a.k"⟩ "a")))
    (LanguageServerState.new ⟨[], none⟩))

theorem goto_confirms_saved_reference :
    handleGotoDefinition refsEnv savedState.vfs savedState.snapshot refLoc.uri refLoc.range.start
      [] = .ok (some (.scalar (defLocAt 1))) [] :=
  findRefs_confirmed_by_gotoDefinition refsEnv (defLocAt 1) "/w/a.k" "a" (fun _ => .ok ())
    savedState.vfs savedState.snapshot rfl (List.mem_singleton_self _) rfl rfl rfl []

open LanguageServerState in
/-- `find_refs` returns `refLoc` for the definition at column 1, which the text `a`
on disk gives. On the new server, where `/w/a.k` is not open, goto-definition at
`refLoc` fails; after `/w/a.k` is opened with the unsaved text `ab`, it answers
the definition at column 2. -/
theorem goto_disagrees_with_find_refs :
    (findRefs refsEnv (defLocAt 1) "/w/a.k" "a" (fun _ => .ok ())).2 = .ok (some [refLoc]) ∧
    handleGotoDefinition refsEnv (LanguageServerState.new ⟨[], none⟩).vfs
      (LanguageServerState.new ⟨[], none⟩).snapshot refLoc.uri refLoc.range.start [] =
        .error "Path /w/a.k fileId not found" [] ∧
    ∃ st, run refsEnv [.lsp (.notification (.didOpenTextDocument ⟨"file", "", "/w/a.k"⟩ "ab"))]
        (LanguageServerState.new ⟨[], none⟩) = .ok () st ∧
      handleGotoDefinition refsEnv st.vfs st.snapshot refLoc.uri refLoc.range.start [] =
        .ok (some (.scalar (defLocAt 2))) [] := by
  have h : handleEvent refsEnv
      (.lsp (.notification (.didOpenTextDocument ⟨"file", "", "/w/a.k"⟩ "ab")))
      (LanguageServerState.new ⟨[], none⟩) =
    .ok () (finalState (handleEvent refsEnv
      (.lsp (.notification (.didOpenTextDocument ⟨"file", "", "/w/a.k"⟩ "ab")))
      (LanguageServerState.new ⟨[], none⟩))) := rfl
  exact ⟨rfl, rfl, _, run_cons_of_ok h rfl [], rfl⟩

/-! ## Workspaces under a directory whose URL is escaped -/

/-- The file URL of a path, as `Url::from_file_path` writes it. -/
def fileUri (path : String) : Url := (Url.fromFilePath (utf8Bytes path)).getD ⟨"file", "", path⟩

/-- The occurrence of `a` at the start of the package's file `a.k`, which is also its
definition. -/
def defIn (dir : String) : Location := ⟨fileUri (dir ++ "/a.k"), ⟨⟨0, 0⟩, ⟨0, 1⟩⟩⟩

/-- A disk holding one package, at `dir`: its file `a.k` holds `a`, which the word
index finds at the file's URL. The package root and the disk answer for file-system
paths, and the resolver puts the definition of `a` at its occurrence. -/
def packageEnv (dir : String) : Env :=
  { Env.empty with
    readToString := fun p => if p = utf8Bytes (dir ++ "/a.k") then some "a" else none
    compile := fun file sources => match sources (utf8Bytes file) with
      | some _ => .ok ⟨⟨0⟩, ⟨0⟩, []⟩
      | none => .error s!"{file}: No such file or directory"
    gotoDefinition := fun _ _ _ => some (.scalar (defIn dir))
    getPkgRoot := fun file => if file = dir ++ "/a.k" then some dir else none
    buildWordIndex := fun root =>
      if root = dir then .ok [("a", defIn dir)] else .error s!"{root}: No such file or directory" }

/-- Wherever the package lies, `find_refs` finds the occurrence of `a` exactly when
the file's URL path is the file's path: it asks for the package root, and compiles
the candidate, at the URL's path as written. -/
theorem findRefs_asks_at_url_path (dir cursorPath : String) (logger : String → Except String Unit) :
    (findRefs (packageEnv dir) (defIn dir) cursorPath "a" logger).2 =
      if (defIn dir).uri.path = dir ++ "/a.k" then .ok (some [defIn dir]) else .ok none := by
  by_cases h : (defIn dir).uri.path = dir ++ "/a.k"
  · have hget : WordIndex.get [("a", defIn dir)] "a" = some [defIn dir] := rfl
    simp only [findRefs, packageEnv, h, if_true, hget, filterRefs_eq, confirmsDefinition,
      parseParamAndCompile, Option.none_bind, beq_self_eq_true, List.filter_cons_of_pos,
      List.filter_nil]
  · simp only [findRefs, packageEnv, h, if_false]

/-- The same package under `/w` and under `/w s`. The URL of `/w s/a.k` has the
path `/w%20s/a.k`, which `file_path_from_url` decodes to the file's path for
goto-definition; `find_refs` finds the occurrence under `/w` and nothing under
`/w s`. -/
theorem escaped_workspace_finds_nothing :
    (defIn "/w s").uri.path = "/w%20s/a.k" ∧
    filePathFromUrl (defIn "/w s").uri = .ok "/w s/a.k" ∧
    (findRefs (packageEnv "/w") (defIn "/w") "/w/a.k" "a" (fun _ => .ok ())).2 =
      .ok (some [defIn "/w"]) ∧
    (findRefs (packageEnv "/w s") (defIn "/w s") "/w s/a.k" "a" (fun _ => .ok ())).2 =
      .ok none := by
  have hw : (defIn "/w").uri.path = "/w" ++ "/a.k" := by decide
  have hs : (defIn "/w s").uri.path = "/w%20s/a.k" := by decide
  refine ⟨hs, rfl, ?_, ?_⟩
  · rw [findRefs_asks_at_url_path, if_pos hw]
  · rw [findRefs_asks_at_url_path, if_neg (by rw [hs]; decide)]

end KCLLanguageServer
