import KCLLanguageServer.Server.Vfs
import KCLLanguageServer.Index.WordIndex

/-! # Collaborators of the server core

The resolver, the formatter and the disk are outside the core. So are the helpers
of `util`, `from_lsp`, `to_lsp`, `goto_def` and the other handler modules that the
sources call but do not contain. They enter the model as the fields of `Env`;
the URL helpers, whose behaviour the `url` crate and the tests fix, are defined
here from `Url::to_file_path`.
-/
namespace KCLLanguageServer

/-- The resolver's program, opaque to the server core. -/
structure Program where
  tag : Nat
deriving DecidableEq, Repr

structure ProgramScope where
  tag : Nat
deriving DecidableEq, Repr

/-- A resolver diagnostic (`kclvm_error::Diagnostic`). -/
structure KclDiagnostic where
  tag : Nat
deriving DecidableEq, Repr

/-- `kclvm_error::Position`, a position as the resolver reads it. -/
structure KclPos where
  filename : String
  line : Nat
  column : Option Nat
deriving DecidableEq, Repr

/-- One compile result of a file. -/
structure AnalysisDatabase where
  prog : Program
  scope : ProgramScope
  diags : List KclDiagnostic
deriving DecidableEq, Repr

/-- What a compile reads: the text of each file, by path. -/
abbrev Sources := VfsPath → Option String

structure Env where
  /-- `std::fs::read_to_string`. -/
  readToString : VfsPath → Option String
  /-- The resolver: compile a file, reading sources through the given view. -/
  compile : String → Sources → Except String AnalysisDatabase
  gotoDefinition : Program → KclPos → ProgramScope → Option GotoDefinitionResponse
  /-- `from_lsp::kcl_pos`. -/
  kclPos : String → Position → KclPos
  /-- `to_lsp::kcl_diag_to_lsp_diags`. -/
  kclDiagToLspDiags : KclDiagnostic → String → List Diagnostic
  /-- `formatting::format`. -/
  format : String → String → Option Range → Except String (Option (List TextEdit))
  /-- `from_lsp::text_range` followed by `str::get`. -/
  textRangeGet : String → Range → Option String
  /-- `util::apply_document_changes`. -/
  applyDocumentChanges : String → List TextDocumentContentChangeEvent → String
  /-- The identifier occurrences of a text, which `build_word_index_for_file_content`
  records; occurrences at distinct positions are distinct. -/
  wordsOf : String → List (String × Range)
  wordsOf_nodup : ∀ text, (wordsOf text).Nodup
  /-- `kclvm_config::modfile::get_pkg_root`. -/
  getPkgRoot : String → Option String
  /-- `util::build_word_index`: the index of every file under a root, from disk. -/
  buildWordIndex : String → Except String WordIndex
  completion : Option Char → Program → KclPos → ProgramScope → Option String
  hover : Program → KclPos → ProgramScope → Option String
  documentSymbol : String → Program → ProgramScope → Option String
  quickFix : Url → List Diagnostic → List String
  /-- `find_refs::find_references`, which the sources call but do not contain: the
  messages it logs through the request's sender, and its result. -/
  findReferences : Url → Position → Bool → List String × Except String (Option (List Location))

/-- A workspace with nothing on disk, where every compile fails and the resolver
finds nothing: a concrete environment to run the loop in. -/
def Env.empty : Env where
  readToString _ := none
  compile file _ := .error s!"{file}: No such file or directory"
  gotoDefinition _ _ _ := none
  kclPos file position := ⟨file, position.line + 1, some position.character⟩
  kclDiagToLspDiags _ _ := []
  format _ _ _ := .ok none
  textRangeGet _ _ := none
  applyDocumentChanges text _ := text
  wordsOf _ := []
  wordsOf_nodup _ := List.nodup_nil
  getPkgRoot _ := none
  buildWordIndex _ := .ok []
  completion _ _ _ _ := none
  hover _ _ _ := none
  documentSymbol _ _ _ := none
  quickFix _ _ := []
  findReferences _ _ _ := ([], .ok none)

/-- Modelled from the spec: `util::parse_param_and_compile` is not in the
sources. It compiles the file with the resolver; given the VFS, a file the VFS
holds is read from it and any other file from disk, and without it every file is
read from disk. -/
def parseParamAndCompile (env : Env) (file : String) (vfs : Option Vfs) :
    Except String AnalysisDatabase :=
  env.compile file fun p =>
    match vfs.bind (·.readText p) with
    | some text => some text
    | none => env.readToString p

/-- A `Path` in a log message, as `{:?}` prints it. -/
def debugPath (p : List UInt8) : String :=
  "\"" ++ String.mk (p.map fun b => Char.ofNat b.toNat) ++ "\""

/-- An `AbsPathBuf` in a log message, as its derived `{:?}` prints it. -/
def debugAbsPath (p : List UInt8) : String := "AbsPathBuf(" ++ debugPath p ++ ")"

/-- Modelled from the spec: `from_lsp::abs_path` is not in the sources; it is
`Url::to_file_path` made into an absolute path. -/
def absPath (uri : Url) : Except String VfsPath :=
  match uri.toFilePath with
  | some p => if isAbsolute p then .ok p else .error s!"invalid uri: {uri.path}"
  | none => .error s!"invalid uri: {uri.path}"

/-- Modelled from the spec: `from_lsp::file_path_from_url` is not in the sources;
`file_path_from_url_test` fixes it as `Url::to_file_path` read as text. -/
def filePathFromUrl (uri : Url) : Except String String :=
  match uri.toFilePath.bind bytesToString with
  | some s => .ok s
  | none => .error s!"can't convert url to file path: {uri.path}"

/-- Modelled from the spec: `util::get_file_name` is not in the sources; a
file's name is its VFS path read as text, which fails when the path is not UTF-8. -/
def getFileName (vfs : Vfs) (id : FileId) : Except String String :=
  match (vfs.filePath id).bind bytesToString with
  | some s => .ok s
  | none => .error s!"FileId({id}) isn't on the file system."

/-- Modelled from the spec: `to_lsp::url` is not in the sources; it is
`Url::from_file_path` of the file's VFS path. -/
def fileUrl (vfs : Vfs) (id : FileId) : Except String Url :=
  match (vfs.filePath id).bind Url.fromFilePath with
  | some u => .ok u
  | none => .error s!"FileId({id}) can't be converted to a url"

end KCLLanguageServer
