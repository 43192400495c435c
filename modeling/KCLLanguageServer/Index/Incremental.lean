import KCLLanguageServer.Loop.Recompile
import KCLLanguageServer.Protocol.UrlRoundTrip
import Mathlib.Data.Multiset.Basic
import Mathlib.Data.List.Forall2

/-! # The word index kept up to date

`on_did_change_text_document` finds the document by the path its URI decodes to,
but every root whose path is a prefix of the URI's loses the words of the old text
and gains those of the new one under the URI as the client sent it
(`didChange_updates_index_under_sent_uri`). An index built from scratch over the
VFS names each file by `Url::from_file_path` of its path. The two agree, edit after
edit, when the client spells the URI the way `from_file_path` does
(`indexes_match_after_changes`). A URI spelled another way, say with an escaped
letter, names the same file but none of its indexed words, so the old words stay
and the new ones come in beside them (`encoded_uri_keeps_old_words`).
-/
namespace KCLLanguageServer

/-! ## The index built from scratch -/

/-- The words one interned file gives the index of `root` when it is built from
scratch: those of its text, under its file URL, if that URL's path lies under the
root's. -/
def fileFragment (wordsOf : String → List (String × Range)) (vfs : Vfs) (root : Url)
    (id : FileId) : WordIndex :=
  match vfs.interner[id]?, vfs.data id with
  | some path, some (.text text) =>
    match Url.fromFilePath path with
    | some url =>
      if pathStartsWith (utf8Bytes url.path) (utf8Bytes root.path) then
        buildWordIndexForFileContent wordsOf text url
      else []
    | none => []
  | _, _ => []

/-- The index of `root` built from scratch over the VFS, file by file. -/
def scratchIndex (wordsOf : String → List (String × Range)) (vfs : Vfs) (root : Url) :
    WordIndex :=
  (List.range vfs.interner.length).flatMap (fileFragment wordsOf vfs root)

/-- Every root's index is, as a multiset of (word, URI, range) triples, the one
built from scratch over the VFS, and it holds no triple twice. -/
def IndexesMatch (env : Env) (st : LanguageServerState) : Prop :=
  ∀ e ∈ st.wordIndexMap.entries, e.2.Perm (scratchIndex env.wordsOf st.vfs e.1) ∧ e.2.Nodup

instance (env : Env) : DecidablePred (IndexesMatch env) := fun st =>
  inferInstanceAs (Decidable (∀ e ∈ st.wordIndexMap.entries,
    e.2.Perm (scratchIndex env.wordsOf st.vfs e.1) ∧ e.2.Nodup))

/-- A URI spelled the way `Url::from_file_path` spells the path it names. -/
def canonicalUri (uri : Url) : Bool :=
  match absPath uri with
  | .ok path => Url.fromFilePath path == some uri
  | .error _ => true

theorem fileFragment_congr {vfs vfs' : Vfs} {id : FileId}
    (hi : vfs'.interner[id]? = vfs.interner[id]?) (hd : vfs'.data id = vfs.data id)
    (wordsOf : String → List (String × Range)) (root : Url) :
    fileFragment wordsOf vfs' root id = fileFragment wordsOf vfs root id := by
  simp only [fileFragment, hi, hd]

theorem scratchIndex_congr {vfs vfs' : Vfs} (hi : vfs'.interner = vfs.interner)
    (hd : vfs'.data = vfs.data) (wordsOf : String → List (String × Range)) (root : Url) :
    scratchIndex wordsOf vfs' root = scratchIndex wordsOf vfs root := by
  rw [scratchIndex, scratchIndex, hi]
  congr 1
  funext id
  exact fileFragment_congr (by rw [hi]) (by rw [hd]) _ _

theorem IndexesMatch.congr {env : Env} {st st' : LanguageServerState} (hm : IndexesMatch env st)
    (hi : st'.vfs.interner = st.vfs.interner) (hd : st'.vfs.data = st.vfs.data)
    (hw : st'.wordIndexMap = st.wordIndexMap) : IndexesMatch env st' := by
  intro e he
  rw [scratchIndex_congr hi hd]
  exact hm e (hw ▸ he)

/-- Every word of a file's fragment lies in the file, under its file URL. -/
theorem mem_fileFragment {wordsOf : String → List (String × Range)} {vfs : Vfs} {root : Url}
    {id : FileId} {x : String × Location} (h : x ∈ fileFragment wordsOf vfs root id) :
    ∃ p, vfs.interner[id]? = some p ∧ Url.fromFilePath p = some x.2.uri := by
  unfold fileFragment at h
  split at h
  · rename_i p _ hp _
    split at h
    · rename_i url hurl
      split at h
      · exact ⟨p, hp, by rw [buildWordIndexForFileContent_uri h]; exact hurl⟩
      · simp at h
    · simp at h
  · simp at h

/-- The fragment of a file the client names by its file URL. -/
theorem fileFragment_of_lookup {wordsOf : String → List (String × Range)} {vfs : Vfs}
    {path : VfsPath} {id : FileId} {text : String} {uri : Url} (hl : vfs.lookup path = some id)
    (ht : vfs.data id = some (.text text)) (hu : Url.fromFilePath path = some uri) (root : Url) :
    fileFragment wordsOf vfs root id =
      if pathStartsWith (utf8Bytes uri.path) (utf8Bytes root.path) then
        buildWordIndexForFileContent wordsOf text uri
      else [] := by
  obtain ⟨p, hp, heq⟩ := Vfs.lookup_spec hl
  simp only [fileFragment, hp, ht, (fromFilePath_of_pathEq heq).trans hu]

/-! ## Replacing one file's words -/

/-- `word_index_subtract` compares entries with the pairwise `==`, which is `=`: it
is the multiset difference. -/
theorem wordIndexSubtract_eq_diff (I old : WordIndex) :
    wordIndexSubtract I old = @List.diff _ (@instBEqOfDecidableEq _ instDecidableEqProd) I old := by
  unfold wordIndexSubtract
  congr 1
  exact @lawful_beq_subsingleton _ _ _ inferInstance instLawfulBEq

/-- Taking a file's old words out of an index that holds them, and adding its new
ones, replaces the file's fragment. -/
theorem perm_subtract_add {I A B old new : WordIndex} (h : I.Perm (A ++ old ++ B)) :
    (wordIndexAdd (wordIndexSubtract I old) new).Perm (A ++ new ++ B) := by
  rw [wordIndexAdd, wordIndexSubtract_eq_diff, ← Multiset.coe_eq_coe]
  rw [← Multiset.coe_eq_coe] at h
  rw [← Multiset.coe_add, ← Multiset.coe_sub, h]
  simp only [← Multiset.coe_add]
  rw [add_right_comm (A : Multiset (String × Location)), add_tsub_cancel_right, add_right_comm]

/-- Taking out and adding words under one URI keeps the entries under every other
URI, as a multiset. -/
theorem filter_subtract_add {I old new : WordIndex} {uri : Url} (hold : ∀ e ∈ old, e.2.uri = uri)
    (hnew : ∀ e ∈ new, e.2.uri = uri) :
    ((wordIndexAdd (wordIndexSubtract I old) new).filter (·.2.uri ≠ uri)).Perm
      (I.filter (·.2.uri ≠ uri)) := by
  have hn : new.filter (·.2.uri ≠ uri) = [] :=
    List.filter_eq_nil_iff.mpr fun e he => by simp [hnew e he]
  have ho : Multiset.filter (·.2.uri ≠ uri) (old : Multiset (String × Location)) = 0 :=
    Multiset.filter_eq_nil.mpr fun e he => by simp [hold e (Multiset.mem_coe.mp he)]
  rw [wordIndexAdd, List.filter_append, hn, List.append_nil, wordIndexSubtract_eq_diff,
    ← Multiset.coe_eq_coe, ← Multiset.filter_coe, ← Multiset.coe_sub, Multiset.filter_sub, ho,
    tsub_zero, Multiset.filter_coe]

theorem nodup_replace {A B old new : WordIndex} (h : (A ++ old ++ B).Nodup) (hn : new.Nodup)
    (hd : ∀ x ∈ new, x ∉ A ++ B) : (A ++ new ++ B).Nodup := by
  have hab : (A ++ B).Nodup := h.sublist ((List.sublist_append_left A old).append (.refl B))
  have hperm : (A ++ new ++ B).Perm (new ++ (A ++ B)) := by
    simpa only [List.append_assoc] using List.perm_append_comm.append_right B
  exact hperm.nodup_iff.mpr (hn.append hab fun x hx hx' => hd x hx hx')

/-- The index built from scratch over a VFS with the files of `vfs`, whose texts
differ from those of `vfs` at most at file `id`: the fragment of `id` between the
unchanged fragments of the files before and after it. -/
theorem scratchIndex_split {vfs : Vfs} {id : FileId} (hid : id < vfs.interner.length) :
    ∃ s t : List FileId, id ∉ s ++ t ∧ ∀ {vfs' : Vfs}, vfs'.interner = vfs.interner →
      (∀ j, j ≠ id → vfs'.data j = vfs.data j) → ∀ wordsOf root,
      scratchIndex wordsOf vfs' root = s.flatMap (fileFragment wordsOf vfs root) ++
        fileFragment wordsOf vfs' root id ++ t.flatMap (fileFragment wordsOf vfs root) := by
  obtain ⟨s, t, hst⟩ := List.append_of_mem (List.mem_range.mpr hid)
  have hnd := List.nodup_append.mp (hst ▸ List.nodup_range vfs.interner.length)
  have hid' : id ∉ s ++ t := fun h => (List.mem_append.mp h).elim
    (fun hs => hnd.2.2 hs (List.mem_cons_self _ _)) (List.nodup_cons.mp hnd.2.1).1
  refine ⟨s, t, hid', fun {vfs'} hi hd wordsOf root => ?_⟩
  have hsame : ∀ j ∈ s ++ t, fileFragment wordsOf vfs' root j = fileFragment wordsOf vfs root j :=
    fun j hj => fileFragment_congr (by rw [hi]) (hd j fun h => hid' (h ▸ hj)) _ _
  rw [scratchIndex, hi, hst, List.flatMap_append, List.flatMap_cons, ← List.append_assoc,
    List.flatMap_congr fun j hj => hsame j (List.mem_append_left _ hj),
    List.flatMap_congr fun j hj => hsame j (List.mem_append_right _ hj)]

/-- The update `on_did_change_text_document` makes to one root's index, when the
URI is the file's URL: the index stays the one built from scratch over the VFS with
the file's new text, and keeps no triple twice. -/
theorem scratchIndex_setFileContents {wordsOf : String → List (String × Range)}
    (hw : ∀ text, (wordsOf text).Nodup) {vfs : Vfs} {path : VfsPath} {id : FileId}
    {text : String} {uri : Url} (hl : vfs.lookup path = some id)
    (ht : vfs.data id = some (.text text)) (hu : Url.fromFilePath path = some uri)
    (newText : String) (root : Url) {I : WordIndex}
    (hI : I.Perm (scratchIndex wordsOf vfs root)) (hnd : I.Nodup) :
    let I' := if pathStartsWith (utf8Bytes uri.path) (utf8Bytes root.path) then
      wordIndexAdd (wordIndexSubtract I (buildWordIndexForFileContent wordsOf text uri))
        (buildWordIndexForFileContent wordsOf newText uri)
    else I
    I'.Perm (scratchIndex wordsOf (vfs.setFileContents path (some (.text newText))) root) ∧
      I'.Nodup := by
  intro I'
  obtain ⟨p, hp, heq⟩ := Vfs.lookup_spec hl
  obtain ⟨hint, hdata⟩ := Vfs.setFileContents_of_lookup hl (some (.text newText))
  set vfs' := vfs.setFileContents path (some (.text newText))
  have hl' : vfs'.lookup path = some id := by simpa only [Vfs.lookup, hint] using hl
  have ht' : vfs'.data id = some (.text newText) := by rw [hdata, Function.update_same]
  obtain ⟨s, t, hid, hsplit⟩ := scratchIndex_split (List.getElem?_eq_some_iff.mp hp).1
  rw [@hsplit vfs rfl (fun _ _ => rfl), fileFragment_of_lookup hl ht hu] at hI
  rw [hsplit hint (fun j hj => by rw [hdata, Function.update_noteq hj]),
    fileFragment_of_lookup hl' ht' hu]
  by_cases hunder : pathStartsWith (utf8Bytes uri.path) (utf8Bytes root.path) = true
  · simp only [I', hunder, if_true] at hI ⊢
    refine ⟨perm_subtract_add hI, (perm_subtract_add hI).nodup_iff.mpr ?_⟩
    refine nodup_replace (hI.nodup_iff.mp hnd) (buildWordIndexForFileContent_nodup _ (hw _))
      fun x hx hx' => ?_
    have hxu := buildWordIndexForFileContent_uri hx
    obtain ⟨j, hj, hxj⟩ : ∃ j ∈ s ++ t, x ∈ fileFragment wordsOf vfs root j :=
      List.mem_flatMap.mp (by rwa [List.flatMap_append])
    obtain ⟨q, hq, hqu⟩ := mem_fileFragment hxj
    rw [hxu] at hqu
    have hqp : pathEq q p = true :=
      pathEq_trans (pathEq_of_fromFilePath hqu hu) (by rw [pathEq_comm]; exact heq)
    obtain rfl := Vfs.eq_of_pathEq_interner hq hp hqp
    exact hid hj
  · simp only [I', hunder, Bool.false_eq_true, if_false] at hI ⊢
    exact ⟨hI, hnd⟩

/-! ## One edit -/

namespace LanguageServerState

/-- What `on_did_change_text_document` can do: fail, with the documents and the
indexes as they were, or set the document's new text and update the index of
every root above it. -/
theorem onDidChangeTextDocument_cases (env : Env) (uri : Url)
    (changes : List TextDocumentContentChangeEvent) (st : LanguageServerState) :
    (∃ e st', onDidChangeTextDocument env uri changes st = .error e st' ∧ st'.vfs = st.vfs ∧
      st'.wordIndexMap = st.wordIndexMap) ∨
    ∃ path id text s, absPath uri = .ok path ∧ st.vfs.lookup path = some id ∧
      st.vfs.data id = some (.text text) ∧
      onDidChangeTextDocument env uri changes st = .ok ()
        { st with
          sender := s
          vfs := st.vfs.setFileContents path (some (.text (env.applyDocumentChanges text changes)))
          wordIndexMap := updateWordIndexOnChange st.wordIndexMap uri
            (buildWordIndexForFileContent env.wordsOf text uri)
            (buildWordIndexForFileContent env.wordsOf (env.applyDocumentChanges text changes) uri) } := by
  unfold onDidChangeTextDocument
  cases hp : absPath uri with
  | error e => exact .inl ⟨.other e, st, by simp only [liftExcept, throw_bind_apply], rfl, rfl⟩
  | ok path =>
    obtain ⟨s, hlog⟩ := logMessage_spec s!"on did_change file: {debugAbsPath path}" st
    simp only [liftExcept, pure_bind, bind_of_ok hlog, get_bind_apply]
    cases hid : st.vfs.fileId path with
    | none =>
      exact .inl ⟨.other "Already checked that the file_id exists!", { st with sender := s },
        by simp only [hid]; rfl, rfl, rfl⟩
    | some id =>
      obtain ⟨hl, hs⟩ := Vfs.lookup_of_fileId hid
      cases hd : st.vfs.data id with
      | none => simp [hd] at hs
      | some c =>
        cases c with
        | binary b =>
          exact .inl ⟨.other "invalid utf-8 sequence", { st with sender := s },
            by simp only [hid, Vfs.fileContents, hd, fileText, throw_bind_apply], rfl, rfl⟩
        | text text =>
          exact .inr ⟨path, id, text, s, rfl, hl, hd,
            by simp only [hid, Vfs.fileContents, hd, fileText, pure_bind, modify_bind_apply,
              modify_apply]⟩

/-- After an edit of a document named by its file URL, every root's index is
still the one built from scratch over the VFS. -/
theorem indexesMatch_of_change {env : Env} {uri : Url} {path : VfsPath} {id : FileId}
    {text : String} {st : LanguageServerState} (hp : absPath uri = .ok path)
    (hc : canonicalUri uri = true) (hl : st.vfs.lookup path = some id)
    (ht : st.vfs.data id = some (.text text)) (hm : IndexesMatch env st) (newText : String)
    (s : Sender) :
    IndexesMatch env
      { st with
        sender := s
        vfs := st.vfs.setFileContents path (some (.text newText))
        wordIndexMap := updateWordIndexOnChange st.wordIndexMap uri
          (buildWordIndexForFileContent env.wordsOf text uri)
          (buildWordIndexForFileContent env.wordsOf newText uri) } := by
  have hu : Url.fromFilePath path = some uri := by simpa [canonicalUri, hp] using hc
  intro e he
  simp only [updateWordIndexOnChange, WordIndexMap.update_entries, List.mem_map] at he
  obtain ⟨e₀, he₀, rfl⟩ := he
  exact scratchIndex_setFileContents env.wordsOf_nodup hl ht hu newText e₀.1 (hm e₀ he₀).1
    (hm e₀ he₀).2

/-- The update keeps the roots in order and leaves the index of every root that is
not above the document as it was. -/
theorem updateWordIndexOnChange_entries (m : WordIndexMap) (uri : Url) (old new : WordIndex) :
    List.Forall₂ (fun e e' => e'.1 = e.1 ∧
        (pathStartsWith (utf8Bytes uri.path) (utf8Bytes e.1.path) = false → e'.2 = e.2))
      m.entries (updateWordIndexOnChange m uri old new).entries := by
  simp only [updateWordIndexOnChange, WordIndexMap.update_entries, List.forall₂_map_right_iff,
    List.forall₂_same]
  intro e _
  exact ⟨trivial, fun h => by simp [h]⟩

/-- The update keeps the roots in order, and in every root's index the entries
under every URI but the one the client sent. -/
theorem updateWordIndexOnChange_others (m : WordIndexMap) (uri : Url)
    (wordsOf : String → List (String × Range)) (oldText newText : String) :
    List.Forall₂ (fun e e' => e'.1 = e.1 ∧
        (e'.2.filter (·.2.uri ≠ uri)).Perm (e.2.filter (·.2.uri ≠ uri)))
      m.entries (updateWordIndexOnChange m uri (buildWordIndexForFileContent wordsOf oldText uri)
        (buildWordIndexForFileContent wordsOf newText uri)).entries := by
  simp only [updateWordIndexOnChange, WordIndexMap.update_entries, List.forall₂_map_right_iff,
    List.forall₂_same]
  intro e _
  refine ⟨trivial, ?_⟩
  split
  · exact filter_subtract_add (fun _ h => buildWordIndexForFileContent_uri h)
      (fun _ h => buildWordIndexForFileContent_uri h)
  · exact .refl _

/-! ## Edits over a run -/

/-- The loop handling a `didChange` of a document named by its file URL keeps every
index matching, whether the handler succeeds or fails. -/
theorem indexesMatch_dispatchEvent {env : Env} {uri : Url}
    {changes : List TextDocumentContentChangeEvent} (hc : canonicalUri uri = true) :
    Keeps (.invariant (IndexesMatch env))
      (dispatchEvent env (.lsp (.notification (.didChangeTextDocument uri changes)))) := by
  intro st hm
  obtain ⟨s, hlog⟩ := logMessage_spec
    s!"on notification {(Notification.didChangeTextDocument uri changes).method}" st
  have hm₁ : IndexesMatch env { st with sender := s } := hm
  have hrun : dispatchEvent env (.lsp (.notification (.didChangeTextDocument uri changes))) st =
      (logMessage _ >>= fun _ => dispatchNotification (onDidChangeTextDocument env uri changes))
        st := rfl
  rw [hrun, bind_of_ok hlog]
  rcases onDidChangeTextDocument_cases env uri changes { st with sender := s } with
    ⟨e, st', h, hv, hw⟩ | ⟨path, id, text, s', hp, hl, ht, h⟩
  · obtain ⟨s'', hs⟩ := finalState_dispatchNotification
      (onDidChangeTextDocument env uri changes) { st with sender := s }
    rw [hs, h]
    show IndexesMatch env { st' with sender := s'' }
    exact hm₁.congr (by rw [hv]) (by rw [hv]) hw
  · unfold dispatchNotification
    rw [h]
    exact indexesMatch_of_change hp hc hl ht hm₁ _ _

/-- Recompilation changes neither the documents nor the indexes. -/
theorem indexesMatch_handleChanges (env : Env) :
    Keeps (.invariant (IndexesMatch env)) (handleChanges env) := by
  intro st hm
  obtain ⟨st', h, hv, -, hw⟩ := handleChanges_spec env st
  rw [h]
  show IndexesMatch env st'
  exact hm.congr (by rw [hv]) (by rw [hv]) hw

/-- Over a run of `didChange`s of documents named by their file URLs, the indexes
keep matching the ones built from scratch. -/
theorem indexesMatch_run {env : Env} {events : List Event}
    (he : ∀ ev ∈ events, ∃ uri changes,
      ev = .lsp (.notification (.didChangeTextDocument uri changes)) ∧ canonicalUri uri = true) :
    Keeps (.invariant (IndexesMatch env)) (run env events) :=
  keeps_run fun ev hev => by
    obtain ⟨uri, changes, rfl, hc⟩ := he ev hev
    exact .bind (indexesMatch_dispatchEvent hc) fun _ => indexesMatch_handleChanges env

end LanguageServerState

/-- Each root's index stays, edit after edit, the one built from scratch over the
documents, when the client names each document by its file URL: an edit that
succeeds sets the document's new text and updates the index of the roots above it
to the rebuild over the new contents, with no triple twice, and leaves every other
root's index alone; an edit that fails leaves the documents and the indexes as they
were; and over any run of such edits the indexes keep matching. -/
theorem indexes_match_after_changes (env : Env) :
    (∀ uri changes st st', canonicalUri uri = true → IndexesMatch env st →
      LanguageServerState.onDidChangeTextDocument env uri changes st = .ok () st' →
      IndexesMatch env st' ∧
      (∃ path text, absPath uri = .ok path ∧ st.vfs.readText path = some text ∧
        st'.vfs = st.vfs.setFileContents path (some (.text (env.applyDocumentChanges text changes)))) ∧
      List.Forall₂ (fun e e' => e'.1 = e.1 ∧
          (pathStartsWith (utf8Bytes uri.path) (utf8Bytes e.1.path) = false → e'.2 = e.2))
        st.wordIndexMap.entries st'.wordIndexMap.entries) ∧
    (∀ uri changes st e st',
      LanguageServerState.onDidChangeTextDocument env uri changes st = .error e st' →
      st'.vfs = st.vfs ∧ st'.wordIndexMap = st.wordIndexMap) ∧
    ∀ events st, (∀ ev ∈ events, ∃ uri changes,
        ev = .lsp (.notification (.didChangeTextDocument uri changes)) ∧ canonicalUri uri = true) →
      IndexesMatch env st → IndexesMatch env (finalState (run env events st)) := by
  refine ⟨fun uri changes st st' hc hm h => ?_, fun uri changes st e st' h => ?_,
    fun _ st he hm => LanguageServerState.indexesMatch_run he st hm⟩
  · rcases LanguageServerState.onDidChangeTextDocument_cases env uri changes st with
      ⟨_, _, h', -⟩ | ⟨path, id, text, s, hp, hl, ht, h'⟩
    · cases h'.symm.trans h
    · cases h'.symm.trans h
      have hread : st.vfs.readText path = some text := by
        simp [Vfs.readText, Vfs.fileId, hl, ht, Option.filter]
      exact ⟨LanguageServerState.indexesMatch_of_change hp hc hl ht hm _ _,
        ⟨path, text, hp, hread, rfl⟩, LanguageServerState.updateWordIndexOnChange_entries _ _ _ _⟩
  · rcases LanguageServerState.onDidChangeTextDocument_cases env uri changes st with
      ⟨_, _, h', hv, hw⟩ | ⟨_, _, _, _, -, -, -, h'⟩
    · cases h'.symm.trans h
      exact ⟨hv, hw⟩
    · cases h'.symm.trans h

/-- `on_did_change_text_document` finds the document by the path its URI decodes to,
but takes the old words out of each root's index, and puts the new ones in, under
the URI as the client sent it. When it succeeds, the VFS holds the document's new
text, and every root's index keeps its entries under every other URI: under a URI
that is not the file URL of its path, none of the document's indexed words go. -/
theorem didChange_updates_index_under_sent_uri (env : Env) (uri : Url)
    (changes : List TextDocumentContentChangeEvent) (st st' : LanguageServerState)
    (h : LanguageServerState.onDidChangeTextDocument env uri changes st = .ok () st') :
    ∃ path text, absPath uri = .ok path ∧ st.vfs.readText path = some text ∧
      st'.vfs = st.vfs.setFileContents path (some (.text (env.applyDocumentChanges text changes))) ∧
      List.Forall₂ (fun e e' => e'.1 = e.1 ∧
          (e'.2.filter (·.2.uri ≠ uri)).Perm (e.2.filter (·.2.uri ≠ uri)))
        st.wordIndexMap.entries st'.wordIndexMap.entries := by
  rcases LanguageServerState.onDidChangeTextDocument_cases env uri changes st with
    ⟨_, _, h', -⟩ | ⟨path, id, text, s, hp, hl, ht, h'⟩
  · cases h'.symm.trans h
  · cases h'.symm.trans h
    have hread : st.vfs.readText path = some text := by
      simp [Vfs.readText, Vfs.fileId, hl, ht, Option.filter]
    exact ⟨path, text, hp, hread, rfl,
      LanguageServerState.updateWordIndexOnChange_others _ _ _ _ _⟩

/-- A tokenizer that reads a whole text as one word. -/
def oneWordEnv : Env :=
  { Env.empty with
    wordsOf := fun text => [(text, ⟨⟨0, 0⟩, ⟨0, 1⟩⟩)]
    wordsOf_nodup := fun _ => List.nodup_singleton _ }

open LanguageServerState in
/-- `/w/a.k` open with the text `a`, and the index of the root `/w` built from it. -/
def indexedState : LanguageServerState :=
  { finalState (onDidOpenTextDocument ⟨"file", "", "/w/a.k"⟩ "a" (LanguageServerState.new ⟨[], none⟩)) with
    wordIndexMap := ⟨[(⟨"file", "", "/w"⟩, [("a", ⟨⟨"file", "", "/w/a.k"⟩, ⟨⟨0, 0⟩, ⟨0, 1⟩⟩⟩)])],
      by decide⟩ }

open LanguageServerState in
/-- A `didChange` of `/w/a.k` spelled `file:///w/%61.k`, which changes nothing.
The URI names the same file but none of its indexed words: the old word stays
under `file:///w/a.k`, a copy comes in under the new spelling, and the index no
longer matches the one built from scratch. -/
theorem encoded_uri_keeps_old_words :
    canonicalUri ⟨"file", "", "/w/%61.k"⟩ = false ∧ IndexesMatch oneWordEnv indexedState ∧
    ∃ st', onDidChangeTextDocument oneWordEnv ⟨"file", "", "/w/%61.k"⟩ [] indexedState = .ok () st' ∧
      List.Forall₂ (fun e e' => e'.1 = e.1 ∧
          (e'.2.filter (·.2.uri ≠ ⟨"file", "", "/w/%61.k"⟩)).Perm
            (e.2.filter (·.2.uri ≠ ⟨"file", "", "/w/%61.k"⟩)))
        indexedState.wordIndexMap.entries st'.wordIndexMap.entries ∧
      st'.wordIndexMap.entries = [(⟨"file", "", "/w"⟩,
        [("a", ⟨⟨"file", "", "/w/a.k"⟩, ⟨⟨0, 0⟩, ⟨0, 1⟩⟩⟩),
         ("a", ⟨⟨"file", "", "/w/%61.k"⟩, ⟨⟨0, 0⟩, ⟨0, 1⟩⟩⟩)])] ∧
      ¬ IndexesMatch oneWordEnv st' := by
  have h : onDidChangeTextDocument oneWordEnv ⟨"file", "", "/w/%61.k"⟩ [] indexedState =
      .ok () (finalState (onDidChangeTextDocument oneWordEnv ⟨"file", "", "/w/%61.k"⟩ []
        indexedState)) := rfl
  obtain ⟨-, -, -, -, -, hothers⟩ := didChange_updates_index_under_sent_uri oneWordEnv _ [] _ _ h
  exact ⟨by decide, by decide, _, h, hothers, by decide, by decide⟩

end KCLLanguageServer
