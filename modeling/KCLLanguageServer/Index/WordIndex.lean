import KCLLanguageServer.Protocol.Types
import Mathlib.Data.List.Perm.Basic
import Mathlib.Data.List.Nodup

/-! # Word indexes

A word index maps identifier text to the locations where it occurs. It is kept
as the list of its (word, location) entries in insertion order, so that the
locations of one word are in the order a `Vec` would hold them and two indexes
are equal as multisets of (word, URI, range) triples when their lists are
permutations of each other.

The update helpers of `util` are not in the sources; they are modelled from
the spec's description of the index (a multiset of triples updated by difference
and union, files removed by URI, URIs rewritten in place).
-/
namespace KCLLanguageServer

abbrev WordIndex := List (String × Location)

namespace WordIndex

/-- `word_index.get(name)`: the locations of one word, in order. -/
def get (idx : WordIndex) (name : String) : Option (List Location) :=
  let locs := (idx.filter (·.1 == name)).map (·.2)
  if locs = [] then none else some locs

end WordIndex

/-- Modelled from the spec: `util::build_word_index_for_file_content` is not in
the sources. It records a (text, file-URI, range) triple for every identifier
occurrence that the tokenizer `wordsOf` finds in the content. -/
def buildWordIndexForFileContent (wordsOf : String → List (String × Range))
    (content : String) (url : Url) : WordIndex :=
  (wordsOf content).map fun w => (w.1, ⟨url, w.2⟩)

/-- Modelled from the spec: `util::word_index_add` is not in the sources; the
new entries are added to the index (multiset union). -/
def wordIndexAdd (fromIdx add : WordIndex) : WordIndex := fromIdx ++ add

/-- Modelled from the spec: `util::word_index_subtract` is not in the sources;
the entries are taken out of the index (multiset difference). -/
def wordIndexSubtract (fromIdx remove : WordIndex) : WordIndex := fromIdx.diff remove

/-- Modelled from the spec: `util::word_index_file_remove` is not in the
sources; every entry whose location is in the file goes. -/
def wordIndexFileRemove (idx : WordIndex) (url : Url) : WordIndex :=
  idx.filter fun e => e.2.uri ≠ url

/-- Modelled from the spec: `util::word_index_url_update` is not in the
sources; every location in the old file is rewritten to the new URI, its range kept. -/
def wordIndexUrlUpdate (idx : WordIndex) (old new : Url) : WordIndex :=
  idx.map fun e => if e.2.uri = old then (e.1, { e.2 with uri := new }) else e

@[simp] theorem buildWordIndexForFileContent_uri {wordsOf : String → List (String × Range)}
    {content : String} {url : Url} {e : String × Location}
    (h : e ∈ buildWordIndexForFileContent wordsOf content url) : e.2.uri = url := by
  obtain ⟨w, -, rfl⟩ := List.mem_map.mp h
  rfl

theorem buildWordIndexForFileContent_nodup {wordsOf : String → List (String × Range)}
    {content : String} (url : Url) (h : (wordsOf content).Nodup) :
    (buildWordIndexForFileContent wordsOf content url).Nodup := by
  refine List.Nodup.map (fun ⟨w, r⟩ ⟨w', r'⟩ he => ?_) h
  simp only [Prod.mk.injEq, Location.mk.injEq, true_and] at he
  rw [he.1, he.2]

end KCLLanguageServer
