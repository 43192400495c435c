import KCLLanguageServer.Protocol.Url

/-! # File URLs read back

`Url::to_file_path` reads back what `Url::from_file_path` wrote, up to the
normalisation `Path::components` makes: repeated separators and `.` go
(`toFilePath_fromFilePath`). Two absolute paths therefore get the same file URL
exactly when they are equal as `Path`s (`fromFilePath_eq_iff`), so the URL of a
file the VFS interns names that file alone.
-/
namespace KCLLanguageServer

/-! ## Percent-encoding, byte by byte -/

/-- The bytes a percent-encoded segment is written with. -/
def encodeSegment (bytes : List UInt8) : List UInt8 :=
  (percentEncode bytes).flatMap String.utf8EncodeChar

theorem toNat_toUInt8 (b : UInt8) : b.toNat.toUInt8 = b :=
  UInt8.toNat.inj (UInt8.toNat_ofNat_of_lt b.toNat_lt_size)

/-- The sixteen digits are ASCII, read back as their value, and none is `/`. -/
theorem hexDigit_spec {n : Nat} (hn : n < 16) :
    String.utf8EncodeChar (hexDigit n) = [(hexDigit n).toNat.toUInt8] ∧
      hexValue (hexDigit n).toNat.toUInt8 = some n ∧ (hexDigit n).toNat.toUInt8 ≠ 47 := by
  rcases n with _ | _ | _ | _ | _ | _ | _ | _ | _ | _ | _ | _ | _ | _ | _ | _ | n
  all_goals first | decide | omega

/-- An ASCII character is encoded as its one byte. -/
theorem utf8EncodeChar_ofNat_ascii {n : Nat} (h : n < 128) :
    String.utf8EncodeChar (Char.ofNat n) = [n.toUInt8] := by
  have hv : Nat.isValidChar n := Or.inl (by omega)
  simp only [String.utf8EncodeChar, Char.ofNat, hv, dite_true, Char.ofNatAux]
  rw [if_pos (by rw [UInt32.le_def, BitVec.le_def]; simp; omega)]
  rfl

/-- A byte written as itself is ASCII, and it is neither `%` nor `/`. -/
theorem plainByte_spec {b : UInt8} (hs : specialPathSegment b = false) :
    String.utf8EncodeChar (Char.ofNat b.toNat) = [b] ∧ b ≠ 37 ∧ b ≠ 47 := by
  simp [specialPathSegment] at hs
  obtain ⟨⟨-, hlt⟩, -, -, -, -, -, -, -, -, -, h47, h37, -⟩ := hs
  have : b.toNat < 127 := hlt
  rw [utf8EncodeChar_ofNat_ascii (by omega), toNat_toUInt8]
  exact ⟨rfl, h37, h47⟩

theorem percentDecode_cons_of_ne {b : UInt8} (hb : b ≠ 37) (rest : List UInt8) :
    percentDecode (b :: rest) = b :: percentDecode rest := by
  match rest with
  | [] => rfl
  | [_] => rfl
  | _ :: _ :: _ => simp [percentDecode, hb]

theorem percentDecode_escape {h l : UInt8} {x y : Nat} (hh : hexValue h = some x)
    (hl : hexValue l = some y) (rest : List UInt8) :
    percentDecode (37 :: h :: l :: rest) = (16 * x + y).toUInt8 :: percentDecode rest := by
  simp [percentDecode, hh, hl]

/-- One encoded byte holds no `/` and decodes back to the byte. -/
theorem encodeByte_spec (b : UInt8) :
    47 ∉ (percentEncodeByte b).flatMap String.utf8EncodeChar ∧ ∀ rest,
      percentDecode ((percentEncodeByte b).flatMap String.utf8EncodeChar ++ rest) =
        b :: percentDecode rest := by
  cases hs : specialPathSegment b
  case true =>
    have hlt : b.toNat < 256 := b.toNat_lt_size
    obtain ⟨hd₁, hv₁, hn₁⟩ := hexDigit_spec (show b.toNat / 16 < 16 by omega)
    obtain ⟨hd₂, hv₂, hn₂⟩ := hexDigit_spec (Nat.mod_lt b.toNat (by decide))
    have hb : (16 * (b.toNat / 16) + b.toNat % 16).toUInt8 = b := by
      rw [Nat.div_add_mod, toNat_toUInt8]
    simp only [percentEncodeByte, hs, if_true, List.flatMap_cons, List.flatMap_nil, hd₁, hd₂,
      List.append_nil]
    refine ⟨?_, fun rest => ?_⟩
    · simp only [List.mem_append, List.mem_singleton, not_or]
      exact ⟨by decide, hn₁.symm, hn₂.symm⟩
    · simpa [hb] using percentDecode_escape hv₁ hv₂ rest
  case false =>
    obtain ⟨hc, h37, h47⟩ := plainByte_spec hs
    simp only [percentEncodeByte, hs, Bool.false_eq_true, if_false, List.flatMap_cons,
      List.flatMap_nil, hc, List.append_nil, List.mem_singleton, List.singleton_append]
    exact ⟨fun h => h47 h.symm, percentDecode_cons_of_ne h37⟩

theorem encodeSegment_cons (b : UInt8) (bytes : List UInt8) :
    encodeSegment (b :: bytes) =
      (percentEncodeByte b).flatMap String.utf8EncodeChar ++ encodeSegment bytes := by
  simp [encodeSegment, percentEncode, List.flatMap_append]

/-- An encoded segment holds no `/`, and decoding gives the segment back. -/
theorem encodeSegment_spec (bytes : List UInt8) :
    47 ∉ encodeSegment bytes ∧
      ∀ rest, percentDecode (encodeSegment bytes ++ rest) = bytes ++ percentDecode rest := by
  induction bytes with
  | nil => exact ⟨by simp [encodeSegment, percentEncode], fun _ => rfl⟩
  | cons b bytes ih =>
    obtain ⟨hb₁, hb₂⟩ := encodeByte_spec b
    rw [encodeSegment_cons]
    refine ⟨by simp only [List.mem_append, not_or]; exact ⟨hb₁, ih.1⟩, fun rest => ?_⟩
    rw [List.append_assoc, hb₂, ih.2, List.cons_append]

theorem percentDecode_encodeSegment (bytes : List UInt8) :
    percentDecode (encodeSegment bytes) = bytes := by
  simpa [percentDecode] using (encodeSegment_spec bytes).2 []

/-! ## Splitting at separators -/

theorem splitSlash_slash (r : List UInt8) : splitSlash (47 :: r) = [] :: splitSlash r := by
  have h := splitSlash_ne_nil r
  simp only [splitSlash]
  split
  · contradiction
  · simp_all

theorem splitSlash_append_of_not_mem {s : List UInt8} (hs : 47 ∉ s) (r : List UInt8) :
    splitSlash (s ++ r) = (s ++ (splitSlash r).headD []) :: (splitSlash r).tail := by
  induction s with
  | nil =>
    cases h : splitSlash r with
    | nil => exact absurd h (splitSlash_ne_nil r)
    | cons seg segs => rw [List.nil_append, h]; rfl
  | cons b s ih =>
    have hb : b ≠ 47 := fun h => hs (h ▸ List.mem_cons_self _ _)
    rw [List.cons_append, splitSlash, ih fun h => hs (List.mem_cons_of_mem _ h)]
    simp [hb]

/-- Segments without `/`, each behind a `/`, split back into the segments. -/
theorem splitSlash_join {s : List UInt8} {segs : List (List UInt8)}
    (h : ∀ x ∈ s :: segs, 47 ∉ x) : splitSlash ((s :: segs).flatMap (47 :: ·)) = [] :: s :: segs := by
  induction segs generalizing s with
  | nil =>
    have hs : splitSlash s = [s] := by
      simpa [splitSlash] using splitSlash_append_of_not_mem (h s (List.mem_singleton_self _)) []
    simp only [List.flatMap_cons, List.flatMap_nil, List.append_nil, splitSlash_slash, hs]
  | cons s' segs ih =>
    have hrest := ih fun x hx => h x (List.mem_cons_of_mem _ hx)
    rw [List.flatMap_cons, List.cons_append, splitSlash_slash,
      splitSlash_append_of_not_mem (h s (List.mem_cons_self _ _)), hrest]
    simp

theorem not_mem_of_mem_splitSlash {p seg : List UInt8} (h : seg ∈ splitSlash p) : 47 ∉ seg := by
  induction p generalizing seg with
  | nil => simp_all [splitSlash]
  | cons b rest ih =>
    obtain ⟨first, segs, hsplit⟩ := List.exists_cons_of_ne_nil (splitSlash_ne_nil rest)
    have hall : ∀ x ∈ first :: segs, 47 ∉ x := fun x hx => ih (hsplit ▸ hx)
    simp only [splitSlash, hsplit] at h
    split at h
    · rcases List.mem_cons.mp h with rfl | h
      · simp
      · exact hall seg h
    · rename_i hb
      rcases List.mem_cons.mp h with rfl | h
      · simp only [List.mem_cons, not_or]
        exact ⟨Ne.symm hb, hall first (List.mem_cons_self _ _)⟩
      · exact hall seg (List.mem_cons_of_mem _ h)

/-! ## Components -/

theorem ofSegment_bytes {seg : List UInt8} {c : Component} (h : Component.ofSegment seg = some c) :
    c.bytes = seg := by
  unfold Component.ofSegment at h
  split at h
  · cases h
  · split at h
    · cases h
      subst_vars
      rfl
    · cases h
      rfl

/-- The components after the root of an absolute path: one per segment that names
something. -/
theorem components_drop_one {p : List UInt8} (h : isAbsolute p = true) :
    (components p).drop 1 = (splitSlash p).tail.filterMap Component.ofSegment := by
  have hp : p.head? = some 47 := by simpa [isAbsolute] using h
  unfold components
  split
  · rename_i hs
    exact absurd hs (splitSlash_ne_nil p)
  · rename_i hs
    simp [hs, hp]

/-- Every component after the root names its own segment, which has no `/`. -/
theorem mem_components_drop_one {p : List UInt8} (h : isAbsolute p = true) {c : Component}
    (hc : c ∈ (components p).drop 1) : Component.ofSegment c.bytes = some c ∧ 47 ∉ c.bytes := by
  rw [components_drop_one h] at hc
  obtain ⟨seg, hseg, hc⟩ := List.mem_filterMap.mp hc
  rw [ofSegment_bytes hc]
  exact ⟨hc, not_mem_of_mem_splitSlash (List.mem_of_mem_tail hseg)⟩

/-- Components that each name their own bytes read back from those bytes. -/
theorem filterMap_ofSegment_bytes {cs : List Component}
    (h : ∀ c ∈ cs, Component.ofSegment c.bytes = some c) :
    (cs.map (·.bytes)).filterMap Component.ofSegment = cs := by
  induction cs with
  | nil => rfl
  | cons c cs ih =>
    simp only [List.map_cons, List.filterMap_cons, h c (List.mem_cons_self _ _),
      ih fun d hd => h d (List.mem_cons_of_mem _ hd)]

theorem components_eq_rootDir_cons {p : List UInt8} (h : isAbsolute p = true) :
    components p = .rootDir :: (components p).drop 1 := by
  obtain ⟨rest, hr⟩ := components_of_isAbsolute h
  rw [hr]
  rfl

/-- Whether a path is absolute is read off its components. -/
theorem isAbsolute_eq_decide (p : List UInt8) :
    isAbsolute p = decide (Component.rootDir ∈ components p) := by
  cases h : isAbsolute p
  · exact (decide_eq_false (rootDir_not_mem_components h)).symm
  · rw [components_eq_rootDir_cons h]
    simp

/-! ## The round trip -/

/-- The path a file URL reads back as: `/`, then each component after the root
behind a `/`. -/
def normalPath (p : List UInt8) : List UInt8 :=
  if (components p).drop 1 = [] then [47] else ((components p).drop 1).flatMap (47 :: ·.bytes)

theorem utf8Bytes_mk (cs : List Char) : utf8Bytes (String.mk cs) = cs.flatMap String.utf8EncodeChar :=
  rfl

/-- The bytes of the path of a file URL with at least one segment. -/
theorem utf8Bytes_segments (segs : List Component) :
    utf8Bytes (String.mk (segs.flatMap fun c => '/' :: percentEncode c.bytes)) =
      (segs.map (encodeSegment ·.bytes)).flatMap (47 :: ·) := by
  rw [utf8Bytes_mk]
  induction segs with
  | nil => rfl
  | cons c segs ih =>
    simp only [List.flatMap_cons, List.flatMap_append, List.map_cons, ih]
    rfl

theorem toFilePath_of_segments {segs : List Component} (hne : segs ≠ [])
    (hsegs : ∀ c ∈ segs, 47 ∉ c.bytes) :
    Url.toFilePath ⟨"file", "", String.mk (segs.flatMap fun c => '/' :: percentEncode c.bytes)⟩ =
      some (segs.flatMap (47 :: ·.bytes)) := by
  obtain ⟨c, cs, rfl⟩ := List.exists_cons_of_ne_nil hne
  have hnot : ∀ x ∈ (c :: cs).map (encodeSegment ·.bytes), 47 ∉ x := by
    simp only [List.mem_map]
    rintro _ ⟨d, -, rfl⟩
    exact (encodeSegment_spec d.bytes).1
  simp only [Url.toFilePath, utf8Bytes_segments, List.map_cons, splitSlash_join hnot]
  simp [List.flatMap_map, percentDecode_encodeSegment]

/-- `to_file_path` reads back the normal form of the path `from_file_path` wrote. -/
theorem toFilePath_fromFilePath {p : List UInt8} {u : Url} (h : Url.fromFilePath p = some u) :
    u.toFilePath = some (normalPath p) := by
  unfold Url.fromFilePath at h
  split at h
  · rename_i habs
    cases h
    unfold normalPath
    split
    · rfl
    · rename_i hne
      exact toFilePath_of_segments hne fun c hc => (mem_components_drop_one habs hc).2
  · cases h

/-- The normal form of an absolute path is the same `Path`. -/
theorem components_normalPath {p : List UInt8} (h : isAbsolute p = true) :
    components (normalPath p) = components p := by
  rw [components_eq_rootDir_cons h]
  unfold normalPath
  split
  · rename_i hnil
    rw [hnil]
    rfl
  · rename_i hne
    obtain ⟨c, cs, hcs⟩ := List.exists_cons_of_ne_nil hne
    have hmem : ∀ d ∈ c :: cs, Component.ofSegment d.bytes = some d ∧ 47 ∉ d.bytes :=
      fun d hd => mem_components_drop_one h (hcs ▸ hd)
    have hjoin : (c :: cs).flatMap (47 :: ·.bytes) = ((c :: cs).map (·.bytes)).flatMap (47 :: ·) := by
      simp [List.flatMap_map]
    have hsplit : splitSlash ((c.bytes :: cs.map (·.bytes)).flatMap (47 :: ·)) =
        [] :: c.bytes :: cs.map (·.bytes) := splitSlash_join (by
      simp only [List.mem_cons, List.mem_map]
      rintro _ (rfl | ⟨d, hd, rfl⟩)
      · exact (hmem c (List.mem_cons_self _ _)).2
      · exact (hmem d (List.mem_cons_of_mem _ hd)).2)
    rw [hcs, hjoin, List.map_cons]
    unfold components
    rw [hsplit]
    simp only [List.flatMap_cons, List.cons_append, List.head?_cons, if_true, List.singleton_append,
      List.cons.injEq, true_and]
    rw [← List.map_cons]
    exact filterMap_ofSegment_bytes fun d hd => (hmem d hd).1

theorem isAbsolute_of_fromFilePath {p : List UInt8} {u : Url} (h : Url.fromFilePath p = some u) :
    isAbsolute p = true := by
  unfold Url.fromFilePath at h
  split at h
  · assumption
  · cases h

/-- Two paths with the same file URL are the same `Path`. -/
theorem pathEq_of_fromFilePath {p q : List UInt8} {u : Url} (hp : Url.fromFilePath p = some u)
    (hq : Url.fromFilePath q = some u) : pathEq p q = true := by
  have hn : normalPath p = normalPath q :=
    Option.some.inj ((toFilePath_fromFilePath hp).symm.trans (toFilePath_fromFilePath hq))
  rw [pathEq, ← components_normalPath (isAbsolute_of_fromFilePath hp),
    ← components_normalPath (isAbsolute_of_fromFilePath hq), hn, beq_self_eq_true]

/-- Equal `Path`s get the same file URL. -/
theorem fromFilePath_of_pathEq {p q : List UInt8} (h : pathEq p q = true) :
    Url.fromFilePath p = Url.fromFilePath q := by
  have hc : components p = components q := by simpa [pathEq] using h
  have ha : isAbsolute p = isAbsolute q := by rw [isAbsolute_eq_decide, isAbsolute_eq_decide, hc]
  simp only [Url.fromFilePath, ha, hc]

/-- An absolute path's file URL is the URL of exactly the paths equal to it. -/
theorem fromFilePath_eq_iff {p q : List UInt8} {u : Url} (hp : Url.fromFilePath p = some u) :
    Url.fromFilePath q = some u ↔ pathEq p q = true :=
  ⟨pathEq_of_fromFilePath hp, fun h => (fromFilePath_of_pathEq h).symm.trans hp⟩

theorem isSome_fromFilePath (p : List UInt8) : (Url.fromFilePath p).isSome = isAbsolute p := by
  unfold Url.fromFilePath
  split <;> simp_all

/-- A file URL is a faithful code for an absolute path: `Url::from_file_path`
succeeds exactly on absolute paths, `Url::to_file_path` reads its URL back as the
same `Path`, and no other `Path` gets that URL. -/
theorem fileUrl_round_trip (p : List UInt8) :
    (Url.fromFilePath p).isSome = isAbsolute p ∧
    ∀ u, Url.fromFilePath p = some u →
      ∃ q, u.toFilePath = some q ∧ pathEq q p = true ∧
        ∀ r, Url.fromFilePath r = some u ↔ pathEq p r = true := by
  refine ⟨isSome_fromFilePath p, fun u hu => ⟨normalPath p, toFilePath_fromFilePath hu, ?_,
    fun r => fromFilePath_eq_iff hu⟩⟩
  rw [pathEq, components_normalPath (isAbsolute_of_fromFilePath hu), beq_self_eq_true]

end KCLLanguageServer
