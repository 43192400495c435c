import KCLLanguageServer.Protocol.Types

/-! # File paths and file URLs

Unix paths are byte strings, split into components the way `std::path` splits
them, and compared component by component, as `Path` equality does. File URLs are
made and read by the `url` crate's `Url::from_file_path` and `Url::to_file_path`,
which percent-encode each path component byte by byte.
-/
namespace KCLLanguageServer

/-- The bytes of a Rust `&str`. -/
def utf8Bytes (s : String) : List UInt8 := s.data.flatMap String.utf8EncodeChar

/-- One component of a `std::path::Path`. -/
inductive Component where
  | rootDir
  | curDir
  | parentDir
  | normal (name : List UInt8)
deriving DecidableEq, Repr

/-- The pieces of a byte string between `/` separators. -/
def splitSlash : List UInt8 → List (List UInt8)
  | [] => [[]]
  | b :: rest =>
    match splitSlash rest with
    | [] => [[b]]
    | seg :: segs => if b = 47 then [] :: seg :: segs else (b :: seg) :: segs

/-- A piece between separators: empty pieces and `.` vanish, `..` is `ParentDir`. -/
def Component.ofSegment (seg : List UInt8) : Option Component :=
  if seg = [] ∨ seg = [46] then none
  else if seg = [46, 46] then some .parentDir
  else some (.normal seg)

/-- `Path::components` on Unix: a leading `/` is `RootDir`, a leading `.` is
`CurDir`, and repeated separators and interior `.` are dropped. -/
def components (p : List UInt8) : List Component :=
  match splitSlash p with
  | [] => []
  | first :: rest =>
    (if p.head? = some 47 then [.rootDir]
     else if first = [46] then [.curDir]
     else (Component.ofSegment first).toList) ++ rest.filterMap Component.ofSegment

/-- `Path::has_root`, which on Unix is also `Path::is_absolute`. -/
def isAbsolute (p : List UInt8) : Bool := p.head? = some 47

/-- `Path::starts_with`: the components of `base` are a prefix of those of `p`. -/
def pathStartsWith (p base : List UInt8) : Bool := (components base).isPrefixOf (components p)

/-- Two paths are equal as `Path`s when their components are. -/
def pathEq (p q : List UInt8) : Bool := components p == components q

theorem pathEq_iff {p q : List UInt8} : pathEq p q = true ↔ components p = components q := by
  simp [pathEq]

theorem pathEq_comm (p q : List UInt8) : pathEq p q = pathEq q p := by
  simp only [pathEq, Bool.beq_comm]

theorem pathEq_trans {p q r : List UInt8} (h₁ : pathEq p q = true) (h₂ : pathEq q r = true) :
    pathEq p r = true :=
  pathEq_iff.mpr ((pathEq_iff.mp h₁).trans (pathEq_iff.mp h₂))

def hexDigit (n : Nat) : Char := if n < 10 then Char.ofNat (48 + n) else Char.ofNat (55 + n)

/-- The value of an ASCII hex digit byte. -/
def hexValue (b : UInt8) : Option Nat :=
  if 48 ≤ b ∧ b ≤ 57 then some (b.toNat - 48)
  else if 65 ≤ b ∧ b ≤ 70 then some (b.toNat - 55)
  else if 97 ≤ b ∧ b ≤ 102 then some (b.toNat - 87)
  else none

/-- The bytes the `url` crate percent-encodes in a file path segment
(`SPECIAL_PATH_SEGMENT`): controls, non-ASCII bytes, space, `"#<>?` and backtick,
braces, `/`, `%` and backslash. -/
def specialPathSegment (b : UInt8) : Bool :=
  b < 32 || 127 ≤ b || [32, 34, 35, 60, 62, 63, 96, 123, 125, 47, 37, 92].contains b

def percentEncodeByte (b : UInt8) : List Char :=
  if specialPathSegment b then ['%', hexDigit (b.toNat / 16), hexDigit (b.toNat % 16)]
  else [Char.ofNat b.toNat]

def percentEncode (bytes : List UInt8) : List Char := bytes.flatMap percentEncodeByte

/-- `percent_decode`: `%` and two hex digits is one byte; anything else is kept. -/
def percentDecode : List UInt8 → List UInt8
  | [] => []
  | [b] => [b]
  | [b, h] => [b, h]
  | b :: h :: l :: tail =>
    if b = 37 then
      match hexValue h, hexValue l with
      | some x, some y => (16 * x + y).toUInt8 :: percentDecode tail
      | _, _ => b :: percentDecode (h :: l :: tail)
    else b :: percentDecode (h :: l :: tail)

/-- The bytes of a path component as `Component::as_os_str` gives them. -/
def Component.bytes : Component → List UInt8
  | .rootDir => [47]
  | .curDir => [46]
  | .parentDir => [46, 46]
  | .normal name => name

/-- `Url::from_file_path` on Unix: fails on a relative path; otherwise every
component after the root becomes one percent-encoded segment. -/
def Url.fromFilePath (p : List UInt8) : Option Url :=
  if isAbsolute p then
    let segs := (components p).drop 1
    some ⟨"file", "", if segs = [] then "/"
      else String.mk (segs.flatMap fun c => '/' :: percentEncode c.bytes)⟩
  else none

/-- `Url::to_file_path` on Unix: a `file` URL without a host (or with
`localhost`) gives `/` followed by each percent-decoded segment. -/
def Url.toFilePath (u : Url) : Option (List UInt8) :=
  if u.scheme = "file" ∧ (u.host = "" ∨ u.host = "localhost") then
    match splitSlash (utf8Bytes u.path) with
    | [] :: segs => some (segs.flatMap fun seg => 47 :: percentDecode seg)
    | _ => none
  else none

/-- Strict UTF-8 decoding of a byte string (`str::from_utf8`, `OsStr::to_str`). -/
def utf8Decode : List UInt8 → Option (List Char)
  | [] => some []
  | b :: rest =>
    if b < 0x80 then (Char.ofNat b.toNat :: ·) <$> utf8Decode rest
    else match rest with
      | c1 :: rest1 =>
        if 0xC2 ≤ b ∧ b < 0xE0 ∧ c1 &&& 0xC0 = 0x80 then
          (Char.ofNat ((b.toNat - 0xC0) * 64 + (c1.toNat - 0x80)) :: ·) <$> utf8Decode rest1
        else match rest1 with
          | c2 :: rest2 =>
            let v := (b.toNat - 0xE0) * 4096 + (c1.toNat - 0x80) * 64 + (c2.toNat - 0x80)
            if 0xE0 ≤ b ∧ b < 0xF0 ∧ c1 &&& 0xC0 = 0x80 ∧ c2 &&& 0xC0 = 0x80 ∧
                0x800 ≤ v ∧ (v < 0xD800 ∨ 0xE000 ≤ v) then
              (Char.ofNat v :: ·) <$> utf8Decode rest2
            else match rest2 with
              | c3 :: rest3 =>
                let w := (b.toNat - 0xF0) * 262144 + (c1.toNat - 0x80) * 4096 +
                  (c2.toNat - 0x80) * 64 + (c3.toNat - 0x80)
                if 0xF0 ≤ b ∧ b < 0xF5 ∧ c1 &&& 0xC0 = 0x80 ∧ c2 &&& 0xC0 = 0x80 ∧
                    c3 &&& 0xC0 = 0x80 ∧ 0x10000 ≤ w ∧ w < 0x110000 then
                  (Char.ofNat w :: ·) <$> utf8Decode rest3
                else none
              | [] => none
          | [] => none
      | [] => none

/-- `OsStr::to_str` followed by `to_string`. -/
def bytesToString (bytes : List UInt8) : Option String := String.mk <$> utf8Decode bytes

/-! ## Absolute and relative paths -/

theorem utf8Bytes_append (s t : String) : utf8Bytes (s ++ t) = utf8Bytes s ++ utf8Bytes t := by
  simp [utf8Bytes, String.data_append]

/-- A URI string is a relative path: it starts with its scheme, not with `/`. -/
theorem isAbsolute_file (rest : String) : isAbsolute (utf8Bytes ("file:" ++ rest)) = false := by
  rw [utf8Bytes_append]
  rfl

theorem splitSlash_ne_nil (p : List UInt8) : splitSlash p ≠ [] := by
  cases p with
  | nil => simp [splitSlash]
  | cons b rest =>
    simp only [splitSlash]
    split
    · simp
    · split <;> simp

theorem ofSegment_ne_rootDir (seg : List UInt8) : Component.ofSegment seg ≠ some .rootDir := by
  unfold Component.ofSegment
  split
  · simp
  · split <;> simp

/-- Only an absolute path has a root component. -/
theorem rootDir_not_mem_components {p : List UInt8} (h : isAbsolute p = false) :
    Component.rootDir ∉ components p := by
  unfold components
  split
  · simp
  · rename_i first rest _
    have hp : ¬ p.head? = some 47 := by simpa [isAbsolute] using h
    simp only [hp, if_false, List.mem_append, List.mem_filterMap, not_or, not_exists, not_and]
    refine ⟨?_, fun seg _ => ofSegment_ne_rootDir seg⟩
    split
    · simp
    · intro hm
      exact ofSegment_ne_rootDir first (Option.mem_toList.mp hm)

theorem components_of_isAbsolute {p : List UInt8} (h : isAbsolute p = true) :
    ∃ rest, components p = .rootDir :: rest := by
  have hp : p.head? = some 47 := by simpa [isAbsolute] using h
  unfold components
  split
  · exact absurd ‹_› (splitSlash_ne_nil p)
  · simp [hp]

/-- A relative path never starts with an absolute one. -/
theorem pathStartsWith_of_relative {p base : List UInt8} (hp : isAbsolute p = false)
    (hb : isAbsolute base = true) : pathStartsWith p base = false := by
  obtain ⟨rest, hr⟩ := components_of_isAbsolute hb
  have hn := rootDir_not_mem_components hp
  unfold pathStartsWith
  rw [hr]
  cases hc : components p with
  | nil => rfl
  | cons c cs =>
    have hne : Component.rootDir ≠ c := fun h => hn (by rw [hc, h]; exact List.mem_cons_self _ _)
    simp [List.isPrefixOf, hne]

theorem fromFilePath_of_relative {p : List UInt8} (h : isAbsolute p = false) :
    Url.fromFilePath p = none := by
  simp [Url.fromFilePath, h]

end KCLLanguageServer
