/-
# The index container: metadata, sections and their encoding

A container is a fixed 72-byte header followed by framed sections. Metadata,
sections and whole files can only be built through their validating
constructors, so each carries the proof of what its constructor checked; encoding
one of them can then no longer fail.

A 64-bit float is kept as its bit pattern, which is all the format stores and
compares. Lengths and offsets are natural numbers under the checked 64-bit
arithmetic of the code.
-/

import Pari.Data.Checksum
import Pari.Data.Result

namespace Pari.Format

open Data

/-! ## Identifiers -/

/-- Algorithm identifier stored in an index header. -/
inductive Algorithm
  | minHashLsh
  deriving DecidableEq, Repr

/-- Signature scheme identifier stored independently from the index algorithm. -/
inductive SignatureScheme
  | pariAffine32V1
  | pariAffine64V1
  deriving DecidableEq, Repr

/-- Known top-level section types in an index container. -/
inductive SectionKind
  | keys
  | bandHashes
  | buckets
  | tombstones
  deriving DecidableEq, Repr

/-- Stable identifier for a key codec in persisted metadata. -/
inductive CodecId
  | bytes
  | utf8
  | u64
  | i64
  | json
  deriving DecidableEq, Repr

def Algorithm.asRaw : Algorithm → UInt16
  | .minHashLsh => 1

def Algorithm.fromRaw (value : UInt16) : Option Algorithm :=
  if value = 1 then some .minHashLsh else none

def SignatureScheme.asRaw : SignatureScheme → UInt16
  | .pariAffine32V1 => 1
  | .pariAffine64V1 => 2

def SignatureScheme.fromRaw (value : UInt16) : Option SignatureScheme :=
  if value = 1 then some .pariAffine32V1
  else if value = 2 then some .pariAffine64V1
  else none

/-- The width of each signature value in bits. -/
def SignatureScheme.widthBits : SignatureScheme → UInt16
  | .pariAffine32V1 => 32
  | .pariAffine64V1 => 64

def SectionKind.asRaw : SectionKind → UInt16
  | .keys => 1
  | .bandHashes => 2
  | .buckets => 3
  | .tombstones => 4

def SectionKind.fromRaw (value : UInt16) : Option SectionKind :=
  if value = 1 then some .keys
  else if value = 2 then some .bandHashes
  else if value = 3 then some .buckets
  else if value = 4 then some .tombstones
  else none

def CodecId.asRaw : CodecId → UInt16
  | .bytes => 1
  | .utf8 => 2
  | .u64 => 3
  | .i64 => 4
  | .json => 5

def CodecId.fromRaw (value : UInt16) : Option CodecId :=
  if value = 1 then some .bytes
  else if value = 2 then some .utf8
  else if value = 3 then some .u64
  else if value = 4 then some .i64
  else if value = 5 then some .json
  else none

theorem Algorithm.fromRaw_eq_some_iff {value : UInt16} {algorithm : Algorithm} :
    fromRaw value = some algorithm ↔ value = algorithm.asRaw := by
  cases algorithm
  simp [fromRaw, asRaw]

theorem SignatureScheme.fromRaw_eq_some_iff {value : UInt16} {scheme : SignatureScheme} :
    fromRaw value = some scheme ↔ value = scheme.asRaw := by
  cases scheme <;> grind [fromRaw, asRaw]

theorem SectionKind.fromRaw_eq_some_iff {value : UInt16} {kind : SectionKind} :
    fromRaw value = some kind ↔ value = kind.asRaw := by
  cases kind <;> grind [fromRaw, asRaw]

theorem CodecId.fromRaw_eq_some_iff {value : UInt16} {codec : CodecId} :
    fromRaw value = some codec ↔ value = codec.asRaw := by
  cases codec <;> grind [fromRaw, asRaw]

@[simp]
theorem SectionKind.fromRaw_asRaw (kind : SectionKind) : fromRaw kind.asRaw = some kind :=
  SectionKind.fromRaw_eq_some_iff.mpr rfl

theorem SectionKind.asRaw_injective : Function.Injective SectionKind.asRaw := by
  intro first second h
  have hraw := SectionKind.fromRaw_asRaw first
  rw [h, SectionKind.fromRaw_asRaw] at hraw
  exact (Option.some.inj hraw).symm

/-! ## Thresholds -/

/-- A 64-bit float, as its bit pattern. -/
structure F64 where
  bits : UInt64
  deriving DecidableEq, Repr

namespace F64

/-- The bits below the sign. -/
def magnitude (value : F64) : UInt64 := value.bits &&& 0x7FFFFFFFFFFFFFFF

/-- `is_finite`: the exponent field is not all ones. -/
def isFinite (value : F64) : Bool := value.magnitude < 0x7FF0000000000000

/-- `value <= 0.0`, for a finite value: a sign bit, or either zero. -/
def leZero (value : F64) : Bool := value.bits ≥ 0x8000000000000000 || value.magnitude == 0

/-- `value > 1.0`, for a finite value: positive floats are ordered as their bits are. -/
def gtOne (value : F64) : Bool :=
  value.bits < 0x8000000000000000 && value.bits > 0x3FF0000000000000

/-- `!threshold.is_finite() || threshold <= 0.0 || threshold > 1.0`. -/
def outsideUnit (value : F64) : Bool := !value.isFinite || value.leZero || value.gtOne

end F64

/-! ## Errors -/

/-- Errors produced while encoding or decoding the index container. -/
inductive FormatError
  | truncated (context : String)
  | invalidMagic
  | unsupportedVersion (found : UInt16)
  | invalidHeaderSize (found : UInt16)
  | invalidReservedBytes
  | headerChecksumMismatch (expected actual : UInt32)
  | unsupportedAlgorithm (value : UInt16)
  | unsupportedSignatureScheme (value : UInt16)
  | signatureWidthMismatch (expected actual : UInt16)
  | unsupportedCodec (value : UInt16)
  | invalidMetadata (reason : String)
  | unsupportedFeatures (flags : UInt64)
  | tooManySections (count max : Nat)
  | sectionTooLarge (length : Nat)
  | invalidSectionFlags (flags : UInt16)
  | unknownRequiredSection (kind : UInt16)
  | sectionChecksumMismatch (expected actual : UInt32)
  | lengthOverflow
  | trailingBytes (remaining : Nat)
  deriving DecidableEq, Repr

/-! ## Constants -/

/-- `b"PARIIDX\0"`. -/
def magic : Bytes := [80, 65, 82, 73, 73, 68, 88, 0]
/-- The reserved header bytes, which must be zero. -/
def reserved : Bytes := [0, 0, 0, 0]
def formatVersion : UInt16 := 1
def headerSize : Nat := 72
def headerSizeU16 : UInt16 := 72
def sectionHeaderSize : Nat := 16
def sectionFlagRequired : UInt16 := 1
def knownSectionFlags : UInt16 := sectionFlagRequired
def maxSectionCount : Nat := 1024
def maxSectionBytes : Nat := 256 * 1024 * 1024
def supportedFeatureFlags : UInt64 := 0

/-! ## Metadata -/

def validateMetadata (numPerm : UInt32) (threshold : F64) (bands rows : UInt32)
    (featureFlags : UInt64) : Except FormatError Unit := do
  rejectIf (numPerm = 0) (.invalidMetadata "num_perm must be positive")
  rejectIf (threshold.outsideUnit = true)
    (.invalidMetadata "threshold must be finite and in (0, 1]")
  rejectIf (2 ^ 32 ≤ bands.toNat * rows.toNat) (.invalidMetadata "bands * rows overflows")
  rejectIf (bands = 0 ∨ rows = 0 ∨ numPerm.toNat < bands.toNat * rows.toNat)
    (.invalidMetadata "bands and rows must be positive and use no more than num_perm values")
  rejectIf (featureFlags &&& ~~~supportedFeatureFlags ≠ 0)
    (.unsupportedFeatures (featureFlags &&& ~~~supportedFeatureFlags))

/-- Validated metadata that identifies how an index must be interpreted. -/
@[ext]
structure IndexMetadata where
  algorithm : Algorithm
  signatureScheme : SignatureScheme
  keyCodec : CodecId
  numPerm : UInt32
  seed : UInt64
  threshold : F64
  bands : UInt32
  rows : UInt32
  featureFlags : UInt64
  valid : validateMetadata numPerm threshold bands rows featureFlags = .ok ()

/-- Construct and validate version-1 index metadata. -/
def IndexMetadata.new (algorithm : Algorithm) (signatureScheme : SignatureScheme)
    (keyCodec : CodecId) (numPerm : UInt32) (seed : UInt64) (threshold : F64)
    (bands rows : UInt32) (featureFlags : UInt64) : Except FormatError IndexMetadata :=
  match h : validateMetadata numPerm threshold bands rows featureFlags with
  | .error error => .error error
  | .ok () => .ok {
      algorithm, signatureScheme, keyCodec, numPerm, seed, threshold, bands, rows, featureFlags
      valid := h }

/-- What a metadata value satisfies because it exists. -/
theorem IndexMetadata.bounds (metadata : IndexMetadata) :
    0 < metadata.bands.toNat ∧ 0 < metadata.rows.toNat ∧
      metadata.bands.toNat * metadata.rows.toNat ≤ metadata.numPerm.toNat ∧
      metadata.threshold.outsideUnit = false ∧ metadata.featureFlags = 0 := by
  have h := metadata.valid
  simp only [validateMetadata, bind_eq_ok_iff, rejectIf_eq_ok_iff, not_or, not_lt,
    supportedFeatureFlags, exists_const, Bool.not_eq_true] at h
  obtain ⟨_, hthreshold, _, ⟨hbands, hrows, hused⟩, hflags⟩ := h
  refine ⟨?_, ?_, hused, hthreshold, by simpa using hflags⟩
  · exact Nat.pos_of_ne_zero fun hzero => hbands (UInt32.toNat_inj.mp hzero)
  · exact Nat.pos_of_ne_zero fun hzero => hrows (UInt32.toNat_inj.mp hzero)

/-- Rebuilding a metadata value from its own fields cannot fail. -/
theorem IndexMetadata.new_eq_ok (metadata : IndexMetadata) :
    IndexMetadata.new metadata.algorithm metadata.signatureScheme metadata.keyCodec
      metadata.numPerm metadata.seed metadata.threshold metadata.bands metadata.rows
      metadata.featureFlags = .ok metadata := by
  rw [IndexMetadata.new]
  split
  · next error h => rw [metadata.valid] at h; cases h
  · rfl

theorem IndexMetadata.new_eq_ok_iff {algorithm : Algorithm} {signatureScheme : SignatureScheme}
    {keyCodec : CodecId} {numPerm bands rows : UInt32} {seed featureFlags : UInt64}
    {threshold : F64} {metadata : IndexMetadata} :
    IndexMetadata.new algorithm signatureScheme keyCodec numPerm seed threshold bands rows
        featureFlags = .ok metadata ↔
      metadata.algorithm = algorithm ∧ metadata.signatureScheme = signatureScheme ∧
      metadata.keyCodec = keyCodec ∧ metadata.numPerm = numPerm ∧ metadata.seed = seed ∧
      metadata.threshold = threshold ∧ metadata.bands = bands ∧ metadata.rows = rows ∧
      metadata.featureFlags = featureFlags := by
  constructor
  · intro h
    rw [IndexMetadata.new] at h
    split at h
    · cases h
    · cases h
      exact ⟨rfl, rfl, rfl, rfl, rfl, rfl, rfl, rfl, rfl⟩
  · rintro ⟨rfl, rfl, rfl, rfl, rfl, rfl, rfl, rfl, rfl⟩
    exact metadata.new_eq_ok

/-! ## Sections and files -/

/-- A known framed section with a bounded payload. -/
@[ext]
structure Section where
  kind : SectionKind
  required : Bool
  payload : Bytes
  bounded : payload.length ≤ maxSectionBytes

/-- Create a bounded section payload. -/
def Section.new (kind : SectionKind) (required : Bool) (payload : Bytes) :
    Except FormatError Section :=
  if h : maxSectionBytes < payload.length then .error (.sectionTooLarge payload.length)
  else .ok { kind, required, payload, bounded := Nat.le_of_not_lt h }

theorem Section.new_eq_ok_iff {kind : SectionKind} {required : Bool} {payload : Bytes}
    {framed : Section} :
    Section.new kind required payload = .ok framed ↔
      framed.kind = kind ∧ framed.required = required ∧ framed.payload = payload := by
  unfold Section.new
  split
  · next h =>
      constructor
      · intro hok
        cases hok
      · rintro ⟨_, _, rfl⟩
        exact absurd framed.bounded (not_le.mpr h)
  · constructor
    · intro hok
      cases hok
      exact ⟨rfl, rfl, rfl⟩
    · rintro ⟨rfl, rfl, rfl⟩
      rfl

/-- A container in memory: metadata and at most `maxSectionCount` known sections. -/
structure IndexFile where
  metadata : IndexMetadata
  sections : List Section
  bounded : sections.length ≤ maxSectionCount

/-- Build an index container from validated metadata and known sections. -/
def IndexFile.new (metadata : IndexMetadata) (sections : List Section) :
    Except FormatError IndexFile :=
  if h : maxSectionCount < sections.length then
    .error (.tooManySections sections.length maxSectionCount)
  else .ok { metadata, sections, bounded := Nat.le_of_not_lt h }

theorem IndexFile.new_eq_ok_iff {metadata : IndexMetadata} {sections : List Section}
    {file : IndexFile} :
    IndexFile.new metadata sections = .ok file ↔
      file.metadata = metadata ∧ file.sections = sections := by
  unfold IndexFile.new
  split
  · next h =>
      constructor
      · intro hok
        cases hok
      · rintro ⟨_, rfl⟩
        exact absurd file.bounded (not_le.mpr h)
  · constructor
    · intro hok
      cases hok
      exact ⟨rfl, rfl⟩
    · rintro ⟨rfl, rfl⟩
      rfl

/-! ## Encoding -/

/-- The checksummed first 64 bytes of a header. -/
def headerFields (metadata : IndexMetadata) (sectionCount : UInt32) : Bytes :=
  magic ++ (u16Bytes formatVersion ++ (u16Bytes headerSizeU16 ++
    (u16Bytes metadata.algorithm.asRaw ++ (u16Bytes metadata.signatureScheme.asRaw ++
    (u16Bytes metadata.signatureScheme.widthBits ++ (u16Bytes metadata.keyCodec.asRaw ++
    (u32Bytes metadata.numPerm ++ (u32Bytes metadata.bands ++ (u32Bytes metadata.rows ++
    (u32Bytes sectionCount ++ (reserved ++ (u64Bytes metadata.seed ++
    (u64Bytes metadata.threshold.bits ++ u64Bytes metadata.featureFlags)))))))))))))

def encodeHeader (crc : Checksum) (metadata : IndexMetadata) (sectionCount : UInt32) : Bytes :=
  headerFields metadata sectionCount ++
    (u32Bytes (crc.hash (headerFields metadata sectionCount)) ++ reserved)

/-- The flag word of a section frame. -/
def sectionFlags (required : Bool) : UInt16 := if required then sectionFlagRequired else 0

def encodeSection (crc : Checksum) (framed : Section) : Except FormatError Bytes := do
  rejectIf (maxSectionBytes < framed.payload.length) (.sectionTooLarge framed.payload.length)
  return u16Bytes framed.kind.asRaw ++ (u16Bytes (sectionFlags framed.required) ++
    (u64Bytes (UInt64.ofNat framed.payload.length) ++
    (u32Bytes (crc.hash framed.payload) ++ framed.payload)))

/-- Encode a container to the stable version-1 byte format. -/
def IndexFile.encode (crc : Checksum) (file : IndexFile) : Except FormatError Bytes := do
  let sectionCount ← okOr (tryU32 file.sections.length)
    (.tooManySections file.sections.length maxSectionCount)
  let _total ← file.sections.foldlM (fun total framed =>
    okOr ((checkedAdd total sectionHeaderSize).bind (checkedAdd · framed.payload.length))
      FormatError.lengthOverflow) headerSize
  let frames ← file.sections.mapM (encodeSection crc)
  return encodeHeader crc file.metadata sectionCount ++ frames.flatten

@[simp]
theorem length_magic : magic.length = 8 := by simp [magic]

@[simp]
theorem length_reserved : reserved.length = 4 := by simp [reserved]

@[simp]
theorem length_headerFields (metadata : IndexMetadata) (sectionCount : UInt32) :
    (headerFields metadata sectionCount).length = 64 := by
  simp [headerFields]

@[simp]
theorem length_encodeHeader (crc : Checksum) (metadata : IndexMetadata) (sectionCount : UInt32) :
    (encodeHeader crc metadata sectionCount).length = headerSize := by
  simp [encodeHeader, headerSize]

end Pari.Format
