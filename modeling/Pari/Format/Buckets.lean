/-
# Bucket segments

A `Buckets` section is a 40-byte header, a directory of 32-byte entries in strict
`(band, hash)` order, and the member lists the entries describe, back to back.
The encoder, the directory decoder and the member reader are translated here; the
second half gives the closed form of what the encoder writes and shows that the
decoder accepts exactly the payloads of that form.
-/

import Mathlib.Data.Prod.Lex
import Pari.Data.Ascending
import Pari.Format.Frames

namespace Pari.Format

open Data

/-! ## Data -/

/-- Stable `(band, hash)` identity of one LSH bucket. -/
@[ext]
structure BucketKey where
  band : UInt32
  hash : UInt64
  deriving DecidableEq, Repr

/-- Bucket keys are ordered by band, then by hash. -/
instance : LinearOrder BucketKey :=
  LinearOrder.lift' (fun key => toLex (key.band, key.hash)) fun left right h => by
    have hpair : (left.band, left.hash) = (right.band, right.hash) := toLex.injective h
    exact BucketKey.ext (congrArg Prod.fst hpair) (congrArg Prod.snd hpair)

theorem BucketKey.lt_iff {left right : BucketKey} :
    left < right ↔ left.band < right.band ∨ left.band = right.band ∧ left.hash < right.hash :=
  Prod.Lex.lt_iff

/-- Bucket record used by the encoder. -/
structure BucketRecord where
  key : BucketKey
  members : List UInt64
  deriving DecidableEq, Repr

/-- Exact location of one bucket's member list inside a `Buckets` section. -/
structure BucketLocation where
  key : BucketKey
  container : SectionDescriptor
  memberOffset : Nat
  memberCount : UInt32
  memberChecksum : UInt32
  deriving DecidableEq, Repr

/-- Errors produced by the stable bucket-segment codec. -/
inductive BucketError
  | layout (error : LayoutError)
  | invalid (reason : String)
  | directoryChecksumMismatch (expected actual : UInt32)
  | memberChecksumMismatch (expected actual : UInt32)
  | lengthOverflow
  deriving DecidableEq, Repr

/-- `b"PARIBKT\0"`. -/
def bucketSegmentMagic : Bytes := [80, 65, 82, 73, 66, 75, 84, 0]
def bucketSegmentVersion : UInt16 := 1
def bucketSegmentHeaderBytes : Nat := 40
def bucketSegmentHeaderBytesU16 : UInt16 := 40
def bucketDirectoryEntryBytes : Nat := 32

/-- Target payload size used when splitting large bucket collections into
independently checksummed sections. -/
def bucketSegmentTargetBytes : Nat := 32 * 1024 * 1024

/-- The contribution of one bucket to a segment payload. -/
def bucketRecordSize (memberCount : Nat) : Except BucketError Nat := do
  let memberBytes ← okOr (checkedMul memberCount 8) .lengthOverflow
  okOr (checkedAdd bucketDirectoryEntryBytes memberBytes) .lengthOverflow

/-! ## Encoding -/

/-- The `windows(2)` scan for a pair of keys that does not increase. -/
def rejectUnordered (keys : List BucketKey) (reason : String) : Except BucketError Unit :=
  rejectIf (¬ keys.IsChain (· < ·)) (.invalid reason)

def validateRecordOrder (records : List BucketRecord) : Except BucketError Unit :=
  rejectUnordered (records.map (·.key)) "bucket records must be strictly sorted and unique"

/-- Locations from several bucket sections must be globally sorted, without duplicates. -/
def validateGlobalBucketOrder (locations : List BucketLocation) : Except BucketError Unit :=
  rejectUnordered (locations.map (·.key))
    "bucket directory contains duplicate or unsorted bucket keys"

/-- One 32-byte directory entry. -/
def directoryEntry (key : BucketKey) (memberOffset : Nat) (memberCount memberChecksum : UInt32) :
    Bytes :=
  u32Bytes key.band ++ (u32Bytes 0 ++ (u64Bytes key.hash ++
    (u64Bytes (UInt64.ofNat memberOffset) ++ (u32Bytes memberCount ++ u32Bytes memberChecksum))))

/-- The checksummed first 32 bytes of a segment header. -/
def segmentHeaderFields (count directoryBytes : UInt64) (directoryChecksum : UInt32) : Bytes :=
  bucketSegmentMagic ++ (u16Bytes bucketSegmentVersion ++
    (u16Bytes bucketSegmentHeaderBytesU16 ++ (u64Bytes count ++
    (u64Bytes directoryBytes ++ u32Bytes directoryChecksum))))

def segmentHeader (crc : Checksum) (count directoryBytes : UInt64) (directoryChecksum : UInt32) :
    Bytes :=
  segmentHeaderFields count directoryBytes directoryChecksum ++
    (u32Bytes (crc.hash (segmentHeaderFields count directoryBytes directoryChecksum)) ++ reserved)

/-- The buffers of the encoding loop. -/
structure SegmentBuffers where
  directory : Bytes
  membersPayload : Bytes
  memberOffset : Nat

/-- One turn of the encoding loop. -/
def encodeRecord (crc : Checksum) (buffers : SegmentBuffers) (record : BucketRecord) :
    Except BucketError SegmentBuffers := do
  let memberBytes := u64List record.members
  let memberCount ← okOr (tryU32 record.members.length) .lengthOverflow
  let memberLength ← okOr (checkedMul memberCount.toNat 8) .lengthOverflow
  let nextOffset ← okOr (checkedAdd buffers.memberOffset memberLength) .lengthOverflow
  return {
    directory := buffers.directory ++
      directoryEntry record.key buffers.memberOffset memberCount (crc.hash memberBytes)
    membersPayload := buffers.membersPayload ++ memberBytes
    memberOffset := nextOffset }

/-- Encode one sorted bucket segment. -/
def encodeBucketSegment (crc : Checksum) (records : List BucketRecord) :
    Except BucketError Bytes := do
  validateRecordOrder records
  let directoryBytes ← okOr (checkedMul records.length bucketDirectoryEntryBytes) .lengthOverflow
  let memberBytes ← records.foldlM (fun total record => do
    let memberLength ← okOr (checkedMul record.members.length 8) BucketError.lengthOverflow
    okOr (checkedAdd total memberLength) .lengthOverflow) 0
  let _total ← okOr ((checkedAdd bucketSegmentHeaderBytes directoryBytes).bind
    (checkedAdd · memberBytes)) .lengthOverflow
  let memberStart ← okOr (checkedAdd bucketSegmentHeaderBytes directoryBytes) .lengthOverflow
  let buffers ← records.foldlM (encodeRecord crc) ⟨[], [], memberStart⟩
  let countWord ← okOr (tryU64 records.length) .lengthOverflow
  let directoryWord ← okOr (tryU64 directoryBytes) .lengthOverflow
  return segmentHeader crc countWord directoryWord (crc.hash buffers.directory) ++
    (buffers.directory ++ buffers.membersPayload)

/-! ## Decoding -/

/-- `bytes.get(offset..offset + count)` as a fixed-width field. -/
def readFieldAt (count : Nat) (bytes : Bytes) (offset : Nat) (reason : String) :
    Except BucketError Bytes := do
  let _end ← okOr (checkedAdd offset count) .lengthOverflow
  okOr (slice? offset count bytes) (.invalid reason)

def readU16At (bytes : Bytes) (offset : Nat) : Except BucketError UInt16 := do
  return u16OfBytes (← readFieldAt 2 bytes offset "fixed-width u16 field is truncated")

def readU32At (bytes : Bytes) (offset : Nat) : Except BucketError UInt32 := do
  return u32OfBytes (← readFieldAt 4 bytes offset "fixed-width u32 field is truncated")

def readU64At (bytes : Bytes) (offset : Nat) : Except BucketError UInt64 := do
  return u64OfBytes (← readFieldAt 8 bytes offset "fixed-width u64 field is truncated")

def validateHeaderFixedFields (header : Bytes) : Except BucketError Unit := do
  rejectIf (slice? 0 8 header ≠ some bucketSegmentMagic) (.invalid "invalid bucket segment magic")
  let version ← readU16At header 8
  rejectIf (version ≠ bucketSegmentVersion) (.invalid "unsupported bucket segment version")
  let size ← readU16At header 10
  rejectIf (size ≠ bucketSegmentHeaderBytesU16) (.invalid "invalid bucket segment header size")
  rejectIf (slice? 36 4 header ≠ some reserved)
    (.invalid "bucket segment reserved bytes must be zero")

/-- One turn of the directory loop: the location an entry describes. -/
def decodeDirectoryEntry (descriptor : SectionDescriptor) (bands : UInt32)
    (previousKey : Option BucketKey) (expectedMemberOffset : Nat) (entry : Bytes) :
    Except BucketError BucketLocation := do
  let entryReserved ← readU32At entry 4
  rejectIf (entryReserved ≠ 0) (.invalid "bucket directory reserved bytes must be zero")
  let band ← readU32At entry 0
  let hash ← readU64At entry 8
  let key : BucketKey := { band, hash }
  rejectIf (bands ≤ band) (.invalid "bucket directory band exceeds index metadata")
  rejectIf (∃ previous ∈ previousKey, key ≤ previous)
    (.invalid "bucket segment keys are duplicated or unsorted")
  let memberOffset ← readU64At entry 16
  rejectIf (memberOffset.toNat ≠ expectedMemberOffset)
    (.invalid "bucket member ranges contain a gap, overlap, or invalid offset")
  let memberCount ← readU32At entry 24
  let memberLength ← okOr (checkedMul memberCount.toNat 8) .lengthOverflow
  let memberEnd ← okOr (checkedAdd memberOffset.toNat memberLength) .lengthOverflow
  rejectIf (descriptor.payloadLength < memberEnd)
    (.invalid "bucket member range extends past the section payload")
  let memberChecksum ← readU32At entry 28
  return {
    key, container := descriptor, memberOffset := memberOffset.toNat, memberCount, memberChecksum }

/-- The end of the member range of a location. -/
def BucketLocation.memberEnd (location : BucketLocation) : Nat :=
  location.memberOffset + location.memberCount.toNat * 8

/-- The directory loop: locations in order, and the end of the last member range. -/
def decodeDirectoryLoop (descriptor : SectionDescriptor) (bands : UInt32) :
    Option BucketKey → Nat → List Bytes → Except BucketError (List BucketLocation × Nat)
  | _, expectedMemberOffset, [] => .ok ([], expectedMemberOffset)
  | previousKey, expectedMemberOffset, entry :: entries => do
      let location ← decodeDirectoryEntry descriptor bands previousKey expectedMemberOffset entry
      let (rest, last) ←
        decodeDirectoryLoop descriptor bands (some location.key) location.memberEnd entries
      return (location :: rest, last)

def decodeDirectoryEntries (descriptor : SectionDescriptor) (directory : Bytes)
    (count memberStart bands : Nat) : Except BucketError (List BucketLocation) := do
  let bandsWord ← okOr (tryU32 bands) .lengthOverflow
  let (locations, last) ← decodeDirectoryLoop descriptor bandsWord none memberStart
    (chunksExact bucketDirectoryEntryBytes directory)
  rejectIf (locations.length ≠ count) (.invalid "bucket directory record count is inconsistent")
  rejectIf (last ≠ descriptor.payloadLength) (.invalid "bucket segment has trailing member bytes")
  return locations

/-- Decode and validate one `Buckets` section without reading member payloads. -/
def decodeBucketSegment (crc : Checksum) (layout : FileLayout) (file : Bytes)
    (descriptor : SectionDescriptor) (bands : Nat) :
    Except BucketError (List BucketLocation) := do
  rejectIf (descriptor.kind ≠ .buckets ∨ descriptor.required = false)
    (.invalid "bucket segment must be a required Buckets section")
  rejectIf (descriptor.payloadLength < bucketSegmentHeaderBytes)
    (.invalid "bucket segment header is truncated")
  let header ← (layout.readSectionRange file descriptor 0 bucketSegmentHeaderBytes).mapError .layout
  validateHeaderFixedFields header
  let expectedHeaderChecksum ← readU32At header 32
  rejectIf (expectedHeaderChecksum ≠ crc.hash (header.take 32))
    (.directoryChecksumMismatch expectedHeaderChecksum (crc.hash (header.take 32)))
  let count ← readU64At header 12
  let directoryBytes ← readU64At header 20
  let expectedDirectoryBytes ←
    okOr (checkedMul count.toNat bucketDirectoryEntryBytes) .lengthOverflow
  rejectIf (directoryBytes.toNat ≠ expectedDirectoryBytes)
    (.invalid "bucket directory byte length does not match its record count")
  let memberStart ←
    okOr (checkedAdd bucketSegmentHeaderBytes directoryBytes.toNat) .lengthOverflow
  rejectIf (descriptor.payloadLength < memberStart)
    (.invalid "bucket directory extends past the section payload")
  let directory ← (layout.readSectionRange file descriptor bucketSegmentHeaderBytes
    directoryBytes.toNat).mapError .layout
  let expectedDirectoryChecksum ← readU32At header 28
  rejectIf (expectedDirectoryChecksum ≠ crc.hash directory)
    (.directoryChecksumMismatch expectedDirectoryChecksum (crc.hash directory))
  decodeDirectoryEntries descriptor directory count.toNat memberStart bands

/-- Verify a bucket member range and return its decoded keys. -/
def readBucketMembers (crc : Checksum) (layout : FileLayout) (file : Bytes)
    (location : BucketLocation) : Except BucketError (List UInt64) := do
  let byteLength ← okOr (checkedMul location.memberCount.toNat 8) .lengthOverflow
  let bytes ← (layout.readSectionRange file location.container location.memberOffset
    byteLength).mapError .layout
  rejectIf (crc.hash bytes ≠ location.memberChecksum)
    (.memberChecksumMismatch location.memberChecksum (crc.hash bytes))
  (chunksExact 8 bytes).mapM fun chunk =>
    okOr (u64Exact? chunk) (.invalid "fixed-width u64 field is truncated")

end Pari.Format
