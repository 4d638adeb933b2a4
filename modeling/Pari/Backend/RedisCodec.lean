/-
# What Redis stores

The descriptor of a namespace is 56 bytes. A bucket membership is 20 bytes: band and hash, big
end first, and the key. The memberships of one bucket are a lexicographic range, since they
have their first 12 bytes in common and no others do.
-/

import Pari.Backend.Contract
import Pari.Data.Redis
import Pari.Format.Codec

namespace Pari.Backend

open Data Pari.Format Pari.Core Pari.Index

/-! ## Descriptors -/

/-- `b"PARIBK01"`. -/
def descriptorMagic : Bytes := [80, 65, 82, 73, 66, 75, 48, 49]

def descriptorBytes : Nat := 56
def noRetention : UInt64 := 0xFFFFFFFFFFFFFFFF

def encodeDescriptor (descriptor : IndexDescriptor) : Except BackendError Bytes := do
  let numPerm ← okOr (tryU64 descriptor.numPerm) .lengthOverflow
  let bands ← okOr (tryU64 descriptor.params.bands) .lengthOverflow
  let rows ← okOr (tryU64 descriptor.params.rows) .lengthOverflow
  let retention := descriptor.retention.elim noRetention Duration.secs
  return descriptorMagic ++ u64List
    [descriptor.threshold.bits, numPerm, descriptor.seed, bands, rows, retention]

/-- Read the eight bytes at an offset. -/
def readU64 (bytes : Bytes) (offset : Nat) : Except BackendError UInt64 := do
  let _ ← okOr (checkedAdd offset 8) .lengthOverflow
  let raw ← okOr (slice? offset 8 bytes) (.corruptData "descriptor is truncated")
  okOr (u64Exact? raw) (.corruptData "descriptor integer width is invalid")

def descriptorLengthReason (length : Nat) : String :=
  s!"descriptor is {length} bytes; expected {descriptorBytes}"

def decodeRetention (seconds : UInt64) : Except BackendError (Option Duration) :=
  if seconds = noRetention then .ok none
  else if seconds = 0 then .error .invalidRetention
  else .ok (some (.fromSecs seconds))

def decodeDescriptor (bytes : Bytes) : Except BackendError IndexDescriptor := do
  rejectIf (bytes.length ≠ descriptorBytes) (.corruptData (descriptorLengthReason bytes.length))
  rejectIf (bytes.take 8 ≠ descriptorMagic)
    (.corruptData "descriptor magic or version is unsupported")
  let threshold ← readU64 bytes 8
  let numPerm ← readU64 bytes 16
  let seed ← readU64 bytes 24
  let bands ← readU64 bytes 32
  let rows ← readU64 bytes 40
  let seconds ← readU64 bytes 48
  let retention ← decodeRetention seconds
  IndexDescriptor.new ⟨threshold⟩ numPerm.toNat seed ⟨bands.toNat, rows.toNat⟩ retention

/-- A supported retention period is a number of seconds that is neither zero nor the mark of
none. -/
theorem decodeRetention_of_descriptor (descriptor : IndexDescriptor) :
    decodeRetention (descriptor.retention.elim noRetention Duration.secs) =
      .ok descriptor.retention := by
  have hretained := descriptor.retained
  cases hretention : descriptor.retention with
  | none => rfl
  | some value =>
      rw [hretention] at hretained
      simp only [Option.any_some, Duration.unsupported, Bool.or_eq_false_iff, beq_eq_false_iff_ne,
        bne_eq_false_iff_eq, decide_eq_false_iff_not, not_lt] at hretained
      obtain ⟨⟨hzero, hnanos⟩, hmax⟩ := hretained
      have hmark : value.secs ≠ noRetention := by
        intro heq
        rw [heq] at hmax
        exact absurd hmax (by decide)
      have hvalue : Duration.fromSecs value.secs = value := by
        cases value
        simp_all [Duration.fromSecs]
      simp only [Option.elim_some]
      rw [decodeRetention, if_neg hmark, if_neg hzero, hvalue]

/-- The fields of an encoded descriptor are read back. -/
theorem decodeDescriptor_words (threshold numPerm seed bands rows retention : UInt64) :
    decodeDescriptor (descriptorMagic ++
        u64List [threshold, numPerm, seed, bands, rows, retention]) = (do
      let retention ← decodeRetention retention
      IndexDescriptor.new ⟨threshold⟩ numPerm.toNat seed ⟨bands.toNat, rows.toNat⟩ retention) := by
  have hread : ∀ (offset : Nat) (word : UInt64), offset + 8 < 2 ^ 64 →
      slice? offset 8 (descriptorMagic ++
        u64List [threshold, numPerm, seed, bands, rows, retention]) = some (u64Bytes word) →
      readU64 (descriptorMagic ++ u64List [threshold, numPerm, seed, bands, rows, retention])
        offset = .ok word := by
    intro offset word hlt hslice
    rw [readU64, checkedAdd_of_lt hlt, okOr_some, ok_bind, hslice, okOr_some, ok_bind,
      u64Exact?_of_length (length_u64Bytes word), u64OfBytes_u64Bytes, okOr_some]
  rw [decodeDescriptor, rejectIf_of_not (by simp [descriptorMagic, descriptorBytes]), ok_bind,
    rejectIf_of_not (by simp [descriptorMagic]), ok_bind,
    hread 8 threshold (by decide) rfl, ok_bind, hread 16 numPerm (by decide) rfl, ok_bind,
    hread 24 seed (by decide) rfl, ok_bind, hread 32 bands (by decide) rfl, ok_bind,
    hread 40 rows (by decide) rfl, ok_bind, hread 48 retention (by decide) rfl, ok_bind]

/-- Every descriptor is encoded, and decoding the bytes gives it back. -/
theorem decodeDescriptor_encodeDescriptor (descriptor : IndexDescriptor) :
    ∃ bytes, encodeDescriptor descriptor = .ok bytes ∧ decodeDescriptor bytes = .ok descriptor := by
  obtain ⟨_, _, hword, hbands, hrows, hused⟩ := descriptor.toLshConfig.bounds
  have hbandsLt := bands_lt descriptor.toLshConfig
  have hrowsLe : 1 * descriptor.params.rows ≤ descriptor.params.bands * descriptor.params.rows :=
    Nat.mul_le_mul_right _ hbands
  refine ⟨descriptorMagic ++ u64List [descriptor.threshold.bits,
    UInt64.ofNat descriptor.numPerm, descriptor.seed, UInt64.ofNat descriptor.params.bands,
    UInt64.ofNat descriptor.params.rows,
    descriptor.retention.elim noRetention Duration.secs], ?_, ?_⟩
  · rw [encodeDescriptor, tryU64_of_lt (by omega), okOr_some, ok_bind, tryU64_of_lt (by omega),
      okOr_some, ok_bind, tryU64_of_lt (by omega), okOr_some, ok_bind]
    rfl
  · rw [decodeDescriptor_words, decodeRetention_of_descriptor, ok_bind,
      toNat_ofNat64 (by omega), toNat_ofNat64 (by omega), toNat_ofNat64 (by omega)]
    exact IndexDescriptor.new_eq_ok_iff.mpr ⟨rfl, rfl, rfl, rfl, rfl⟩

/-! ## Keys and bucket members -/

def memberBytes : Nat := 20
def bucketPrefixBytes : Nat := 12
def keyBytes : Nat := 8

/-- The key codec never fails to encode. -/
def encodeUserKey (key : UInt64) : Bytes := u64Bytes key

def decodeUserKey (bytes : Bytes) : Except BackendError UInt64 :=
  okOr (u64Exact? bytes) (.codec (.invalidLength 8 bytes.length))

/-- `band.to_be_bytes()` and `hash.to_be_bytes()`. -/
def bucketPrefix (bucket : BucketKey) : Bytes :=
  (u32Bytes bucket.band).reverse ++ (u64Bytes bucket.hash).reverse

def encodeBucketMember (bucket : BucketKey) (key : UInt64) : Bytes :=
  bucketPrefix bucket ++ encodeUserKey key

def memberLengthReason (length : Nat) : String :=
  s!"Redis bucket member is {length} bytes; expected {memberBytes}"

def decodeBucketMember (bucket : BucketKey) (member : Bytes) : Except BackendError UInt64 := do
  rejectIf (member.length ≠ memberBytes) (.corruptData (memberLengthReason member.length))
  rejectIf (member.take bucketPrefixBytes ≠ bucketPrefix bucket)
    (.corruptData "Redis bucket member prefix does not match the queried bucket")
  decodeUserKey (member.drop bucketPrefixBytes)

/-- The inclusive bounds of the members of a bucket: the byte `[`, the prefix, and the least
or the greatest key bytes. -/
def bucketLexRange (bucket : BucketKey) : Bytes × Bytes :=
  (91 :: (bucketPrefix bucket ++ List.replicate keyBytes 0),
    91 :: (bucketPrefix bucket ++ List.replicate keyBytes 255))

/-- The value of a record: the bucket members of its key, band by band. -/
def recordBlob (item : StoredItem) : Except BackendError Bytes := do
  let _ ← okOr (checkedMul item.bandHashes.length memberBytes) .lengthOverflow
  let buckets ← BackendIndex32.bucketsOf item.bandHashes.zipIdx
  return buckets.flatMap fun bucket => encodeBucketMember bucket item.key

@[simp]
theorem length_encodeUserKey (key : UInt64) : (encodeUserKey key).length = 8 :=
  length_u64Bytes key

@[simp]
theorem length_bucketPrefix (bucket : BucketKey) : (bucketPrefix bucket).length = 12 := by
  simp [bucketPrefix]

@[simp]
theorem length_encodeBucketMember (bucket : BucketKey) (key : UInt64) :
    (encodeBucketMember bucket key).length = 20 := by
  simp [encodeBucketMember]

/-- The error of a codec as the backend reports it. -/
def CodecError.ofFormat : Format.CodecError → CodecError
  | .payloadTooLarge actual max => .payloadTooLarge actual max
  | .invalidLength expected actual => .invalidLength expected actual
  | .invalidUtf8 => .invalidUtf8
  | .invalidJson message => .invalidJson message

/-- User keys are written by the codec of unsigned integers, and read by it. -/
theorem encodeUserKey_eq (key : UInt64) : u64Codec.encode key = .ok (encodeUserKey key) := rfl

theorem decodeUserKey_eq (bytes : Bytes) :
    decodeUserKey bytes = (u64Codec.decode bytes).mapError fun error => .codec (.ofFormat error) := by
  by_cases hlength : bytes.length = 8
  · have hdecode : u64Codec.decode bytes = .ok (u64OfBytes bytes) :=
      (represents_u64Codec.decode_iff _ _).mpr ⟨(u64Bytes_u64OfBytes hlength).symm, hlength⟩
    rw [decodeUserKey, u64Exact?_of_length hlength, hdecode]
    rfl
  · have hdecode : u64Codec.decode bytes = .error (.invalidLength 8 bytes.length) :=
      exactArray_bind_eq_error_iff.mpr ⟨hlength, rfl⟩
    rw [decodeUserKey, u64Exact?, if_neg hlength, hdecode]
    rfl

theorem decodeUserKey_encodeUserKey (key : UInt64) : decodeUserKey (encodeUserKey key) = .ok key := by
  have hdecode : u64Codec.decode (encodeUserKey key) = .ok key :=
    (represents_u64Codec.decode_iff key _).mpr ⟨rfl, length_encodeUserKey key⟩
  rw [decodeUserKey_eq, hdecode]
  rfl

theorem encodeUserKey_injective : Function.Injective encodeUserKey := by
  intro key other h
  have hdecoded := decodeUserKey_encodeUserKey key
  rw [h, decodeUserKey_encodeUserKey] at hdecoded
  exact (Except.ok.inj hdecoded).symm

theorem bucketPrefix_injective : Function.Injective bucketPrefix := by
  intro bucket other h
  obtain ⟨hband, hhash⟩ := List.append_inj h (by simp)
  refine BucketKey.ext ?_ ?_
  · rw [← u32OfBytes_u32Bytes bucket.band, List.reverse_injective hband, u32OfBytes_u32Bytes]
  · rw [← u64OfBytes_u64Bytes bucket.hash, List.reverse_injective hhash, u64OfBytes_u64Bytes]

theorem encodeBucketMember_inj {bucket other : BucketKey} {key candidate : UInt64} :
    encodeBucketMember bucket key = encodeBucketMember other candidate ↔
      bucket = other ∧ key = candidate := by
  constructor
  · intro h
    obtain ⟨hbucket, hkey⟩ := List.append_inj h (by simp)
    exact ⟨bucketPrefix_injective hbucket, encodeUserKey_injective hkey⟩
  · rintro ⟨rfl, rfl⟩
    rfl

theorem decodeBucketMember_encodeBucketMember (bucket : BucketKey) (key : UInt64) :
    decodeBucketMember bucket (encodeBucketMember bucket key) = .ok key := by
  have htake : (encodeBucketMember bucket key).take bucketPrefixBytes = bucketPrefix bucket :=
    List.take_left' (length_bucketPrefix bucket)
  have hdrop : (encodeBucketMember bucket key).drop bucketPrefixBytes = encodeUserKey key :=
    List.drop_left' (length_bucketPrefix bucket)
  rw [decodeBucketMember, rejectIf_of_not (by simp [memberBytes]), ok_bind,
    rejectIf_of_not (by simp [htake]), ok_bind, hdrop, decodeUserKey_encodeUserKey]

/-- The range of a bucket contains exactly the members encoded for it. -/
theorem mem_bucketLexRange_iff {bucket other : BucketKey} {key : UInt64} :
    (bucketPrefix bucket ++ List.replicate keyBytes 0 ≤ encodeBucketMember other key ∧
      encodeBucketMember other key ≤ bucketPrefix bucket ++ List.replicate keyBytes 255) ↔
      other = bucket := by
  have hleast (byte : UInt8) : 0 ≤ byte := UInt8.zero_le
  have hgreatest (byte : UInt8) : byte ≤ 255 := by
    rw [UInt8.le_iff_toNat_le]
    have hlt := byte.toNat_lt
    show byte.toNat ≤ 255
    omega
  have hrange := @range_iff_prefixed UInt8 _ 0 255 hleast hgreatest (bucketPrefix bucket)
    (bucketPrefix other) (encodeUserKey key) (by simp)
  rw [length_encodeUserKey] at hrange
  exact hrange.trans bucketPrefix_injective.eq_iff

theorem inLexRange_encodeBucketMember (bucket other : BucketKey) (key : UInt64) :
    RedisServer.inLexRange ⟨(bucketLexRange bucket).1⟩ ⟨(bucketLexRange bucket).2⟩
      ⟨encodeBucketMember other key⟩ = .ok (decide (other = bucket)) := by
  have hrange : RedisServer.inLexRange ⟨(bucketLexRange bucket).1⟩ ⟨(bucketLexRange bucket).2⟩
      ⟨encodeBucketMember other key⟩ = .ok
        (decide (bucketPrefix bucket ++ List.replicate keyBytes 0 ≤ encodeBucketMember other key) &&
          decide (encodeBucketMember other key ≤
            bucketPrefix bucket ++ List.replicate keyBytes 255)) := rfl
  rw [hrange, ← Bool.decide_and, decide_eq_decide.mpr mem_bucketLexRange_iff]

/-- The members of a record, for the buckets of a row. -/
def rowMembers (key : UInt64) (hashes : List UInt64) : List Bytes :=
  (rowBuckets hashes).map fun bucket => encodeBucketMember bucket key

/-- A record whose row has as many bands as an index can have is encoded. -/
theorem recordBlob_eq_ok {item : StoredItem} (hwidth : item.bandHashes.length < 2 ^ 32) :
    recordBlob item = .ok (rowMembers item.key item.bandHashes).flatten := by
  have hsize : item.bandHashes.length * memberBytes < 2 ^ 64 := by
    rw [memberBytes]
    omega
  rw [recordBlob, checkedMul_of_lt hsize, okOr_some, ok_bind, bucketsOf_zipIdx hwidth, ok_bind,
    rowMembers, ← List.flatMap_def]
  rfl

theorem eq_of_bucketsOf {slots : List (UInt64 × Nat)} {buckets : List BucketKey}
    (h : BackendIndex32.bucketsOf slots = .ok buckets) :
    buckets = slots.map fun slot => { band := UInt32.ofNat slot.2, hash := slot.1 } := by
  induction slots generalizing buckets with
  | nil => exact (Except.ok.inj h).symm
  | cons slot slots ih =>
      obtain ⟨hash, band⟩ := slot
      simp only [BackendIndex32.bucketsOf, bind_eq_ok_iff, okOr_eq_ok_iff, tryU32_eq_some_iff,
        pure_eq_ok_iff] at h
      obtain ⟨_, ⟨_, rfl⟩, others, hothers, rfl⟩ := h
      rw [ih hothers, List.map_cons]

/-- Whatever record is encoded for a row is put together from its members. -/
theorem eq_of_recordBlob {item : StoredItem} {blob : Bytes} (h : recordBlob item = .ok blob) :
    blob = (rowMembers item.key item.bandHashes).flatten := by
  simp only [recordBlob, bind_eq_ok_iff, pure_eq_ok_iff] at h
  obtain ⟨_, _, buckets, hbuckets, rfl⟩ := h
  rw [eq_of_bucketsOf hbuckets, rowMembers, rowBuckets, ← List.flatMap_def]

end Pari.Backend
