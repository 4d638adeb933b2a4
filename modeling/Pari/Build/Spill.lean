/-
# Spilling sorted runs

The builder reads its source item by item, collects one record for each band in a bounded
buffer, and writes the buffer out as a sorted run whenever it is full. The runs together are the
records of all items, cut into pieces of the buffer's size.
-/

import Pari.Build.Source
import Pari.Data.RunMerge
import Pari.Data.Scratch
import Pari.Store.BucketMap

namespace Pari.Build

open Data Pari.Format Pari.Store

/-! ## Records -/

/-- One key under one hash of its row. -/
@[ext]
structure SpillRecord where
  band : UInt32
  hash : UInt64
  key : UInt64
  deriving DecidableEq, Repr

/-- Records are ordered by band, then by hash, then by key. -/
instance : LinearOrder SpillRecord :=
  LinearOrder.lift' (fun record => toLex (record.band, toLex (record.hash, record.key)))
    fun left right h => by
      have hpair : (left.band, toLex (left.hash, left.key)) =
          (right.band, toLex (right.hash, right.key)) := toLex.injective h
      have hrest : (left.hash, left.key) = (right.hash, right.key) :=
        toLex.injective (congrArg Prod.snd hpair)
      exact SpillRecord.ext (congrArg Prod.fst hpair) (congrArg Prod.fst hrest)
        (congrArg Prod.snd hrest)

/-- `BucketKey::new(record.band, record.hash)`. -/
def SpillRecord.group (record : SpillRecord) : BucketKey := ⟨record.band, record.hash⟩

/-- The entry of a bucket map that a record stands for. -/
def SpillRecord.entry (record : SpillRecord) : BucketKey × UInt64 := (record.group, record.key)

def SpillRecord.ofEntry (entry : BucketKey × UInt64) : SpillRecord :=
  ⟨entry.1.band, entry.1.hash, entry.2⟩

def spillRecordBytes : Nat := 20

/-- `write_spill_record`. -/
def encodeSpillRecord (record : SpillRecord) : Bytes :=
  u32Bytes record.band ++ (u64Bytes record.hash ++ u64Bytes record.key)

/-- `read_spill_record`: the record, and what the reader has still to deliver. -/
def readSpillRecord (reader : Bytes) : Except BuildError (Option (SpillRecord × Bytes)) :=
  if reader.length = 0 then .ok none
  else if reader.length < spillRecordBytes then .error (.invalidSource "truncated spill record")
  else
    .ok (some ({
      band := u32OfBytes (window 0 4 reader)
      hash := u64OfBytes (window 4 8 reader)
      key := u64OfBytes (window 12 8 reader) }, reader.drop spillRecordBytes))

/-- The contents of the file of a run. -/
def encodeRun (records : List SpillRecord) : Bytes := records.flatMap encodeSpillRecord

section Records

variable {record left right : SpillRecord} {rest : Bytes}

@[simp]
theorem entry_ofEntry (entry : BucketKey × UInt64) : (SpillRecord.ofEntry entry).entry = entry := rfl

@[simp]
theorem ofEntry_entry (record : SpillRecord) : SpillRecord.ofEntry record.entry = record := rfl

@[simp]
theorem length_encodeSpillRecord (record : SpillRecord) :
    (encodeSpillRecord record).length = spillRecordBytes := by
  simp [encodeSpillRecord, spillRecordBytes]

@[simp]
theorem readSpillRecord_nil : readSpillRecord [] = .ok none := rfl

/-- Reading back what was written. -/
theorem readSpillRecord_encode (record : SpillRecord) (rest : Bytes) :
    readSpillRecord (encodeSpillRecord record ++ rest) = .ok (some (record, rest)) := by
  have hlength : (encodeSpillRecord record ++ rest).length = spillRecordBytes + rest.length := by
    rw [List.length_append, length_encodeSpillRecord]
  have hband : window 0 4 (encodeSpillRecord record ++ rest) = u32Bytes record.band := by
    rw [encodeSpillRecord, List.append_assoc]
    exact window_prefix (length_u32Bytes _)
  have hhash : window 4 8 (encodeSpillRecord record ++ rest) = u64Bytes record.hash := by
    rw [encodeSpillRecord, List.append_assoc, List.append_assoc]
    exact window_middle (length_u32Bytes _) (length_u64Bytes _)
  have hkey : window 12 8 (encodeSpillRecord record ++ rest) = u64Bytes record.key := by
    rw [encodeSpillRecord, ← List.append_assoc, List.append_assoc]
    exact window_middle (by simp) (length_u64Bytes _)
  rw [readSpillRecord, if_neg (by rw [hlength]; simp [spillRecordBytes]),
    if_neg (by rw [hlength]; omega), hband, hhash, hkey,
    List.drop_left' (length_encodeSpillRecord record)]
  simp

theorem SpillRecord.le_iff : left ≤ right ↔
    left.group < right.group ∨ left.group = right.group ∧ left.key ≤ right.key := by
  have hle : left ≤ right ↔ left.band < right.band ∨ left.band = right.band ∧
      (left.hash < right.hash ∨ left.hash = right.hash ∧ left.key ≤ right.key) := by
    refine Prod.Lex.le_iff.trans ?_
    exact or_congr_right (and_congr_right fun _ => Prod.Lex.le_iff)
  rw [hle, BucketKey.lt_iff, SpillRecord.group, SpillRecord.group, BucketKey.mk.injEq]
  tauto

end Records

/-! ## Temporary names -/

/-- `{nonce:032x}` -/
def hexNonce (nonce : Nat) : String :=
  String.ofList (List.leftpad 32 '0' (Nat.toDigits 16 nonce))

/-- `build_nonce`, from the nanoseconds since the epoch, if the clock is not before it. -/
def buildNonce (clock : Option Nat) (processId : Nat) : Except BuildError Nat := do
  let duration ← okOr clock (.invalidSource "system clock is before UNIX epoch")
  return duration ^^^ processId

/-- `.{name}.{nonce:032x}.{suffix}.tmp` -/
def tempName (name : String) (nonce : Nat) (suffix : String) : String :=
  "." ++ name ++ "." ++ hexNonce nonce ++ "." ++ suffix ++ ".tmp"

def tempPath (destination : Path) (nonce : Nat) (suffix : String) : Path where
  parent := destination.parent
  fileName := some (tempName (destination.fileName.getD "pari") nonce suffix)

/-- `run-{index}` -/
def runPath (destination : Path) (nonce index : Nat) : Path :=
  tempPath destination nonce ("run-" ++ toString index)

/-- `bucket-{index}` -/
def bucketPath (destination : Path) (nonce index : Nat) : Path :=
  tempPath destination nonce ("bucket-" ++ toString index)

section Names

variable {destination : Path} {nonce left right : Nat} {suffix suffix' : String}

theorem tempPath_inj (h : (tempPath destination nonce suffix).location =
    (tempPath destination nonce suffix').location) : suffix = suffix' := by
  have hname := Option.some.inj (congrArg Prod.snd h)
  have hlist := congrArg String.toList hname
  simp only [tempName, String.toList_append, List.append_assoc, List.append_cancel_left_eq,
    List.append_cancel_right_eq] at hlist
  exact String.toList_inj.mp hlist

theorem toString_inj (h : toString left = toString right) : left = right := by
  have hdigits : Nat.toDigits 10 left = Nat.toDigits 10 right := by
    rw [Nat.toString_eq_ofList_toDigits, Nat.toString_eq_ofList_toDigits] at h
    exact String.ofList_injective h
  rw [← @Nat.ofDigitChars_toDigits 10 left (by decide) (by decide), hdigits,
    Nat.ofDigitChars_toDigits (by decide) (by decide)]

theorem runPath_inj (h : (runPath destination nonce left).location =
    (runPath destination nonce right).location) : left = right := by
  have hsuffix := congrArg String.toList (tempPath_inj h)
  rw [String.toList_append, String.toList_append, List.append_cancel_left_eq] at hsuffix
  exact toString_inj (String.toList_inj.mp hsuffix)

theorem bucketPath_inj (h : (bucketPath destination nonce left).location =
    (bucketPath destination nonce right).location) : left = right := by
  have hsuffix := congrArg String.toList (tempPath_inj h)
  rw [String.toList_append, String.toList_append, List.append_cancel_left_eq] at hsuffix
  exact toString_inj (String.toList_inj.mp hsuffix)

/-- Suffixes that begin with different characters give different names. -/
theorem tempPath_ne (h : suffix.toList.head? ≠ suffix'.toList.head?) :
    (tempPath destination nonce suffix).location ≠ (tempPath destination nonce suffix').location := by
  intro heq
  rw [tempPath_inj heq] at h
  exact h rfl

/-- A temporary name is longer than the name of the destination. -/
theorem tempPath_ne_destination :
    (tempPath destination nonce suffix).location ≠ destination.location := by
  intro h
  have hname : some (tempName (destination.fileName.getD "pari") nonce suffix) =
      destination.fileName := congrArg Prod.snd h
  have hlength := congrArg (fun name => (name.getD "pari").length) hname
  simp only [Option.getD_some, tempName, String.length_append] at hlength
  have hdot : ".".length = 1 := rfl
  omega

/-- A temporary name whose suffix begins with one of some characters. -/
def Begins (destination : Path) (nonce : Nat) (heads : List Char) (path : Path) : Prop :=
  ∃ suffix, path = tempPath destination nonce suffix ∧
    ∃ head ∈ heads, suffix.toList.head? = some head

/-- A temporary name is hidden. -/
theorem location_ne_of_begins {heads : List Char} {path other : Path}
    (h : Begins destination nonce heads path)
    (hother : (other.fileName.getD "").toList.head? ≠ some '.') : path.location ≠ other.location := by
  obtain ⟨suffix, rfl, -⟩ := h
  intro heq
  have hname : some (tempName (destination.fileName.getD "pari") nonce suffix) = other.fileName :=
    congrArg Prod.snd heq
  rw [← hname, Option.getD_some] at hother
  simp [tempName, String.toList_append] at hother

/-- Names that begin differently are different. -/
theorem apart_of_begins {names names' : List Path} {heads heads' : List Char}
    (h : ∀ path ∈ names, Begins destination nonce heads path)
    (h' : ∀ path ∈ names', Begins destination nonce heads' path)
    (hheads : ∀ head ∈ heads, head ∉ heads') : Apart names names' := by
  intro path hpath other hother heq
  obtain ⟨suffix, rfl, head, hhead, hbegin⟩ := h path hpath
  obtain ⟨suffix', rfl, head', hhead', hbegin'⟩ := h' other hother
  rw [tempPath_inj heq, hbegin'] at hbegin
  rw [← Option.some.inj hbegin] at hhead
  exact hheads head' hhead hhead'

theorem begins_append {groups groups' : List (List Path)} {heads heads' : List Char}
    (h : ∀ path ∈ groups.flatten, Begins destination nonce heads path)
    (h' : ∀ path ∈ groups'.flatten, Begins destination nonce heads' path) :
    ∀ path ∈ (groups ++ groups').flatten, Begins destination nonce (heads ++ heads') path := by
  intro path hpath
  rw [List.flatten_append, List.mem_append] at hpath
  rcases hpath with hleft | hright
  · obtain ⟨suffix, hsuffix, head, hhead, hbegin⟩ := h path hleft
    exact ⟨suffix, hsuffix, head, List.mem_append_left _ hhead, hbegin⟩
  · obtain ⟨suffix, hsuffix, head, hhead, hbegin⟩ := h' path hright
    exact ⟨suffix, hsuffix, head, List.mem_append_right _ hhead, hbegin⟩

theorem begins_runPath {index : Nat} : Begins destination nonce ['r'] (runPath destination nonce index) :=
  ⟨_, rfl, 'r', List.mem_singleton_self _, by rw [String.toList_append]; rfl⟩

theorem begins_bucketPath {index : Nat} :
    Begins destination nonce ['b'] (bucketPath destination nonce index) :=
  ⟨_, rfl, 'b', List.mem_singleton_self _, by rw [String.toList_append]; rfl⟩

end Names

end Pari.Build
