/-
# Writing the runs

The spilling loop of the builder. Whatever the capacity of the buffer, the runs it writes are
the sorted pieces of the records of all items, in order; only a fault or a taken name stops it.
-/

import Pari.Build.Spill

namespace Pari.Build

open Data Pari.Format Pari.Store

/-! ## The loop -/

/-- The records not yet spilled, and the names of the runs. -/
structure Spilling where
  buffer : List SpillRecord
  runs : List Path

def spillOneRun (destination : Path) (nonce : Nat) (spilling : Spilling) :
    Method Scratch BuildError Spilling := do
  let path := runPath destination nonce spilling.runs.length
  Scratch.track [path]
  let inode ← Scratch.perform .io fun world => world.createNew path
  Scratch.perform .io fun world =>
    world.writeSynced inode (encodeRun (sortUnstable spilling.buffer))
  return { buffer := [], runs := spilling.runs ++ [path] }

def pushRecord (destination : Path) (nonce : Nat) (options : BuildOptions) (spilling : Spilling)
    (record : SpillRecord) : Method Scratch BuildError Spilling :=
  let buffer := spilling.buffer ++ [record]
  if buffer.length = options.maxBufferRecords then
    spillOneRun destination nonce { spilling with buffer }
  else pure { spilling with buffer }

/-- Seek to an item of both payloads and read its key and its row. -/
def readItem (file : Bytes) (source : Source) (rowBytes item : Nat) :
    Except BuildError (UInt64 × Bytes) := do
  let keyStep ← okOr (checkedMul item 8) .lengthOverflow
  let itemOffset ← okOr (checkedAdd keyStep 8) .lengthOverflow
  let keyPosition ← okOr (checkedAdd source.keys.payloadOffset itemOffset) .lengthOverflow
  let keyRaw ← readExactAt file keyPosition 8
  let rowStep ← okOr (checkedMul item rowBytes) .lengthOverflow
  let rowOffset ← okOr (checkedAdd rowStep 8) .lengthOverflow
  let rowPosition ← okOr (checkedAdd source.bandHashes.payloadOffset rowOffset) .lengthOverflow
  let hashRow ← readExactAt file rowPosition rowBytes
  return (u64OfBytes keyRaw, hashRow)

/-- One turn of the loop over the bands of a row. -/
def spillBand (destination : Path) (nonce : Nat) (options : BuildOptions) (key : UInt64)
    (spilling : Spilling) (slot : Bytes × Nat) : Method Scratch BuildError Spilling := do
  let hash ← Method.lift (okOr (u64Exact? slot.1)
    (.invalidSource "truncated fixed-width band hash"))
  let band ← Method.lift (okOr (tryU32 slot.2) .lengthOverflow)
  pushRecord destination nonce options spilling { band, hash, key }

def spillItem (file : Bytes) (source : Source) (destination : Path) (nonce : Nat)
    (options : BuildOptions) (rowBytes : Nat) (spilling : Spilling) (item : Nat) :
    Method Scratch BuildError Spilling := do
  Scratch.perform .io World.readOn
  let (key, hashRow) ← Method.lift (readItem file source rowBytes item)
  (chunksExact 8 hashRow).zipIdx.foldlM (spillBand destination nonce options key) spilling

/-- A record takes 24 bytes in memory, and a vector at most `isize::MAX`. -/
def bufferFits (options : BuildOptions) : Prop := options.maxBufferRecords * 24 < 2 ^ 63

instance (options : BuildOptions) : Decidable (bufferFits options) :=
  inferInstanceAs (Decidable (_ < _))

def spillRuns (file : Bytes) (source : Source) (destination : Path) (nonce : Nat)
    (options : BuildOptions) : Method Scratch BuildError (List Path) := do
  let rowBytes ← Method.lift (okOr (checkedMul source.bands 8) .lengthOverflow)
  Method.lift (rejectIf (¬ bufferFits options) .capacityOverflow)
  let spilling ← (List.range source.itemCount).foldlM
    (spillItem file source destination nonce options rowBytes) { buffer := [], runs := [] }
  if spilling.buffer.isEmpty then return spilling.runs
  else do
    let spilling ← spillOneRun destination nonce spilling
    return spilling.runs

/-! ## The pieces of the records -/

/-- The pieces that fill up while records are pushed behind a buffer, and what is left in it. -/
def cutPieces {α : Type} (limit : Nat) : List α → List α → List (List α) × List α
  | buffer, [] => ([], buffer)
  | buffer, record :: records =>
      if (buffer ++ [record]).length = limit then
        ((buffer ++ [record]) :: (cutPieces limit [] records).1, (cutPieces limit [] records).2)
      else cutPieces limit (buffer ++ [record]) records

/-- All pieces of a list: those that fill up, and what is left. -/
def piecesOf {α : Type} (limit : Nat) (records : List α) : List (List α) :=
  (cutPieces limit [] records).1 ++
    if (cutPieces limit [] records).2.isEmpty then [] else [(cutPieces limit [] records).2]

section Cutting

variable {α : Type} {limit : Nat} {buffer records more : List α}

theorem cutPieces_append : cutPieces limit buffer (records ++ more) =
    ((cutPieces limit buffer records).1 ++
        (cutPieces limit (cutPieces limit buffer records).2 more).1,
      (cutPieces limit (cutPieces limit buffer records).2 more).2) := by
  induction records generalizing buffer with
  | nil => rfl
  | cons record records ih =>
      rw [List.cons_append, cutPieces, cutPieces]
      split
      · rw [ih]
        rfl
      · exact ih

theorem flatten_cutPieces : (cutPieces limit buffer records).1.flatten ++
    (cutPieces limit buffer records).2 = buffer ++ records := by
  induction records generalizing buffer with
  | nil => exact (List.append_nil _).symm
  | cons record records ih =>
      rw [cutPieces]
      split
      · have hrest := @ih []
        rw [List.nil_append] at hrest
        rw [List.flatten_cons, List.append_assoc, hrest]
        simp
      · rw [ih, List.append_assoc]
        rfl

/-- Cutting loses and reorders nothing. -/
theorem flatten_piecesOf : (piecesOf limit records).flatten = records := by
  have hflatten := @flatten_cutPieces α limit [] records
  rw [List.nil_append] at hflatten
  rw [piecesOf, List.flatten_append]
  split
  · next hempty =>
      rw [List.isEmpty_iff] at hempty
      rw [hempty, List.append_nil] at hflatten
      rw [List.flatten_nil, List.append_nil]
      exact hflatten
  · rw [List.flatten_singleton]
    exact hflatten

/-- The number of pieces is that of full buffers, rounded up. -/
theorem length_cutPieces (hlimit : 0 < limit) (hbuffer : buffer.length < limit) :
    (cutPieces limit buffer records).1.length = (buffer.length + records.length) / limit ∧
      (cutPieces limit buffer records).2.length = (buffer.length + records.length) % limit := by
  induction records generalizing buffer with
  | nil =>
      rw [cutPieces, List.length_nil, List.length_nil, Nat.add_zero]
      exact ⟨(Nat.div_eq_of_lt hbuffer).symm, (Nat.mod_eq_of_lt hbuffer).symm⟩
  | cons record records ih =>
      rw [cutPieces]
      have hlength : (buffer ++ [record]).length = buffer.length + 1 := by simp
      split
      · next hfull =>
          obtain ⟨hpieces, hrest⟩ := @ih [] hlimit
          have hsum : buffer.length + (record :: records).length = limit + records.length := by
            rw [List.length_cons]
            omega
          rw [List.length_cons, hpieces, hrest, hsum, List.length_nil, Nat.zero_add,
            Nat.add_div_left _ hlimit, Nat.add_mod_left]
          exact ⟨rfl, rfl⟩
      · next hroom =>
          obtain ⟨hpieces, hrest⟩ := @ih (buffer ++ [record]) (by omega)
          have hsum : (buffer ++ [record]).length + records.length =
              buffer.length + (record :: records).length := by
            rw [List.length_cons]
            omega
          rw [hpieces, hrest, hsum]
          exact ⟨rfl, rfl⟩

end Cutting

/-! ## Reading an item -/

section Items

variable {crc : Checksum} {file : Bytes} {source : Source} {items : List (UInt64 × List UInt64)}
  {item : UInt64 × List UInt64} {index : Nat}

theorem window_keysPayload (h : source.Reads crc file items) (hitem : items[index]? = some item) :
    window (source.keys.payloadOffset + (index * 8 + 8)) 8 file = u64Bytes item.1 := by
  have hlt : index < items.length := (List.getElem?_eq_some_iff.mp hitem).1
  have hpayload : source.keys.payloadIn file = countedKeys (items.map Prod.fst) :=
    congrArg KnownSection.payload h.view_keys
  have hkey : (items.map Prod.fst)[index]? = some item.1 := by rw [List.getElem?_map, hitem]; rfl
  rw [← window_payloadIn (by rw [h.length_keys]; omega), hpayload, countedKeys,
    window_append_right (by rw [length_u64Bytes]; omega), length_u64Bytes, Nat.add_sub_cancel,
    Nat.mul_comm]
  exact window_u64List hkey

theorem window_hashesPayload (h : source.Reads crc file items)
    (hitem : items[index]? = some item) :
    window (source.bandHashes.payloadOffset + (index * (source.bands * 8) + 8)) (source.bands * 8)
      file = u64List item.2 := by
  obtain ⟨before, after, rfl, hlength⟩ := exists_split_of_getElem? hitem
  have hwidth := h.width
  rw [List.forall_mem_append, List.forall_mem_cons] at hwidth
  have hpayload : source.bandHashes.payloadIn file =
      countedRows ((before ++ item :: after).map Prod.snd) :=
    congrArg KnownSection.payload h.view_bandHashes
  have hbefore : (u64List (before.map Prod.snd).flatten).length = index * (source.bands * 8) := by
    have hrows : ∀ row ∈ before.map Prod.snd, row.length = source.bands := by
      intro row hrow
      obtain ⟨other, hother, rfl⟩ := List.mem_map.mp hrow
      exact hwidth.1 other hother
    rw [length_u64List, length_flatten_rows hrows, List.length_map, hlength]
    ring
  have hwithin : index * (source.bands * 8) + 8 + source.bands * 8 ≤
      source.bandHashes.payloadLength := by
    rw [h.length_bandHashes, List.length_append, List.length_cons, hlength]
    have hmul : (index + (after.length + 1)) * (source.bands * 8) =
        index * (source.bands * 8) + source.bands * 8 + after.length * (source.bands * 8) := by ring
    omega
  rw [← window_payloadIn hwithin, hpayload, countedRows,
    window_append_right (by rw [length_u64Bytes]; omega), length_u64Bytes, Nat.add_sub_cancel,
    List.map_append, List.map_cons, List.flatten_append, List.flatten_cons, u64List_append,
    u64List_append]
  exact window_middle hbefore (by rw [length_u64List, hwidth.2.1]; ring)

/-- Reading an item of a source gives its key and the bytes of its row. -/
theorem readItem_eq_ok (h : source.Reads crc file items) (hitem : items[index]? = some item) :
    readItem file source (source.bands * 8) index = .ok (item.1, u64List item.2) := by
  have hlt : index < items.length := (List.getElem?_eq_some_iff.mp hitem).1
  have hdescribes := h.holds.describes
  have haddressable := hdescribes.addressable
  have hkeysWithin := hdescribes.within _ (mem_of_filter_kind h.keys).1
  have hhashesWithin := hdescribes.within _ (mem_of_filter_kind h.bandHashes).1
  rw [h.length_keys] at hkeysWithin
  rw [h.length_bandHashes] at hhashesWithin
  have hrows : index * (source.bands * 8) + source.bands * 8 ≤
      items.length * (source.bands * 8) := by
    rw [← Nat.succ_mul]
    exact Nat.mul_le_mul_right _ hlt
  simp only [readItem, bind_eq_ok_iff, okOr_eq_ok_iff, checkedMul_eq_some_iff,
    checkedAdd_eq_some_iff, readExactAt_eq_ok_iff, pure_eq_ok_iff]
  refine ⟨_, ⟨by omega, rfl⟩, _, ⟨by omega, rfl⟩, _, ⟨by omega, rfl⟩, _,
    ⟨by omega, window_keysPayload h hitem⟩, _, ⟨by omega, rfl⟩, _, ⟨by omega, rfl⟩, _,
    ⟨by omega, rfl⟩, _, ⟨by omega, window_hashesPayload h hitem⟩, ?_⟩
  rw [u64OfBytes_u64Bytes]

end Items

/-! ## What the loop writes -/

/-- The record of one band of a row. -/
def bandRecord (key : UInt64) (slot : UInt64 × Nat) : SpillRecord :=
  ⟨UInt32.ofNat slot.2, slot.1, key⟩

/-- The records of one row. -/
def rowRecords (key : UInt64) (hashes : List UInt64) : List SpillRecord :=
  hashes.zipIdx.map (bandRecord key)

/-- The records of all items, item by item. -/
def spillRecords (items : List (UInt64 × List UInt64)) : List SpillRecord :=
  (bucketEntries items).map SpillRecord.ofEntry

/-- The files of the runs hold the sorted pieces. -/
def HoldsRuns (destination : Path) (nonce : Nat) (pieces : List (List SpillRecord))
    (files : FileSystem) : Prop :=
  ∀ index piece, pieces[index]? = some piece →
    files.Holds (runPath destination nonce index).location (encodeRun (sortUnstable piece))

/-- The names of the first runs. -/
def runPaths (destination : Path) (nonce count : Nat) : List Path :=
  (List.range count).map (runPath destination nonce)

/-- How far the loop is when it has pushed some records. -/
structure Spilled (destination : Path) (nonce limit : Nat) (records : List SpillRecord)
    (spilling : Spilling) (scratch : Scratch) : Prop where
  buffer : spilling.buffer = (cutPieces limit [] records).2
  runs : spilling.runs = runPaths destination nonce (cutPieces limit [] records).1.length
  written : HoldsRuns destination nonce (cutPieces limit [] records).1 scratch.world.files

section Spilling

variable {destination : Path} {nonce : Nat} {options : BuildOptions} {spilling : Spilling}
  {records : List SpillRecord} {record : SpillRecord} {pieces : List (List SpillRecord)}
  {piece : List SpillRecord} {before : Scratch} {base files : FileSystem}

theorem HoldsRuns.extends (h : HoldsRuns destination nonce pieces base)
    (hextends : base.Extends files) : HoldsRuns destination nonce pieces files :=
  fun index piece hpiece => hextends.holds (h index piece hpiece)

theorem HoldsRuns.append (h : HoldsRuns destination nonce pieces files)
    (hlast : files.Holds (runPath destination nonce pieces.length).location
      (encodeRun (sortUnstable piece))) : HoldsRuns destination nonce (pieces ++ [piece]) files := by
  intro index other hother
  rw [List.getElem?_append] at hother
  split at hother
  · exact h index other hother
  · next hge =>
      rw [List.getElem?_singleton] at hother
      split at hother
      · next hzero =>
          obtain rfl : piece = other := Option.some.inj hother
          obtain rfl : index = pieces.length := by omega
          exact hlast
      · cases hother

theorem runPaths_succ (count : Nat) : runPaths destination nonce (count + 1) =
    runPaths destination nonce count ++ [runPath destination nonce count] := by
  rw [runPaths, List.range_succ, List.map_append]
  rfl

/-- Writing a run. -/
theorem meets_spillOneRun : Meets [[runPath destination nonce spilling.runs.length]]
    (fun spilled after => spilled = ⟨[], spilling.runs ++
        [runPath destination nonce spilling.runs.length]⟩ ∧
      after.world.files.Holds (runPath destination nonce spilling.runs.length).location
        (encodeRun (sortUnstable spilling.buffer)))
    (spillOneRun destination nonce spilling) before := by
  apply Meets.of_created
  intro middle hfree hmiddle
  have hwrite : Makes before.world.files [runPath destination nonce spilling.runs.length]
      (fun _ after => after.world.files = before.world.files.staged
        (runPath destination nonce spilling.runs.length).location
        (encodeRun (sortUnstable spilling.buffer)))
      (Scratch.perform BuildError.io fun world => world.writeSynced before.world.files.nextInode
        (encodeRun (sortUnstable spilling.buffer))) middle :=
    Makes.writeCreated hfree hmiddle fun after hafter => hafter
  apply hwrite.bind
  intro _ last hadds hlast
  apply Makes.lift hadds
  refine ⟨rfl, ?_⟩
  rw [hlast]
  exact FileSystem.holds_staged

/-- Pushing a record. -/
theorem meets_pushRecord (h : Spilled destination nonce options.maxBufferRecords records spilling
      before) :
    Meets (numbered (runPath destination nonce)
        (cutPieces options.maxBufferRecords [] records).1.length
        (cutPieces options.maxBufferRecords [] (records ++ [record])).1.length)
      (Spilled destination nonce options.maxBufferRecords (records ++ [record]))
      (pushRecord destination nonce options spilling record) before := by
  have hcut := @cutPieces_append _ options.maxBufferRecords [] records [record]
  rw [← h.buffer, cutPieces, cutPieces] at hcut
  unfold pushRecord
  dsimp only
  by_cases hfull : (spilling.buffer ++ [record]).length = options.maxBufferRecords
  · rw [if_pos hfull] at hcut ⊢
    have hruns : spilling.runs.length = (cutPieces options.maxBufferRecords [] records).1.length := by
      rw [h.runs, runPaths, List.length_map, List.length_range]
    rw [hcut, List.length_append, List.length_singleton, numbered_succ, ← hruns]
    apply (@meets_spillOneRun destination nonce { spilling with buffer := spilling.buffer ++ [record] }
      before).imp
    rintro _ after hcompletes ⟨rfl, hholds⟩
    refine ⟨by rw [hcut], ?_, ?_⟩
    · rw [hcut, List.length_append, List.length_singleton, runPaths_succ, ← h.runs, ← hruns]
    · rw [hcut]
      apply (h.written.extends hcompletes.steps.holds.keeps).append
      rw [← hruns]
      exact hholds
  · rw [if_neg hfull, cutPieces, List.append_nil] at hcut
    rw [if_neg hfull, hcut, numbered_self]
    apply Meets.pure
    exact ⟨by rw [hcut], by rw [hcut]; exact h.runs, by rw [hcut]; exact h.written⟩

end Spilling

/-! ## Whole runs of the loop -/

section Looping

variable {crc : Checksum} {file : Bytes} {source : Source} {destination : Path} {nonce : Nat}
  {options : BuildOptions} {items : List (UInt64 × List UInt64)} {item : UInt64 × List UInt64}
  {index : Nat} {spilling : Spilling} {records : List SpillRecord} {before : Scratch}

theorem spillBand_eq {key hash : UInt64} (h : index < 2 ^ 32) :
    spillBand destination nonce options key spilling (u64Bytes hash, index) =
      pushRecord destination nonce options spilling (bandRecord key (hash, index)) := by
  unfold spillBand
  rw [u64Exact?_of_length (length_u64Bytes hash), u64OfBytes_u64Bytes, tryU32_of_lt h]
  rfl

theorem length_cutPieces_le {limit : Nat} {more : List SpillRecord} :
    (cutPieces limit [] records).1.length ≤ (cutPieces limit [] (records ++ more)).1.length := by
  rw [cutPieces_append, List.length_append]
  exact Nat.le_add_right _ _

theorem foldl_append_flatMap {α β : Type} {f : α → List β} {list : List α} {first : List β} :
    list.foldl (fun records item => records ++ f item) first = first ++ list.flatMap f := by
  induction list generalizing first with
  | nil => exact (List.append_nil _).symm
  | cons item list ih =>
      rw [List.foldl_cons, ih, List.flatMap_cons, List.append_assoc]

/-- The loop over the bands of a row. -/
theorem meets_foldlM_spillBand {key : UInt64} {hashes : List UInt64}
    (hwidth : hashes.length < 2 ^ 32)
    (h : Spilled destination nonce options.maxBufferRecords records spilling before) :
    Meets (numbered (runPath destination nonce)
        (cutPieces options.maxBufferRecords [] records).1.length
        (cutPieces options.maxBufferRecords [] (records ++ rowRecords key hashes)).1.length)
      (Spilled destination nonce options.maxBufferRecords (records ++ rowRecords key hashes))
      ((chunksExact 8 (u64List hashes)).zipIdx.foldlM (spillBand destination nonce options key)
        spilling) before := by
  have hchunks : (chunksExact 8 (u64List hashes)).zipIdx =
      hashes.zipIdx.map fun slot => (u64Bytes slot.1, slot.2) := by
    rw [u64List, chunksExact_flatMap u64Bytes hashes (by decide) fun value _ =>
      length_u64Bytes value, List.zipIdx_map]
    rfl
  have hrow : hashes.zipIdx.foldl (fun records slot => records ++ [bandRecord key slot]) records =
      records ++ rowRecords key hashes := by
    rw [foldl_append_flatMap, ← List.map_eq_flatMap, rowRecords]
  have hmono : ∀ (records : List SpillRecord) (slot : UInt64 × Nat),
      (cutPieces options.maxBufferRecords [] records).1.length ≤
        (cutPieces options.maxBufferRecords [] (records ++ [bandRecord key slot])).1.length :=
    fun _ _ => length_cutPieces_le
  rw [hchunks, List.foldlM_map, ← hrow]
  apply Meets.foldlM (fun _ _ => runPath_inj) hmono _ h
  intro slot hslot records spilling before hspilled
  have hlt : slot.2 < hashes.length :=
    (List.getElem?_eq_some_iff.mp (List.mem_zipIdx_iff_getElem?.mp hslot)).1
  rw [spillBand_eq (hlt.trans hwidth)]
  exact meets_pushRecord hspilled

/-- One turn of the loop over the items. -/
theorem meets_spillItem (hsource : source.Reads crc file items) (hitem : items[index]? = some item)
    (h : Spilled destination nonce options.maxBufferRecords records spilling before) :
    Meets (numbered (runPath destination nonce)
        (cutPieces options.maxBufferRecords [] records).1.length
        (cutPieces options.maxBufferRecords [] (records ++ rowRecords item.1 item.2)).1.length)
      (Spilled destination nonce options.maxBufferRecords (records ++ rowRecords item.1 item.2))
      (spillItem file source destination nonce options (source.bands * 8) spilling index)
      before := by
  have hread : Meets []
      (fun _ => Spilled destination nonce options.maxBufferRecords records spilling)
      (Scratch.perform BuildError.io World.readOn) before := by
    apply Meets.of_makes
    apply Makes.readOn (.refl _ _)
    intro after hafter
    exact ⟨h.buffer, h.runs, hafter ▸ h.written⟩
  apply hread.bind nofun
  intro _ middle _ hmiddle
  rw [readItem_eq_ok hsource hitem]
  exact meets_foldlM_spillBand
    (hsource.holds.width_lt item (List.mem_of_getElem? hitem)) hmiddle

/-- The loop over the items. -/
theorem meets_foldlM_spillItem (hsource : source.Reads crc file items) :
    Meets (numbered (runPath destination nonce) 0
        (cutPieces options.maxBufferRecords [] (spillRecords items)).1.length)
      (Spilled destination nonce options.maxBufferRecords (spillRecords items))
      ((List.range source.itemCount).foldlM
        (spillItem file source destination nonce options (source.bands * 8)) ⟨[], []⟩) before := by
  have hrange : List.range source.itemCount = items.zipIdx.map Prod.snd := by
    rw [hsource.itemCount, List.zipIdx_map_snd, List.range_eq_range']
  have hall : items.zipIdx.foldl (fun records slot => records ++ rowRecords slot.1.1 slot.1.2) [] =
      spillRecords items := by
    have hitems : items.zipIdx.flatMap (fun slot => rowRecords slot.1.1 slot.1.2) =
        (items.zipIdx.map Prod.fst).flatMap fun item => rowRecords item.1 item.2 := by
      rw [List.flatMap_map]
    have hrow : ∀ item : UInt64 × List UInt64, rowRecords item.1 item.2 =
        (rowEntries item.1 item.2).map SpillRecord.ofEntry := fun item => by
      rw [rowEntries, List.map_map]
      rfl
    rw [foldl_append_flatMap, List.nil_append, hitems, List.zipIdx_map_fst, spillRecords,
      bucketEntries, List.map_flatMap]
    simp only [hrow]
  have hmono : ∀ (records : List SpillRecord) (slot : (UInt64 × List UInt64) × Nat),
      (cutPieces options.maxBufferRecords [] records).1.length ≤
        (cutPieces options.maxBufferRecords [] (records ++ rowRecords slot.1.1 slot.1.2)).1.length :=
    fun _ _ => length_cutPieces_le
  have hstart : Spilled destination nonce options.maxBufferRecords [] ⟨[], []⟩ before :=
    ⟨rfl, rfl, fun _ _ hpiece => by cases hpiece⟩
  rw [hrange, List.foldlM_map, ← hall]
  apply Meets.foldlM (fun _ _ => runPath_inj) hmono _ hstart
  intro slot hslot records spilling before hspilled
  exact meets_spillItem hsource (List.mem_zipIdx_iff_getElem?.mp hslot) hspilled

/-- Spilling writes the sorted pieces of the records of all items. -/
theorem meets_spillRuns (hsource : source.Reads crc file items) (hfits : bufferFits options) :
    Meets (numbered (runPath destination nonce) 0
        (piecesOf options.maxBufferRecords (spillRecords items)).length)
      (fun runs after => runs = runPaths destination nonce
          (piecesOf options.maxBufferRecords (spillRecords items)).length ∧
        HoldsRuns destination nonce (piecesOf options.maxBufferRecords (spillRecords items))
          after.world.files)
      (spillRuns file source destination nonce options) before := by
  have hbands : source.bands < 2 ^ 32 := by
    rw [hsource.bands]
    exact source.layout.metadata.bands.toNat_lt
  have hrow : checkedMul source.bands 8 = some (source.bands * 8) := checkedMul_of_lt (by omega)
  have hpieces : (piecesOf options.maxBufferRecords (spillRecords items)).length =
      (cutPieces options.maxBufferRecords [] (spillRecords items)).1.length +
        if (cutPieces options.maxBufferRecords [] (spillRecords items)).2.isEmpty then 0 else 1 := by
    rw [piecesOf, List.length_append]
    split
    · rfl
    · rfl
  unfold spillRuns
  rw [hrow, rejectIf_of_not (not_not.mpr hfits),
    ← numbered_append (Nat.zero_le _) (hpieces.symm ▸ Nat.le_add_right _ _)]
  apply (@meets_foldlM_spillItem crc file source destination nonce options items before
    hsource).bind (apart_numbered fun _ _ => runPath_inj)
  intro spilling middle _ hspilled
  rw [← hspilled.buffer] at hpieces
  have hpiecesOf : piecesOf options.maxBufferRecords (spillRecords items) =
      (cutPieces options.maxBufferRecords [] (spillRecords items)).1 ++
        if spilling.buffer.isEmpty then [] else [spilling.buffer] := by
    rw [piecesOf, hspilled.buffer]
  by_cases hempty : spilling.buffer.isEmpty
  · rw [if_pos hempty] at hpieces hpiecesOf ⊢
    rw [hpieces, Nat.add_zero, numbered_self, hpiecesOf, List.append_nil]
    exact Meets.pure ⟨hspilled.runs, hspilled.written⟩
  · rw [if_neg hempty] at hpieces hpiecesOf ⊢
    have hruns : spilling.runs.length =
        (cutPieces options.maxBufferRecords [] (spillRecords items)).1.length := by
      rw [hspilled.runs, runPaths, List.length_map, List.length_range]
    have hreturn : numbered (runPath destination nonce)
        (cutPieces options.maxBufferRecords [] (spillRecords items)).1.length
        ((cutPieces options.maxBufferRecords [] (spillRecords items)).1.length + 1) =
          [[runPath destination nonce spilling.runs.length]] ++ [] := by
      rw [numbered_succ, hruns]
      rfl
    rw [hpieces, hreturn]
    apply (@meets_spillOneRun destination nonce spilling middle).bind (apart_nil _)
    rintro _ last hcompletes ⟨rfl, hholds⟩
    apply Meets.pure
    refine ⟨?_, ?_⟩
    · rw [runPaths_succ, ← hspilled.runs, hruns]
    · rw [hpiecesOf]
      apply (hspilled.written.extends hcompletes.steps.holds.keeps).append
      rw [← hruns]
      exact hholds

end Looping

end Pari.Build
