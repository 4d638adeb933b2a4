/-
# What a Redis namespace holds

The records of a namespace are the rows of its keys, each as the members of its buckets, and
the sorted set holds exactly these members. The scripts change the three keys as the storage
contract says: a rejected batch changes nothing, and deleting a key takes its members out.
-/

import Pari.Backend.Redis

namespace Pari.Backend

open Data Data.Method RedisServer RedisBackend Pari.Format Pari.Core Pari.Index

/-! ## Rows in Redis -/

theorem userField_injective : Function.Injective userField := fun _ _ h =>
  encodeUserKey_injective (congrArg RedisString.bytes h)

/-- The record of a row. -/
def recordOf (key : UInt64) (hashes : List UInt64) : RedisString :=
  ⟨(rowMembers key hashes).flatten⟩

theorem length_of_mem_rowMembers {key : UInt64} {hashes : List UInt64} {member : Bytes}
    (h : member ∈ rowMembers key hashes) : member.length = 20 := by
  obtain ⟨bucket, _, rfl⟩ := List.mem_map.mp h
  exact length_encodeBucketMember bucket key

/-- Cutting a record gives the members it was put together from. -/
theorem blobMembers_recordOf (key : UInt64) (hashes : List UInt64) :
    blobMembers (recordOf key hashes) = (rowMembers key hashes).map RedisString.mk := by
  rw [blobMembers, recordOf, bufferedChunks_flatten_pieces (by decide) fun _ hmem =>
    length_of_mem_rowMembers hmem]

theorem length_recordOf (key : UInt64) (hashes : List UInt64) :
    (recordOf key hashes).bytes.length % 20 = 0 := by
  have hlength : ((rowMembers key hashes).map List.length).sum =
      20 * (rowMembers key hashes).length := by
    rw [List.map_congr_left fun _ hmem => length_of_mem_rowMembers hmem]
    simp [Nat.mul_comm]
  rw [recordOf, List.length_flatten, hlength, Nat.mul_mod_right]

theorem mem_rowMembers_iff {key other : UInt64} {hashes : List UInt64} {bucket : BucketKey} :
    (⟨encodeBucketMember bucket other⟩ : RedisString) ∈
        (rowMembers key hashes).map RedisString.mk ↔
      bucket ∈ rowBuckets hashes ∧ other = key := by
  rw [rowMembers, List.map_map, List.mem_map]
  constructor
  · rintro ⟨candidate, hmem, heq⟩
    obtain ⟨rfl, rfl⟩ := encodeBucketMember_inj.mp (congrArg RedisString.bytes heq)
    exact ⟨hmem, rfl⟩
  · rintro ⟨hmem, rfl⟩
    exact ⟨bucket, hmem, rfl⟩

/-- The records of a hash are the rows. -/
def RecordsOf (fields : OrderedMap RedisString RedisString) (rows : Rows) : Prop :=
  ∀ (field blob : RedisString), fields[field]? = some blob ↔
    ∃ key row, rows key = some row ∧ field = userField key ∧ blob = recordOf key row

/-- The members of a sorted set are those of the rows. -/
def MembersOf (members : OrderedSet RedisString) (rows : Rows) : Prop :=
  ∀ member, member ∈ members ↔
    ∃ bucket key, Filed rows bucket key ∧ member = ⟨encodeBucketMember bucket key⟩

/-- The namespace with these keys holds the rows. -/
structure Stored (server : RedisServer) (keys : RedisKeys) (rows : Rows) : Prop where
  records : ∃ fields, server.hashAt keys.records = .ok fields ∧ RecordsOf fields rows
  buckets : ∃ members, server.membersAt keys.buckets = .ok members ∧ MembersOf members rows

variable {server : RedisServer} {keys : RedisKeys} {rows : Rows}

theorem RecordsOf.getElem? {fields : OrderedMap RedisString RedisString}
    (h : RecordsOf fields rows) (key : UInt64) :
    fields[userField key]? = (rows key).map (recordOf key) := by
  cases hrow : rows key with
  | none =>
      cases hfield : fields[userField key]? with
      | none => rfl
      | some blob =>
          obtain ⟨other, row, hother, heq, _⟩ := (h _ _).mp hfield
          rw [← userField_injective heq, hrow] at hother
          cases hother
  | some row => exact (h _ _).mpr ⟨key, row, hrow, rfl, rfl⟩

theorem RecordsOf.contains {fields : OrderedMap RedisString RedisString}
    (h : RecordsOf fields rows) (key : UInt64) :
    fields.contains (userField key) = (rows key).isSome := by
  rw [← Std.ExtTreeMap.isSome_getElem?_eq_contains, h.getElem?, Option.isSome_map]

theorem RecordsOf.insert {fields : OrderedMap RedisString RedisString}
    (h : RecordsOf fields rows) (key : UInt64) (hashes : List UInt64) :
    RecordsOf (fields.insert (userField key) (recordOf key hashes))
      (Function.update rows key (some hashes)) := by
  intro field blob
  rw [getElem?_insert]
  by_cases heq : userField key = field
  · rw [if_pos heq]
    subst heq
    constructor
    · intro hblob
      exact ⟨key, hashes, Function.update_self key _ _, rfl, (Option.some.inj hblob).symm⟩
    · rintro ⟨other, row, hrow, hfield, rfl⟩
      obtain rfl := userField_injective hfield
      rw [Function.update_self] at hrow
      rw [Option.some.inj hrow]
  · rw [if_neg heq, h]
    refine exists_congr fun other => exists_congr fun row => and_congr_left fun hfield => ?_
    rw [Function.update_of_ne]
    rintro rfl
    exact heq hfield.1.symm

theorem RecordsOf.erase {fields : OrderedMap RedisString RedisString}
    (h : RecordsOf fields rows) (key : UInt64) :
    RecordsOf (fields.erase (userField key)) (Function.update rows key none) := by
  intro field blob
  rw [getElem?_erase]
  by_cases heq : userField key = field
  · rw [if_pos heq]
    subst heq
    refine ⟨nofun, ?_⟩
    rintro ⟨other, row, hrow, hfield, _⟩
    rw [userField_injective hfield, Function.update_self] at hrow
    cases hrow
  · rw [if_neg heq, h]
    refine exists_congr fun other => exists_congr fun row => and_congr_left fun hfield => ?_
    rw [Function.update_of_ne]
    rintro rfl
    exact heq hfield.1.symm

theorem MembersOf.insert {members members' : OrderedSet RedisString} (h : MembersOf members rows)
    {key : UInt64} {hashes : List UInt64} (hfresh : rows key = none)
    (hmem : ∀ member, member ∈ members' ↔
      member ∈ members ∨ member ∈ (rowMembers key hashes).map RedisString.mk) :
    MembersOf members' (Function.update rows key (some hashes)) := by
  intro member
  rw [hmem, h]
  constructor
  · rintro (⟨bucket, other, hfiled, rfl⟩ | hnew)
    · exact ⟨bucket, other, (filed_update_some hfresh bucket other).mpr (Or.inl hfiled), rfl⟩
    · obtain ⟨_, hbytes, rfl⟩ := List.mem_map.mp hnew
      obtain ⟨bucket, hbucket, rfl⟩ := List.mem_map.mp hbytes
      exact ⟨bucket, key, (filed_update_some hfresh bucket key).mpr (Or.inr ⟨hbucket, rfl⟩), rfl⟩
  · rintro ⟨bucket, other, hfiled, rfl⟩
    rcases (filed_update_some hfresh bucket other).mp hfiled with hold | hnew
    · exact Or.inl ⟨bucket, other, hold, rfl⟩
    · exact Or.inr (mem_rowMembers_iff.mpr hnew)

theorem MembersOf.erase {members members' : OrderedSet RedisString} (h : MembersOf members rows)
    {key : UInt64} {hashes : List UInt64} (hrow : rows key = some hashes)
    (hmem : ∀ member, member ∈ members' ↔
      member ∈ members ∧ member ∉ (rowMembers key hashes).map RedisString.mk) :
    MembersOf members' (Function.update rows key none) := by
  intro member
  rw [hmem, h]
  constructor
  · rintro ⟨⟨bucket, other, hfiled, rfl⟩, hnot⟩
    rw [mem_rowMembers_iff] at hnot
    exact ⟨bucket, other, (filed_update_none hrow bucket other).mpr ⟨hfiled, hnot⟩, rfl⟩
  · rintro ⟨bucket, other, hfiled, rfl⟩
    obtain ⟨hold, hnot⟩ := (filed_update_none hrow bucket other).mp hfiled
    refine ⟨⟨bucket, other, hold, rfl⟩, ?_⟩
    rwa [mem_rowMembers_iff]

/-- An untouched namespace holds what it held. -/
theorem Stored.congr {server' : RedisServer} (h : Stored server keys rows)
    (hrecords : server'.value keys.records = server.value keys.records)
    (hbuckets : server'.value keys.buckets = server.value keys.buckets) :
    Stored server' keys rows where
  records := by
    rw [hashAt_congr hrecords]
    exact h.records
  buckets := by
    rw [membersAt_congr hbuckets]
    exact h.buckets

/-- A namespace without records and buckets holds nothing. -/
theorem Stored.of_absent (hrecords : server.entries keys.records = none)
    (hbuckets : server.entries keys.buckets = none) : Stored server keys fun _ => none where
  records := ⟨∅, by rw [hashAt, value, hrecords]; rfl, by simp [RecordsOf]⟩
  buckets := ⟨∅, by rw [membersAt, value, hbuckets]; rfl, by simp [MembersOf, Filed]⟩

/-! ## Storing a batch -/

/-- The arguments of the items of a batch. -/
def itemArguments (items : List StoredItem) : List RedisString :=
  items.flatMap fun item => [userField item.key, recordOf item.key item.bandHashes]

/-- The two arguments of an item, behind the arguments before it. -/
theorem getElem?_itemArguments {before argv : List RedisString} {item : StoredItem}
    {items : List StoredItem} (h : argv = before ++ itemArguments (item :: items)) :
    argv[before.length + 1 - 1]? = some (userField item.key) ∧
      argv[before.length + 1 + 1 - 1]? = some (recordOf item.key item.bandHashes) ∧
      argv = (before ++ [userField item.key, recordOf item.key item.bandHashes]) ++
        itemArguments items := by
  have hsplit : itemArguments (item :: items) = userField item.key ::
      recordOf item.key item.bandHashes :: itemArguments items := rfl
  subst h
  rw [hsplit]
  refine ⟨?_, ?_, ?_⟩
  · rw [Nat.add_sub_cancel, List.getElem?_append_right (le_refl _), Nat.sub_self]
    rfl
  · have hsecond : before.length.succ - before.length = 1 := by omega
    rw [Nat.add_sub_cancel, List.getElem?_append_right (Nat.le_succ _), hsecond]
    rfl
  · simp

/-- The position of the first item whose key is live or comes twice. -/
def firstDuplicate (rows : Rows) : OrderedSet UInt64 → List StoredItem → Option Nat
  | _, [] => none
  | seen, item :: items =>
      if (rows item.key).isSome || seen.contains item.key then some 0
      else (firstDuplicate rows (seen.insert item.key) items).map (· + 1)

/-- The validation loop finds the first duplicate. -/
theorem call_checkItems (h : Stored server keys rows) {argv before : List RedisString}
    {items : List StoredItem} (hargv : argv = before ++ itemArguments items) {item : Int}
    {seen : OrderedSet UInt64} {fields : OrderedSet RedisString}
    (hseen : ∀ key, userField key ∈ fields ↔ key ∈ seen) :
    call server (checkItems keys argv (before.length + 1) item fields items.length) =
      (.ok ((firstDuplicate rows seen items).map fun (position : Nat) =>
        ((2 : Int), item + (position : Int))), server) := by
  induction items generalizing before item seen fields with
  | nil => rfl
  | cons first items ih =>
      obtain ⟨hfield, hblob, hrest⟩ := getElem?_itemArguments hargv
      obtain ⟨stored, hstored, hrecords⟩ := h.records
      rw [List.length_cons, checkItems, call_bind_ok (call_argument hfield),
        call_bind_ok (call_argument hblob), if_neg (by simp [length_recordOf]), firstDuplicate]
      have htaken : call server (fieldTaken keys fields (userField first.key)) =
          (.ok ((rows first.key).isSome || seen.contains first.key), server) := by
        have hcontains : fields.contains (userField first.key) = seen.contains first.key := by
          rw [Bool.eq_iff_iff, Std.ExtTreeSet.contains_iff_mem, Std.ExtTreeSet.contains_iff_mem,
            hseen]
        rw [fieldTaken, hcontains]
        split
        · next hin => rw [hin, Bool.or_true, call_pure]
        · next hout =>
            rw [Bool.not_eq_true] at hout
            rw [call_hexists hstored, hrecords.contains, hout, Bool.or_false]
      rw [call_bind_ok htaken]
      split
      · simp
      · have hnext := @ih (before ++ [userField first.key, recordOf first.key first.bandHashes])
          hrest (item + 1) (seen.insert first.key) (fields.insert (userField first.key))
          (fun key => by rw [mem_insert_iff, mem_insert_iff, hseen, userField_injective.eq_iff])
        rw [List.length_append] at hnext
        rw [show before.length + 1 + 2 = before.length + [userField first.key,
          recordOf first.key first.bandHashes].length + 1 from rfl, hnext, Option.map_map]
        congr 2
        refine congrArg₂ _ (funext fun position => ?_) rfl
        rw [Function.comp_apply, Prod.mk.injEq]
        refine ⟨rfl, ?_⟩
        push_cast
        omega

/-- Storing one item. -/
theorem Stored.insert (h : Stored server keys rows) {item : StoredItem}
    (hfresh : rows item.key = none) :
    ∃ server', call server (do
        hset keys.records (userField item.key) (recordOf item.key item.bandHashes)
        (blobMembers (recordOf item.key item.bandHashes)).forM (zadd keys.buckets)) =
          (.ok (), server') ∧
      Stored server' keys (Function.update rows item.key (some item.bandHashes)) ∧
      Changes [keys.records, keys.buckets] server server' := by
  obtain ⟨fields, hfields, hrecords⟩ := h.records
  obtain ⟨members, hmembers, hbuckets⟩ := h.buckets
  have hsame : (server.putHash keys.records (fields.insert (userField item.key)
      (recordOf item.key item.bandHashes))).membersAt keys.buckets = .ok members := by
    rw [membersAt_congr (value_congr (entries_putHash_of_ne keys.distinct.2.2.symm)), hmembers]
  obtain ⟨server', members', hrun, hmembers', hmem, hchanges⟩ :=
    call_forM_zadd hsame ((rowMembers item.key item.bandHashes).map RedisString.mk)
  refine ⟨server', ?_, ⟨⟨_, ?_, hrecords.insert item.key item.bandHashes⟩,
    ⟨members', hmembers', hbuckets.insert hfresh hmem⟩⟩, ?_⟩
  · rw [call_bind_ok (call_hset hfields), blobMembers_recordOf, hrun]
  · rw [hashAt_congr (value_congr (hchanges.others _ (by simpa using keys.distinct.2.2))),
      hashAt_putHash_self]
  · exact ((changes_putHash _).mono (by simp)).trans (hchanges.mono (by simp))

/-- Storing the items of a batch of new keys. -/
theorem Stored.call_storeItems (h : Stored server keys rows) {argv before : List RedisString}
    {items : List StoredItem} (hargv : argv = before ++ itemArguments items)
    (hfresh : ∀ item ∈ items, rows item.key = none) (hdistinct : (items.map StoredItem.key).Nodup) :
    ∃ server', call server (storeItems keys argv (before.length + 1) items.length) =
        (.ok (), server') ∧
      Stored server' keys (insertRows rows (rowsOfItems items)) ∧
      Changes [keys.records, keys.buckets] server server' := by
  induction items generalizing before server rows with
  | nil => exact ⟨server, rfl, h, .refl _ _⟩
  | cons first items ih =>
      rw [List.forall_mem_cons] at hfresh
      rw [List.map_cons, List.nodup_cons] at hdistinct
      obtain ⟨hfield, hblob, hrest⟩ := getElem?_itemArguments hargv
      obtain ⟨middle, hfirst, hstored, hchanges⟩ := h.insert hfresh.1
      have hothers : ∀ item ∈ items,
          Function.update rows first.key (some first.bandHashes) item.key = none := by
        intro item hmem
        rw [Function.update_of_ne]
        · exact hfresh.2 item hmem
        · intro heq
          exact hdistinct.1 (List.mem_map.mpr ⟨item, hmem, heq⟩)
      obtain ⟨server', hrun, hstored', hchanges'⟩ := ih hstored hrest hothers hdistinct.2
      refine ⟨server', ?_, hstored', hchanges.trans hchanges'⟩
      rw [List.length_append] at hrun
      rw [List.length_cons, storeItems, call_bind_ok (call_argument hfield),
        call_bind_ok (call_argument hblob), ← bind_assoc, call_bind_ok hfirst]
      exact hrun

/-- A batch has no first duplicate exactly when its keys are new and distinct. -/
theorem firstDuplicate_eq_none_iff {seen : OrderedSet UInt64} {items : List StoredItem} :
    firstDuplicate rows seen items = none ↔
      (∀ item ∈ items, rows item.key = none) ∧ (∀ item ∈ items, item.key ∉ seen) ∧
        (items.map StoredItem.key).Nodup := by
  induction items generalizing seen with
  | nil => simp [firstDuplicate]
  | cons item items ih =>
      rw [firstDuplicate]
      split
      · next htaken =>
          refine ⟨nofun, ?_⟩
          rintro ⟨hfresh, hunseen, _⟩
          rw [List.forall_mem_cons] at hfresh hunseen
          simp [hfresh.1, contains_eq_false_iff.mpr hunseen.1] at htaken
      · next hfree =>
          rw [Bool.or_eq_true, not_or, Bool.not_eq_true, Bool.not_eq_true,
            Option.isSome_eq_false_iff, Option.isNone_iff_eq_none, contains_eq_false_iff] at hfree
          rw [Option.map_eq_none_iff, ih, List.forall_mem_cons, List.forall_mem_cons,
            List.map_cons, List.nodup_cons]
          simp only [mem_insert_iff, not_or]
          constructor
          · rintro ⟨hfresh, hunseen, hdistinct⟩
            refine ⟨⟨hfree.1, hfresh⟩, ⟨hfree.2, fun other hmem => (hunseen other hmem).2⟩,
              fun hmem => ?_, hdistinct⟩
            obtain ⟨other, hother, heq⟩ := List.mem_map.mp hmem
            exact (hunseen other hother).1 heq
          · rintro ⟨⟨_, hfresh⟩, ⟨_, hunseen⟩, hnew, hdistinct⟩
            exact ⟨hfresh, fun other hmem =>
              ⟨fun heq => hnew (List.mem_map.mpr ⟨other, hmem, heq⟩), hunseen other hmem⟩, hdistinct⟩

/-- The arguments of an insertion. -/
def insertArguments (seconds : Nat) (items : List StoredItem) : List RedisString :=
  decimal seconds :: decimal items.length :: itemArguments items

/-- The validation loop of the insertion script. -/
theorem Stored.call_checkItems_insertArguments (h : Stored server keys rows) (seconds : Nat)
    (items : List StoredItem) :
    call server (checkItems keys (insertArguments seconds items) 3 1 ∅ items.length) =
      (.ok ((firstDuplicate rows ∅ items).map fun (position : Nat) =>
        ((2 : Int), 1 + (position : Int))), server) :=
  @call_checkItems server keys rows h _ [decimal seconds, decimal items.length] items rfl 1 ∅ ∅
    (by simp)

/-- Without a descriptor the insertion script does nothing. -/
theorem call_insertScript_of_absent (habsent : server.entries keys.metaKey = none)
    (argv : List RedisString) : call server (insertScript keys argv) = (.ok (0, 0), server) := by
  rw [insertScript, keyExists, call_read_bind, habsent]
  rfl

/-- A batch with a duplicate is rejected without a change. -/
theorem Stored.call_insertScript_of_duplicate (h : Stored server keys rows)
    (hpresent : (server.entries keys.metaKey).isSome) {seconds position : Nat}
    {items : List StoredItem} (hduplicate : firstDuplicate rows ∅ items = some position) :
    call server (insertScript keys (insertArguments seconds items)) =
      (.ok (2, 1 + (position : Int)), server) := by
  have hchecked := h.call_checkItems_insertArguments seconds items
  rw [insertScript, keyExists, call_read_bind, hpresent, if_neg (by simp),
    call_bind_ok (call_numberArgument rfl), call_bind_ok (call_numberArgument rfl),
    call_bind_ok hchecked, hduplicate]
  rfl

/-- Refreshing changes nothing but when the keys expire. -/
theorem call_refreshRetention (server : RedisServer) (keys : RedisKeys) {seconds : Nat}
    (hseconds : 0 < seconds) :
    call server (refreshRetention keys seconds) = (.ok (),
      server.touch [keys.metaKey, keys.records, keys.buckets] (server.now + 1000 * seconds)) := by
  rw [refreshRetention, call_bind_ok (call_expire _ _ hseconds),
    call_bind_ok (call_expire _ _ hseconds), call_expire _ _ hseconds]
  simp only [now_touch, touch_touch]
  rfl

/-- The server after a refresh, if one is due. -/
def afterRefresh (due : Bool) (server : RedisServer) (keys : RedisKeys) (seconds : Nat) : RedisServer :=
  if due then
    server.touch [keys.metaKey, keys.records, keys.buckets] (server.now + 1000 * seconds)
  else server

theorem call_refreshIf {due : Bool} {seconds : Nat} (h : due = true → 0 < seconds) :
    call server (refreshIf due keys seconds) = (.ok (), afterRefresh due server keys seconds) := by
  rw [refreshIf, afterRefresh]
  cases due with
  | false => rfl
  | true => exact call_refreshRetention server keys (h rfl)

theorem Stored.of_refresh (h : Stored server keys rows) (due : Bool) (seconds : Nat) :
    Stored (afterRefresh due server keys seconds) keys rows := by
  rw [afterRefresh]
  split
  · exact h.congr (value_touch _ _ _ _) (value_touch _ _ _ _)
  · exact h

/-- A batch without a duplicate is stored, and the retention refreshed. -/
theorem Stored.call_insertScript (h : Stored server keys rows)
    (hpresent : (server.entries keys.metaKey).isSome) (seconds : Nat) {items : List StoredItem}
    (hitems : firstDuplicate rows ∅ items = none) :
    ∃ server', call server (insertScript keys (insertArguments seconds items)) =
        (.ok (1, (items.length : Int)), afterRefresh (seconds > 0) server' keys seconds) ∧
      Stored server' keys (insertRows rows (rowsOfItems items)) ∧
      Changes [keys.records, keys.buckets] server server' := by
  have hchecked := h.call_checkItems_insertArguments seconds items
  obtain ⟨hfresh, _, hdistinct⟩ := firstDuplicate_eq_none_iff.mp hitems
  obtain ⟨server', hrun, hstored, hchanges⟩ :=
    @Stored.call_storeItems server keys rows h (insertArguments seconds items)
      [decimal seconds, decimal items.length] items rfl hfresh hdistinct
  refine ⟨server', ?_, hstored, hchanges⟩
  rw [insertScript, keyExists, call_read_bind, hpresent, if_neg (by simp),
    call_bind_ok (call_numberArgument rfl), call_bind_ok (call_numberArgument rfl),
    call_bind_ok hchecked, hitems]
  have hstoring : call server (storeItems keys (insertArguments seconds items) 3 items.length) =
      (.ok (), server') := hrun
  show call server (storeItems keys (insertArguments seconds items) 3 items.length >>= _) = _
  rw [call_bind_ok hstoring, call_bind_ok (call_refreshIf (by simp)), call_pure]

/-! ## Deleting a batch -/

/-- The arguments of a deletion. -/
def deleteArguments (seconds : Nat) (deleted : List UInt64) : List RedisString :=
  decimal seconds :: deleted.map userField

/-- Reading the records of some keys. -/
theorem Stored.call_readBlobs (h : Stored server keys rows) (deleted : List UInt64) :
    call server (readBlobs keys (deleted.map userField)) =
      (.ok (some (deleted.map fun key => (rows key).map (recordOf key))), server) := by
  obtain ⟨fields, hfields, hrecords⟩ := h.records
  induction deleted with
  | nil => rfl
  | cons key deleted ih =>
      have hread := @call_hget server keys.records (userField key) fields hfields
      rw [hrecords.getElem?] at hread
      have hwidth : ((rows key).map (recordOf key)).any
          (fun blob => blob.bytes.length % 20 != 0) = false := by
        cases rows key with
        | none => rfl
        | some row => simp [length_recordOf]
      rw [List.map_cons, readBlobs, call_bind_ok hread, hwidth, if_neg (by simp), call_bind_ok ih]
      rfl

/-- Deleting one live key. -/
theorem Stored.erase (h : Stored server keys rows) {key : UInt64} {hashes : List UInt64}
    (hrow : rows key = some hashes) :
    ∃ server' server'', call server (hdel keys.records (userField key)) = (.ok true, server') ∧
      call server' ((blobMembers (recordOf key hashes)).forM (zrem keys.buckets)) =
        (.ok (), server'') ∧
      Stored server'' keys (Function.update rows key none) ∧
      Changes [keys.records, keys.buckets] server server'' := by
  obtain ⟨fields, hfields, hrecords⟩ := h.records
  obtain ⟨members, hmembers, hbuckets⟩ := h.buckets
  have hsame : (server.putHash keys.records (fields.erase (userField key))).membersAt
      keys.buckets = .ok members := by
    rw [membersAt_congr (value_congr (entries_putHash_of_ne keys.distinct.2.2.symm)), hmembers]
  obtain ⟨server'', members', hrun, hmembers', hmem, hchanges⟩ :=
    call_forM_zrem hsame ((rowMembers key hashes).map RedisString.mk)
  have hlive : fields.contains (userField key) = true := by
    rw [hrecords.contains, hrow]
    rfl
  refine ⟨server.putHash keys.records (fields.erase (userField key)), server'', ?_, ?_,
    ⟨⟨_, ?_, hrecords.erase key⟩, ⟨members', hmembers', hbuckets.erase hrow hmem⟩⟩, ?_⟩
  · rw [call_hdel hfields, hlive, if_pos rfl]
  · rw [blobMembers_recordOf, hrun]
  · rw [hashAt_congr (value_congr (hchanges.others _ (by simpa using keys.distinct.2.2))),
      hashAt_putHash_self]
  · exact ((changes_putHash _).mono (by simp)).trans (hchanges.mono (by simp))

/-- The deleting loop removes the keys that are still live when their turn comes. -/
theorem Stored.call_removeFields (h : Stored server keys rows) {read : Rows}
    {deleted : List UInt64} (hread : ∀ key ∈ deleted, rows key = none ∨ rows key = read key) :
    ∃ server', call server (removeFields keys ((deleted.map userField).zip
        (deleted.map fun key => (read key).map (recordOf key)))) =
          (.ok ((deleteRows rows deleted).1 : Int), server') ∧
      Stored server' keys (deleteRows rows deleted).2 ∧
      Changes [keys.records, keys.buckets] server server' ∧
      ((deleteRows rows deleted).1 = 0 → server' = server) := by
  induction deleted generalizing server rows with
  | nil => exact ⟨server, rfl, h, .refl _ _, fun _ => rfl⟩
  | cons key deleted ih =>
      rw [List.forall_mem_cons] at hread
      have hrest : ∀ other ∈ deleted, Function.update rows key none other = none ∨
          Function.update rows key none other = read other := by
        intro other hmem
        by_cases heq : other = key
        · exact Or.inl (by rw [heq, Function.update_self])
        · rw [Function.update_of_ne heq]
          exact hread.2 other hmem
      rw [List.map_cons, List.map_cons, List.zip_cons_cons]
      cases hrow : rows key with
      | none =>
          have hsame : Function.update rows key none = rows := by
            rw [← hrow, Function.update_eq_self]
          rw [hsame] at hrest
          obtain ⟨server', hrun, hstored, hchanges, hzero⟩ := ih h hrest
          have hdeleted : deleteRows rows (key :: deleted) = deleteRows rows deleted := by
            rw [deleteRows, hsame, hrow]
            simp
          rw [hdeleted]
          refine ⟨server', ?_, hstored, hchanges, hzero⟩
          cases hblob : read key with
          | none => exact hrun
          | some blob =>
              obtain ⟨fields, hfields, hrecords⟩ := h.records
              have hdead : call server (hdel keys.records (userField key)) =
                  (.ok false, server) := by
                rw [call_hdel hfields, hrecords.contains, hrow]
                rfl
              rw [Option.map_some, removeFields, call_bind_ok hdead, if_neg (by simp)]
              exact hrun
      | some hashes =>
          have hblob : read key = some hashes := by
            rcases hread.1 with hnone | hsame
            · rw [hrow] at hnone
              cases hnone
            · rw [← hsame, hrow]
          obtain ⟨middle, middle', hdelete, hmembers, hstored, hchanges⟩ := h.erase hrow
          obtain ⟨server', hrun, hstored', hchanges', _⟩ := ih hstored hrest
          refine ⟨server', ?_, hstored', hchanges.trans hchanges', ?_⟩
          · rw [hblob, Option.map_some, removeFields, call_bind_ok hdelete, if_pos rfl,
              call_bind_ok hmembers, call_bind_ok hrun, call_pure, deleteRows, hrow]
            simp
          · intro hzero
            rw [deleteRows, hrow] at hzero
            simp at hzero

/-- Without a descriptor the deletion script does nothing. -/
theorem call_deleteScript_of_absent (habsent : server.entries keys.metaKey = none)
    (argv : List RedisString) : call server (deleteScript keys argv) = (.ok (-1), server) := by
  rw [deleteScript, keyExists, call_read_bind, habsent]
  rfl

/-- A batch of deletions removes the live keys, and refreshes the retention if there were any. -/
theorem Stored.call_deleteScript (h : Stored server keys rows)
    (hpresent : (server.entries keys.metaKey).isSome) (seconds : Nat) (deleted : List UInt64) :
    ∃ server', call server (deleteScript keys (deleteArguments seconds deleted)) =
        (.ok ((deleteRows rows deleted).1 : Int), afterRefresh
          (seconds > 0 && ((deleteRows rows deleted).1 : Int) > 0) server' keys seconds) ∧
      Stored server' keys (deleteRows rows deleted).2 ∧
      Changes [keys.records, keys.buckets] server server' ∧
      ((deleteRows rows deleted).1 = 0 → server' = server) := by
  obtain ⟨server', hrun, hstored, hchanges, hzero⟩ :=
    @Stored.call_removeFields server keys rows h rows deleted fun _ _ => Or.inr rfl
  refine ⟨server', ?_, hstored, hchanges, hzero⟩
  rw [deleteScript, keyExists, call_read_bind, hpresent, if_neg (by simp),
    call_bind_ok (call_numberArgument rfl)]
  have hblobs := h.call_readBlobs deleted
  rw [deleteArguments, List.tail_cons, call_bind_ok hblobs]
  dsimp only
  rw [call_bind_ok hrun, call_bind_ok (call_refreshIf (by simp +contextual)), call_pure]

/-! ## Initializing -/

/-- None of the three keys exists. -/
structure Vacant (server : RedisServer) (keys : RedisKeys) : Prop where
  metaKey : server.entries keys.metaKey = none
  records : server.entries keys.records = none
  buckets : server.entries keys.buckets = none

/-- When a key that is given some seconds now expires; zero seconds are no retention. -/
def expiry (server : RedisServer) (seconds : Nat) : Option Nat :=
  if 0 < seconds then some (server.now + 1000 * seconds) else none

/-- A vacant namespace gets its descriptor. -/
theorem call_initializeScript_of_vacant (h : Vacant server keys) (payload : RedisString)
    (seconds : Nat) :
    call server (initializeScript keys [payload, decimal seconds]) =
      (.ok 1, server.setEntry keys.metaKey
        (some { value := .string payload, expiresAt := expiry server seconds })) := by
  rw [initializeScript, keyExists, call_read_bind, keyExists, call_read_bind, keyExists,
    call_read_bind, h.metaKey, h.records, h.buckets, if_neg (by simp),
    call_bind_ok (@call_argument server [payload, decimal seconds] 1 payload rfl), RedisServer.set,
    call_update_bind, call_bind_ok (call_numberArgument rfl)]
  by_cases hseconds : 0 < seconds
  · rw [expireIf, if_pos (by simpa using hseconds), call_bind_ok (call_expire _ _ hseconds),
      call_pure, expiry, if_pos hseconds]
    refine Prod.ext rfl (RedisServer.ext (funext fun other => ?_) rfl)
    by_cases heq : other = keys.metaKey
    · simp [touch, setEntry, heq]
    · simp [touch, setEntry, heq]
  · rw [expireIf, if_neg (by simpa using hseconds), call_bind_ok (call_pure _), call_pure, expiry,
      if_neg hseconds]

/-- Any other namespace is left alone. -/
theorem call_initializeScript_of_not_vacant (h : ¬ Vacant server keys) (argv : List RedisString) :
    call server (initializeScript keys argv) = (.ok 0, server) := by
  have hused : ((server.entries keys.metaKey).isSome || (server.entries keys.records).isSome ||
      (server.entries keys.buckets).isSome) = true := by
    by_contra hvacant
    simp only [Bool.or_eq_true, not_or, Option.not_isSome_iff_eq_none] at hvacant
    exact h ⟨hvacant.1.1, hvacant.1.2, hvacant.2⟩
  rw [initializeScript, keyExists, call_read_bind, keyExists, call_read_bind, keyExists,
    call_read_bind, if_pos hused, call_pure]

theorem Vacant.stored (h : Vacant server keys) (entry : Option RedisEntry) :
    Stored (server.setEntry keys.metaKey entry) keys fun _ => none :=
  .of_absent ((entries_setEntry_of_ne keys.distinct.1.symm entry).trans h.records)
    ((entries_setEntry_of_ne keys.distinct.2.1.symm entry).trans h.buckets)

end Pari.Backend
