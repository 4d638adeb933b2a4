/-
# The operations of the Redis backend

Without retention a namespace keeps its descriptor, the records of its rows and their bucket
members, and every operation answers from the rows as the storage contract says. A batch with
a duplicate is refused with the first key that is live or comes twice.
-/

import Pari.Backend.RedisNamespace

namespace Pari.Backend

open Data Data.Method RedisServer Pari.Format Pari.Core Pari.Index

namespace RedisBackend

variable {backend backend' : RedisBackend} {descriptor : IndexDescriptor} {rows : Rows}

/-! ## Requests -/

/-- The handle after a round trip that left this server. -/
def answered (backend : RedisBackend) (connection : RedisServer) : RedisBackend :=
  { backend.bumpRoundTrip with connection }

@[simp]
theorem connection_answered (backend : RedisBackend) (connection : RedisServer) :
    (backend.answered connection).connection = connection := rfl

theorem call_request {α : Type} {operation : String} {command : RedisKeys → RedisCommand α}
    {reply : α} {server : RedisServer}
    (h : call backend.connection (command backend.keys) = (.ok reply, server)) :
    call backend (request operation command) = (.ok reply, backend.answered server) := by
  rw [request, call_update_bind, call_read_bind, call_onPart]
  show (Except.mapError _ (call backend.connection (command backend.keys)).1,
    { backend.bumpRoundTrip with
      connection := (call backend.connection (command backend.keys)).2 }) = _
  rw [h]
  rfl

theorem call_request_error {α : Type} {operation : String} {command : RedisKeys → RedisCommand α}
    {error : RedisError} {server : RedisServer}
    (h : call backend.connection (command backend.keys) = (.error error, server)) :
    call backend (request operation command) =
      (.error (redisError operation error), backend.answered server) := by
  rw [request, call_update_bind, call_read_bind, call_onPart]
  show (Except.mapError _ (call backend.connection (command backend.keys)).1,
    { backend.bumpRoundTrip with
      connection := (call backend.connection (command backend.keys)).2 }) = _
  rw [h]
  rfl

/-! ## Namespaces without retention -/

/-- The descriptor of the namespace is stored, and does not expire. -/
def Describes (server : RedisServer) (keys : RedisKeys) (descriptor : IndexDescriptor) : Prop :=
  ∃ payload, encodeDescriptor descriptor = .ok payload ∧
    server.entries keys.metaKey = some { value := .string ⟨payload⟩, expiresAt := none }

/-- The namespace of a handle keeps the rows under a descriptor without retention. -/
structure Keeps (backend : RedisBackend) (descriptor : IndexDescriptor) (rows : Rows) : Prop where
  retention : backend.retentionSeconds = none
  described : Describes backend.connection backend.keys descriptor
  width : ∀ key row, rows key = some row → row.length = descriptor.params.bands
  stored : Stored backend.connection backend.keys rows

theorem Keeps.answered (h : backend.Keeps descriptor rows) :
    (backend.answered backend.connection).Keeps descriptor rows :=
  ⟨h.retention, h.described, h.width, h.stored⟩

theorem Keeps.present (h : backend.Keeps descriptor rows) :
    (backend.connection.entries backend.keys.metaKey).isSome := by
  obtain ⟨payload, _, hentry⟩ := h.described
  rw [hentry]
  rfl

theorem Keeps.retentionArgument (h : backend.Keeps descriptor rows) :
    retentionArgument backend = 0 := by
  rw [RedisBackend.retentionArgument, h.retention]
  rfl

/-- The descriptor stays when only records and buckets change. -/
theorem Keeps.of_changes (h : backend.Keeps descriptor rows) {server : RedisServer} {rows' : Rows}
    (hstored : Stored server backend.keys rows')
    (hchanges : Changes [backend.keys.records, backend.keys.buckets] backend.connection server)
    (hwidth : ∀ key row, rows' key = some row → row.length = descriptor.params.bands) :
    (backend.answered server).Keeps descriptor rows' := by
  refine ⟨h.retention, ?_, hwidth, hstored⟩
  obtain ⟨payload, hpayload, hentry⟩ := h.described
  refine ⟨payload, hpayload, (hchanges.others _ ?_).trans hentry⟩
  have hdistinct := backend.keys.distinct
  simpa using ⟨hdistinct.1, hdistinct.2.1⟩

/-- The handle after it initialized its namespace. -/
def withDescriptor (backend : RedisBackend) (descriptor : IndexDescriptor) (payload : Bytes) :
    RedisBackend :=
  { backend.answered (backend.connection.setEntry backend.keys.metaKey
      (some { value := .string ⟨payload⟩,
              expiresAt := expiry backend.connection
                (descriptor.retention.elim 0 Duration.secs).toNat })) with
    retentionSeconds := descriptor.retention.map Duration.secs }

/-- A vacant namespace is initialized. -/
theorem call_initializeNamespace_of_vacant (hvacant : Vacant backend.connection backend.keys)
    {payload : Bytes} (hpayload : encodeDescriptor descriptor = .ok payload) :
    call backend (initializeNamespace descriptor) =
      (.ok (), backend.withDescriptor descriptor payload) := by
  have hrun := call_initializeScript_of_vacant hvacant ⟨payload⟩
    (descriptor.retention.elim 0 Duration.secs).toNat
  rw [initializeNamespace, hpayload, call_lift_ok_bind]
  dsimp only
  rw [call_bind_ok (call_request hrun), rejectIf_of_not (by simp), call_lift_ok_bind, call_update]
  rfl

theorem call_initializeNamespace_of_not_vacant
    (hvacant : ¬ Vacant backend.connection backend.keys) :
    call backend (initializeNamespace descriptor) =
      (.error .alreadyExists, backend.answered backend.connection) := by
  obtain ⟨payload, hpayload, _⟩ := decodeDescriptor_encodeDescriptor descriptor
  have hrun := call_initializeScript_of_not_vacant hvacant
    [⟨payload⟩, decimal (descriptor.retention.elim 0 Duration.secs).toNat]
  rw [initializeNamespace, hpayload, call_lift_ok_bind]
  dsimp only
  rw [call_bind_ok (call_request hrun)]
  rfl

/-- What the initialization of a namespace did, if it succeeded. -/
theorem initialized_of_ok (h : call backend (initializeNamespace descriptor) = (.ok (), backend')) :
    ∃ payload, encodeDescriptor descriptor = .ok payload ∧
      Vacant backend.connection backend.keys ∧
      backend' = backend.withDescriptor descriptor payload := by
  obtain ⟨payload, hpayload, _⟩ := decodeDescriptor_encodeDescriptor descriptor
  by_cases hvacant : Vacant backend.connection backend.keys
  · rw [call_initializeNamespace_of_vacant hvacant hpayload] at h
    exact ⟨payload, hpayload, hvacant, (congrArg Prod.snd h).symm⟩
  · rw [call_initializeNamespace_of_not_vacant hvacant] at h
    cases h

/-- Initializing a namespace without retention leaves it empty. -/
theorem keeps_of_initializeNamespace
    (h : call backend (initializeNamespace descriptor) = (.ok (), backend'))
    (hretention : descriptor.retention = none) :
    backend'.Keeps descriptor fun _ => none := by
  obtain ⟨payload, hpayload, hvacant, rfl⟩ := initialized_of_ok h
  refine ⟨?_, ⟨payload, hpayload, ?_⟩, by simp, hvacant.stored _⟩
  · rw [withDescriptor, hretention]
    rfl
  · rw [withDescriptor, hretention]
    exact entries_setEntry_self _

/-! ## Operations -/

theorem Keeps.containsMany (h : backend.Keeps descriptor rows) (keys : List UInt64) :
    ∃ backend', call backend (containsMany keys) =
        (.ok (keys.map fun key => (rows key).isSome), backend') ∧
      backend'.Keeps descriptor rows := by
  rw [RedisBackend.containsMany]
  split
  · next hempty =>
      rw [List.isEmpty_iff.mp hempty]
      exact ⟨backend, rfl, h⟩
  · obtain ⟨fields, hfields, hrecords⟩ := h.stored.records
    refine ⟨backend.answered backend.connection, call_request ?_, h.answered⟩
    have hflags : (keys.map fun key => (rows key).isSome) =
        (keys.map userField).map fields.contains := by
      rw [List.map_map]
      exact List.map_congr_left fun key _ => (hrecords.contains key).symm
    rw [hflags]
    exact call_mapM_ok fun field _ => call_hexists hfields

/-- The records of a batch whose rows have as many bands as an index can have. -/
theorem mapM_encodeItem {items : List StoredItem}
    (hwidth : ∀ item ∈ items, item.bandHashes.length < 2 ^ 32) :
    ∃ encoded, items.mapM encodeItem = .ok encoded ∧ encoded.flatten = itemArguments items := by
  refine ⟨items.map fun item => [userField item.key, recordOf item.key item.bandHashes],
    mapM_eq_ok_map fun item hmem => ?_, ?_⟩
  · rw [encodeItem, recordBlob_eq_ok (hwidth item hmem), ok_bind]
    rfl
  · rw [itemArguments, List.flatMap_def]

/-- The insertion of a batch that is not empty is one script. -/
theorem Keeps.insertMany_eq (h : backend.Keeps descriptor rows) {items : List StoredItem}
    (hitems : items ≠ []) (hwidth : ∀ item ∈ items, item.bandHashes.length < 2 ^ 32)
    {code detail : Int} {server : RedisServer}
    (hrun : call backend.connection (insertScript backend.keys (insertArguments 0 items)) =
      (.ok (code, detail), server)) :
    call backend (insertMany items) = (insertReply items code detail, backend.answered server) := by
  obtain ⟨encoded, hencoded, hflatten⟩ := mapM_encodeItem hwidth
  rw [RedisBackend.insertMany, if_neg (by simpa using hitems), hencoded, call_lift_ok_bind,
    call_read_bind, h.retentionArgument, hflatten, call_bind_ok (call_request hrun), call_lift]

/-- A batch of new distinct keys is stored. -/
theorem Keeps.insertMany (h : backend.Keeps descriptor rows) {items : List StoredItem}
    (hwidth : ∀ item ∈ items, item.bandHashes.length = descriptor.params.bands)
    (hitems : firstDuplicate rows ∅ items = none) :
    ∃ backend', call backend (insertMany items) = (.ok (), backend') ∧
      backend'.Keeps descriptor (insertRows rows (rowsOfItems items)) := by
  by_cases hempty : items = []
  · rw [hempty]
    exact ⟨backend, rfl, h⟩
  · have hbands := bands_lt descriptor.toLshConfig
    obtain ⟨server, hrun, hstored, hchanges⟩ := h.stored.call_insertScript h.present 0 hitems
    have hsame : afterRefresh (decide (0 > 0)) server backend.keys 0 = server := rfl
    rw [hsame] at hrun
    refine ⟨backend.answered server, ?_, h.of_changes hstored hchanges ?_⟩
    · rw [h.insertMany_eq hempty (fun item hmem => (hwidth item hmem).trans_lt hbands) hrun]
      rfl
    · exact width_insertRows h.width (List.forall_mem_map.mpr hwidth)

/-- A batch with a duplicate is refused. -/
theorem Keeps.insertMany_of_duplicate (h : backend.Keeps descriptor rows)
    {items : List StoredItem}
    (hwidth : ∀ item ∈ items, item.bandHashes.length = descriptor.params.bands)
    {position : Nat} {item : StoredItem} (hitems : firstDuplicate rows ∅ items = some position)
    (hitem : items[position]? = some item) :
    call backend (RedisBackend.insertMany items) =
      (.error (.duplicateKey item.key), backend.answered backend.connection) := by
  have hbands := bands_lt descriptor.toLshConfig
  have hempty : items ≠ [] := by
    rintro rfl
    cases hitem
  have hrun := @Stored.call_insertScript_of_duplicate _ _ _ h.stored h.present 0 _ _ hitems
  rw [h.insertMany_eq hempty (fun item hmem => (hwidth item hmem).trans_lt hbands) hrun]
  have hposition : (1 + (position : Int) - 1).toNat = position := by omega
  rw [insertReply, if_neg (by decide), if_neg (by decide), if_pos rfl, if_neg (by omega),
    hposition, hitem]

/-- The members between the bounds of a bucket. -/
def membersInRange (members : OrderedSet RedisString) (bucket : BucketKey) : List RedisString :=
  members.toList.filter fun member =>
    decide (bucketPrefix bucket ++ List.replicate keyBytes 0 ≤ member.bytes) &&
      decide (member.bytes ≤ bucketPrefix bucket ++ List.replicate keyBytes 255)

/-- The range of a bucket holds the members encoded for it. -/
theorem mem_membersInRange_iff {members : OrderedSet RedisString} (h : MembersOf members rows)
    {bucket : BucketKey} {member : RedisString} :
    member ∈ membersInRange members bucket ↔
      ∃ key, Filed rows bucket key ∧ member = ⟨encodeBucketMember bucket key⟩ := by
  rw [membersInRange, List.mem_filter, mem_set_toList_iff, h, Bool.and_eq_true,
    decide_eq_true_eq, decide_eq_true_eq]
  constructor
  · rintro ⟨⟨other, key, hfiled, rfl⟩, hrange⟩
    obtain rfl := mem_bucketLexRange_iff.mp hrange
    exact ⟨key, hfiled, rfl⟩
  · rintro ⟨key, hfiled, rfl⟩
    exact ⟨⟨bucket, key, hfiled, rfl⟩, mem_bucketLexRange_iff.mpr rfl⟩

/-- The key of a member of a bucket. -/
def memberKey (bucket : BucketKey) (member : RedisString) : UInt64 :=
  (decodeBucketMember bucket member.bytes).toOption.getD 0

theorem memberKey_encodeBucketMember (bucket : BucketKey) (key : UInt64) :
    memberKey bucket ⟨encodeBucketMember bucket key⟩ = key := by
  rw [memberKey, decodeBucketMember_encodeBucketMember]
  rfl

/-- The rows of a reply are decoded one by one. -/
theorem decodeRows_membersInRange {members : OrderedSet RedisString} (h : MembersOf members rows)
    (buckets : List BucketKey) :
    decodeRows ((buckets.map (membersInRange members)).zip buckets) =
      .ok (buckets.map fun bucket => (membersInRange members bucket).map (memberKey bucket)) := by
  have hrows : (buckets.map (membersInRange members)).zip buckets =
      buckets.map fun bucket => (membersInRange members bucket, bucket) := by
    conv_lhs => rw [← List.map_id buckets, List.map_map]
    rw [List.zip_map', Function.comp_id]
    rfl
  rw [hrows, decodeRows, List.mapM_map]
  refine mapM_eq_ok_map fun bucket _ => mapM_eq_ok_map fun member hmem => ?_
  obtain ⟨key, _, rfl⟩ := (mem_membersInRange_iff h).mp hmem
  rw [memberKey_encodeBucketMember]
  exact decodeBucketMember_encodeBucketMember bucket key

theorem Keeps.queryBuckets (h : backend.Keeps descriptor rows) (buckets : List BucketKey) :
    ∃ (members : BucketKey → List UInt64) (backend' : RedisBackend),
      call backend (queryBuckets buckets) = (.ok (buckets.map members), backend') ∧
      (∀ bucket key, key ∈ members bucket ↔ Filed rows bucket key) ∧
      backend'.Keeps descriptor rows := by
  obtain ⟨members, hmembers, hfiled⟩ := h.stored.buckets
  have hmem : ∀ bucket key,
      key ∈ (membersInRange members bucket).map (memberKey bucket) ↔ Filed rows bucket key := by
    intro bucket key
    rw [List.mem_map]
    constructor
    · rintro ⟨member, hmember, rfl⟩
      obtain ⟨other, hother, rfl⟩ := (mem_membersInRange_iff hfiled).mp hmember
      rwa [memberKey_encodeBucketMember]
    · intro hkey
      exact ⟨_, (mem_membersInRange_iff hfiled).mpr ⟨key, hkey, rfl⟩,
        memberKey_encodeBucketMember bucket key⟩
  by_cases hempty : buckets = []
  · rw [hempty]
    exact ⟨_, backend, rfl, hmem, h⟩
  · refine ⟨_, backend.answered backend.connection, ?_, hmem, h.answered⟩
    have hrun : call backend.connection (buckets.mapM fun bucket =>
        zrangebylex backend.keys.buckets ⟨(bucketLexRange bucket).1⟩ ⟨(bucketLexRange bucket).2⟩) =
        (.ok (buckets.map (membersInRange members)), backend.connection) :=
      call_mapM_ok fun bucket _ => call_zrangebylex hmembers _ _
    rw [RedisBackend.queryBuckets, if_neg (by simpa using hempty), call_bind_ok (call_request hrun),
      rejectIf_of_not (by simp), call_lift_ok_bind, call_lift, decodeRows_membersInRange hfiled]

theorem Keeps.deleteMany (h : backend.Keeps descriptor rows) (keys : List UInt64) :
    ∃ backend', call backend (deleteMany keys) = (.ok (deleteRows rows keys).1, backend') ∧
      backend'.Keeps descriptor (deleteRows rows keys).2 := by
  rw [RedisBackend.deleteMany]
  split
  · next hempty =>
      rw [List.isEmpty_iff.mp hempty]
      exact ⟨backend, rfl, h⟩
  · obtain ⟨server, hrun, hstored, hchanges, _⟩ := h.stored.call_deleteScript h.present 0 keys
    have hsame : afterRefresh (decide (0 > 0) && decide (((deleteRows rows keys).1 : Int) > 0))
        server backend.keys 0 = server := rfl
    rw [hsame] at hrun
    refine ⟨backend.answered server, ?_, h.of_changes hstored hchanges ?_⟩
    · rw [call_read_bind, h.retentionArgument, call_bind_ok (call_request hrun), call_lift,
        deleteReply, if_neg (by omega), if_neg (by omega), if_pos (by omega), Int.toNat_natCast]
    · intro key row hrow
      rw [deleteRows_snd] at hrow
      dsimp only at hrow
      split at hrow
      · cases hrow
      · exact h.width key row hrow

end RedisBackend

end Pari.Backend
