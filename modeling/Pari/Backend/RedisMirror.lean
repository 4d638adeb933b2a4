/-
# The Redis backend and the memory backend

Any sequence of requests on a namespace without retention is answered by the Redis backend as
by the memory backend, errors included: both keep the same rows. The rows of a bucket query
are compared as sets, and statistics by their numbers of items and of memberships, as far as
the numbers fit their type.
-/

import Pari.Backend.MemoryIndex
import Pari.Backend.RedisOperations

namespace Pari.Backend

open Data Data.Method RedisServer Pari.Format Pari.Core Pari.Index

/-! ## Requests -/

inductive Request
  | containsMany (keys : List UInt64)
  | insertMany (items : List StoredItem)
  | deleteMany (keys : List UInt64)
  | queryBuckets (buckets : List BucketKey)
  | stats

/-- What a request returns, with the rows of a query as sets. -/
inductive Reply
  | present (flags : List Bool)
  | inserted
  | deleted (count : Nat)
  | members (rows : List (OrderedSet UInt64))
  | counted (items bucketMemberships : UInt64)

/-- The members of a row of a reply. -/
def rowSet (members : List UInt64) : OrderedSet UInt64 := .ofList members

def Request.serve {β : Type} [StorageBackend β] : Request → Method β BackendError Reply
  | .containsMany keys => do
      let flags ← StorageBackend.containsMany keys
      pure (.present flags)
  | .insertMany items => do
      StorageBackend.insertMany items
      pure .inserted
  | .deleteMany keys => do
      let count ← StorageBackend.deleteMany keys
      pure (.deleted count)
  | .queryBuckets buckets => do
      let rows ← StorageBackend.queryBuckets buckets
      pure (.members (rows.map rowSet))
  | .stats => do
      let stats ← StorageBackend.stats
      pure (.counted stats.items stats.bucketMemberships)

/-- The backend after a sequence of requests. -/
def served {β : Type} [StorageBackend β] (backend : β) : List Request → β
  | [] => backend
  | request :: requests => served (call backend request.serve).2 requests

/-- Inserted items have one hash per band. -/
def Request.Prepared (bands : Nat) : Request → Prop
  | .insertMany items => ∀ item ∈ items, item.bandHashes.length = bands
  | _ => True

/-! ## The same rows -/

section Twins

variable {memory : MemoryBackend} {redis : RedisBackend} {descriptor : IndexDescriptor}
  {rows : Rows}

theorem rowSet_congr {left right : List UInt64} (h : ∀ key, key ∈ left ↔ key ∈ right) :
    rowSet left = rowSet right := by
  refine Std.ExtTreeSet.ext_mem fun key => ?_
  simp [rowSet, Std.ExtTreeSet.mem_ofList, h]

/-- The first duplicate of a batch is the item the memory backend refuses. -/
theorem MemoryBackend.Holds.validateItems_of_duplicate {bands : Nat} (h : memory.Holds bands rows)
    {seen : OrderedSet UInt64} {items : List StoredItem}
    (hwidth : ∀ item ∈ items, item.bandHashes.length = bands) {position : Nat}
    (hitems : firstDuplicate rows seen items = some position) :
    ∃ item, items[position]? = some item ∧
      memory.validateItems bands seen items = .error (.duplicateKey item.key) := by
  induction items generalizing seen position with
  | nil => cases hitems
  | cons item items ih =>
      rw [List.forall_mem_cons] at hwidth
      rw [MemoryBackend.validateItems, rejectIf_of_not (by simpa using hwidth.1), ok_bind,
        h.contains_eq]
      rw [firstDuplicate] at hitems
      split at hitems
      · next htaken =>
          rw [Bool.or_eq_true] at htaken
          obtain rfl := Option.some.inj hitems
          refine ⟨item, rfl, ?_⟩
          rw [rejectIf, if_pos htaken, error_bind]
      · next hfree =>
          rw [Bool.or_eq_true] at hfree
          obtain ⟨before, hbefore, rfl⟩ := Option.map_eq_some_iff.mp hitems
          obtain ⟨duplicate, hduplicate, hrest⟩ := ih hwidth.2 hbefore
          refine ⟨duplicate, by rw [List.getElem?_cons_succ, hduplicate], ?_⟩
          rw [rejectIf_of_not hfree, ok_bind, hrest]

theorem freshBatch_of_firstDuplicate {bands : Nat} {items : List StoredItem}
    (hwidth : ∀ item ∈ items, item.bandHashes.length = bands)
    (hitems : firstDuplicate rows ∅ items = none) :
    FreshBatch bands rows (rowsOfItems items) := by
  obtain ⟨hfresh, _, hdistinct⟩ := firstDuplicate_eq_none_iff.mp hitems
  refine ⟨List.forall_mem_map.mpr hfresh, ?_, List.forall_mem_map.mpr hwidth⟩
  rw [rowsOfItems, List.map_map]
  exact hdistinct

/-- The records of Redis and of the memory backend are as many. -/
theorem size_records {bands : Nat} (h : memory.Holds bands rows)
    {fields : OrderedMap RedisString RedisString} (hfields : RecordsOf fields rows) :
    fields.size = memory.records.size := by
  have hperm : (fields.toList.map Prod.fst).Perm
      ((memory.records.toList.map Prod.fst).map RedisBackend.userField) := by
    rw [List.perm_ext_iff_of_nodup ascending_keys.nodup
      (ascending_keys.nodup.map userField_injective)]
    intro field
    rw [mem_keys_iff, List.mem_map]
    constructor
    · rintro ⟨blob, hblob⟩
      obtain ⟨key, row, hrow, rfl, _⟩ := (hfields field blob).mp hblob
      exact ⟨key, mem_keys_iff.mpr ⟨row, (h.records key).trans hrow⟩, rfl⟩
    · rintro ⟨key, hkey, rfl⟩
      obtain ⟨row, hrow⟩ := mem_keys_iff.mp hkey
      exact ⟨_, (hfields _ _).mpr ⟨key, row, (h.records key).symm.trans hrow, rfl, rfl⟩⟩
  have hlength := hperm.length_eq
  rwa [List.length_map, List.length_map, List.length_map, Std.ExtTreeMap.length_toList,
    Std.ExtTreeMap.length_toList] at hlength

/-- The memberships of Redis and of the memory backend are as many. -/
theorem size_members {bands : Nat} (h : memory.Holds bands rows)
    {members : OrderedSet RedisString} (hmembers : MembersOf members rows) :
    members.size = memory.buckets.pairs.length := by
  have hinjective : Function.Injective fun pair : BucketKey × UInt64 =>
      (⟨encodeBucketMember pair.1 pair.2⟩ : RedisString) := by
    intro left right heq
    obtain ⟨hbucket, hkey⟩ := encodeBucketMember_inj.mp (congrArg RedisString.bytes heq)
    exact Prod.ext hbucket hkey
  have hperm : members.toList.Perm (memory.buckets.pairs.map fun pair =>
      ⟨encodeBucketMember pair.1 pair.2⟩) := by
    rw [List.perm_ext_iff_of_nodup ascending_toList.nodup
      ((SetTable.nodup_pairs _).map hinjective)]
    intro member
    rw [mem_set_toList_iff, hmembers, List.mem_map]
    constructor
    · rintro ⟨bucket, key, hfiled, rfl⟩
      exact ⟨(bucket, key), h.buckets.mem_pairs_iff.mpr hfiled, rfl⟩
    · rintro ⟨⟨bucket, key⟩, hpair, rfl⟩
      exact ⟨bucket, key, h.buckets.mem_pairs_iff.mp hpair, rfl⟩
  have hlength := hperm.length_eq
  rwa [List.length_map, Std.ExtTreeSet.length_toList] at hlength

/-- The memory backend counts its memberships when their number fits. -/
theorem countMemberships_eq_ok_iff {buckets : SetTable BucketKey UInt64} {total : Nat} :
    MemoryBackend.countMemberships buckets = .ok total ↔
      buckets.pairs.length < 2 ^ 64 ∧ buckets.pairs.length = total := by
  have hfold : ∀ (entries : List (BucketKey × OrderedSet UInt64)) (start : Nat), start < 2 ^ 64 →
      (entries.foldlM (fun total entry => do
        let count ← okOr (tryU64 entry.2.size) BackendError.lengthOverflow
        okOr (checkedAdd total count.toNat) .lengthOverflow) start = .ok total ↔
      start + (entries.map fun entry => entry.2.size).sum < 2 ^ 64 ∧
        start + (entries.map fun entry => entry.2.size).sum = total) := by
    intro entries
    induction entries with
    | nil =>
        intro start hstart
        rw [List.foldlM_nil, pure_eq_ok_iff, List.map_nil, List.sum_nil, Nat.add_zero]
        exact ⟨fun heq => ⟨hstart, heq⟩, And.right⟩
    | cons entry entries ih =>
        intro start hstart
        rw [List.foldlM_cons]
        simp only [bind_eq_ok_iff, okOr_eq_ok_iff, tryU64_eq_some_iff, checkedAdd_eq_some_iff,
          List.map_cons, List.sum_cons]
        constructor
        · rintro ⟨middle, ⟨count, ⟨hsize, rfl⟩, hmiddle, rfl⟩, hrest⟩
          rw [toNat_ofNat64 hsize] at hmiddle hrest
          have hsum := (ih _ hmiddle).mp hrest
          omega
        · rintro ⟨hlt, htotal⟩
          have hsize : entry.2.size < 2 ^ 64 := by omega
          refine ⟨start + entry.2.size, ⟨_, ⟨hsize, rfl⟩, ?_⟩, (ih _ (by omega)).mpr (by omega)⟩
          rw [toNat_ofNat64 hsize]
          exact ⟨by omega, rfl⟩
  rw [MemoryBackend.countMemberships, hfold _ 0 (by decide), Nat.zero_add, SetTable.length_pairs]

/-- Every live key has a membership, so the items are no more than the memberships. -/
theorem size_records_le (h : memory.Holds descriptor.params.bands rows) :
    memory.records.size ≤ memory.buckets.pairs.length := by
  have hsubset : memory.records.toList.map Prod.fst ⊆ memory.buckets.pairs.map Prod.snd := by
    intro key hkey
    obtain ⟨row, hrow⟩ := mem_keys_iff.mp hkey
    rw [h.records] at hrow
    have hbands : 0 < (rowBuckets row).length := by
      obtain ⟨_, _, _, hbands, _⟩ := descriptor.toLshConfig.bounds
      rw [length_rowBuckets, h.width key row hrow]
      exact hbands
    obtain ⟨bucket, hbucket⟩ := List.exists_mem_of_length_pos hbands
    exact List.mem_map.mpr
      ⟨(bucket, key), h.buckets.mem_pairs_iff.mpr ⟨row, hrow, hbucket⟩, rfl⟩
  have hlength := (List.subperm_of_subset ascending_keys.nodup hsubset).length_le
  rwa [List.length_map, List.length_map, Std.ExtTreeMap.length_toList] at hlength

/-- Statistics of the memory backend, as far as the memberships can be counted. -/
theorem call_memory_stats (h : memory.Keeps descriptor rows) :
    (memory.buckets.pairs.length < 2 ^ 64 →
      call memory Request.stats.serve = (.ok (.counted (UInt64.ofNat memory.records.size)
        (UInt64.ofNat memory.buckets.pairs.length)), memory)) ∧
    (2 ^ 64 ≤ memory.buckets.pairs.length →
      ∃ error, call memory Request.stats.serve = (.error error, memory)) := by
  have hready : call memory MemoryBackend.requireDescriptor = (.ok (), memory) := by
    rw [MemoryBackend.requireDescriptor, call_read_bind, h.1]
    rfl
  constructor
  · intro hfits
    have hitems : memory.records.size < 2 ^ 64 := (size_records_le h.2).trans_lt hfits
    have hcount := countMemberships_eq_ok_iff.mpr ⟨hfits, rfl⟩
    have hrun : call memory MemoryBackend.stats = (.ok
        { items := UInt64.ofNat memory.records.size,
          bucketMemberships := UInt64.ofNat memory.buckets.pairs.length, roundTrips := 0,
          ttlSecondsRemaining := none }, memory) := by
      rw [MemoryBackend.stats, call_bind_ok hready, call_read_bind, tryU64_of_lt hitems, okOr_some,
        call_lift_ok_bind, call_read_bind, hcount, call_lift_ok_bind, call_pure]
    exact call_bind_ok hrun
  · intro hfull
    cases hcount : MemoryBackend.countMemberships memory.buckets with
    | ok total =>
        have hfits := (countMemberships_eq_ok_iff.mp hcount).1
        omega
    | error error =>
        cases hitems : tryU64 memory.records.size with
        | none =>
            have hrun : call memory MemoryBackend.stats = (.error .lengthOverflow, memory) := by
              rw [MemoryBackend.stats, call_bind_ok hready, call_read_bind, hitems]
              rfl
            exact ⟨_, call_bind_error hrun⟩
        | some items =>
            have hrun : call memory MemoryBackend.stats = (.error error, memory) := by
              rw [MemoryBackend.stats, call_bind_ok hready, call_read_bind, hitems, okOr_some,
                call_lift_ok_bind, call_read_bind, hcount, call_lift_error_bind]
            exact ⟨_, call_bind_error hrun⟩

/-- Statistics of the Redis backend, as far as the memberships can be counted. -/
theorem call_redis_stats (h : redis.Keeps descriptor rows) (hmemory : memory.Keeps descriptor rows) :
    (memory.buckets.pairs.length < 2 ^ 64 →
      call redis Request.stats.serve = (.ok (.counted (UInt64.ofNat memory.records.size)
        (UInt64.ofNat memory.buckets.pairs.length)), redis.answered redis.connection)) ∧
    (2 ^ 64 ≤ memory.buckets.pairs.length →
      ∃ error, call redis Request.stats.serve =
        (.error error, redis.answered redis.connection)) := by
  obtain ⟨fields, hfields, hrecords⟩ := h.stored.records
  obtain ⟨members, hmembers, hfiled⟩ := h.stored.buckets
  have hremaining : call redis.connection (ttl redis.keys.metaKey) = (.ok (-1), redis.connection) := by
    obtain ⟨payload, _, hentry⟩ := h.described
    rw [ttl, call_read, hentry]
  rw [← size_records hmemory.2 hrecords, ← size_members hmemory.2 hfiled]
  have hitems : fields.size ≤ members.size := by
    rw [size_records hmemory.2 hrecords, size_members hmemory.2 hfiled]
    exact size_records_le hmemory.2
  constructor
  · intro hfits
    have hcommands : call redis.connection (RedisBackend.statsCommands redis.keys) =
        (.ok (UInt64.ofNat fields.size, UInt64.ofNat members.size, -1), redis.connection) := by
      rw [RedisBackend.statsCommands, call_bind_ok (call_hlen hfields),
        call_bind_ok (call_zcard hmembers), call_bind_ok hremaining,
        tryU64_of_lt (hitems.trans_lt hfits), okOr_some, call_lift_ok_bind, tryU64_of_lt hfits,
        okOr_some, call_lift_ok_bind, call_pure]
    have hrun : call redis RedisBackend.stats = (.ok
        { items := UInt64.ofNat fields.size, bucketMemberships := UInt64.ofNat members.size,
          roundTrips := (redis.answered redis.connection).roundTrips,
          ttlSecondsRemaining := none }, redis.answered redis.connection) := by
      rw [RedisBackend.stats, call_bind_ok (RedisBackend.call_request hcommands)]
      rfl
    exact call_bind_ok hrun
  · intro hfull
    have hcount : tryU64 members.size = none := if_neg (by omega)
    have hcommands : call redis.connection (RedisBackend.statsCommands redis.keys) =
        (.error .reply, redis.connection) := by
      rw [RedisBackend.statsCommands, call_bind_ok (call_hlen hfields),
        call_bind_ok (call_zcard hmembers), call_bind_ok hremaining]
      cases tryU64 fields.size with
      | none => rfl
      | some items =>
          rw [okOr_some, call_lift_ok_bind, hcount]
          rfl
    have hrun : call redis RedisBackend.stats =
        (.error (RedisBackend.redisError "stats" .reply), redis.answered redis.connection) := by
      rw [RedisBackend.stats, call_bind_error (RedisBackend.call_request_error hcommands)]
    exact ⟨_, call_bind_error hrun⟩

/-- A memory backend and a namespace that keep the same rows. -/
structure Twins (memory : MemoryBackend) (redis : RedisBackend) (descriptor : IndexDescriptor)
    (rows : Rows) : Prop where
  memory : memory.Keeps descriptor rows
  redis : redis.Keeps descriptor rows

/-- Both give the same reply or the same error. Only statistics that no counter can hold fail
with an error of each backend's own. -/
def Request.Agree (memory : MemoryBackend) (request : Request)
    (answer expected : Except BackendError Reply) : Prop :=
  answer = expected ∨ request = .stats ∧ 2 ^ 64 ≤ memory.buckets.pairs.length ∧
    (∃ error, answer = .error error) ∧ ∃ error, expected = .error error

/-- A request answered alike, by twins that stay twins; if it fails, the server is untouched. -/
structure Request.Alike (request : Request) (memory : MemoryBackend) (redis : RedisBackend)
    (descriptor : IndexDescriptor) : Prop where
  agree : request.Agree memory (call redis request.serve).1 (call memory request.serve).1
  unchanged : ∀ error, (call redis request.serve).1 = .error error →
    (call redis request.serve).2.connection = redis.connection
  twins : ∃ rows, Twins (call memory request.serve).2 (call redis request.serve).2 descriptor rows

/-- A request that both serve with one reply. -/
theorem Request.alike_of_ok {request : Request} {reply : Reply} {memory' : MemoryBackend}
    {redis' : RedisBackend} (hmemory : call memory request.serve = (.ok reply, memory'))
    (hredis : call redis request.serve = (.ok reply, redis'))
    (htwins : Twins memory' redis' descriptor rows) : request.Alike memory redis descriptor where
  agree := Or.inl (by rw [hmemory, hredis])
  unchanged := by
    intro error herror
    rw [hredis] at herror
    cases herror
  twins := ⟨rows, by rw [hmemory, hredis]; exact htwins⟩

theorem Twins.insertMany (h : Twins memory redis descriptor rows) {items : List StoredItem}
    (hwidth : ∀ item ∈ items, item.bandHashes.length = descriptor.params.bands) :
    (Request.insertMany items).Alike memory redis descriptor := by
  cases hitems : firstDuplicate rows ∅ items with
  | none =>
      have hbatch := freshBatch_of_firstDuplicate hwidth hitems
      obtain ⟨memory', hmemory, hkeeps⟩ := MemoryBackend.lawful.insertMany h.memory items hbatch
      obtain ⟨redis', hredis, hkeeps'⟩ := h.redis.insertMany hwidth hitems
      exact Request.alike_of_ok (call_bind_ok hmemory) (call_bind_ok hredis) ⟨hkeeps, hkeeps'⟩
  | some position =>
      obtain ⟨item, hitem, hinvalid⟩ := h.memory.2.validateItems_of_duplicate hwidth hitems
      have hmemory : call memory (Request.insertMany items).serve =
          (.error (.duplicateKey item.key), memory) :=
        call_bind_error (MemoryBackend.insertMany_of_error h.memory.1 hinvalid)
      have hredis : call redis (Request.insertMany items).serve =
          (.error (.duplicateKey item.key), redis.answered redis.connection) :=
        call_bind_error (h.redis.insertMany_of_duplicate hwidth hitems hitem)
      refine ⟨Or.inl (by rw [hmemory, hredis]), fun error _ => by rw [hredis]; rfl, rows, ?_⟩
      rw [hmemory, hredis]
      exact ⟨h.memory, h.redis.answered⟩

theorem Twins.queryBuckets (h : Twins memory redis descriptor rows) (buckets : List BucketKey) :
    (Request.queryBuckets buckets).Alike memory redis descriptor := by
  obtain ⟨members, hmemory, hmembers⟩ := h.memory.2.queryBuckets buckets
  obtain ⟨others, redis', hredis, hothers, hkeeps⟩ := h.redis.queryBuckets buckets
  have hsame : (buckets.map others).map rowSet = (buckets.map members).map rowSet := by
    rw [List.map_map, List.map_map]
    refine List.map_congr_left fun bucket _ => rowSet_congr fun key => ?_
    rw [hothers, hmembers]
  have hreply : call redis (Request.queryBuckets buckets).serve =
      (.ok (.members ((buckets.map others).map rowSet)), redis') := call_bind_ok hredis
  rw [hsame] at hreply
  exact Request.alike_of_ok (call_bind_ok hmemory) hreply ⟨h.memory, hkeeps⟩

theorem Twins.stats (h : Twins memory redis descriptor rows) :
    Request.stats.Alike memory redis descriptor := by
  obtain ⟨hfits, hfull⟩ := call_memory_stats h.memory
  obtain ⟨hfits', hfull'⟩ := call_redis_stats h.redis h.memory
  rcases Nat.lt_or_ge memory.buckets.pairs.length (2 ^ 64) with hcount | hcount
  · exact Request.alike_of_ok (hfits hcount) (hfits' hcount) ⟨h.memory, h.redis.answered⟩
  · obtain ⟨error, hmemory⟩ := hfull hcount
    obtain ⟨error', hredis⟩ := hfull' hcount
    refine ⟨Or.inr ⟨rfl, hcount, ⟨error', by rw [hredis]⟩, error, by rw [hmemory]⟩,
      fun error _ => by rw [hredis]; rfl, rows, ?_⟩
    rw [hmemory, hredis]
    exact ⟨h.memory, h.redis.answered⟩

/-- Every request is answered alike. -/
theorem Twins.alike (h : Twins memory redis descriptor rows) {request : Request}
    (hprepared : request.Prepared descriptor.params.bands) :
    request.Alike memory redis descriptor := by
  cases request with
  | containsMany keys =>
      obtain ⟨redis', hredis, hkeeps⟩ := h.redis.containsMany keys
      exact Request.alike_of_ok (call_bind_ok (h.memory.2.containsMany keys)) (call_bind_ok hredis)
        ⟨h.memory, hkeeps⟩
  | insertMany items => exact h.insertMany hprepared
  | deleteMany keys =>
      obtain ⟨memory', hmemory, hkeeps⟩ := MemoryBackend.lawful.deleteMany h.memory keys
      obtain ⟨redis', hredis, hkeeps'⟩ := h.redis.deleteMany keys
      exact Request.alike_of_ok (call_bind_ok hmemory) (call_bind_ok hredis) ⟨hkeeps, hkeeps'⟩
  | queryBuckets buckets => exact h.queryBuckets buckets
  | stats => exact h.stats

/-- Twins stay twins over a sequence of requests. -/
theorem Twins.served (h : Twins memory redis descriptor rows) {requests : List Request}
    (hprepared : ∀ request ∈ requests, request.Prepared descriptor.params.bands) :
    ∃ rows', Twins (served memory requests) (served redis requests) descriptor rows' := by
  induction requests generalizing memory redis rows with
  | nil => exact ⟨rows, h⟩
  | cons request requests ih =>
      rw [List.forall_mem_cons] at hprepared
      obtain ⟨rows', htwins⟩ := (h.alike hprepared.1).twins
      exact ih htwins hprepared.2

/-- The range of a bucket is the list of the keys the memory backend has in it. -/
theorem Twins.call_zrangebylex (h : Twins memory redis descriptor rows) (bucket : BucketKey) :
    ∃ members, call redis.connection (zrangebylex redis.keys.buckets
        ⟨(bucketLexRange bucket).1⟩ ⟨(bucketLexRange bucket).2⟩) = (.ok members, redis.connection) ∧
      ∀ member, member ∈ members ↔
        ∃ key ∈ SetTable.members memory.buckets bucket,
          member = ⟨encodeBucketMember bucket key⟩ := by
  obtain ⟨members, hmembers, hfiled⟩ := h.redis.stored.buckets
  refine ⟨_, RedisServer.call_zrangebylex hmembers _ _, fun member => ?_⟩
  refine (RedisBackend.mem_membersInRange_iff hfiled).trans (exists_congr fun key => ?_)
  rw [h.memory.2.buckets.mem_members_iff]

end Twins

/-! ## Agreement -/

theorem twins_of_initialized {memory : MemoryBackend} {backend redis : RedisBackend}
    {descriptor : IndexDescriptor}
    (hredis : call backend (RedisBackend.initializeNamespace descriptor) = (.ok (), redis))
    (hmemory : call MemoryBackend.new (MemoryBackend.initializeNamespace descriptor) =
      (.ok (), memory)) : Twins memory redis descriptor fun _ => none := by
  rw [MemoryBackend.initializeNamespace, call_read_bind, rejectIf_of_not (by decide),
    call_lift_ok_bind] at hmemory
  cases hretention : descriptor.retention with
  | some retention =>
      rw [hretention] at hmemory
      cases hmemory
  | none =>
      rw [hretention, rejectIf_of_not (by simp), call_lift_ok_bind, call_update] at hmemory
      obtain rfl : _ = memory := congrArg Prod.snd hmemory
      exact ⟨⟨rfl, MemoryBackend.Holds.empty _ _⟩,
        RedisBackend.keeps_of_initializeNamespace hredis hretention⟩

/-- On an initialized namespace without retention the Redis backend answers every sequence of
requests as the memory backend does, errors included; a request that fails leaves the server
as it was, and so does every script that does not succeed. The range requested for a bucket
holds the members encoded for it, and is answered with those of the keys the memory backend
has in the bucket. -/
theorem redis_answers_as_memory {descriptor : IndexDescriptor} {backend redis : RedisBackend}
    {memory : MemoryBackend}
    (hredis : call backend (RedisBackend.initializeNamespace descriptor) = (.ok (), redis))
    (hmemory : call MemoryBackend.new (MemoryBackend.initializeNamespace descriptor) =
      (.ok (), memory)) :
    (∀ (requests : List Request) (request : Request),
      (∀ earlier ∈ requests, earlier.Prepared descriptor.params.bands) →
      request.Prepared descriptor.params.bands →
      request.Agree (served memory requests) (call (served redis requests) request.serve).1
          (call (served memory requests) request.serve).1 ∧
        (∀ error, (call (served redis requests) request.serve).1 = .error error →
          (call (served redis requests) request.serve).2.connection =
            (served redis requests).connection) ∧
        ∀ bucket, ∃ members,
          call (served redis requests).connection
              (zrangebylex (served redis requests).keys.buckets ⟨(bucketLexRange bucket).1⟩
                ⟨(bucketLexRange bucket).2⟩) =
            (.ok members, (served redis requests).connection) ∧
          ∀ member, member ∈ members ↔
            ∃ key ∈ SetTable.members (served memory requests).buckets bucket,
              member = ⟨encodeBucketMember bucket key⟩) ∧
    (∀ (state state' : RedisServer) keys argv,
      (∀ code detail, call state (insertScript keys argv) = (.ok (code, detail), state') →
        code ≠ 1 → state' = state) ∧
      (∀ removed, call state (deleteScript keys argv) = (.ok removed, state') → removed ≤ 0 →
        state' = state)) ∧
    ∀ bucket other key, inLexRange ⟨(bucketLexRange bucket).1⟩ ⟨(bucketLexRange bucket).2⟩
      ⟨encodeBucketMember other key⟩ = .ok (decide (other = bucket)) := by
  have htwins := twins_of_initialized hredis hmemory
  refine ⟨fun requests request hrequests hrequest => ?_, fun state state' keys argv =>
    ⟨fun _ _ => eq_of_call_insertScript, fun _ => eq_of_call_deleteScript⟩, ?_⟩
  · obtain ⟨rows, hserved⟩ := htwins.served hrequests
    have halike := hserved.alike hrequest
    exact ⟨halike.agree, halike.unchanged, hserved.call_zrangebylex⟩
  · exact inLexRange_encodeBucketMember

/-- A handle on a server without keys. -/
def sampleHandle : RedisBackend where
  connection := { entries := fun _ => none, now := 0 }
  keys := .new "sample"
  retentionSeconds := none
  roundTrips := 0

/-- A batch inserted twice into a new namespace. -/
theorem redis_answers_repeated_insertion :
    ∃ redis, call sampleHandle (RedisBackend.initializeNamespace sampleDescriptor) =
        (.ok (), redis) ∧
      (Request.insertMany [⟨7, [1, 2]⟩]).Agree
        (served { MemoryBackend.new with descriptor := some sampleDescriptor }
          [.insertMany [⟨7, [1, 2]⟩]])
        (call (served redis [.insertMany [⟨7, [1, 2]⟩]])
          (Request.insertMany [⟨7, [1, 2]⟩]).serve).1
        (call (served { MemoryBackend.new with descriptor := some sampleDescriptor }
          [.insertMany [⟨7, [1, 2]⟩]]) (Request.insertMany [⟨7, [1, 2]⟩]).serve).1 := by
  obtain ⟨payload, hpayload, _⟩ := decodeDescriptor_encodeDescriptor sampleDescriptor
  have hredis := RedisBackend.call_initializeNamespace_of_vacant
    (show Vacant sampleHandle.connection sampleHandle.keys from ⟨rfl, rfl, rfl⟩) hpayload
  have hmemory : call MemoryBackend.new (MemoryBackend.initializeNamespace sampleDescriptor) =
      (.ok (), { MemoryBackend.new with descriptor := some sampleDescriptor }) := rfl
  have hprepared : (Request.insertMany [⟨7, [1, 2]⟩]).Prepared sampleDescriptor.params.bands := by
    intro item hmem
    rw [List.mem_singleton.mp hmem]
    rfl
  refine ⟨_, hredis, ((redis_answers_as_memory hredis hmemory).1 _ _ ?_ hprepared).1⟩
  intro request hmem
  rw [List.mem_singleton.mp hmem]
  exact hprepared

end Pari.Backend
