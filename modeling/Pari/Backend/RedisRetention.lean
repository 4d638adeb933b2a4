/-
# Retention of a Redis namespace

The three keys of a namespace are made, emptied, made again and refreshed at different times.
Still they vanish together: the live ones share one deadline, and none of them is live without
the descriptor. Whatever clients do, as long as they refresh by the retention of the stored
descriptor, no key is left behind that would keep the namespace from being initialized again.
-/

import Pari.Backend.RedisMirror

namespace Pari.Backend

open Data Data.Method RedisServer RedisBackend Pari.Format Pari.Core Pari.Index

variable {server server' : RedisServer} {keys : RedisKeys} {descriptor : IndexDescriptor}
  {rows : Rows} {deadline : Option Nat}

/-- The descriptor under the first key of a namespace. -/
def storedDescriptor (server : RedisServer) (keys : RedisKeys) : Option IndexDescriptor :=
  match server.value keys.metaKey with
  | some (.string payload) => (decodeDescriptor payload.bytes).toOption
  | _ => none

/-- The seconds a handle passes for the retention of a descriptor. -/
def retentionSecondsOf (descriptor : IndexDescriptor) : Option UInt64 :=
  descriptor.retention.map Duration.secs

/-- A live namespace keeps rows under a descriptor, and its keys share one deadline, which there
is exactly if the descriptor has a retention. -/
structure Lives (server : RedisServer) (keys : RedisKeys) (descriptor : IndexDescriptor)
    (deadline : Option Nat) (rows : Rows) : Prop where
  described : ∃ payload, encodeDescriptor descriptor = .ok payload ∧
    server.entries keys.metaKey = some { value := .string ⟨payload⟩, expiresAt := deadline }
  records : ∀ entry, server.entries keys.records = some entry → entry.expiresAt = deadline
  buckets : ∀ entry, server.entries keys.buckets = some entry → entry.expiresAt = deadline
  retained : deadline = none ↔ descriptor.retention = none
  stored : Stored server keys rows

/-- A namespace is vacant or lives. -/
def Coherent (server : RedisServer) (keys : RedisKeys) : Prop :=
  Vacant server keys ∨ ∃ descriptor deadline rows, Lives server keys descriptor deadline rows

section Descriptors

theorem Lives.storedDescriptor (h : Lives server keys descriptor deadline rows) :
    storedDescriptor server keys = some descriptor := by
  obtain ⟨payload, hpayload, hentry⟩ := h.described
  obtain ⟨payload', hpayload', hdecode⟩ := decodeDescriptor_encodeDescriptor descriptor
  obtain rfl : payload' = payload := Except.ok.inj (hpayload'.symm.trans hpayload)
  rw [Pari.Backend.storedDescriptor, value, hentry, Option.map_some]
  dsimp only
  rw [hdecode]
  rfl

theorem Lives.present (h : Lives server keys descriptor deadline rows) :
    (server.entries keys.metaKey).isSome := by
  obtain ⟨payload, _, hentry⟩ := h.described
  rw [hentry]
  rfl

theorem Vacant.storedDescriptor (h : Vacant server keys) : storedDescriptor server keys = none := by
  rw [Pari.Backend.storedDescriptor, value, h.metaKey]
  rfl

/-- A supported retention is at least a second. -/
theorem secs_pos (descriptor : IndexDescriptor) {retention : Duration}
    (h : descriptor.retention = some retention) : 0 < retention.secs.toNat := by
  have hretained := descriptor.retained
  rw [h, Option.any_some, Duration.unsupported] at hretained
  simp only [Bool.or_eq_false_iff, beq_eq_false_iff_ne] at hretained
  exact Nat.pos_of_ne_zero fun hzero => hretained.1.1 (UInt64.toNat_inj.mp hzero)

end Descriptors

/-! ## Commands of a handle -/

section Handles

variable {backend : RedisBackend}

/-- A round trip leaves the handle with the server the command left. -/
theorem state_request {α : Type} (operation : String) (command : RedisKeys → RedisCommand α) :
    (call backend (request operation command)).2 =
      backend.answered (call backend.connection (command backend.keys)).2 := by
  cases hrun : call backend.connection (command backend.keys) with
  | mk result server =>
      cases result with
      | error error => rw [call_request_error hrun]
      | ok reply => rw [call_request hrun]

/-- What a method returns in the end does not change the state. -/
theorem state_bind_lift {σ ε α β : Type} {state : σ} (method : Method σ ε α)
    (convert : α → Except ε β) :
    (call state (method >>= fun value => lift (convert value))).2 = (call state method).2 := by
  cases hrun : call state method with
  | mk result state' =>
      cases result with
      | error error => rw [call_bind_error hrun]
      | ok value => rw [call_bind_ok hrun, call_lift]

/-- The arguments of the items, if all have records. -/
theorem flatten_of_mapM_encodeItem {items : List StoredItem} {encoded : List (List RedisString)}
    (h : items.mapM encodeItem = .ok encoded) : encoded.flatten = itemArguments items := by
  rw [mapM_eq_ok_iff] at h
  induction h with
  | nil => rfl
  | @cons item arguments items encoded hitem _ ih =>
      simp only [encodeItem, bind_eq_ok_iff, pure_eq_ok_iff] at hitem
      obtain ⟨blob, hblob, rfl⟩ := hitem
      rw [List.flatten_cons, ih, eq_of_recordBlob hblob]
      rfl

/-- An insertion is one script, unless the batch is empty or has no records. -/
theorem state_insertMany (items : List StoredItem) :
    (call backend (insertMany items)).2 = backend ∨
      (call backend (insertMany items)).2 = backend.answered (call backend.connection
        (insertScript backend.keys (insertArguments (retentionArgument backend) items))).2 := by
  rw [RedisBackend.insertMany]
  split
  · exact Or.inl rfl
  · cases hencoded : items.mapM encodeItem with
    | error error => exact Or.inl rfl
    | ok encoded =>
        rw [call_lift_ok_bind, call_read_bind, flatten_of_mapM_encodeItem hencoded, state_bind_lift,
          state_request]
        exact Or.inr rfl

/-- A deletion is one script, unless there are no keys. -/
theorem state_deleteMany (deleted : List UInt64) :
    (call backend (deleteMany deleted)).2 = backend ∨
      (call backend (deleteMany deleted)).2 = backend.answered (call backend.connection
        (deleteScript backend.keys (deleteArguments (retentionArgument backend) deleted))).2 := by
  rw [RedisBackend.deleteMany]
  split
  · exact Or.inl rfl
  · rw [call_read_bind, state_bind_lift, state_request]
    exact Or.inr rfl

end Handles

/-! ## What the scripts do to a live namespace -/

section Scripts

/-- Records and buckets that only change keep the deadline of a namespace without retention. -/
theorem Lives.of_changes (h : Lives server keys descriptor none rows) {rows' : Rows}
    (hchanges : Changes [keys.records, keys.buckets] server server')
    (hstored : Stored server' keys rows') : Lives server' keys descriptor none rows' where
  described := by
    obtain ⟨payload, hpayload, hentry⟩ := h.described
    refine ⟨payload, hpayload, (hchanges.others _ ?_).trans hentry⟩
    simpa using ⟨keys.distinct.1, keys.distinct.2.1⟩
  records := by
    intro entry hentry
    rcases hchanges.deadlines _ _ hentry with hnone | hsame
    · exact hnone
    · rw [hsame, RedisServer.deadline]
      cases hold : server.entries keys.records with
      | none => rfl
      | some old => exact h.records old hold
  buckets := by
    intro entry hentry
    rcases hchanges.deadlines _ _ hentry with hnone | hsame
    · exact hnone
    · rw [hsame, RedisServer.deadline]
      cases hold : server.entries keys.buckets with
      | none => rfl
      | some old => exact h.buckets old hold
  retained := h.retained
  stored := hstored

/-- A refresh gives all keys of a namespace one deadline. -/
theorem Lives.of_refresh (h : Lives server keys descriptor deadline rows) {rows' : Rows}
    (hchanges : Changes [keys.records, keys.buckets] server server')
    (hstored : Stored server' keys rows') (hretention : descriptor.retention ≠ none)
    (instant : Nat) :
    Lives (server'.touch [keys.metaKey, keys.records, keys.buckets] instant) keys descriptor
      (some instant) rows' where
  described := by
    obtain ⟨payload, hpayload, hentry⟩ := h.described
    refine ⟨payload, hpayload, ?_⟩
    have hsame : server'.entries keys.metaKey = server.entries keys.metaKey :=
      hchanges.others _ (by simpa using ⟨keys.distinct.1, keys.distinct.2.1⟩)
    rw [touch]
    dsimp only
    rw [hsame, hentry]
    simp
  records := by
    intro entry hentry
    rw [touch] at hentry
    obtain ⟨old, _, rfl⟩ := Option.map_eq_some_iff.mp hentry
    simp
  buckets := by
    intro entry hentry
    rw [touch] at hentry
    obtain ⟨old, _, rfl⟩ := Option.map_eq_some_iff.mp hentry
    simp
  retained := by simp [hretention]
  stored := hstored.congr (value_touch _ _ _ _) (value_touch _ _ _ _)

/-- Changed records and buckets, refreshed if the descriptor has a retention. -/
theorem Lives.of_mutation (h : Lives server keys descriptor deadline rows) {rows' : Rows}
    (hchanges : Changes [keys.records, keys.buckets] server server')
    (hstored : Stored server' keys rows') {seconds : Nat}
    (hseconds : seconds = ((retentionSecondsOf descriptor).getD 0).toNat) :
    ∃ deadline', Lives (afterRefresh (seconds > 0) server' keys seconds) keys descriptor
      deadline' rows' := by
  rw [retentionSecondsOf] at hseconds
  cases hretention : descriptor.retention with
  | none =>
      rw [hretention] at hseconds
      obtain rfl : seconds = 0 := hseconds
      obtain rfl := h.retained.mpr hretention
      exact ⟨none, h.of_changes hchanges hstored⟩
  | some retention =>
      have hpos := secs_pos descriptor hretention
      rw [hretention] at hseconds
      obtain rfl : seconds = retention.secs.toNat := hseconds
      rw [afterRefresh, if_pos (by simpa using hpos)]
      exact ⟨_, h.of_refresh hchanges hstored (by rw [hretention]; simp) _⟩

/-- The insertion script keeps a namespace alive. -/
theorem Lives.insertScript (h : Lives server keys descriptor deadline rows) {seconds : Nat}
    (hseconds : seconds = ((retentionSecondsOf descriptor).getD 0).toNat)
    (items : List StoredItem) :
    ∃ deadline' rows', Lives (call server (insertScript keys (insertArguments seconds items))).2
      keys descriptor deadline' rows' := by
  cases hitems : firstDuplicate rows ∅ items with
  | some position =>
      rw [h.stored.call_insertScript_of_duplicate h.present hitems]
      exact ⟨deadline, rows, h⟩
  | none =>
      obtain ⟨server', hrun, hstored, hchanges⟩ := h.stored.call_insertScript h.present seconds hitems
      obtain ⟨deadline', hlives⟩ := h.of_mutation hchanges hstored hseconds
      rw [hrun]
      exact ⟨deadline', _, hlives⟩

/-- The deletion script keeps a namespace alive. -/
theorem Lives.deleteScript (h : Lives server keys descriptor deadline rows) {seconds : Nat}
    (hseconds : seconds = ((retentionSecondsOf descriptor).getD 0).toNat)
    (deleted : List UInt64) :
    ∃ deadline', Lives (call server (deleteScript keys (deleteArguments seconds deleted))).2
      keys descriptor deadline' (deleteRows rows deleted).2 := by
  obtain ⟨server', hrun, hstored, hchanges, hzero⟩ :=
    h.stored.call_deleteScript h.present seconds deleted
  rw [hrun]
  by_cases hremoved : (deleteRows rows deleted).1 = 0
  · obtain rfl := hzero hremoved
    have hquiet : (decide (seconds > 0) && decide (((deleteRows rows deleted).1 : Int) > 0)) =
        false := by
      rw [hremoved]
      exact Bool.and_false _
    rw [hquiet]
    exact ⟨deadline, h.described, h.records, h.buckets, h.retained, hstored⟩
  · have hdue : (decide (seconds > 0) && decide (((deleteRows rows deleted).1 : Int) > 0)) =
        decide (seconds > 0) := by
      rw [@decide_eq_true (((deleteRows rows deleted).1 : Int) > 0) _ (by omega), Bool.and_true]
    rw [hdue]
    exact h.of_mutation hchanges hstored hseconds

/-- A vacant namespace lives once it is initialized. -/
theorem Vacant.lives (h : Vacant server keys) {payload : Bytes}
    (hpayload : encodeDescriptor descriptor = .ok payload) :
    ∃ deadline, Lives (server.setEntry keys.metaKey (some
      { value := .string ⟨payload⟩,
        expiresAt := expiry server (descriptor.retention.elim 0 Duration.secs).toNat }))
      keys descriptor deadline fun _ => none := by
  have hrecords : ∀ entry, (server.setEntry keys.metaKey entry).entries keys.records = none :=
    fun entry => (entries_setEntry_of_ne keys.distinct.1.symm entry).trans h.records
  have hbuckets : ∀ entry, (server.setEntry keys.metaKey entry).entries keys.buckets = none :=
    fun entry => (entries_setEntry_of_ne keys.distinct.2.1.symm entry).trans h.buckets
  refine ⟨_, ⟨payload, hpayload, entries_setEntry_self _⟩, ?_, ?_, ?_, h.stored _⟩
  · intro entry hentry
    rw [hrecords] at hentry
    cases hentry
  · intro entry hentry
    rw [hbuckets] at hentry
    cases hentry
  · rw [expiry]
    cases hretention : descriptor.retention with
    | none => simp
    | some retention =>
        have hpos := secs_pos descriptor hretention
        rw [Option.elim_some, if_pos hpos]
        simp

/-- Time either leaves a namespace alone or takes all of it away. -/
theorem Lives.advance (h : Lives server keys descriptor deadline rows) (elapsed : Nat) :
    Vacant (server.advance elapsed) keys ∨
      Lives (server.advance elapsed) keys descriptor deadline rows := by
  obtain ⟨payload, hpayload, hentry⟩ := h.described
  have hdescribed : ∀ entry, server.entries keys.metaKey = some entry →
      entry.expiresAt = deadline := by
    intro entry hmeta
    rw [hentry] at hmeta
    rw [← Option.some.inj hmeta]
  by_cases hlasting : deadline.all (fun instant => decide (server.now + elapsed < instant)) = true
  · have hkeep : ∀ {key : String}, (∀ entry, server.entries key = some entry →
        entry.expiresAt = deadline) → (server.advance elapsed).entries key = server.entries key :=
      fun hkey => entries_advance_of_lasting fun entry hold => (hkey entry hold).symm ▸ hlasting
    refine Or.inr ⟨⟨payload, hpayload, (hkeep hdescribed).trans hentry⟩, ?_, ?_, h.retained,
      h.stored.congr (value_congr (hkeep h.records)) (value_congr (hkeep h.buckets))⟩
    · rw [hkeep h.records]
      exact h.records
    · rw [hkeep h.buckets]
      exact h.buckets
  · have hgone : ∀ {key : String}, (∀ entry, server.entries key = some entry →
        entry.expiresAt = deadline) → (server.advance elapsed).entries key = none :=
      fun hkey => entries_advance_of_due fun entry hold => (hkey entry hold).symm ▸ hlasting
    exact Or.inl ⟨hgone hdescribed, hgone h.records, hgone h.buckets⟩

theorem Vacant.advance (h : Vacant server keys) (elapsed : Nat) :
    Vacant (server.advance elapsed) keys where
  metaKey := entries_advance_of_none h.metaKey
  records := entries_advance_of_none h.records
  buckets := entries_advance_of_none h.buckets

end Scripts

/-! ## Runs -/

section Runs

variable {backend : RedisBackend}

/-- A handle refreshes by the retention of the stored descriptor, if there is one. -/
def Current (backend : RedisBackend) : Prop :=
  ∀ descriptor, storedDescriptor backend.connection backend.keys = some descriptor →
    backend.retentionSeconds = retentionSecondsOf descriptor

/-- What can happen to a server at the hands of the clients of a namespace. Any handle may
initialize the namespace; it inserts and deletes only if it has the stored retention. -/
inductive RetentionStep (keys : RedisKeys) : RedisServer → RedisServer → Prop
  | initialized {backend : RedisBackend} (hkeys : backend.keys = keys)
      (descriptor : IndexDescriptor) :
      RetentionStep keys backend.connection
        (call backend (initializeNamespace descriptor)).2.connection
  | inserted {backend : RedisBackend} (hkeys : backend.keys = keys) (hcurrent : Current backend)
      (items : List StoredItem) :
      RetentionStep keys backend.connection (call backend (insertMany items)).2.connection
  | deleted {backend : RedisBackend} (hkeys : backend.keys = keys) (hcurrent : Current backend)
      (deleted : List UInt64) :
      RetentionStep keys backend.connection (call backend (deleteMany deleted)).2.connection
  | waited (server : RedisServer) (milliseconds : Nat) :
      RetentionStep keys server (server.advance milliseconds)

/-- The servers that the clients of a namespace, which was vacant at first, can reach. -/
inductive RetentionRun (keys : RedisKeys) : RedisServer → Prop
  | start {server : RedisServer} (h : Vacant server keys) : RetentionRun keys server
  | step {server server' : RedisServer} (hrun : RetentionRun keys server)
      (hstep : RetentionStep keys server server') : RetentionRun keys server'

theorem Current.retentionArgument (h : Current backend)
    (hlives : Lives backend.connection backend.keys descriptor deadline rows) :
    retentionArgument backend = ((retentionSecondsOf descriptor).getD 0).toNat := by
  rw [RedisBackend.retentionArgument, h descriptor hlives.storedDescriptor]

/-- An initialization gives a vacant namespace a descriptor, and leaves any other alone. -/
theorem Coherent.initializeNamespace (h : Coherent backend.connection backend.keys)
    (descriptor : IndexDescriptor) :
    Coherent (call backend (initializeNamespace descriptor)).2.connection backend.keys := by
  obtain ⟨payload, hpayload, _⟩ := decodeDescriptor_encodeDescriptor descriptor
  by_cases hvacant : Vacant backend.connection backend.keys
  · obtain ⟨deadline, hlives⟩ := hvacant.lives hpayload
    rw [call_initializeNamespace_of_vacant hvacant hpayload]
    exact Or.inr ⟨descriptor, deadline, _, hlives⟩
  · rw [call_initializeNamespace_of_not_vacant hvacant]
    exact h

theorem Lives.insertMany (h : Lives backend.connection backend.keys descriptor deadline rows)
    (hcurrent : Current backend) (items : List StoredItem) :
    ∃ deadline' rows', Lives (call backend (RedisBackend.insertMany items)).2.connection
      backend.keys descriptor deadline' rows' := by
  rcases state_insertMany items with hsame | hscript
  · rw [hsame]
    exact ⟨deadline, rows, h⟩
  · rw [hscript]
    exact h.insertScript (hcurrent.retentionArgument h) items

theorem Lives.deleteMany (h : Lives backend.connection backend.keys descriptor deadline rows)
    (hcurrent : Current backend) (deleted : List UInt64) :
    ∃ deadline' rows', Lives (call backend (RedisBackend.deleteMany deleted)).2.connection
        backend.keys descriptor deadline' rows' ∧
      ∀ key, rows' key ≠ none → rows key ≠ none := by
  rcases state_deleteMany deleted with hsame | hscript
  · rw [hsame]
    exact ⟨deadline, rows, h, fun _ => id⟩
  · rw [hscript]
    obtain ⟨deadline', hlives⟩ := h.deleteScript (hcurrent.retentionArgument h) deleted
    refine ⟨deadline', _, hlives, fun key hkey => ?_⟩
    rw [deleteRows_snd] at hkey
    dsimp only at hkey
    split at hkey
    · exact absurd rfl hkey
    · exact hkey

/-- Without a descriptor nothing is inserted or deleted. -/
theorem Vacant.insertMany (h : Vacant backend.connection backend.keys) (items : List StoredItem) :
    (call backend (RedisBackend.insertMany items)).2.connection = backend.connection := by
  rcases state_insertMany items with hsame | hscript
  · rw [hsame]
  · rw [hscript, call_insertScript_of_absent h.metaKey]
    rfl

theorem Vacant.deleteMany (h : Vacant backend.connection backend.keys) (deleted : List UInt64) :
    (call backend (RedisBackend.deleteMany deleted)).2.connection = backend.connection := by
  rcases state_deleteMany deleted with hsame | hscript
  · rw [hsame]
  · rw [hscript, call_deleteScript_of_absent h.metaKey]
    rfl

/-- Every step keeps a namespace vacant or alive. -/
theorem RetentionStep.coherent (hstep : RetentionStep keys server server')
    (h : Coherent server keys) : Coherent server' keys := by
  cases hstep with
  | initialized hkeys descriptor =>
      subst hkeys
      exact h.initializeNamespace descriptor
  | inserted hkeys hcurrent items =>
      subst hkeys
      rcases h with hvacant | ⟨descriptor, deadline, rows, hlives⟩
      · rw [hvacant.insertMany]
        exact Or.inl hvacant
      · obtain ⟨deadline', rows', hlives'⟩ := hlives.insertMany hcurrent items
        exact Or.inr ⟨descriptor, deadline', rows', hlives'⟩
  | deleted hkeys hcurrent deleted =>
      subst hkeys
      rcases h with hvacant | ⟨descriptor, deadline, rows, hlives⟩
      · rw [hvacant.deleteMany]
        exact Or.inl hvacant
      · obtain ⟨deadline', rows', hlives', _⟩ := hlives.deleteMany hcurrent deleted
        exact Or.inr ⟨descriptor, deadline', rows', hlives'⟩
  | waited _ milliseconds =>
      rcases h with hvacant | ⟨descriptor, deadline, rows, hlives⟩
      · exact Or.inl (hvacant.advance milliseconds)
      · rcases hlives.advance milliseconds with hgone | hkept
        · exact Or.inl hgone
        · exact Or.inr ⟨descriptor, deadline, rows, hkept⟩

theorem RetentionRun.coherent (h : RetentionRun keys server) : Coherent server keys := by
  induction h with
  | start h => exact Or.inl h
  | step _ hstep ih => exact hstep.coherent ih

/-- In every run the live keys of a namespace share one deadline, which there is exactly if the
stored descriptor has a retention. Records and buckets are live only under a descriptor, so a
namespace without one can be initialized. -/
theorem RetentionRun.common_deadline (h : RetentionRun keys server) :
    (∃ deadline, (∀ key ∈ [keys.metaKey, keys.records, keys.buckets], ∀ entry,
        server.entries key = some entry → entry.expiresAt = deadline) ∧
      ∀ descriptor, storedDescriptor server keys = some descriptor →
        (deadline = none ↔ descriptor.retention = none)) ∧
    ((server.entries keys.records).isSome ∨ (server.entries keys.buckets).isSome →
      (server.entries keys.metaKey).isSome) ∧
    ((server.entries keys.metaKey).isSome → ∃ descriptor,
      storedDescriptor server keys = some descriptor) ∧
    (server.entries keys.metaKey = none → ∀ backend descriptor, backend.connection = server →
      backend.keys = keys → ∃ backend',
        call backend (initializeNamespace descriptor) = (.ok (), backend')) := by
  rcases h.coherent with hvacant | ⟨descriptor, deadline, rows, hlives⟩
  · refine ⟨⟨none, ?_, ?_⟩, ?_, ?_, ?_⟩
    · intro key hkey entry hentry
      simp only [List.mem_cons, List.not_mem_nil, or_false] at hkey
      rcases hkey with rfl | rfl | rfl
      · rw [hvacant.metaKey] at hentry
        cases hentry
      · rw [hvacant.records] at hentry
        cases hentry
      · rw [hvacant.buckets] at hentry
        cases hentry
    · intro descriptor hdescriptor
      rw [hvacant.storedDescriptor] at hdescriptor
      cases hdescriptor
    · rw [hvacant.records, hvacant.buckets]
      simp
    · rw [hvacant.metaKey]
      simp
    · rintro _ backend descriptor rfl rfl
      obtain ⟨payload, hpayload, _⟩ := decodeDescriptor_encodeDescriptor descriptor
      exact ⟨_, call_initializeNamespace_of_vacant hvacant hpayload⟩
  · obtain ⟨payload, _, hentry⟩ := hlives.described
    refine ⟨⟨deadline, ?_, ?_⟩, fun _ => hlives.present,
      fun _ => ⟨descriptor, hlives.storedDescriptor⟩, ?_⟩
    · intro key hkey entry hkeyEntry
      simp only [List.mem_cons, List.not_mem_nil, or_false] at hkey
      rcases hkey with rfl | rfl | rfl
      · rw [hentry] at hkeyEntry
        rw [← Option.some.inj hkeyEntry]
      · exact hlives.records entry hkeyEntry
      · exact hlives.buckets entry hkeyEntry
    · intro other hother
      rw [hlives.storedDescriptor] at hother
      rw [← Option.some.inj hother]
      exact hlives.retained
    · intro habsent
      rw [hentry] at habsent
      cases habsent

/-- The sample descriptor, with a retention of a minute. -/
def retainedDescriptor : IndexDescriptor :=
  { sampleDescriptor with retention := some (.fromSecs 60), retained := by decide }

/-- A namespace after its initialization. -/
theorem common_deadline_after_initialization :
    ∃ server, RetentionRun sampleHandle.keys server ∧
      storedDescriptor server sampleHandle.keys = some retainedDescriptor ∧
      ∃ deadline, deadline ≠ none ∧ ∀ entry,
        server.entries sampleHandle.keys.metaKey = some entry → entry.expiresAt = deadline := by
  have hvacant : Vacant sampleHandle.connection sampleHandle.keys := ⟨rfl, rfl, rfl⟩
  obtain ⟨payload, hpayload, _⟩ := decodeDescriptor_encodeDescriptor retainedDescriptor
  have hrun := (RetentionRun.start hvacant).step (.initialized rfl retainedDescriptor)
  obtain ⟨_, hlives⟩ := hvacant.lives hpayload
  have hstored : storedDescriptor
      (call sampleHandle (initializeNamespace retainedDescriptor)).2.connection
        sampleHandle.keys = some retainedDescriptor := by
    rw [call_initializeNamespace_of_vacant hvacant hpayload]
    exact hlives.storedDescriptor
  obtain ⟨⟨deadline, hdeadline, hretained⟩, _⟩ := hrun.common_deadline
  refine ⟨_, hrun, hstored, deadline, ?_, hdeadline _ List.mem_cons_self⟩
  rw [Ne, hretained _ hstored]
  exact Option.some_ne_none _

end Runs

end Pari.Backend
