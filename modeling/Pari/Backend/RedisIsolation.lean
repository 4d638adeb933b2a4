/-
# Namespaces on one Redis server

Handles of any namespaces work on one server, in any order. Every command of a handle stays
among the three keys of its namespace, and no two namespaces share a key. So the handles of a
namespace are answered, and its keys end up, as if no handle of another namespace had ever
been there.
-/

import Pari.Backend.RedisNamespace

namespace Pari.Backend

open Data Data.Method RedisServer Pari.Format Pari.Core Pari.Index

/-! ## Calls -/

/-- A method of a storage backend with its arguments. -/
inductive BackendCall
  | initializeNamespace (descriptor : IndexDescriptor)
  | loadDescriptor
  | containsMany (keys : List UInt64)
  | insertMany (items : List StoredItem)
  | queryBuckets (buckets : List BucketKey)
  | deleteMany (keys : List UInt64)
  | flush
  | health
  | stats
  | cleanup

inductive BackendReply
  | done
  | described (descriptor : IndexDescriptor)
  | present (flags : List Bool)
  | members (rows : List (List UInt64))
  | deleted (count : Nat)
  | counted (stats : BackendStats)

def BackendCall.serve {β : Type} [StorageBackend β] : BackendCall → Method β BackendError BackendReply
  | .initializeNamespace descriptor => do
      StorageBackend.initializeNamespace descriptor
      pure .done
  | .loadDescriptor => do
      let descriptor ← StorageBackend.loadDescriptor
      pure (.described descriptor)
  | .containsMany keys => do
      let flags ← StorageBackend.containsMany keys
      pure (.present flags)
  | .insertMany items => do
      StorageBackend.insertMany items
      pure .done
  | .queryBuckets buckets => do
      let rows ← StorageBackend.queryBuckets buckets
      pure (.members rows)
  | .deleteMany keys => do
      let count ← StorageBackend.deleteMany keys
      pure (.deleted count)
  | .flush => do
      StorageBackend.flush
      pure .done
  | .health => do
      StorageBackend.health
      pure .done
  | .stats => do
      let stats ← StorageBackend.stats
      pure (.counted stats)
  | .cleanup => do
      StorageBackend.cleanup
      pure .done

/-! ## The keys of a namespace -/

def RedisKeys.all (keys : RedisKeys) : List String := [keys.metaKey, keys.records, keys.buckets]

section Scripts

variable {keys : RedisKeys} {argv : List RedisString}

theorem RedisKeys.metaKey_mem : keys.metaKey ∈ keys.all := List.mem_cons_self

theorem RedisKeys.records_mem : keys.records ∈ keys.all :=
  List.mem_cons_of_mem _ List.mem_cons_self

theorem RedisKeys.buckets_mem : keys.buckets ∈ keys.all :=
  List.mem_cons_of_mem _ (List.mem_cons_of_mem _ List.mem_cons_self)

theorem within_expireIf (due : Bool) {key : String} (hkey : key ∈ keys.all) (seconds : Nat) :
    (expireIf due key seconds).Within (footprint keys.all) := by
  rw [expireIf]
  split
  · exact within_expire hkey seconds
  · exact .pure ()

theorem within_refreshIf (due : Bool) (seconds : Nat) :
    (refreshIf due keys seconds).Within (footprint keys.all) := by
  rw [refreshIf]
  split
  · exact (within_expire RedisKeys.metaKey_mem seconds).bind fun _ =>
      (within_expire RedisKeys.records_mem seconds).bind fun _ =>
        within_expire RedisKeys.buckets_mem seconds
  · exact .pure ()

theorem within_initializeScript : (initializeScript keys argv).Within (footprint keys.all) := by
  refine (within_keyExists RedisKeys.metaKey_mem).bind fun _ =>
    (within_keyExists RedisKeys.records_mem).bind fun _ =>
      (within_keyExists RedisKeys.buckets_mem).bind fun _ => ?_
  split
  · exact .pure 0
  · exact (within_argument argv 1).bind fun payload =>
      (within_set RedisKeys.metaKey_mem payload).bind fun _ =>
        (within_numberArgument argv 2).bind fun seconds =>
          (within_expireIf _ RedisKeys.metaKey_mem seconds).bind fun _ => .pure 1

theorem within_checkItems (position : Nat) (item : Int) (seen : OrderedSet RedisString)
    (count : Nat) : (checkItems keys argv position item seen count).Within (footprint keys.all) := by
  induction count generalizing position item seen with
  | zero => exact .pure none
  | succ count ih =>
      refine (within_argument argv position).bind fun field =>
        (within_argument argv (position + 1)).bind fun blob => ?_
      split
      · exact .pure _
      · have htaken : (fieldTaken keys seen field).Within (footprint keys.all) := by
          rw [fieldTaken]
          split
          · exact .pure true
          · exact within_hexists RedisKeys.records_mem field
        refine htaken.bind fun taken => ?_
        split
        · exact .pure _
        · exact ih _ _ _

theorem within_storeItems (position count : Nat) :
    (storeItems keys argv position count).Within (footprint keys.all) := by
  induction count generalizing position with
  | zero => exact .pure ()
  | succ count ih =>
      exact (within_argument argv position).bind fun field =>
        (within_argument argv (position + 1)).bind fun blob =>
          (within_hset RedisKeys.records_mem field blob).bind fun _ =>
            (Within.forM fun member => within_zadd RedisKeys.buckets_mem member).bind fun _ =>
              ih (position + 2)

theorem within_insertScript : (insertScript keys argv).Within (footprint keys.all) := by
  refine (within_keyExists RedisKeys.metaKey_mem).bind fun present => ?_
  split
  · exact .pure (0, 0)
  · refine (within_numberArgument argv 1).bind fun seconds =>
      (within_numberArgument argv 2).bind fun count =>
        (within_checkItems 3 1 ∅ count).bind fun rejected => ?_
    cases rejected with
    | some reply => exact .pure reply
    | none =>
        exact (within_storeItems 3 count).bind fun _ =>
          (within_refreshIf _ seconds).bind fun _ => .pure _

theorem within_readBlobs (fields : List RedisString) :
    (readBlobs keys fields).Within (footprint keys.all) := by
  induction fields with
  | nil => exact .pure _
  | cons field fields ih =>
      refine (within_hget RedisKeys.records_mem field).bind fun blob => ?_
      split
      · exact .pure none
      · exact ih.bind fun _ => .pure _

theorem within_removeFields (fields : List (RedisString × Option RedisString)) :
    (removeFields keys fields).Within (footprint keys.all) := by
  induction fields with
  | nil => exact .pure 0
  | cons entry fields ih =>
      obtain ⟨field, blob⟩ := entry
      cases blob with
      | none => exact ih
      | some blob =>
          refine (within_hdel RedisKeys.records_mem field).bind fun deleted => ?_
          split
          · exact (Within.forM fun member => within_zrem RedisKeys.buckets_mem member).bind fun _ =>
              ih.bind fun _ => .pure _
          · exact ih

theorem within_deleteScript : (deleteScript keys argv).Within (footprint keys.all) := by
  refine (within_keyExists RedisKeys.metaKey_mem).bind fun present => ?_
  split
  · exact .pure (-1)
  · refine (within_numberArgument argv 1).bind fun seconds =>
      (within_readBlobs argv.tail).bind fun blobs => ?_
    cases blobs with
    | none => exact .pure (-2)
    | some blobs =>
        exact (within_removeFields _).bind fun removed =>
          (within_refreshIf _ seconds).bind fun _ => .pure removed

theorem within_statsCommands : (RedisBackend.statsCommands keys).Within (footprint keys.all) :=
  (within_hlen RedisKeys.records_mem).bind fun _ =>
    (within_zcard RedisKeys.buckets_mem).bind fun _ =>
      (within_ttl RedisKeys.metaKey_mem).bind fun _ =>
        (Within.lift _).bind fun _ => (Within.lift _).bind fun _ => .pure _

end Scripts

/-! ## A handle -/

namespace RedisBackend

/-- A handle of a namespace sees its own state and what is stored under the three keys. -/
def handleFootprint (keys : RedisKeys) : Footprint RedisBackend where
  Same left right := left.keys = keys ∧ right.keys = keys ∧
    left.retentionSeconds = right.retentionSeconds ∧ left.roundTrips = right.roundTrips ∧
    (footprint keys.all).Same left.connection right.connection
  Spares before after := before.keys = keys →
    after.keys = keys ∧ (footprint keys.all).Spares before.connection after.connection
  spares_refl _ h := ⟨h, (footprint keys.all).spares_refl _⟩
  spares_trans h h' hkeys := by
    obtain ⟨hsecond, hfirst⟩ := h hkeys
    obtain ⟨hthird, hlast⟩ := h' hsecond
    exact ⟨hthird, (footprint keys.all).spares_trans hfirst hlast⟩

variable {keys : RedisKeys}

theorem within_request {α : Type} (operation : String) {command : RedisKeys → RedisCommand α}
    (h : (command keys).Within (footprint keys.all)) :
    (request operation command).Within (handleFootprint keys) := by
  have hbump : (update bumpRoundTrip : Operation Unit).Within (handleFootprint keys) := by
    refine .update (fun {left right} hsame => ?_) fun backend hkeys =>
      ⟨hkeys, (footprint keys.all).spares_refl _⟩
    obtain ⟨hleft, hright, hretention, htrips, hconnection⟩ := hsame
    exact ⟨hleft, hright, hretention, by rw [bumpRoundTrip, bumpRoundTrip, htrips], hconnection⟩
  refine hbump.bind fun _ => ?_
  -- The keys the command works on are read from the handle.
  have hpart : ∀ backend : RedisBackend, backend.keys = keys →
      call backend (read RedisBackend.keys >>= fun own => (command own).onPart
          RedisBackend.connection (fun connection backend => { backend with connection })
          (redisError operation)) =
        call backend ((command keys).onPart RedisBackend.connection
          (fun connection backend => { backend with connection }) (redisError operation)) := by
    intro backend hkeys
    rw [call_read_bind, hkeys]
  have hcommand : ((command keys).onPart RedisBackend.connection
      (fun connection (backend : RedisBackend) => { backend with connection })
      (redisError operation)).Within (handleFootprint keys) :=
    h.onPart (fun hsame => hsame.2.2.2.2)
      (fun hsame hserver => ⟨hsame.1, hsame.2.1, hsame.2.2.1, hsame.2.2.2.1, hserver⟩)
      fun hspares hkeys => ⟨hkeys, hspares⟩
  refine ⟨fun hsame => ?_, fun hsame => ?_, fun backend hkeys => ?_⟩
  · rw [hpart _ hsame.1, hpart _ hsame.2.1]
    exact hcommand.reply hsame
  · rw [hpart _ hsame.1, hpart _ hsame.2.1]
    exact hcommand.same hsame
  · rw [hpart _ hkeys]
    exact hcommand.spares backend hkeys

theorem within_setRetention (seconds : Option UInt64) :
    (update fun backend : RedisBackend => { backend with retentionSeconds := seconds } :
      Operation Unit).Within (handleFootprint keys) :=
  .update (fun hsame => ⟨hsame.1, hsame.2.1, rfl, hsame.2.2.2.1, hsame.2.2.2.2⟩)
    fun _ hkeys => ⟨hkeys, (footprint keys.all).spares_refl _⟩

theorem within_retentionArgument :
    (read retentionArgument : Operation Nat).Within (handleFootprint keys) :=
  .read fun hsame => by rw [retentionArgument, retentionArgument, hsame.2.2.1]

theorem within_insertMany (items : List StoredItem) :
    (RedisBackend.insertMany items).Within (handleFootprint keys) := by
  rw [RedisBackend.insertMany]
  split
  · exact .pure ()
  · exact (Within.lift _).bind fun _ => within_retentionArgument.bind fun _ =>
      (within_request _ within_insertScript).bind fun _ => .lift _

theorem within_deleteMany (deleted : List UInt64) :
    (RedisBackend.deleteMany deleted).Within (handleFootprint keys) := by
  rw [RedisBackend.deleteMany]
  split
  · exact .pure 0
  · exact within_retentionArgument.bind fun _ =>
      (within_request _ within_deleteScript).bind fun _ => .lift _

theorem within_queryBuckets (buckets : List BucketKey) :
    (RedisBackend.queryBuckets buckets).Within (handleFootprint keys) := by
  rw [RedisBackend.queryBuckets]
  split
  · exact .pure []
  · exact (within_request _ (Within.mapM fun bucket =>
      within_zrangebylex RedisKeys.buckets_mem _ _)).bind fun _ =>
        (Within.lift _).bind fun _ => .lift _

theorem within_containsMany (asked : List UInt64) :
    (RedisBackend.containsMany asked).Within (handleFootprint keys) := by
  rw [RedisBackend.containsMany]
  split
  · exact .pure []
  · exact within_request _ (Within.mapM fun field => within_hexists RedisKeys.records_mem field)

theorem within_ping (operation : String) :
    (RedisBackend.ping operation).Within (handleFootprint keys) :=
  within_request operation (.pure ())

theorem within_initializeNamespace (descriptor : IndexDescriptor) :
    (RedisBackend.initializeNamespace descriptor).Within (handleFootprint keys) :=
  (Within.lift _).bind fun _ => (within_request _ within_initializeScript).bind fun _ =>
    (Within.lift _).bind fun _ => within_setRetention _

theorem within_loadDescriptor : RedisBackend.loadDescriptor.Within (handleFootprint keys) :=
  (within_request _ (within_get RedisKeys.metaKey_mem)).bind fun _ =>
    (Within.lift _).bind fun _ => (Within.lift _).bind fun _ =>
      (within_setRetention _).bind fun _ => .pure _

theorem within_stats : RedisBackend.stats.Within (handleFootprint keys) :=
  (within_request _ within_statsCommands).bind fun _ => (Within.lift _).bind fun _ =>
    (Within.read fun {_ _} (hsame : (handleFootprint keys).Same _ _) => hsame.2.2.2.1).bind
      fun _ => .pure _

theorem within_cleanup : RedisBackend.cleanup.Within (handleFootprint keys) :=
  (within_request _ (within_del fun _ hmem => hmem)).bind fun _ => within_setRetention none

/-- Every call stays within its namespace. -/
theorem within_serve (operation : BackendCall) :
    (operation.serve : Operation BackendReply).Within (handleFootprint keys) := by
  cases operation with
  | initializeNamespace descriptor =>
      exact (within_initializeNamespace descriptor).bind fun _ => .pure _
  | loadDescriptor => exact within_loadDescriptor.bind fun _ => .pure _
  | containsMany asked => exact (within_containsMany asked).bind fun _ => .pure _
  | insertMany items => exact (within_insertMany items).bind fun _ => .pure _
  | queryBuckets buckets => exact (within_queryBuckets buckets).bind fun _ => .pure _
  | deleteMany deleted => exact (within_deleteMany deleted).bind fun _ => .pure _
  | flush => exact (within_ping _).bind fun _ => .pure _
  | health => exact (within_ping _).bind fun _ => .pure _
  | stats => exact within_stats.bind fun _ => .pure _
  | cleanup => exact within_cleanup.bind fun _ => .pure _

end RedisBackend

/-! ## Many handles -/

/-- A server and the handles on it, each bound to its namespace. -/
structure Clients (owners : Nat → String) where
  server : RedisServer
  handles : Nat → RedisBackend
  bound : ∀ handle, (handles handle).keys = .new (owners handle)

/-- A call of one of the handles, or the passage of time. -/
inductive ClientEvent
  | call (handle : Nat) (operation : BackendCall)
  | waited (milliseconds : Nat)

/-- Whether an event is one of a namespace: a call of one of its handles, or time that passes
for everyone. -/
def ClientEvent.concerns (owners : Nat → String) (owner : String) : ClientEvent → Bool
  | .call handle _ => owners handle == owner
  | .waited _ => true

namespace Clients

variable {owners : Nat → String}

/-- The handle of a client, talking to the server as it is now. -/
def reach (clients : Clients owners) (handle : Nat) : RedisBackend :=
  { clients.handles handle with connection := clients.server }

/-- A call leaves its handle bound and spares all other keys. -/
theorem spares_reach (clients : Clients owners) (handle : Nat) (operation : BackendCall) :
    (call (clients.reach handle) operation.serve).2.keys = .new (owners handle) ∧
      (footprint (RedisKeys.new (owners handle)).all).Spares clients.server
        (call (clients.reach handle) operation.serve).2.connection :=
  (RedisBackend.within_serve operation).spares (clients.reach handle) (clients.bound handle)

/-- One event: every call is one command or script, which no other interrupts. -/
def act : ClientEvent → Clients owners → Option (Except BackendError BackendReply) × Clients owners
  | .call handle operation, clients =>
      let answered := Data.call (clients.reach handle) operation.serve
      (some answered.1, {
        server := answered.2.connection
        handles := Function.update clients.handles handle answered.2
        bound := by
          intro other
          by_cases heq : other = handle
          · subst heq
            rw [Function.update_self]
            exact (clients.spares_reach other operation).1
          · rw [Function.update_of_ne heq]
            exact clients.bound other })
  | .waited milliseconds, clients =>
      (none, { clients with server := clients.server.advance milliseconds })

/-- The same to a namespace: its keys, and the state of its handles. -/
structure Same (owner : String) (left right : Clients owners) : Prop where
  server : (footprint (RedisKeys.new owner).all).Same left.server right.server
  retention : ∀ handle, owners handle = owner →
    (left.handles handle).retentionSeconds = (right.handles handle).retentionSeconds
  roundTrips : ∀ handle, owners handle = owner →
    (left.handles handle).roundTrips = (right.handles handle).roundTrips

end Clients

/-- Strings with different ends differ. -/
theorem append_ne_append {front back first second : String}
    (hends : first.toList.reverse.take 2 ≠ second.toList.reverse.take 2)
    (hfirst : 2 ≤ first.toList.length) (hsecond : 2 ≤ second.toList.length) :
    front ++ first ≠ back ++ second := by
  intro h
  have hreverse := congrArg (fun text : String => text.toList.reverse.take 2) h
  simp only [String.toList_append, List.reverse_append] at hreverse
  rw [List.take_append_of_le_length (by rwa [List.length_reverse]),
    List.take_append_of_le_length (by rwa [List.length_reverse])] at hreverse
  exact hends hreverse

/-- Two namespaces have no key in common. -/
theorem RedisKeys.disjoint_new {owner other : String} (h : owner ≠ other) :
    List.Disjoint (RedisKeys.new owner).all (RedisKeys.new other).all := by
  have hsame : ∀ kind : String, "pari:" ++ owner ++ kind ≠ "pari:" ++ other ++ kind := by
    intro kind heq
    exact h ((String.append_right_inj _).mp ((String.append_left_inj _).mp heq))
  intro key hkey hother
  simp only [RedisKeys.all, RedisKeys.new, List.mem_cons, List.not_mem_nil, or_false] at hkey hother
  rcases hkey with rfl | rfl | rfl
  · rcases hother with heq | heq | heq
    · exact hsame _ heq
    · exact append_ne_append (by decide) (by decide) (by decide) heq
    · exact append_ne_append (by decide) (by decide) (by decide) heq
  · rcases hother with heq | heq | heq
    · exact append_ne_append (by decide) (by decide) (by decide) heq
    · exact hsame _ heq
    · exact append_ne_append (by decide) (by decide) (by decide) heq
  · rcases hother with heq | heq | heq
    · exact append_ne_append (by decide) (by decide) (by decide) heq
    · exact append_ne_append (by decide) (by decide) (by decide) heq
    · exact hsame _ heq

namespace Clients

variable {owners : Nat → String} {owner : String} {left right : Clients owners}

theorem Same.refl (clients : Clients owners) : Same owner clients clients where
  server := ⟨rfl, fun _ _ => rfl⟩
  retention _ _ := rfl
  roundTrips _ _ := rfl

theorem Same.trans {third : Clients owners} (h : Same owner left right)
    (h' : Same owner right third) : Same owner left third where
  server := ⟨h.server.1.trans h'.server.1, fun key hkey =>
    (h.server.2 key hkey).trans (h'.server.2 key hkey)⟩
  retention handle howner := (h.retention handle howner).trans (h'.retention handle howner)
  roundTrips handle howner := (h.roundTrips handle howner).trans (h'.roundTrips handle howner)

theorem Same.reach (h : Same owner left right) {handle : Nat} (howner : owners handle = owner) :
    (RedisBackend.handleFootprint (.new owner)).Same (left.reach handle) (right.reach handle) :=
  ⟨howner ▸ left.bound handle, howner ▸ right.bound handle, h.retention handle howner,
    h.roundTrips handle howner, h.server⟩

/-- An event of a namespace is answered alike, and leaves the namespace the same, from states
that are the same to it. -/
theorem Same.act (h : Same owner left right) {event : ClientEvent}
    (hevent : event.concerns owners owner = true) :
    (act event left).1 = (act event right).1 ∧ Same owner (act event left).2 (act event right).2 := by
  cases event with
  | waited milliseconds =>
      exact ⟨rfl, same_advance h.server milliseconds, h.retention, h.roundTrips⟩
  | call handle operation =>
      have howner : owners handle = owner := by simpa [ClientEvent.concerns] using hevent
      have hwithin := @RedisBackend.within_serve (.new owner) operation
      have hreach := h.reach howner
      obtain ⟨_, _, hretention, hroundTrips, hserver⟩ := hwithin.same hreach
      refine ⟨congrArg some (hwithin.reply hreach), hserver, fun other hother => ?_,
        fun other hother => ?_⟩
      · by_cases heq : other = handle
        · subst heq
          simpa [Clients.act] using hretention
        · simpa [Clients.act, Function.update_of_ne heq] using h.retention other hother
      · by_cases heq : other = handle
        · subst heq
          simpa [Clients.act] using hroundTrips
        · simpa [Clients.act, Function.update_of_ne heq] using h.roundTrips other hother

/-- An event of another namespace leaves a namespace the same. -/
theorem same_of_other (clients : Clients owners) {event : ClientEvent}
    (hevent : event.concerns owners owner = false) : Same owner (act event clients).2 clients := by
  cases event with
  | waited milliseconds => cases hevent
  | call handle operation =>
      have howner : owner ≠ owners handle := by
        rintro rfl
        simp [ClientEvent.concerns] at hevent
      obtain ⟨_, hnow, hentries⟩ := clients.spares_reach handle operation
      have hne : ∀ other, owners other = owner → other ≠ handle := by
        rintro other hother rfl
        exact howner hother.symm
      refine ⟨⟨hnow, fun key hkey => ?_⟩, fun other hother => ?_, fun other hother => ?_⟩
      · exact hentries key fun hmem => RedisKeys.disjoint_new howner hkey hmem
      · simp [Clients.act, Function.update_of_ne (hne other hother)]
      · simp [Clients.act, Function.update_of_ne (hne other hother)]

end Clients

/-- Whatever handles of other namespaces do on the same server, in whatever order: the handles of
a namespace get the replies they would get without them, and the keys of the namespace and its
handles end up as without them. -/
theorem namespaces_isolated {owners : Nat → String} (clients : Clients owners) (owner : String)
    (events : List ClientEvent) :
    (runEvents Clients.act clients events).1.filter (·.1.concerns owners owner) =
        (runEvents Clients.act clients (events.filter (·.concerns owners owner))).1 ∧
      Clients.Same owner (runEvents Clients.act clients events).2
        (runEvents Clients.act clients (events.filter (·.concerns owners owner))).2 := by
  apply @filter_runEvents (Clients owners) _ _ Clients.act (Clients.Same owner)
    (·.concerns owners owner) Clients.Same.trans
  · intro event hevent left right hsame
    exact hsame.act hevent
  · intro event hevent left right _
    exact left.same_of_other hevent
  · exact .refl clients

end Pari.Backend
