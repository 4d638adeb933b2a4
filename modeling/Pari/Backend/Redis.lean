/-
# The Redis backend

A handle is a connection to the server, the keys of its namespace, and the retention it
refreshes after a mutation. Mutations are scripts and reads are pipelines; every one of them
is one round trip. The server at the other end is part of the handle's state here.
-/

import Pari.Backend.Scripts

namespace Pari.Backend

open Data Data.Method RedisServer Pari.Format Pari.Core Pari.Index

/-- A handle on one namespace. -/
structure RedisBackend where
  connection : RedisServer
  keys : RedisKeys
  retentionSeconds : Option UInt64
  roundTrips : UInt64

namespace RedisBackend

/-- A method of the backend. -/
abbrev Operation (α : Type) := Method RedisBackend BackendError α

/-! ## Connecting -/

def maxNamespaceBytes : Nat := 128

/-- `is_ascii_alphanumeric`, or one of `.`, `_` and `-`. -/
def namespaceByte (byte : UInt8) : Bool :=
  (48 ≤ byte && byte ≤ 57) || (65 ≤ byte && byte ≤ 90) || (97 ≤ byte && byte ≤ 122) ||
    byte == 46 || byte == 95 || byte == 45

def validateNamespace (owner : String) : Except BackendError Unit :=
  rejectIf (owner.isEmpty = true ∨ maxNamespaceBytes < owner.utf8ByteSize ∨
      owner.toUTF8.toList.all namespaceByte = false)
    (.invalidNamespace "must be 1..=128 ASCII alphanumeric, '.', '_' or '-' bytes")

/-- Bind a handle on a server to one namespace. -/
def connect (server : RedisServer) (owner : String) : Except BackendError RedisBackend := do
  validateNamespace owner
  return { connection := server, keys := .new owner, retentionSeconds := none, roundTrips := 0 }

/-! ## Requests -/

def errorKind : RedisError → String
  | .wrongType => "ExtensionError"
  | .script => "ResponseError"
  | .range => "ResponseError"
  | .reply => "TypeError"

def redisError (operation : String) (error : RedisError) : BackendError :=
  let kind := errorKind error
  .transport operation s!"Redis {kind}"

/-- `saturating_add(1)` on the round trips. -/
def bumpRoundTrip (backend : RedisBackend) : RedisBackend :=
  { backend with
    roundTrips := if backend.roundTrips + 1 = 0 then backend.roundTrips
      else backend.roundTrips + 1 }

/-- One round trip. -/
def request {α : Type} (operation : String) (command : RedisKeys → RedisCommand α) :
    Operation α := do
  update bumpRoundTrip
  let keys ← read RedisBackend.keys
  (command keys).onPart RedisBackend.connection
    (fun connection backend => { backend with connection }) (redisError operation)

def retentionArgument (backend : RedisBackend) : Nat :=
  (backend.retentionSeconds.getD 0).toNat

/-! ## Operations -/

def initializeNamespace (descriptor : IndexDescriptor) : Operation Unit := do
  let payload ← lift (encodeDescriptor descriptor)
  let seconds := (descriptor.retention.elim 0 Duration.secs).toNat
  let result ← request "initialize" fun keys =>
    initializeScript keys [⟨payload⟩, decimal seconds]
  lift (rejectIf (result ≠ 1) .alreadyExists)
  update fun backend =>
    { backend with retentionSeconds := descriptor.retention.map Duration.secs }

def loadDescriptor : Operation IndexDescriptor := do
  let payload ← request "load descriptor" fun keys => get keys.metaKey
  let payload ← lift (okOr payload .notFound)
  let descriptor ← lift (decodeDescriptor payload.bytes)
  update fun backend =>
    { backend with retentionSeconds := descriptor.retention.map Duration.secs }
  pure descriptor

def userField (key : UInt64) : RedisString := ⟨encodeUserKey key⟩

def containsMany (keys : List UInt64) : Operation (List Bool) :=
  if keys.isEmpty = true then pure []
  else request "batch contains" fun redisKeys =>
    (keys.map userField).mapM (hexists redisKeys.records)

/-- The arguments of one item: its field and its record. -/
def encodeItem (item : StoredItem) : Except BackendError (List RedisString) := do
  let blob ← recordBlob item
  return [userField item.key, ⟨blob⟩]

def insertReply (items : List StoredItem) (code detail : Int) : Except BackendError Unit :=
  if code = 1 then .ok ()
  else if code = 0 then .error .notFound
  else if code = 2 then
    if detail - 1 < 0 then .error .lengthOverflow
    else
      match items[(detail - 1).toNat]? with
      | some item => .error (.duplicateKey item.key)
      | none => .error
          (.corruptData "Redis duplicate response referenced an invalid batch item")
  else if code = 3 then
    .error (.corruptData "Redis rejected a malformed bucket membership record")
  else .error (.corruptData s!"Redis insert script returned unknown status {code}")

def insertMany (items : List StoredItem) : Operation Unit :=
  if items.isEmpty = true then pure ()
  else do
    let encoded ← lift (items.mapM encodeItem)
    let seconds ← read retentionArgument
    let reply ← request "batch insert" fun keys =>
      insertScript keys (decimal seconds :: decimal items.length :: encoded.flatten)
    lift (insertReply items reply.1 reply.2)

/-- Decode the reply rows, each by the bucket it was requested for. -/
def decodeRows : List (List RedisString × BucketKey) → Except BackendError (List (List UInt64))
  | rows => rows.mapM fun row => row.1.mapM fun member => decodeBucketMember row.2 member.bytes

def queryBuckets (buckets : List BucketKey) : Operation (List (List UInt64)) :=
  if buckets.isEmpty = true then pure []
  else do
    let raw ← request "batch bucket query" fun keys => buckets.mapM fun bucket =>
      zrangebylex keys.buckets ⟨(bucketLexRange bucket).1⟩ ⟨(bucketLexRange bucket).2⟩
    lift (rejectIf (raw.length ≠ buckets.length)
      (.corruptData "Redis returned the wrong number of bucket result rows"))
    lift (decodeRows (raw.zip buckets))

def deleteReply (removed : Int) : Except BackendError Nat :=
  if removed = -1 then .error .notFound
  else if removed = -2 then
    .error (.corruptData "Redis record payload has an invalid bucket-member width")
  else if 0 ≤ removed then .ok removed.toNat
  else .error (.corruptData s!"Redis delete script returned unknown status {removed}")

def deleteMany (keys : List UInt64) : Operation Nat :=
  if keys.isEmpty = true then pure 0
  else do
    let seconds ← read retentionArgument
    let removed ← request "batch delete" fun redisKeys =>
      deleteScript redisKeys (decimal seconds :: keys.map userField)
    lift (deleteReply removed)

/-- `PING` -/
def ping (operation : String) : Operation Unit := request operation fun _ => pure ()

def flush : Operation Unit := ping "flush barrier"

def health : Operation Unit := ping "health check"

/-- The three replies of a statistics request, as the client converts them. -/
def statsCommands (keys : RedisKeys) : RedisCommand (UInt64 × UInt64 × Int) := do
  let items ← hlen keys.records
  let memberships ← zcard keys.buckets
  let remaining ← ttl keys.metaKey
  let items ← lift (okOr (tryU64 items) .reply)
  let memberships ← lift (okOr (tryU64 memberships) .reply)
  pure (items, memberships, remaining)

def remainingSeconds (remaining : Int) : Except BackendError (Option UInt64) := do
  rejectIf (remaining = -2) .notFound
  if remaining < 0 then return none
  else do
    let seconds ← okOr (tryU64 remaining.toNat) .lengthOverflow
    return some seconds

def stats : Operation BackendStats := do
  let (items, memberships, remaining) ← request "stats" statsCommands
  let ttlSecondsRemaining ← lift (remainingSeconds remaining)
  let roundTrips ← read RedisBackend.roundTrips
  pure { items, bucketMemberships := memberships, roundTrips, ttlSecondsRemaining }

def cleanup : Operation Unit := do
  let _ ← request "namespace cleanup" fun keys => del [keys.metaKey, keys.records, keys.buckets]
  update fun backend => { backend with retentionSeconds := none }

instance : StorageBackend RedisBackend where
  capabilities _ := .redis
  initializeNamespace := initializeNamespace
  loadDescriptor := loadDescriptor
  containsMany := containsMany
  insertMany := insertMany
  queryBuckets := queryBuckets
  deleteMany := deleteMany
  flush := flush
  health := health
  stats := stats
  cleanup := cleanup

end RedisBackend

end Pari.Backend
