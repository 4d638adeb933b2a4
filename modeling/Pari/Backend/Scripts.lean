/-
# The Redis scripts

A namespace owns three Redis keys: the descriptor, a hash with the record of every key, and
one sorted set with all bucket memberships. The three scripts work on them, each as one
atomic command.
-/

import Pari.Backend.RedisCodec

namespace Pari.Backend

open Data Data.Method RedisServer

/-- The Redis keys of a namespace, which are three. -/
structure RedisKeys where
  metaKey : String
  records : String
  buckets : String
  distinct : metaKey ≠ records ∧ metaKey ≠ buckets ∧ records ≠ buckets

def RedisKeys.new (owner : String) : RedisKeys where
  metaKey := "pari:" ++ owner ++ ":meta"
  records := "pari:" ++ owner ++ ":records"
  buckets := "pari:" ++ owner ++ ":buckets"
  distinct := by
    refine ⟨?_, ?_, ?_⟩
    · rw [Ne, String.append_right_inj]
      decide
    · rw [Ne, String.append_right_inj]
      decide
    · rw [Ne, String.append_right_inj]
      decide

/-- Refresh the retention of all three keys. -/
def refreshRetention (keys : RedisKeys) (seconds : Nat) : RedisCommand Unit := do
  expire keys.metaKey seconds
  expire keys.records seconds
  expire keys.buckets seconds

/-- `if due then … end` around one `EXPIRE`. -/
def expireIf (due : Bool) (key : String) (seconds : Nat) : RedisCommand Unit :=
  if due then expire key seconds else pure ()

/-- `if due then … end` around the refresh. -/
def refreshIf (due : Bool) (keys : RedisKeys) (seconds : Nat) : RedisCommand Unit :=
  if due then refreshRetention keys seconds else pure ()

/-- `initialize.lua` -/
def initializeScript (keys : RedisKeys) (argv : List RedisString) : RedisCommand Int := do
  let metaExists ← keyExists keys.metaKey
  let recordsExist ← keyExists keys.records
  let bucketsExist ← keyExists keys.buckets
  if metaExists || recordsExist || bucketsExist then pure 0
  else do
    let payload ← argument argv 1
    set keys.metaKey payload
    let seconds ← numberArgument argv 2
    expireIf (seconds > 0) keys.metaKey seconds
    pure 1

/-! ## `insert.lua` -/

/-- `seen[field] or redis.call('HEXISTS', KEYS[2], field) == 1` -/
def fieldTaken (keys : RedisKeys) (seen : OrderedSet RedisString) (field : RedisString) :
    RedisCommand Bool :=
  if seen.contains field then pure true else hexists keys.records field

/-- The validation loop: the reply of a rejected batch, if there is one. -/
def checkItems (keys : RedisKeys) (argv : List RedisString) (position : Nat) (item : Int)
    (seen : OrderedSet RedisString) : Nat → RedisCommand (Option (Int × Int))
  | 0 => pure none
  | count + 1 => do
      let field ← argument argv position
      let blob ← argument argv (position + 1)
      if blob.bytes.length % 20 ≠ 0 then pure (some (3, item))
      else do
        let taken ← fieldTaken keys seen field
        if taken then pure (some (2, item))
        else checkItems keys argv (position + 2) (item + 1) (seen.insert field) count

/-- The members of a record: `string.sub(blob, offset, offset + 19)` for every twentieth
offset. -/
def blobMembers (blob : RedisString) : List RedisString :=
  (bufferedChunks 20 blob.bytes).map RedisString.mk

/-- The storing loop. -/
def storeItems (keys : RedisKeys) (argv : List RedisString) (position : Nat) :
    Nat → RedisCommand Unit
  | 0 => pure ()
  | count + 1 => do
      let field ← argument argv position
      let blob ← argument argv (position + 1)
      hset keys.records field blob
      (blobMembers blob).forM (zadd keys.buckets)
      storeItems keys argv (position + 2) count

def insertScript (keys : RedisKeys) (argv : List RedisString) : RedisCommand (Int × Int) := do
  let present ← keyExists keys.metaKey
  if !present then pure (0, 0)
  else do
    let seconds ← numberArgument argv 1
    let count ← numberArgument argv 2
    let rejected ← checkItems keys argv 3 1 ∅ count
    match rejected with
    | some reply => pure reply
    | none => do
        storeItems keys argv 3 count
        refreshIf (seconds > 0) keys seconds
        pure (1, count)

/-! ## `delete.lua` -/

/-- The reading loop: the blob of every field, or nothing if one has an invalid width. -/
def readBlobs (keys : RedisKeys) :
    List RedisString → RedisCommand (Option (List (Option RedisString)))
  | [] => pure (some [])
  | field :: fields => do
      let blob ← hget keys.records field
      if blob.any fun blob => blob.bytes.length % 20 != 0 then pure none
      else do
        let blobs ← readBlobs keys fields
        pure (blobs.map (blob :: ·))

/-- The deleting loop, counting the fields that were there. -/
def removeFields (keys : RedisKeys) : List (RedisString × Option RedisString) → RedisCommand Int
  | [] => pure 0
  | (_, none) :: fields => removeFields keys fields
  | (field, some blob) :: fields => do
      let deleted ← hdel keys.records field
      if deleted then do
        (blobMembers blob).forM (zrem keys.buckets)
        let removed ← removeFields keys fields
        pure (1 + removed)
      else removeFields keys fields

def deleteScript (keys : RedisKeys) (argv : List RedisString) : RedisCommand Int := do
  let present ← keyExists keys.metaKey
  if !present then pure (-1)
  else do
    let seconds ← numberArgument argv 1
    let blobs ← readBlobs keys argv.tail
    match blobs with
    | none => pure (-2)
    | some blobs => do
        let removed ← removeFields keys (argv.tail.zip blobs)
        refreshIf (seconds > 0 && removed > 0) keys seconds
        pure removed

/-! ## Scripts that fail -/

section Failing

variable {server server' : RedisServer} {keys : RedisKeys} {argv : List RedisString}

theorem fieldTaken_readOnly (keys : RedisKeys) (seen : OrderedSet RedisString)
    (field : RedisString) : (fieldTaken keys seen field).ReadOnly := by
  rw [fieldTaken]
  split
  · exact .pure _
  · exact hexists_readOnly _ _

theorem checkItems_readOnly (keys : RedisKeys) (argv : List RedisString) (position : Nat)
    (item : Int) (seen : OrderedSet RedisString) (count : Nat) :
    (checkItems keys argv position item seen count).ReadOnly := by
  induction count generalizing position item seen with
  | zero => exact .pure _
  | succ count ih =>
      rw [checkItems]
      refine (argument_readOnly argv position).bind fun field =>
        (argument_readOnly argv (position + 1)).bind fun blob => ?_
      split
      · exact .pure _
      · refine (fieldTaken_readOnly keys seen field).bind fun taken => ?_
        split
        · exact .pure _
        · exact ih _ _ _

theorem readBlobs_readOnly (keys : RedisKeys) (fields : List RedisString) :
    (readBlobs keys fields).ReadOnly := by
  induction fields with
  | nil => exact .pure _
  | cons field fields ih =>
      rw [readBlobs]
      refine (hget_readOnly keys.records field).bind fun blob => ?_
      split
      · exact .pure _
      · exact ih.bind fun _ => .pure _

/-- A script that goes on after a reading sees the server it started on. -/
theorem call_of_readOnly_bind {α β : Type} {command : RedisCommand α} {next : α → RedisCommand β}
    {reply : β} (hread : command.ReadOnly)
    (h : call server (command >>= next) = (.ok reply, server')) :
    ∃ value, call server (next value) = (.ok reply, server') := by
  obtain ⟨value, middle, hrun, hnext⟩ := call_bind_eq_ok_iff.mp h
  obtain rfl : middle = server := by
    have hsame := hread server
    rwa [hrun] at hsame
  exact ⟨value, hnext⟩

/-- An initialization that does not succeed changes nothing. -/
theorem eq_of_call_initializeScript {reply : Int}
    (h : call server (initializeScript keys argv) = (.ok reply, server')) (hreply : reply ≠ 1) :
    server' = server := by
  rw [initializeScript] at h
  obtain ⟨metaExists, h⟩ := call_of_readOnly_bind (keyExists_readOnly _) h
  obtain ⟨recordsExist, h⟩ := call_of_readOnly_bind (keyExists_readOnly _) h
  obtain ⟨bucketsExist, h⟩ := call_of_readOnly_bind (keyExists_readOnly _) h
  split at h
  · exact (congrArg Prod.snd h).symm
  · obtain ⟨payload, h⟩ := call_of_readOnly_bind (argument_readOnly _ _) h
    obtain ⟨_, _, _, h⟩ := call_bind_eq_ok_iff.mp h
    obtain ⟨_, _, _, h⟩ := call_bind_eq_ok_iff.mp h
    obtain ⟨_, _, _, h⟩ := call_bind_eq_ok_iff.mp h
    exact absurd (Except.ok.inj (congrArg Prod.fst h)).symm hreply

/-- A rejected batch changes nothing. -/
theorem eq_of_call_insertScript {code detail : Int}
    (h : call server (insertScript keys argv) = (.ok (code, detail), server'))
    (hcode : code ≠ 1) : server' = server := by
  rw [insertScript] at h
  obtain ⟨present, h⟩ := call_of_readOnly_bind (keyExists_readOnly _) h
  split at h
  · exact (congrArg Prod.snd h).symm
  · obtain ⟨seconds, h⟩ := call_of_readOnly_bind (numberArgument_readOnly _ _) h
    obtain ⟨count, h⟩ := call_of_readOnly_bind (numberArgument_readOnly _ _) h
    obtain ⟨rejected, h⟩ := call_of_readOnly_bind (checkItems_readOnly _ _ _ _ _ _) h
    cases rejected with
    | some reply => exact (congrArg Prod.snd h).symm
    | none =>
        obtain ⟨_, _, _, h⟩ := call_bind_eq_ok_iff.mp h
        obtain ⟨_, _, _, h⟩ := call_bind_eq_ok_iff.mp h
        exact absurd (congrArg Prod.fst (Except.ok.inj (congrArg Prod.fst h))).symm hcode

/-- The deleting loop counts up from zero, and changes nothing if it counts nothing. -/
theorem removeFields_count {fields : List (RedisString × Option RedisString)} {removed : Int}
    (h : call server (removeFields keys fields) = (.ok removed, server')) :
    0 ≤ removed ∧ (removed = 0 → server' = server) := by
  induction fields generalizing server server' removed with
  | nil =>
      cases h
      exact ⟨le_refl _, fun _ => rfl⟩
  | cons entry fields ih =>
      obtain ⟨field, blob⟩ := entry
      cases blob with
      | none => exact ih h
      | some blob =>
          rw [removeFields] at h
          obtain ⟨deleted, middle, hdelete, hrest⟩ := call_bind_eq_ok_iff.mp h
          cases deleted with
          | false =>
              rw [eq_of_call_hdel hdelete] at hrest
              exact ih hrest
          | true =>
              rw [if_pos rfl] at hrest
              obtain ⟨_, _, _, hcounting⟩ := call_bind_eq_ok_iff.mp hrest
              obtain ⟨others, _, hremove, hpure⟩ := call_bind_eq_ok_iff.mp hcounting
              have hothers := (ih hremove).1
              obtain rfl : 1 + others = removed := Except.ok.inj (congrArg Prod.fst hpure)
              exact ⟨by omega, fun hzero => by omega⟩

/-- A deletion that fails, or finds no key to delete, changes nothing. -/
theorem eq_of_call_deleteScript {removed : Int}
    (h : call server (deleteScript keys argv) = (.ok removed, server')) (hremoved : removed ≤ 0) :
    server' = server := by
  rw [deleteScript] at h
  obtain ⟨present, h⟩ := call_of_readOnly_bind (keyExists_readOnly _) h
  split at h
  · exact (congrArg Prod.snd h).symm
  · obtain ⟨seconds, h⟩ := call_of_readOnly_bind (numberArgument_readOnly _ _) h
    obtain ⟨blobs, h⟩ := call_of_readOnly_bind (readBlobs_readOnly _ _) h
    cases blobs with
    | none => exact (congrArg Prod.snd h).symm
    | some blobs =>
        obtain ⟨count, middle, hremove, hrest⟩ := call_bind_eq_ok_iff.mp h
        obtain ⟨hcount, hsame⟩ := removeFields_count hremove
        obtain ⟨_, last, hrefresh, hpure⟩ := call_bind_eq_ok_iff.mp hrest
        obtain rfl : count = removed := Except.ok.inj (congrArg Prod.fst hpure)
        have hquiet : ¬ (decide (seconds > 0) && decide (count > 0)) = true := by
          simp only [Bool.and_eq_true, decide_eq_true_eq]
          omega
        rw [refreshIf, if_neg hquiet] at hrefresh
        have hlast : last = middle := (congrArg Prod.snd hrefresh).symm
        have hserver : server' = last := (congrArg Prod.snd hpure).symm
        rw [hserver, hlast, hsame (by omega)]

end Failing

end Pari.Backend
