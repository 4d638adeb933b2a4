/-
# A Redis server

The commands of a Redis server on strings, hashes and sorted sets, by their documented
behaviour. A hash or a sorted set that becomes empty is deleted with its key; a write keeps
the time at which a key expires, and `SET` forgets it. The members of a sorted set all have
score zero here, so they are ordered by their bytes. The clock counts milliseconds, and keys
that are due are gone as soon as it moves.
-/

import Mathlib.Data.Nat.Digits.Defs
import Pari.Data.Bytes
import Pari.Data.Collections
import Pari.Data.Footprint
import Pari.Data.Lexicographic

namespace Data

/-! ## Values -/

instance instLinearOrderByte : LinearOrder UInt8 where
  le_refl := UInt8.le_refl
  le_trans := fun _ _ _ => UInt8.le_trans
  lt_iff_le_not_ge := fun a b => by
    rw [UInt8.lt_iff_toNat_lt, UInt8.le_iff_toNat_le, UInt8.le_iff_toNat_le]
    omega
  le_antisymm := fun _ _ => UInt8.le_antisymm
  le_total := UInt8.le_total
  toDecidableLE := inferInstance
  toDecidableEq := inferInstance
  toDecidableLT := inferInstance
  compare_eq_compareOfLessAndEq := fun _ _ => rfl

/-- A binary-safe string. -/
@[ext]
structure RedisString where
  bytes : Bytes
  deriving DecidableEq

/-- Strings are ordered byte by byte, a proper prefix before the longer string. -/
instance : LinearOrder RedisString :=
  LinearOrder.lift' RedisString.bytes fun _ _ => RedisString.ext

theorem RedisString.le_iff {left right : RedisString} : left ≤ right ↔ left.bytes ≤ right.bytes :=
  Iff.rfl

inductive RedisValue
  | string (value : RedisString)
  | hash (fields : OrderedMap RedisString RedisString)
  | sortedSet (members : OrderedSet RedisString)

/-- What is stored under a key, and when it expires. -/
structure RedisEntry where
  value : RedisValue
  expiresAt : Option Nat

@[ext]
structure RedisServer where
  entries : String → Option RedisEntry
  now : Nat

/-- Why a command fails: the value under the key has another type, an argument of a script or
a range is malformed, or a reply is not what the client expects. -/
inductive RedisError
  | wrongType
  | script
  | range
  | reply
  deriving DecidableEq, Repr

/-- A command, or a script of commands, which the server runs without an interruption. -/
abbrev RedisCommand (α : Type) := Method RedisServer RedisError α

namespace RedisServer

open Method

def setEntry (server : RedisServer) (key : String) (entry : Option RedisEntry) : RedisServer :=
  { server with entries := Function.update server.entries key entry }

/-- Change the value under a key and keep the time at which it expires. -/
def putValue (server : RedisServer) (key : String) (value : RedisValue) : RedisServer :=
  server.setEntry key (some { value, expiresAt := (server.entries key).bind RedisEntry.expiresAt })

/-! ## Arguments of a script -/

/-- A number, as a client sends it. -/
def decimal (number : Nat) : RedisString where
  bytes := if number = 0 then [48]
    else (Nat.digits 10 number).reverse.map fun digit => UInt8.ofNat (48 + digit)

/-- `tonumber` on decimal digits. -/
def toNumber (text : RedisString) : Option Nat :=
  if text.bytes ≠ [] ∧ text.bytes.all fun byte => 48 ≤ byte && byte ≤ 57 then
    some (Nat.ofDigits 10 (text.bytes.reverse.map fun byte => byte.toNat - 48))
  else none

theorem toNumber_decimal (number : Nat) : toNumber (decimal number) = some number := by
  by_cases hzero : number = 0
  · subst hzero
    rfl
  · have hdigit {digit : Nat} (hmem : digit ∈ Nat.digits 10 number) :
        (UInt8.ofNat (48 + digit)).toNat = 48 + digit := by
      have hlt := Nat.digits_lt_base (by decide) hmem
      exact UInt8.toNat_ofNat_of_lt' (show 48 + digit < 256 by omega)
    have hbytes : (decimal number).bytes =
        (Nat.digits 10 number).reverse.map fun digit => UInt8.ofNat (48 + digit) := if_neg hzero
    have hdigits : (decimal number).bytes ≠ [] ∧
        (decimal number).bytes.all (fun byte => 48 ≤ byte && byte ≤ 57) = true := by
      rw [hbytes]
      refine ⟨by simpa using Nat.digits_ne_nil_iff_ne_zero.mpr hzero, ?_⟩
      rw [List.all_eq_true]
      intro byte hbyte
      obtain ⟨digit, hmem, rfl⟩ := List.mem_map.mp hbyte
      rw [List.mem_reverse] at hmem
      have hlt := Nat.digits_lt_base (by decide) hmem
      have hvalue := hdigit hmem
      simp only [Bool.and_eq_true, decide_eq_true_eq, UInt8.le_iff_toNat_le, hvalue]
      exact ⟨Nat.le_add_right 48 digit, show 48 + digit ≤ 57 by omega⟩
    rw [toNumber, if_pos hdigits, hbytes, ← List.map_reverse, List.reverse_reverse, List.map_map]
    have hsame : (Nat.digits 10 number).map
        ((fun byte => UInt8.toNat byte - 48) ∘ fun digit => UInt8.ofNat (48 + digit)) =
        Nat.digits 10 number := by
      conv_rhs => rw [← List.map_id (Nat.digits 10 number)]
      refine List.map_congr_left fun digit hmem => ?_
      rw [Function.comp_apply, hdigit hmem, Nat.add_sub_cancel_left, id]
    rw [hsame, Nat.ofDigits_digits]

/-- `ARGV[position]`, counted from one. -/
def argument (argv : List RedisString) (position : Nat) : RedisCommand RedisString :=
  lift (okOr argv[position - 1]? .script)

/-- `tonumber(ARGV[position])`. -/
def numberArgument (argv : List RedisString) (position : Nat) : RedisCommand Nat := do
  let text ← argument argv position
  lift (okOr (toNumber text) .script)

theorem call_argument {server : RedisServer} {argv : List RedisString} {position : Nat}
    {value : RedisString} (h : argv[position - 1]? = some value) :
    call server (argument argv position) = (.ok value, server) := by
  rw [argument, h, okOr_some, call_lift]

theorem call_numberArgument {server : RedisServer} {argv : List RedisString} {position number : Nat}
    (h : argv[position - 1]? = some (decimal number)) :
    call server (numberArgument argv position) = (.ok number, server) := by
  rw [numberArgument, call_bind_ok (call_argument h), toNumber_decimal, okOr_some, call_lift]

/-! ## Keys -/

def keyExists (key : String) : RedisCommand Bool := read fun server => (server.entries key).isSome

/-- The value of a string. -/
def get (key : String) : RedisCommand (Option RedisString) := tryRead fun server =>
  match server.entries key with
  | none => .ok none
  | some ⟨.string value, _⟩ => .ok (some value)
  | some _ => .error .wrongType

def set (key : String) (value : RedisString) : RedisCommand Unit := update fun server =>
  server.setEntry key (some { value := .string value, expiresAt := none })

/-- Delete keys, returning how many there were. -/
def del : List String → RedisCommand Nat
  | [] => pure 0
  | key :: keys => do
      let present ← keyExists key
      update fun server => server.setEntry key none
      let others ← del keys
      pure ((if present then 1 else 0) + others)

/-- Let a key expire after some seconds; a key that does not exist stays so. -/
def expire (key : String) (seconds : Nat) : RedisCommand Unit := update fun server =>
  match server.entries key with
  | none => server
  | some entry =>
      if seconds = 0 then server.setEntry key none
      else server.setEntry key (some { entry with expiresAt := some (server.now + 1000 * seconds) })

/-- The seconds a key has left, `-1` if it does not expire and `-2` if it does not exist. -/
def ttl (key : String) : RedisCommand Int := read fun server =>
  match server.entries key with
  | none => -2
  | some ⟨_, none⟩ => -1
  | some ⟨_, some deadline⟩ => ((deadline - server.now + 500) / 1000 : Nat)

/-! ## Hashes -/

/-- The value under a key. -/
def value (server : RedisServer) (key : String) : Option RedisValue :=
  (server.entries key).map RedisEntry.value

/-- The fields of a hash; a key that does not exist is an empty hash. -/
def hashAt (server : RedisServer) (key : String) :
    Except RedisError (OrderedMap RedisString RedisString) :=
  match server.value key with
  | none => .ok ∅
  | some (.hash fields) => .ok fields
  | some _ => .error .wrongType

def hashOf (key : String) : RedisCommand (OrderedMap RedisString RedisString) :=
  tryRead fun server => server.hashAt key

def putHash (server : RedisServer) (key : String) (fields : OrderedMap RedisString RedisString) :
    RedisServer :=
  if fields.isEmpty then server.setEntry key none else server.putValue key (.hash fields)

def hexists (key : String) (field : RedisString) : RedisCommand Bool := do
  let fields ← hashOf key
  pure (fields.contains field)

def hget (key : String) (field : RedisString) : RedisCommand (Option RedisString) := do
  let fields ← hashOf key
  pure fields[field]?

def hset (key : String) (field value : RedisString) : RedisCommand Unit := do
  let fields ← hashOf key
  update fun server => server.putHash key (fields.insert field value)

/-- Delete a field, returning whether it was there. -/
def hdel (key : String) (field : RedisString) : RedisCommand Bool := do
  let fields ← hashOf key
  if fields.contains field then do
    update fun server => server.putHash key (fields.erase field)
    pure true
  else pure false

def hlen (key : String) : RedisCommand Nat := do
  let fields ← hashOf key
  pure fields.size

/-! ## Sorted sets -/

/-- The members of a sorted set; a key that does not exist is an empty set. -/
def membersAt (server : RedisServer) (key : String) :
    Except RedisError (OrderedSet RedisString) :=
  match server.value key with
  | none => .ok ∅
  | some (.sortedSet members) => .ok members
  | some _ => .error .wrongType

def membersOf (key : String) : RedisCommand (OrderedSet RedisString) :=
  tryRead fun server => server.membersAt key

def putMembers (server : RedisServer) (key : String) (members : OrderedSet RedisString) :
    RedisServer :=
  if members.isEmpty then server.setEntry key none else server.putValue key (.sortedSet members)

/-- Add a member with score zero. -/
def zadd (key : String) (member : RedisString) : RedisCommand Unit := do
  let members ← membersOf key
  update fun server => server.putMembers key (members.insert member)

def zrem (key : String) (member : RedisString) : RedisCommand Unit := do
  let members ← membersOf key
  update fun server => server.putMembers key (members.erase member)

def zcard (key : String) : RedisCommand Nat := do
  let members ← membersOf key
  pure members.size

/-- Whether a string is on the inner side of a bound: `-` and `+` are the ends, `[` starts an
inclusive bound and `(` an exclusive one. -/
def lexBound (bound : RedisString) (isLower : Bool) : Except RedisError (RedisString → Bool) :=
  match bound.bytes with
  | [45] => .ok fun _ => isLower
  | [43] => .ok fun _ => !isLower
  | 91 :: bytes => .ok fun member => if isLower then ⟨bytes⟩ ≤ member else member ≤ ⟨bytes⟩
  | 40 :: bytes => .ok fun member => if isLower then ⟨bytes⟩ < member else member < ⟨bytes⟩
  | _ => .error .range

/-- Whether a string is between two bounds. -/
def inLexRange (lower upper member : RedisString) : Except RedisError Bool := do
  let aboveLower ← lexBound lower true
  let belowUpper ← lexBound upper false
  return aboveLower member && belowUpper member

/-- The members between two bounds, in the order of their bytes. -/
def zrangebylex (key : String) (lower upper : RedisString) : RedisCommand (List RedisString) := do
  let aboveLower ← lift (lexBound lower true)
  let belowUpper ← lift (lexBound upper false)
  let members ← membersOf key
  pure (members.toList.filter fun member => aboveLower member && belowUpper member)

/-! ## What the commands do -/

section Commands

variable {server : RedisServer} {key other : String} {field value member : RedisString}
  {fields : OrderedMap RedisString RedisString} {members : OrderedSet RedisString}

theorem entries_setEntry_of_ne (h : other ≠ key) (entry : Option RedisEntry) :
    (server.setEntry key entry).entries other = server.entries other :=
  Function.update_of_ne h _ _

theorem entries_setEntry_self (entry : Option RedisEntry) :
    (server.setEntry key entry).entries key = entry :=
  Function.update_self key _ _

theorem entries_putHash_of_ne (h : other ≠ key) :
    (server.putHash key fields).entries other = server.entries other := by
  rw [putHash]
  split
  · exact entries_setEntry_of_ne h _
  · exact entries_setEntry_of_ne h _

theorem entries_putMembers_of_ne (h : other ≠ key) :
    (server.putMembers key members).entries other = server.entries other := by
  rw [putMembers]
  split
  · exact entries_setEntry_of_ne h _
  · exact entries_setEntry_of_ne h _

theorem value_congr {server' : RedisServer} (h : server'.entries key = server.entries key) :
    server'.value key = server.value key := by
  rw [value, value, h]

/-- Two servers with the same value under a key hold the same hash and the same set there. -/
theorem hashAt_congr {server' : RedisServer} (h : server'.value key = server.value key) :
    server'.hashAt key = server.hashAt key := by
  rw [hashAt, hashAt, h]

theorem membersAt_congr {server' : RedisServer} (h : server'.value key = server.value key) :
    server'.membersAt key = server.membersAt key := by
  rw [membersAt, membersAt, h]

@[simp]
theorem hashAt_putHash_self : (server.putHash key fields).hashAt key = .ok fields := by
  rw [putHash]
  split
  · next hempty =>
      rw [hashAt, RedisServer.value, entries_setEntry_self, Std.ExtTreeMap.isEmpty_iff.mp hempty]
      rfl
  · rw [putValue, hashAt, RedisServer.value, entries_setEntry_self]
    rfl

@[simp]
theorem membersAt_putMembers_self : (server.putMembers key members).membersAt key = .ok members := by
  rw [putMembers]
  split
  · next hempty =>
      rw [membersAt, RedisServer.value, entries_setEntry_self, Std.ExtTreeSet.isEmpty_iff.mp hempty]
      rfl
  · rw [putValue, membersAt, RedisServer.value, entries_setEntry_self]
    rfl

theorem call_hashOf (h : server.hashAt key = .ok fields) :
    call server (hashOf key) = (.ok fields, server) := by
  rw [hashOf, call_tryRead, h]

theorem call_membersOf (h : server.membersAt key = .ok members) :
    call server (membersOf key) = (.ok members, server) := by
  rw [membersOf, call_tryRead, h]

theorem call_hexists (h : server.hashAt key = .ok fields) :
    call server (hexists key field) = (.ok (fields.contains field), server) := by
  rw [hexists, call_bind_ok (call_hashOf h), call_pure]

theorem call_hget (h : server.hashAt key = .ok fields) :
    call server (hget key field) = (.ok fields[field]?, server) := by
  rw [hget, call_bind_ok (call_hashOf h), call_pure]

theorem call_hset (h : server.hashAt key = .ok fields) :
    call server (hset key field value) =
      (.ok (), server.putHash key (fields.insert field value)) := by
  rw [hset, call_bind_ok (call_hashOf h), call_update]

theorem call_hdel (h : server.hashAt key = .ok fields) :
    call server (hdel key field) = (.ok (fields.contains field),
      if fields.contains field then server.putHash key (fields.erase field) else server) := by
  rw [hdel, call_bind_ok (call_hashOf h)]
  cases hfield : fields.contains field <;> rfl

theorem call_hlen (h : server.hashAt key = .ok fields) :
    call server (hlen key) = (.ok fields.size, server) := by
  rw [hlen, call_bind_ok (call_hashOf h), call_pure]

theorem call_zadd (h : server.membersAt key = .ok members) :
    call server (zadd key member) = (.ok (), server.putMembers key (members.insert member)) := by
  rw [zadd, call_bind_ok (call_membersOf h), call_update]

theorem call_zrem (h : server.membersAt key = .ok members) :
    call server (zrem key member) = (.ok (), server.putMembers key (members.erase member)) := by
  rw [zrem, call_bind_ok (call_membersOf h), call_update]

theorem call_zcard (h : server.membersAt key = .ok members) :
    call server (zcard key) = (.ok members.size, server) := by
  rw [zcard, call_bind_ok (call_membersOf h), call_pure]

/-- An inclusive range. -/
theorem call_zrangebylex (h : server.membersAt key = .ok members) (lower upper : Bytes) :
    call server (zrangebylex key ⟨91 :: lower⟩ ⟨91 :: upper⟩) =
      (.ok (members.toList.filter fun member =>
        decide (lower ≤ member.bytes) && decide (member.bytes ≤ upper)), server) := by
  have hlower : lexBound ⟨91 :: lower⟩ true = .ok fun member => decide (⟨lower⟩ ≤ member) := rfl
  have hupper : lexBound ⟨91 :: upper⟩ false = .ok fun member => decide (member ≤ ⟨upper⟩) := rfl
  rw [zrangebylex, hlower, hupper, call_lift_ok_bind, call_lift_ok_bind,
    call_bind_ok (call_membersOf h)]
  rfl

theorem keyExists_readOnly (key : String) : (keyExists key).ReadOnly := .read _

theorem hexists_readOnly (key : String) (field : RedisString) : (hexists key field).ReadOnly :=
  (ReadOnly.tryRead _).bind fun _ => .pure _

theorem hget_readOnly (key : String) (field : RedisString) : (hget key field).ReadOnly :=
  (ReadOnly.tryRead _).bind fun _ => .pure _

theorem argument_readOnly (argv : List RedisString) (position : Nat) :
    (argument argv position).ReadOnly := .lift _

theorem numberArgument_readOnly (argv : List RedisString) (position : Nat) :
    (numberArgument argv position).ReadOnly :=
  (argument_readOnly argv position).bind fun _ => .lift _

/-- What was read as a string is stored as one. -/
theorem get_of_ok {server' : RedisServer} {text : RedisString}
    (h : call server (RedisServer.get key) = (.ok (some text), server')) :
    server' = server ∧ server.value key = some (.string text) := by
  rw [RedisServer.get, call_tryRead] at h
  obtain ⟨hread, rfl⟩ := Prod.mk.inj h
  refine ⟨rfl, ?_⟩
  rw [value]
  split at hread
  · cases hread
  · next hentry =>
      cases hread
      rw [hentry]
      rfl
  · cases hread

/-- Deleted keys are gone, and the others stay. -/
theorem call_del (keys : List String) :
    ∃ count, call server (del keys) =
      (.ok count, { server with entries := fun key =>
        if key ∈ keys then none else server.entries key }) := by
  induction keys generalizing server with
  | nil => exact ⟨0, by simp [del]⟩
  | cons key keys ih =>
      obtain ⟨count, hcount⟩ := @ih (server.setEntry key none)
      refine ⟨(if (server.entries key).isSome then 1 else 0) + count, ?_⟩
      rw [del, keyExists, call_read_bind, call_update_bind, call_bind_ok hcount, call_pure]
      refine Prod.ext rfl (RedisServer.ext (funext fun other => ?_) rfl)
      by_cases heq : other = key
      · simp [setEntry, heq]
      · simp [setEntry, heq]

/-- Deleting a field that is not there changes nothing. -/
theorem eq_of_call_hdel {server' : RedisServer}
    (h : call server (hdel key field) = (.ok false, server')) : server' = server := by
  obtain ⟨fields, middle, hfields, hrest⟩ := call_bind_eq_ok_iff.mp h
  obtain rfl : middle = server := (congrArg Prod.snd hfields).symm
  split at hrest
  · cases hrest
  · exact (congrArg Prod.snd hrest).symm

end Commands

/-! ## What stays -/

/-- When a key expires, if it is there and does. -/
def deadline (server : RedisServer) (key : String) : Option Nat :=
  (server.entries key).bind RedisEntry.expiresAt

/-- Only some keys change, and none of them gets a new time at which it expires. -/
structure Changes (keys : List String) (server server' : RedisServer) : Prop where
  others : ∀ key, key ∉ keys → server'.entries key = server.entries key
  now : server'.now = server.now
  deadlines : ∀ key entry, server'.entries key = some entry →
    entry.expiresAt = none ∨ entry.expiresAt = server.deadline key

theorem Changes.refl (keys : List String) (server : RedisServer) : Changes keys server server where
  others _ _ := rfl
  now := rfl
  deadlines key entry h := Or.inr (by rw [deadline, h, Option.bind_some])

theorem Changes.trans {keys : List String} {server server' server'' : RedisServer}
    (h : Changes keys server server') (h' : Changes keys server' server'') :
    Changes keys server server'' where
  others key hkey := (h'.others key hkey).trans (h.others key hkey)
  now := h'.now.trans h.now
  deadlines key entry hentry := by
    rcases h'.deadlines key entry hentry with hnone | hsame
    · exact Or.inl hnone
    · rw [hsame, deadline]
      cases hmiddle : server'.entries key with
      | none => exact Or.inl rfl
      | some middle => exact h.deadlines key middle hmiddle

theorem Changes.mono {keys keys' : List String} {server server' : RedisServer}
    (h : Changes keys server server') (hsub : keys ⊆ keys') : Changes keys' server server' where
  others key hkey := h.others key fun hmem => hkey (hsub hmem)
  now := h.now
  deadlines := h.deadlines

section Changing

variable {server : RedisServer} {key : String}

theorem changes_setEntry {entry : Option RedisEntry}
    (h : ∀ value, entry = some value →
      value.expiresAt = none ∨ value.expiresAt = server.deadline key) :
    Changes [key] server (server.setEntry key entry) where
  others other hother := entries_setEntry_of_ne (by simpa using hother) entry
  now := rfl
  deadlines other value hvalue := by
    by_cases heq : other = key
    · subst heq
      rw [entries_setEntry_self] at hvalue
      exact h value hvalue
    · rw [entries_setEntry_of_ne heq] at hvalue
      exact Or.inr (by rw [deadline, hvalue, Option.bind_some])

theorem changes_putHash (fields : OrderedMap RedisString RedisString) :
    Changes [key] server (server.putHash key fields) := by
  rw [putHash]
  split
  · exact changes_setEntry nofun
  · refine changes_setEntry fun value hvalue => Or.inr ?_
    rw [← Option.some.inj hvalue]
    rfl

theorem changes_putMembers (members : OrderedSet RedisString) :
    Changes [key] server (server.putMembers key members) := by
  rw [putMembers]
  split
  · exact changes_setEntry nofun
  · refine changes_setEntry fun value hvalue => Or.inr ?_
    rw [← Option.some.inj hvalue]
    rfl

/-- Adding a list of members. -/
theorem call_forM_zadd {members : OrderedSet RedisString}
    (h : server.membersAt key = .ok members) (list : List RedisString) :
    ∃ server' members', call server (list.forM (zadd key)) = (.ok (), server') ∧
      server'.membersAt key = .ok members' ∧
      (∀ member, member ∈ members' ↔ member ∈ members ∨ member ∈ list) ∧
      Changes [key] server server' := by
  induction list generalizing server members with
  | nil => exact ⟨server, members, rfl, h, by simp, .refl _ _⟩
  | cons first list ih =>
      obtain ⟨server', members', hrun, hmembers, hmem, hchanges⟩ :=
        ih (@membersAt_putMembers_self server key (members.insert first))
      refine ⟨server', members', ?_, hmembers, fun member => ?_,
        (changes_putMembers _).trans hchanges⟩
      · show call server (zadd key first >>= fun _ => list.forM (zadd key)) = _
        rw [call_bind_ok (call_zadd h), hrun]
      · rw [hmem, mem_insert_iff, List.mem_cons, or_assoc, or_left_comm]

/-- Removing a list of members. -/
theorem call_forM_zrem {members : OrderedSet RedisString}
    (h : server.membersAt key = .ok members) (list : List RedisString) :
    ∃ server' members', call server (list.forM (zrem key)) = (.ok (), server') ∧
      server'.membersAt key = .ok members' ∧
      (∀ member, member ∈ members' ↔ member ∈ members ∧ member ∉ list) ∧
      Changes [key] server server' := by
  induction list generalizing server members with
  | nil => exact ⟨server, members, rfl, h, by simp, .refl _ _⟩
  | cons first list ih =>
      obtain ⟨server', members', hrun, hmembers, hmem, hchanges⟩ :=
        ih (@membersAt_putMembers_self server key (members.erase first))
      refine ⟨server', members', ?_, hmembers, fun member => ?_,
        (changes_putMembers _).trans hchanges⟩
      · show call server (zrem key first >>= fun _ => list.forM (zrem key)) = _
        rw [call_bind_ok (call_zrem h), hrun]
      · rw [hmem, mem_erase_iff, List.mem_cons, not_or]
        exact ⟨fun hmember => ⟨hmember.1.2, hmember.1.1, hmember.2⟩,
          fun hmember => ⟨⟨hmember.2.1, hmember.1⟩, hmember.2.2⟩⟩

end Changing

/-! ## Refreshing -/

/-- Let some keys, as far as they exist, expire at one time. -/
def touch (server : RedisServer) (keys : List String) (deadline : Nat) : RedisServer :=
  { server with entries := fun key => (server.entries key).map fun entry =>
      if key ∈ keys then { entry with expiresAt := some deadline } else entry }

@[simp]
theorem now_touch (server : RedisServer) (keys : List String) (deadline : Nat) :
    (server.touch keys deadline).now = server.now := rfl

theorem value_touch (server : RedisServer) (keys : List String) (deadline : Nat) (key : String) :
    (server.touch keys deadline).value key = server.value key := by
  rw [value, touch, value, Option.map_map]
  refine congrArg (fun change => (server.entries key).map change) (funext fun entry => ?_)
  rw [Function.comp_apply]
  split <;> rfl

theorem touch_touch (server : RedisServer) (keys others : List String) (deadline : Nat) :
    (server.touch keys deadline).touch others deadline = server.touch (keys ++ others) deadline := by
  simp only [touch, Option.map_map]
  congr 1
  funext key
  refine congrArg (fun change => (server.entries key).map change) (funext fun entry => ?_)
  rw [Function.comp_apply]
  by_cases hfirst : key ∈ keys
  · by_cases hsecond : key ∈ others <;> simp [hfirst, hsecond]
  · by_cases hsecond : key ∈ others <;> simp [hfirst, hsecond]

theorem call_expire (server : RedisServer) (key : String) {seconds : Nat} (h : 0 < seconds) :
    call server (expire key seconds) =
      (.ok (), server.touch [key] (server.now + 1000 * seconds)) := by
  rw [expire, call_update]
  refine Prod.ext rfl ?_
  cases hentry : server.entries key with
  | none =>
      refine RedisServer.ext (funext fun other => ?_) rfl
      by_cases heq : other = key
      · simp [touch, heq, hentry]
      · simp [touch, heq]
  | some entry =>
      have hpositive : ¬ seconds = 0 := by omega
      simp only [if_neg hpositive]
      refine RedisServer.ext (funext fun other => ?_) rfl
      by_cases heq : other = key
      · simp [touch, setEntry, heq, hentry]
      · simp [touch, setEntry, heq]

/-! ## Time -/

/-- The clock moves, and the keys that are due are gone. -/
def advance (server : RedisServer) (milliseconds : Nat) : RedisServer where
  entries key := (server.entries key).filter fun entry =>
    entry.expiresAt.all fun deadline => decide (server.now + milliseconds < deadline)
  now := server.now + milliseconds

section Advancing

variable {server : RedisServer} {key : String} {milliseconds : Nat}

theorem entries_advance_of_none (h : server.entries key = none) :
    (server.advance milliseconds).entries key = none := by
  rw [advance]
  dsimp only
  rw [h, Option.filter_none]

/-- A key that expires later stays as it is. -/
theorem entries_advance_of_lasting (h : ∀ entry, server.entries key = some entry →
      entry.expiresAt.all (fun deadline => decide (server.now + milliseconds < deadline)) = true) :
    (server.advance milliseconds).entries key = server.entries key := by
  rw [advance]
  dsimp only
  cases hold : server.entries key with
  | none => rfl
  | some entry => rw [Option.filter_some, if_pos (h entry hold)]

/-- A key that is due is gone. -/
theorem entries_advance_of_due (h : ∀ entry, server.entries key = some entry →
      ¬ entry.expiresAt.all (fun deadline => decide (server.now + milliseconds < deadline)) = true) :
    (server.advance milliseconds).entries key = none := by
  rw [advance]
  dsimp only
  cases hold : server.entries key with
  | none => rfl
  | some entry => rw [Option.filter_some, if_neg (h entry hold)]

end Advancing

/-! ## Footprints -/

/-- What is stored under some keys, and the time. -/
def footprint (keys : List String) : Footprint RedisServer where
  Same left right := left.now = right.now ∧ ∀ key ∈ keys, left.entries key = right.entries key
  Spares before after :=
    after.now = before.now ∧ ∀ key, key ∉ keys → after.entries key = before.entries key
  spares_refl _ := ⟨rfl, fun _ _ => rfl⟩
  spares_trans h h' := ⟨h'.1.trans h.1, fun key hkey => (h'.2 key hkey).trans (h.2 key hkey)⟩

section Footprints

variable {keys : List String} {key : String}

theorem same_setEntry (hkey : key ∈ keys) {left right : RedisServer}
    (h : (footprint keys).Same left right) (entry : Option RedisEntry) :
    (footprint keys).Same (left.setEntry key entry) (right.setEntry key entry) := by
  refine ⟨h.1, fun other hother => ?_⟩
  by_cases heq : other = key
  · rw [heq, entries_setEntry_self, entries_setEntry_self]
  · rw [entries_setEntry_of_ne heq, entries_setEntry_of_ne heq, h.2 other hother]

theorem spares_setEntry (hkey : key ∈ keys) (server : RedisServer) (entry : Option RedisEntry) :
    (footprint keys).Spares server (server.setEntry key entry) :=
  ⟨rfl, fun _ hother => entries_setEntry_of_ne (ne_of_mem_of_not_mem hkey hother).symm entry⟩

theorem same_putValue (hkey : key ∈ keys) {left right : RedisServer}
    (h : (footprint keys).Same left right) (value : RedisValue) :
    (footprint keys).Same (left.putValue key value) (right.putValue key value) := by
  rw [putValue, putValue, h.2 key hkey]
  exact same_setEntry hkey h _

/-- A command that replaces the value under a key by what it finds there. -/
theorem within_replace (hkey : key ∈ keys) {change : RedisServer → RedisServer}
    (hchange : ∀ server, ∃ entry, change server = server.setEntry key entry)
    (hsame : ∀ left right : RedisServer, left.now = right.now →
      left.entries key = right.entries key → (change left).entries key = (change right).entries key) :
    (update change : RedisCommand Unit).Within (footprint keys) := by
  refine .update (fun {left right} h => ?_) fun server => ?_
  · obtain ⟨first, hfirst⟩ := hchange left
    obtain ⟨second, hsecond⟩ := hchange right
    have hentry := hsame left right h.1 (h.2 key hkey)
    rw [hfirst, hsecond, entries_setEntry_self, entries_setEntry_self] at hentry
    rw [hfirst, hsecond, hentry]
    exact same_setEntry hkey h _
  · obtain ⟨entry, hentry⟩ := hchange server
    rw [hentry]
    exact spares_setEntry hkey server entry

theorem exists_putHash (fields : OrderedMap RedisString RedisString) (server : RedisServer) :
    ∃ entry, server.putHash key fields = server.setEntry key entry := by
  rw [putHash]
  split
  · exact ⟨_, rfl⟩
  · exact ⟨_, rfl⟩

theorem exists_putMembers (members : OrderedSet RedisString) (server : RedisServer) :
    ∃ entry, server.putMembers key members = server.setEntry key entry := by
  rw [putMembers]
  split
  · exact ⟨_, rfl⟩
  · exact ⟨_, rfl⟩

theorem within_putHash (hkey : key ∈ keys) (fields : OrderedMap RedisString RedisString) :
    (update fun server => server.putHash key fields : RedisCommand Unit).Within
      (footprint keys) := by
  refine within_replace hkey (exists_putHash fields) fun left right _ hentry => ?_
  rw [putHash, putHash]
  split
  · rw [entries_setEntry_self, entries_setEntry_self]
  · rw [putValue, putValue, hentry, entries_setEntry_self, entries_setEntry_self]

theorem within_putMembers (hkey : key ∈ keys) (members : OrderedSet RedisString) :
    (update fun server => server.putMembers key members : RedisCommand Unit).Within
      (footprint keys) := by
  refine within_replace hkey (exists_putMembers members) fun left right _ hentry => ?_
  rw [putMembers, putMembers]
  split
  · rw [entries_setEntry_self, entries_setEntry_self]
  · rw [putValue, putValue, hentry, entries_setEntry_self, entries_setEntry_self]

theorem within_keyExists (hkey : key ∈ keys) : (keyExists key).Within (footprint keys) :=
  .read fun h => congrArg Option.isSome (h.2 key hkey)

theorem within_get (hkey : key ∈ keys) : (get key).Within (footprint keys) := by
  refine .tryRead fun {left right} h => ?_
  rw [h.2 key hkey]

theorem within_set (hkey : key ∈ keys) (value : RedisString) :
    (set key value).Within (footprint keys) :=
  within_replace hkey (fun _ => ⟨_, rfl⟩) fun _ _ _ _ => by
    rw [entries_setEntry_self, entries_setEntry_self]

theorem within_del {deleted : List String} (h : deleted ⊆ keys) :
    (del deleted).Within (footprint keys) := by
  induction deleted with
  | nil => exact .pure 0
  | cons key deleted ih =>
      have hkey : key ∈ keys := h List.mem_cons_self
      have herase : (update fun server => server.setEntry key none : RedisCommand Unit).Within
          (footprint keys) :=
        within_replace hkey (fun _ => ⟨_, rfl⟩) fun _ _ _ _ => by
          rw [entries_setEntry_self, entries_setEntry_self]
      exact (within_keyExists hkey).bind fun _ => herase.bind fun _ =>
        (ih fun _ hmem => h (List.mem_cons_of_mem key hmem)).bind fun _ => .pure _

theorem within_expire (hkey : key ∈ keys) (seconds : Nat) :
    (expire key seconds).Within (footprint keys) := by
  refine within_replace hkey (fun server => ?_) fun left right hnow hentry => ?_
  · split
    · next hnone =>
        refine ⟨none, RedisServer.ext (funext fun other => ?_) rfl⟩
        by_cases heq : other = key
        · rw [heq, entries_setEntry_self, hnone]
        · rw [entries_setEntry_of_ne heq]
    · split
      · exact ⟨_, rfl⟩
      · exact ⟨_, rfl⟩
  · rw [hentry, hnow]
    cases hright : right.entries key with
    | none => exact hentry.trans hright |>.trans hright.symm
    | some entry =>
        dsimp only
        split
        · rw [entries_setEntry_self, entries_setEntry_self]
        · rw [entries_setEntry_self, entries_setEntry_self]

theorem within_ttl (hkey : key ∈ keys) : (ttl key).Within (footprint keys) := by
  refine .read fun {left right} h => ?_
  rw [h.2 key hkey, h.1]

theorem within_hashOf (hkey : key ∈ keys) : (hashOf key).Within (footprint keys) :=
  .tryRead fun h => hashAt_congr (value_congr (h.2 key hkey))

theorem within_membersOf (hkey : key ∈ keys) : (membersOf key).Within (footprint keys) :=
  .tryRead fun h => membersAt_congr (value_congr (h.2 key hkey))

theorem within_hexists (hkey : key ∈ keys) (field : RedisString) :
    (hexists key field).Within (footprint keys) :=
  (within_hashOf hkey).bind fun _ => .pure _

theorem within_hget (hkey : key ∈ keys) (field : RedisString) :
    (hget key field).Within (footprint keys) :=
  (within_hashOf hkey).bind fun _ => .pure _

theorem within_hset (hkey : key ∈ keys) (field value : RedisString) :
    (hset key field value).Within (footprint keys) :=
  (within_hashOf hkey).bind fun _ => within_putHash hkey _

theorem within_hdel (hkey : key ∈ keys) (field : RedisString) :
    (hdel key field).Within (footprint keys) := by
  refine (within_hashOf hkey).bind fun fields => ?_
  split
  · exact (within_putHash hkey _).bind fun _ => .pure _
  · exact .pure _

theorem within_hlen (hkey : key ∈ keys) : (hlen key).Within (footprint keys) :=
  (within_hashOf hkey).bind fun _ => .pure _

theorem within_zadd (hkey : key ∈ keys) (member : RedisString) :
    (zadd key member).Within (footprint keys) :=
  (within_membersOf hkey).bind fun _ => within_putMembers hkey _

theorem within_zrem (hkey : key ∈ keys) (member : RedisString) :
    (zrem key member).Within (footprint keys) :=
  (within_membersOf hkey).bind fun _ => within_putMembers hkey _

theorem within_zcard (hkey : key ∈ keys) : (zcard key).Within (footprint keys) :=
  (within_membersOf hkey).bind fun _ => .pure _

theorem within_zrangebylex (hkey : key ∈ keys) (lower upper : RedisString) :
    (zrangebylex key lower upper).Within (footprint keys) :=
  (Method.Within.lift _).bind fun _ => (Method.Within.lift _).bind fun _ =>
    (within_membersOf hkey).bind fun _ => .pure _

theorem within_argument (argv : List RedisString) (position : Nat) :
    (argument argv position).Within (footprint keys) := .lift _

theorem within_numberArgument (argv : List RedisString) (position : Nat) :
    (numberArgument argv position).Within (footprint keys) :=
  (within_argument argv position).bind fun _ => .lift _

/-- What is stored under some keys survives or expires at the same time on both servers. -/
theorem same_advance {left right : RedisServer} (h : (footprint keys).Same left right)
    (milliseconds : Nat) :
    (footprint keys).Same (left.advance milliseconds) (right.advance milliseconds) := by
  refine ⟨congrArg (· + milliseconds) h.1, fun key hkey => ?_⟩
  rw [advance, advance]
  dsimp only
  rw [h.1, h.2 key hkey]

end Footprints

end RedisServer

end Data
