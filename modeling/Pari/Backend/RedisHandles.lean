/-
# Several handles on one Redis namespace

A handle keeps the descriptor it was created or opened with. The namespace may meanwhile be
cleaned up, expire, and be created again under another descriptor; the insertion script asks
only whether there is a descriptor, not whether it is the one of the handle. So a handle that
outlived its namespace inserts records hashed under its own descriptor. As long as a namespace
is created again only under the descriptor of every handle still open, every record was hashed
under the stored descriptor.
-/

import Pari.Backend.RedisRetention

namespace Pari.Backend

open Data Data.Method RedisServer RedisBackend Pari.Format Pari.Core Pari.Index

/-- An index over Redis. -/
abbrev RedisIndex := BackendIndex32 RedisBackend

/-- The server, the open handles by their names, and for each key the descriptor under which
the record stored last was hashed. -/
structure Deployment where
  server : RedisServer
  handles : Nat → Option RedisIndex
  hashedUnder : UInt64 → Option IndexDescriptor

/-- The record under a key of a namespace. -/
def recordAt (server : RedisServer) (keys : RedisKeys) (key : UInt64) : Option RedisString :=
  match server.hashAt keys.records with
  | .ok fields => fields[userField key]?
  | .error _ => none

/-- A handle talks to the server as it is now. -/
def reach (handle : RedisIndex) (server : RedisServer) : RedisIndex :=
  { handle with backend := { handle.backend with connection := server } }

namespace Deployment

/-- Open, replace or close a handle. -/
def withHandle (deployment : Deployment) (name : Nat) (handle : Option RedisIndex) : Deployment :=
  { deployment with handles := Function.update deployment.handles name handle }

/-- The server as a request left it. -/
def withServer (deployment : Deployment) (server : RedisServer) : Deployment :=
  { deployment with server }

/-- The server as an insertion left it: the records it wrote were hashed under the descriptor
of its handle. -/
def withRecords (deployment : Deployment) (keys : RedisKeys) (server : RedisServer)
    (descriptor : IndexDescriptor) : Deployment :=
  { deployment with
    server
    hashedUnder := fun key =>
      if recordAt server keys key = recordAt deployment.server keys key
      then deployment.hashedUnder key else some descriptor }

end Deployment

/-- What a step is to the other handles: a creation of the namespace, or not. -/
inductive HandleEvent
  | created (descriptor : IndexDescriptor)
  | other

/-- One atomic step. Every method sends one command or script, and what it checks besides is
local to the handle. A creation or an opening starts from any backend bound to the namespace, and
yields a new handle if it succeeds. A cleanup consumes its handle. Readings change nothing on the
server and are left out: at every command they answer under the descriptor of their handle. -/
inductive HandleStep (keys : RedisKeys) : Deployment → HandleEvent → Deployment → Prop
  | created {deployment : Deployment} {name : Nat} (hname : deployment.handles name = none)
      {backend backend' : RedisBackend} (hkeys : backend.keys = keys)
      (hconnection : backend.connection = deployment.server) {threshold : F64} {numPerm : Nat}
      {seed : UInt64} {params : LshParams} {retention : Option Duration}
      {descriptor : IndexDescriptor}
      (hdescriptor : IndexDescriptor.new threshold numPerm seed params retention = .ok descriptor)
      {handle : RedisIndex}
      (hrun : call backend (createWithParams threshold numPerm seed params retention) =
        (.ok handle, backend')) :
      HandleStep keys deployment (.created descriptor)
        ((deployment.withServer backend'.connection).withHandle name (some handle))
  | createFailed {deployment : Deployment}
      {backend backend' : RedisBackend} (hkeys : backend.keys = keys)
      (hconnection : backend.connection = deployment.server) {threshold : F64} {numPerm : Nat}
      {seed : UInt64} {params : LshParams} {retention : Option Duration} {error : BackendIndexError}
      (hrun : call backend (createWithParams threshold numPerm seed params retention) =
        (.error error, backend')) :
      HandleStep keys deployment .other (deployment.withServer backend'.connection)
  | opened {deployment : Deployment} {name : Nat} (hname : deployment.handles name = none)
      {backend backend' : RedisBackend} (hkeys : backend.keys = keys)
      (hconnection : backend.connection = deployment.server) {handle : RedisIndex}
      (hrun : call backend openIndex = (.ok handle, backend')) :
      HandleStep keys deployment .other
        ((deployment.withServer backend'.connection).withHandle name (some handle))
  | openFailed {deployment : Deployment}
      {backend backend' : RedisBackend} (hkeys : backend.keys = keys)
      (hconnection : backend.connection = deployment.server) {error : BackendIndexError}
      (hrun : call backend openIndex = (.error error, backend')) :
      HandleStep keys deployment .other (deployment.withServer backend'.connection)
  | inserted {deployment : Deployment} {name : Nat} {handle handle' : RedisIndex}
      (hhandle : deployment.handles name = some handle) {items : List (UInt64 × MinHash32)}
      {result : Except BackendIndexError Unit}
      (hrun : call (reach handle deployment.server) (BackendIndex32.insertMany items) =
        (result, handle')) :
      HandleStep keys deployment .other
        ((deployment.withRecords keys handle'.backend.connection handle.descriptor).withHandle name
          (some handle'))
  | removed {deployment : Deployment} {name : Nat} {handle handle' : RedisIndex}
      (hhandle : deployment.handles name = some handle) {removed : List UInt64}
      {result : Except BackendIndexError Nat}
      (hrun : call (reach handle deployment.server) (BackendIndex32.removeMany removed) =
        (result, handle')) :
      HandleStep keys deployment .other
        ((deployment.withServer handle'.backend.connection).withHandle name (some handle'))
  | cleanedUp {deployment : Deployment} {name : Nat} {handle handle' : RedisIndex}
      (hhandle : deployment.handles name = some handle) {result : Except BackendIndexError Unit}
      (hrun : call (reach handle deployment.server) BackendIndex32.cleanup = (result, handle')) :
      HandleStep keys deployment .other
        ((deployment.withServer handle'.backend.connection).withHandle name none)
  | dropped {deployment : Deployment} (name : Nat) :
      HandleStep keys deployment .other (deployment.withHandle name none)
  | waited {deployment : Deployment} (milliseconds : Nat) :
      HandleStep keys deployment .other
        (deployment.withServer (deployment.server.advance milliseconds))

/-- A namespace without handles, which does not exist yet. -/
structure Deployment.Fresh (keys : RedisKeys) (deployment : Deployment) : Prop where
  vacant : Vacant deployment.server keys
  handles : ∀ name, deployment.handles name = none

/-- The deployments that clients of a namespace can reach. -/
inductive HandleRun (keys : RedisKeys) : Deployment → Prop
  | start {deployment : Deployment} (h : deployment.Fresh keys) : HandleRun keys deployment
  | step {deployment deployment' : Deployment} {event : HandleEvent}
      (hrun : HandleRun keys deployment) (hstep : HandleStep keys deployment event deployment') :
      HandleRun keys deployment'

/-- The namespace, where it is vacant, is created only under the descriptor of every handle that
is still open. -/
def HandleEvent.Considerate (keys : RedisKeys) (deployment : Deployment) : HandleEvent → Prop
  | .created descriptor => Vacant deployment.server keys →
      ∀ name handle, deployment.handles name = some handle → handle.descriptor = descriptor
  | .other => True

/-- The deployments that clients can reach if every creation considers the open handles. -/
inductive ConsiderateRun (keys : RedisKeys) : Deployment → Prop
  | start {deployment : Deployment} (h : deployment.Fresh keys) : ConsiderateRun keys deployment
  | step {deployment deployment' : Deployment} {event : HandleEvent}
      (hrun : ConsiderateRun keys deployment)
      (hstep : HandleStep keys deployment event deployment')
      (hconsiderate : event.Considerate keys deployment) : ConsiderateRun keys deployment'

/-- Every record was hashed under the stored descriptor, which is that of every open handle. -/
structure Deployment.Consistent (keys : RedisKeys) (deployment : Deployment) : Prop where
  records : ∀ key, recordAt deployment.server keys key ≠ none → ∃ descriptor,
    storedDescriptor deployment.server keys = some descriptor ∧
      deployment.hashedUnder key = some descriptor
  handles : ∀ name handle, deployment.handles name = some handle → ∀ descriptor,
    storedDescriptor deployment.server keys = some descriptor → handle.descriptor = descriptor

/-! ## Methods of a handle -/

section Methods

variable {keys : RedisKeys} {backend backend' : RedisBackend} {handle : RedisIndex}
  {descriptor : IndexDescriptor} {rows : Rows} {deadline : Option Nat}

/-- A round trip that returned has run its command. -/
theorem request_of_ok {α : Type} {operation : String} {command : RedisKeys → RedisCommand α}
    {reply : α} (h : call backend (request operation command) = (.ok reply, backend')) :
    ∃ server, call backend.connection (command backend.keys) = (.ok reply, server) ∧
      backend' = backend.answered server := by
  cases hrun : call backend.connection (command backend.keys) with
  | mk result server =>
      cases result with
      | error error =>
          rw [call_request_error hrun] at h
          cases h
      | ok value =>
          rw [call_request hrun] at h
          cases h
          exact ⟨server, rfl, rfl⟩

/-- What a loaded descriptor says about the handle. -/
theorem loaded_of_ok (h : call backend loadDescriptor = (.ok descriptor, backend')) :
    storedDescriptor backend.connection backend.keys = some descriptor ∧
      backend'.connection = backend.connection ∧ backend'.keys = backend.keys ∧
      backend'.retentionSeconds = retentionSecondsOf descriptor := by
  rw [loadDescriptor] at h
  obtain ⟨payload, middle, hrequest, h⟩ := call_bind_eq_ok_iff.mp h
  obtain ⟨server, hget, rfl⟩ := request_of_ok hrequest
  cases payload with
  | none => cases h
  | some payload =>
      obtain ⟨rfl, hvalue⟩ := get_of_ok hget
      rw [okOr_some, call_lift_ok_bind] at h
      cases hdecode : decodeDescriptor payload.bytes with
      | error error =>
          rw [hdecode] at h
          cases h
      | ok decoded =>
          rw [hdecode, call_lift_ok_bind, call_update_bind, call_pure] at h
          obtain ⟨hdescriptor, hbackend⟩ := Prod.mk.inj h
          obtain rfl := Except.ok.inj hdescriptor
          rw [← hbackend, storedDescriptor, hvalue]
          dsimp only
          rw [hdecode]
          exact ⟨rfl, rfl, rfl, rfl⟩

/-- Loading a descriptor changes nothing on the server. -/
theorem connection_loadDescriptor :
    (call backend loadDescriptor).2.connection = backend.connection := by
  rw [loadDescriptor]
  cases hrequest : call backend (request "load descriptor" fun keys => RedisServer.get keys.metaKey)
    with
  | mk result middle =>
      have hmiddle : middle.connection = backend.connection := by
        have hstate := @state_request backend _ "load descriptor"
          fun keys => RedisServer.get keys.metaKey
        rw [hrequest] at hstate
        have hanswered : middle = backend.answered _ := hstate
        rw [hanswered, connection_answered]
        rfl
      cases result with
      | error error => rw [call_bind_error hrequest, hmiddle]
      | ok payload =>
          rw [call_bind_ok hrequest]
          cases payload with
          | none => exact hmiddle
          | some payload =>
              rw [okOr_some, call_lift_ok_bind]
              cases decodeDescriptor payload.bytes with
              | error error => exact hmiddle
              | ok decoded => exact hmiddle

/-- An opened handle has the stored descriptor and its retention. -/
theorem opened_of_ok (h : call backend openIndex = (.ok handle, backend')) :
    storedDescriptor backend.connection backend.keys = some handle.descriptor ∧
      handle.backend = backend' ∧ backend'.connection = backend.connection ∧
      backend'.keys = backend.keys ∧
      backend'.retentionSeconds = retentionSecondsOf handle.descriptor := by
  rw [openIndex] at h
  obtain ⟨descriptor, middle, hload, h⟩ := call_bind_eq_ok_iff.mp h
  rw [call_onPart] at hload
  obtain ⟨hresult, hmiddle⟩ := Prod.mk.inj hload
  have hloaded : call backend loadDescriptor = (.ok descriptor, middle) :=
    Prod.ext (mapError_eq_ok_iff.mp hresult) hmiddle
  obtain ⟨_, _, hreference, h⟩ := call_bind_eq_ok_iff.mp h
  obtain ⟨_, rfl⟩ := Prod.mk.inj hreference
  obtain ⟨_, _, hcapable, h⟩ := call_bind_eq_ok_iff.mp h
  obtain ⟨_, rfl⟩ := Prod.mk.inj hcapable
  obtain ⟨_, _, hlift, h⟩ := call_bind_eq_ok_iff.mp h
  obtain ⟨_, rfl⟩ := Prod.mk.inj hlift
  obtain ⟨hhandle, rfl⟩ := Prod.mk.inj h
  obtain rfl := Except.ok.inj hhandle
  obtain ⟨hstored, hconnection, hkeys, hretention⟩ := loaded_of_ok hloaded
  exact ⟨hstored, rfl, hconnection, hkeys, hretention⟩

/-- Opening an index changes nothing on the server. -/
theorem connection_openIndex : (call backend openIndex).2.connection = backend.connection := by
  rw [openIndex]
  have hload : (call backend ((@StorageBackend.loadDescriptor RedisBackend _).onPart id
      (fun backend _ => backend) BackendIndexError.backend)).2.connection = backend.connection :=
    connection_loadDescriptor
  cases hrun : call backend ((@StorageBackend.loadDescriptor RedisBackend _).onPart id
      (fun backend _ => backend) BackendIndexError.backend) with
  | mk result middle =>
      rw [hrun] at hload
      cases result with
      | error error => rw [call_bind_error hrun, hload]
      | ok descriptor =>
          rw [call_bind_ok hrun, (Method.ReadOnly.lift _).bind (fun _ =>
            (Method.ReadOnly.read _).bind fun _ => (Method.ReadOnly.lift _).bind fun _ =>
              Method.ReadOnly.read _) middle]
          exact hload

variable {threshold : F64} {numPerm : Nat} {seed : UInt64} {params : LshParams}
  {retention : Option Duration}

/-- A creation under valid parameters is an initialization. -/
theorem call_createWithParams
    (hnew : IndexDescriptor.new threshold numPerm seed params retention = .ok descriptor) :
    call backend (createWithParams threshold numPerm seed params retention) =
      call backend ((initializeNamespace descriptor).onPart id (fun backend _ => backend)
        BackendIndexError.backend >>= fun _ => read fun backend => ⟨backend, descriptor⟩) := by
  have hsupported : BackendCapabilities.redis.supports .ttl = true := by decide
  have hcapable : validateRetentionCapability backend descriptor = .ok () := by
    apply rejectIf_of_not
    rintro ⟨_, hunsupported⟩
    exact absurd (hsupported.symm.trans hunsupported) (by decide)
  rw [createWithParams, hnew]
  show call backend (lift ((validateRetentionCapability backend descriptor).mapError _) >>= _) = _
  rw [hcapable]
  rfl

theorem call_createWithParams_of_vacant
    (hnew : IndexDescriptor.new threshold numPerm seed params retention = .ok descriptor)
    (hvacant : Vacant backend.connection backend.keys) {payload : Bytes}
    (hpayload : encodeDescriptor descriptor = .ok payload) :
    call backend (createWithParams threshold numPerm seed params retention) =
      (.ok ⟨backend.withDescriptor descriptor payload, descriptor⟩,
        backend.withDescriptor descriptor payload) := by
  have hrun : call backend ((initializeNamespace descriptor).onPart id (fun backend _ => backend)
      BackendIndexError.backend) = (.ok (), backend.withDescriptor descriptor payload) := by
    rw [call_onPart, id_eq, call_initializeNamespace_of_vacant hvacant hpayload]
    rfl
  rw [call_createWithParams hnew, call_bind_ok hrun, call_read]

theorem call_createWithParams_of_not_vacant
    (hnew : IndexDescriptor.new threshold numPerm seed params retention = .ok descriptor)
    (hvacant : ¬ Vacant backend.connection backend.keys) :
    call backend (createWithParams threshold numPerm seed params retention) =
      (.error (.backend .alreadyExists), backend.answered backend.connection) := by
  have hrun : call backend ((initializeNamespace descriptor).onPart id (fun backend _ => backend)
      BackendIndexError.backend) =
        (.error (.backend .alreadyExists), backend.answered backend.connection) := by
    rw [call_onPart, id_eq, call_initializeNamespace_of_not_vacant hvacant]
    rfl
  rw [call_createWithParams hnew, call_bind_error hrun]

theorem call_createWithParams_of_error {error : BackendError}
    (hnew : IndexDescriptor.new threshold numPerm seed params retention = .error error) :
    call backend (createWithParams threshold numPerm seed params retention) =
      (.error (.backend error), backend) := by
  rw [createWithParams, hnew]
  rfl

/-- A handle is created on a vacant namespace. -/
theorem created_of_ok
    (h : call backend (createWithParams threshold numPerm seed params retention) =
      (.ok handle, backend')) :
    ∃ payload, IndexDescriptor.new threshold numPerm seed params retention =
        .ok handle.descriptor ∧ encodeDescriptor handle.descriptor = .ok payload ∧
      Vacant backend.connection backend.keys ∧ handle.backend = backend' ∧
      backend' = backend.withDescriptor handle.descriptor payload := by
  cases hnew : IndexDescriptor.new threshold numPerm seed params retention with
  | error error =>
      rw [call_createWithParams_of_error hnew] at h
      cases h
  | ok descriptor =>
      by_cases hvacant : Vacant backend.connection backend.keys
      · obtain ⟨payload, hpayload, _⟩ := decodeDescriptor_encodeDescriptor descriptor
        rw [call_createWithParams_of_vacant hnew hvacant hpayload] at h
        cases h
        exact ⟨payload, rfl, hpayload, hvacant, rfl, rfl⟩
      · rw [call_createWithParams_of_not_vacant hnew hvacant] at h
        cases h

/-- A creation that failed changed nothing on the server. -/
theorem connection_of_createWithParams_error {error : BackendIndexError}
    (h : call backend (createWithParams threshold numPerm seed params retention) =
      (.error error, backend')) :
    backend'.connection = backend.connection := by
  cases hnew : IndexDescriptor.new threshold numPerm seed params retention with
  | error error =>
      rw [call_createWithParams_of_error hnew] at h
      cases h
      rfl
  | ok descriptor =>
      by_cases hvacant : Vacant backend.connection backend.keys
      · obtain ⟨payload, hpayload, _⟩ := decodeDescriptor_encodeDescriptor descriptor
        rw [call_createWithParams_of_vacant hnew hvacant hpayload] at h
        cases h
      · rw [call_createWithParams_of_not_vacant hnew hvacant] at h
        cases h
        rfl

/-- An insertion through a handle is one through its backend. -/
theorem state_index_insertMany (index : RedisIndex) (items : List (UInt64 × MinHash32)) :
    ∃ stored, (call index (BackendIndex32.insertMany items)).2 =
      { index with backend := (call index.backend (RedisBackend.insertMany stored)).2 } := by
  rw [BackendIndex32.insertMany, call_read_bind]
  cases BackendIndex32.prepareItems index.descriptor ∅ items with
  | error error => exact ⟨[], rfl⟩
  | ok stored => exact ⟨stored, rfl⟩

/-- A removal through a handle is one through its backend. -/
theorem state_index_removeMany (index : RedisIndex) (removed : List UInt64) :
    ∃ deleted, (call index (BackendIndex32.removeMany removed)).2 =
      { index with backend := (call index.backend (RedisBackend.deleteMany deleted)).2 } :=
  ⟨_, rfl⟩

/-- A cleanup takes all keys of the namespace away. -/
theorem vacant_cleanup (index : RedisIndex) :
    Vacant (call index BackendIndex32.cleanup).2.backend.connection index.backend.keys := by
  obtain ⟨count, hdel⟩ := @call_del index.backend.connection
    [index.backend.keys.metaKey, index.backend.keys.records, index.backend.keys.buckets]
  rw [BackendIndex32.cleanup, call_onBackend]
  show Vacant (call index.backend RedisBackend.cleanup).2.connection _
  rw [RedisBackend.cleanup, call_bind_ok (call_request hdel), call_update]
  constructor <;> simp [answered]

end Methods

/-! ## What every run keeps -/

section Invariant

variable {keys : RedisKeys} {server : RedisServer} {deployment deployment' : Deployment}
  {event : HandleEvent} {handle handle' : RedisIndex} {name : Nat} {descriptor : IndexDescriptor}
  {rows : Rows} {deadline : Option Nat}

theorem Stored.recordAt (h : Stored server keys rows) (key : UInt64) :
    recordAt server keys key = (rows key).map (recordOf key) := by
  obtain ⟨fields, hfields, hrecords⟩ := h.records
  rw [Pari.Backend.recordAt, hfields]
  exact hrecords.getElem? key

theorem Vacant.recordAt (h : Vacant server keys) (key : UInt64) :
    recordAt server keys key = none := by
  rw [Pari.Backend.recordAt, RedisServer.hashAt, RedisServer.value, h.records]
  exact Std.ExtTreeMap.getElem?_empty

/-- A handle is bound to the namespace, and refreshes by the retention of its descriptor. -/
structure Bound (keys : RedisKeys) (handle : RedisIndex) : Prop where
  keys : handle.backend.keys = keys
  retention : handle.backend.retentionSeconds = retentionSecondsOf handle.descriptor

/-- The invariant: open handles are bound, the namespace is vacant or lives, and records and
handles fit the stored descriptor. -/
structure Deployment.Sound (keys : RedisKeys) (deployment : Deployment) : Prop where
  bound : ∀ name handle, deployment.handles name = some handle → Bound keys handle
  coherent : Coherent deployment.server keys
  consistent : deployment.Consistent keys

/-- Without records and handles there is nothing to fit. -/
theorem Vacant.consistent (h : Vacant deployment.server keys) : deployment.Consistent keys where
  records := fun key hkey => absurd (h.recordAt key) hkey
  handles := by
    intro name handle _ descriptor hstored
    rw [h.storedDescriptor] at hstored
    cases hstored

/-- A handle that fits may be opened, and any handle may be closed. -/
theorem Deployment.Sound.withHandle (h : deployment.Sound keys) (name : Nat)
    {handle : Option RedisIndex}
    (hnew : ∀ new, handle = some new → Bound keys new ∧ ∀ descriptor,
      storedDescriptor deployment.server keys = some descriptor → new.descriptor = descriptor) :
    (deployment.withHandle name handle).Sound keys := by
  have hcases : ∀ other found, (deployment.withHandle name handle).handles other = some found →
      handle = some found ∨ deployment.handles other = some found := by
    intro other found hfound
    rw [Deployment.withHandle] at hfound
    dsimp only at hfound
    by_cases heq : other = name
    · rw [heq, Function.update_self] at hfound
      exact Or.inl hfound
    · rw [Function.update_of_ne heq] at hfound
      exact Or.inr hfound
  refine ⟨?_, h.coherent, h.consistent.records, ?_⟩
  · intro other found hfound
    rcases hcases other found hfound with hself | hother
    · exact (hnew found hself).1
    · exact h.bound other found hother
  · intro other found hfound
    rcases hcases other found hfound with hself | hother
    · exact (hnew found hself).2
    · exact h.consistent.handles other found hother

/-- What a method keeps of a handle. -/
theorem Bound.reach (h : Bound keys handle) (server : RedisServer) :
    Bound keys (reach handle server) :=
  ⟨h.keys, h.retention⟩

theorem Deployment.Sound.current (h : deployment.Sound keys)
    (hhandle : deployment.handles name = some handle) :
    Current (reach handle deployment.server).backend := by
  intro descriptor hstored
  have hbound := h.bound name handle hhandle
  rw [show (reach handle deployment.server).backend.keys = keys from hbound.keys] at hstored
  rw [← h.consistent.handles name handle hhandle descriptor hstored]
  exact hbound.retention

theorem Bound.insertMany (h : Bound keys handle) (stored : List StoredItem) :
    Bound keys { handle with backend := (call handle.backend (insertMany stored)).2 } := by
  rcases @state_insertMany handle.backend stored with hsame | hscript
  · rw [hsame]
    exact h
  · rw [hscript]
    exact ⟨h.keys, h.retention⟩

theorem Bound.deleteMany (h : Bound keys handle) (deleted : List UInt64) :
    Bound keys { handle with backend := (call handle.backend (deleteMany deleted)).2 } := by
  rcases @state_deleteMany handle.backend deleted with hsame | hscript
  · rw [hsame]
    exact h
  · rw [hscript]
    exact ⟨h.keys, h.retention⟩

/-- Records that an insertion did not write were there before. -/
theorem Deployment.Sound.withRecords (h : deployment.Sound keys)
    (hstored : storedDescriptor server keys = storedDescriptor deployment.server keys)
    (hcoherent : Coherent server keys)
    (hdescriptor : storedDescriptor server keys = some descriptor) :
    (deployment.withRecords keys server descriptor).Sound keys := by
  refine ⟨h.bound, hcoherent, ?_, ?_⟩
  · intro key hkey
    refine ⟨descriptor, hdescriptor, ?_⟩
    rw [Deployment.withRecords]
    dsimp only
    split
    · next hsame =>
        obtain ⟨other, hother, hunder⟩ := h.consistent.records key (hsame ▸ hkey)
        rw [hunder, ← hother, ← hstored, hdescriptor]
    · rfl
  · intro name handle hhandle
    rw [show (deployment.withRecords keys server descriptor).server = server from rfl, hstored]
    exact h.consistent.handles name handle hhandle

/-- Records that are left were there before. -/
theorem Deployment.Sound.withServer (h : deployment.Sound keys)
    (hcoherent : Coherent server keys)
    (hstored : storedDescriptor server keys = storedDescriptor deployment.server keys)
    (hrecords : ∀ key, recordAt server keys key ≠ none →
      recordAt deployment.server keys key ≠ none) :
    (deployment.withServer server).Sound keys := by
  refine ⟨h.bound, hcoherent, ?_, ?_⟩
  · intro key hkey
    obtain ⟨descriptor, hdescriptor, hunder⟩ := h.consistent.records key (hrecords key hkey)
    exact ⟨descriptor, hstored.trans hdescriptor, hunder⟩
  · intro name handle hhandle
    rw [show (deployment.withServer server).server = server from rfl, hstored]
    exact h.consistent.handles name handle hhandle

theorem Deployment.Sound.withServer_of_vacant (h : deployment.Sound keys)
    (hvacant : Vacant server keys) : (deployment.withServer server).Sound keys :=
  ⟨h.bound, Or.inl hvacant, hvacant.consistent⟩

/-- An insertion through an open handle. -/
theorem Deployment.Sound.inserted (h : deployment.Sound keys)
    (hhandle : deployment.handles name = some handle) (stored : List StoredItem) :
    (deployment.withRecords keys (call (reach handle deployment.server).backend
      (insertMany stored)).2.connection handle.descriptor).Sound keys := by
  have hbound := h.bound name handle hhandle
  have hcurrent := h.current hhandle
  have hkeys : (reach handle deployment.server).backend.keys = keys := hbound.keys
  rcases h.coherent with hvacant | ⟨descriptor, deadline, rows, hlives⟩
  · have hsame := @Vacant.insertMany (reach handle deployment.server).backend
      (by rw [hkeys]; exact hvacant) stored
    rw [hsame]
    have hunchanged : deployment.withRecords keys deployment.server handle.descriptor =
        deployment := by simp [Deployment.withRecords]
    exact hunchanged.symm ▸ h
  · obtain ⟨deadline', rows', hlives'⟩ := @Lives.insertMany descriptor rows deadline
      (reach handle deployment.server).backend (by rw [hkeys]; exact hlives) hcurrent stored
    rw [hkeys] at hlives'
    obtain rfl := h.consistent.handles name handle hhandle descriptor hlives.storedDescriptor
    exact h.withRecords (hlives'.storedDescriptor.trans hlives.storedDescriptor.symm)
      (Or.inr ⟨_, _, _, hlives'⟩) hlives'.storedDescriptor

/-- A removal through an open handle. -/
theorem Deployment.Sound.removed (h : deployment.Sound keys)
    (hhandle : deployment.handles name = some handle) (deleted : List UInt64) :
    (deployment.withServer (call (reach handle deployment.server).backend
      (deleteMany deleted)).2.connection).Sound keys := by
  have hbound := h.bound name handle hhandle
  have hcurrent := h.current hhandle
  have hkeys : (reach handle deployment.server).backend.keys = keys := hbound.keys
  rcases h.coherent with hvacant | ⟨descriptor, deadline, rows, hlives⟩
  · have hsame := @Vacant.deleteMany (reach handle deployment.server).backend
      (by rw [hkeys]; exact hvacant) deleted
    rw [hsame]
    exact h
  · obtain ⟨deadline', rows', hlives', hrows⟩ := @Lives.deleteMany descriptor rows deadline
      (reach handle deployment.server).backend (by rw [hkeys]; exact hlives) hcurrent deleted
    rw [hkeys] at hlives'
    apply h.withServer (Or.inr ⟨_, _, _, hlives'⟩)
      (hlives'.storedDescriptor.trans hlives.storedDescriptor.symm)
    intro key hkey
    rw [hlives'.stored.recordAt, Ne, Option.map_eq_none_iff] at hkey
    rw [hlives.stored.recordAt, Ne, Option.map_eq_none_iff]
    exact hrows key hkey

/-- A creation that considers the open handles. -/
theorem Deployment.Sound.created (h : deployment.Sound keys) {backend : RedisBackend}
    (hkeys : backend.keys = keys) (hconnection : backend.connection = deployment.server)
    (hvacant : Vacant deployment.server keys) {payload : Bytes}
    (hpayload : encodeDescriptor descriptor = .ok payload)
    (hconsiderate : ∀ name handle, deployment.handles name = some handle →
      handle.descriptor = descriptor) (name : Nat) :
    ((deployment.withServer (backend.withDescriptor descriptor payload).connection).withHandle name
      (some ⟨backend.withDescriptor descriptor payload, descriptor⟩)).Sound keys := by
  subst hkeys
  rw [← hconnection] at hvacant
  obtain ⟨deadline, hlives⟩ := hvacant.lives hpayload
  have hstored : storedDescriptor (backend.withDescriptor descriptor payload).connection
      backend.keys = some descriptor := hlives.storedDescriptor
  have hserver : (deployment.withServer
      (backend.withDescriptor descriptor payload).connection).Sound backend.keys := by
    refine ⟨h.bound, Or.inr ⟨_, _, _, hlives⟩, ?_, ?_⟩
    · intro key hkey
      exact absurd (hlives.stored.recordAt key) hkey
    · intro name handle hhandle other hother
      rw [hconsiderate name handle hhandle]
      exact Option.some.inj (hstored.symm.trans hother)
  apply hserver.withHandle name
  rintro _ ⟨⟩
  exact ⟨⟨rfl, rfl⟩, fun other hother => Option.some.inj (hstored.symm.trans hother)⟩

theorem Deployment.Sound.waited (h : deployment.Sound keys) (milliseconds : Nat) :
    (deployment.withServer (deployment.server.advance milliseconds)).Sound keys := by
  rcases h.coherent with hvacant | ⟨descriptor, deadline, rows, hlives⟩
  · exact h.withServer_of_vacant (hvacant.advance milliseconds)
  · rcases hlives.advance milliseconds with hgone | hkept
    · exact h.withServer_of_vacant hgone
    · apply h.withServer (Or.inr ⟨_, _, _, hkept⟩)
        (hkept.storedDescriptor.trans hlives.storedDescriptor.symm)
      intro key hkey
      rw [hlives.stored.recordAt, ← hkept.stored.recordAt]
      exact hkey

/-- Every step that considers the open handles keeps a deployment sound. -/
theorem HandleStep.sound (hstep : HandleStep keys deployment event deployment')
    (h : deployment.Sound keys) (hconsiderate : event.Considerate keys deployment) :
    deployment'.Sound keys := by
  cases hstep with
  | @created name _ backend backend' hkeys hconnection _ _ _ _ _ descriptor hdescriptor handle hrun =>
      obtain ⟨payload, hnew, hpayload, hvacant, hbackend, rfl⟩ := created_of_ok hrun
      obtain rfl := Except.ok.inj (hdescriptor.symm.trans hnew)
      rw [hkeys, hconnection] at hvacant
      have hhandle : handle =
          ⟨backend.withDescriptor handle.descriptor payload, handle.descriptor⟩ := by
        rw [← hbackend]
      have hcreated := h.created hkeys hconnection hvacant hpayload (hconsiderate hvacant) name
      rw [← hhandle] at hcreated
      exact hcreated
  | createFailed _ hconnection hrun =>
      rw [connection_of_createWithParams_error hrun, hconnection]
      exact h
  | @opened name _ backend _ hkeys hconnection handle hrun =>
      obtain ⟨hstored, hbackend, hsame, hbound, hretention⟩ := opened_of_ok hrun
      rw [hkeys, hconnection] at hstored
      rw [hsame, hconnection]
      apply h.withHandle
      rintro _ ⟨⟩
      refine ⟨⟨by rw [hbackend, hbound, hkeys], by rw [hbackend, hretention]⟩, fun other hother => ?_⟩
      exact Option.some.inj (hstored.symm.trans hother)
  | @openFailed backend _ _ hconnection _ hrun =>
      have hsame := @connection_openIndex backend
      rw [hrun, hconnection] at hsame
      rw [hsame]
      exact h
  | @inserted name handle handle' hhandle items _ hrun =>
      obtain ⟨stored, hstate⟩ := state_index_insertMany (reach handle deployment.server) items
      rw [hrun] at hstate
      obtain rfl : handle' = _ := hstate
      have hinserted := h.inserted hhandle stored
      apply hinserted.withHandle
      rintro _ ⟨⟩
      exact ⟨((h.bound name handle hhandle).reach _).insertMany stored,
        hinserted.consistent.handles name handle hhandle⟩
  | @removed name handle handle' hhandle removed _ hrun =>
      obtain ⟨deleted, hstate⟩ := state_index_removeMany (reach handle deployment.server) removed
      rw [hrun] at hstate
      obtain rfl : handle' = _ := hstate
      have hremoved := h.removed hhandle deleted
      apply hremoved.withHandle
      rintro _ ⟨⟩
      exact ⟨((h.bound name handle hhandle).reach _).deleteMany deleted,
        hremoved.consistent.handles name handle hhandle⟩
  | @cleanedUp name handle handle' hhandle _ hrun =>
      have hvacant := vacant_cleanup (reach handle deployment.server)
      rw [hrun, show (reach handle deployment.server).backend.keys = keys from
        (h.bound name handle hhandle).keys] at hvacant
      exact (h.withServer_of_vacant hvacant).withHandle name nofun
  | dropped name => exact h.withHandle name nofun
  | waited milliseconds => exact h.waited milliseconds

theorem Deployment.Fresh.sound (h : deployment.Fresh keys) : deployment.Sound keys := by
  refine ⟨?_, Or.inl h.vacant, h.vacant.consistent⟩
  intro name handle hhandle
  rw [h.handles] at hhandle
  cases hhandle

theorem ConsiderateRun.sound (h : ConsiderateRun keys deployment) : deployment.Sound keys := by
  induction h with
  | start h => exact h.sound
  | step _ hstep hconsiderate ih => exact hstep.sound ih hconsiderate

/-- In every run whose creations consider the open handles, every record was hashed under the
stored descriptor, and so is what any open handle inserts or asks for. The first creation that
considers no open handle ends that. -/
theorem ConsiderateRun.consistent_iff (h : ConsiderateRun keys deployment) :
    deployment.Consistent keys ∧ ∀ event deployment', HandleStep keys deployment event deployment' →
      (deployment'.Consistent keys ↔ event.Considerate keys deployment) := by
  refine ⟨h.sound.consistent, fun event deployment' hstep =>
    ⟨fun hconsistent => ?_, fun hconsiderate => (hstep.sound h.sound hconsiderate).consistent⟩⟩
  cases hstep with
  | @created name hname backend _ hkeys hconnection _ _ _ _ _ _ hdescriptor handle hrun =>
      intro _ other found hfound
      obtain ⟨payload, hnew, hpayload, hvacant, _, rfl⟩ := created_of_ok hrun
      obtain rfl := Except.ok.inj (hdescriptor.symm.trans hnew)
      subst hkeys
      obtain ⟨_, hlives⟩ := hvacant.lives hpayload
      have hne : other ≠ name := by
        rintro rfl
        rw [hname] at hfound
        cases hfound
      exact hconsistent.handles other found ((Function.update_of_ne hne _ _).trans hfound) _
        hlives.storedDescriptor
  | _ => trivial

end Invariant

/-! ## A replaced namespace -/

section Replaced

/-- A namespace is created for a minute. -/
def firstCreation : Except BackendIndexError RedisIndex × RedisBackend :=
  call sampleHandle (createWithParams sampleConfig.threshold 4 1 ⟨2, 2⟩ (some (.fromSecs 60)))

def firstHandle : RedisIndex := firstCreation.1.toOption.get (by decide +kernel)

/-- A new connection once the namespace has expired. -/
def laterHandle : RedisBackend :=
  { sampleHandle with connection := firstCreation.2.connection.advance 60000 }

/-- The namespace is created again under another seed. -/
def secondCreation : Except BackendIndexError RedisIndex × RedisBackend :=
  call laterHandle (createWithParams sampleConfig.threshold 4 2 ⟨2, 2⟩ none)

def secondHandle : RedisIndex := secondCreation.1.toOption.get (by decide +kernel)

/-- The first handle inserts into the second namespace. -/
def lateInsertion : Except BackendIndexError Unit × RedisIndex :=
  call (reach firstHandle secondCreation.2.connection)
    (BackendIndex32.insertMany [(7, sampleSketch)])

/-- A handle that outlives its namespace stores a record that was hashed under another
descriptor than the stored one. -/
theorem late_insertion_inconsistent :
    ¬ ∀ keys deployment, HandleRun keys deployment → ∀ key,
      recordAt deployment.server keys key ≠ none → ∃ descriptor,
        storedDescriptor deployment.server keys = some descriptor ∧
          deployment.hashedUnder key = some descriptor := by
  intro hclaim
  have hfirst : firstCreation = (.ok firstHandle, firstCreation.2) :=
    Prod.ext (eq_ok_get _) rfl
  have hsecond : secondCreation = (.ok secondHandle, secondCreation.2) :=
    Prod.ext (eq_ok_get _) rfl
  have hstart : HandleRun sampleHandle.keys
      { server := sampleHandle.connection, handles := fun _ => none, hashedUnder := fun _ => none } :=
    .start ⟨⟨rfl, rfl, rfl⟩, fun _ => rfl⟩
  obtain ⟨_, hnew, _⟩ := created_of_ok hfirst
  obtain ⟨_, hnew', _⟩ := created_of_ok hsecond
  have hcreated := hstart.step (@HandleStep.created _ _ 0 rfl _ _ rfl rfl _ _ _ _ _ _ hnew _ hfirst)
  have hexpired := hcreated.step (.waited 60000)
  have hunnamed : Function.update (fun _ => none) 0 (some firstHandle) 1 = none :=
    Function.update_of_ne (by decide) _ _
  have hrecreated := hexpired.step
    (@HandleStep.created _ _ 1 hunnamed laterHandle _ rfl rfl _ _ _ _ _ _ hnew' _ hsecond)
  have hlate : call (reach firstHandle secondCreation.2.connection)
      (BackendIndex32.insertMany [(7, sampleSketch)]) = (lateInsertion.1, lateInsertion.2) := rfl
  have hinserted := hrecreated.step (@HandleStep.inserted _ _ 0 _ _ rfl _ _ hlate)
  have hwritten : recordAt lateInsertion.2.backend.connection sampleHandle.keys 7 ≠ none := by
    decide +kernel
  have hseed : (storedDescriptor lateInsertion.2.backend.connection sampleHandle.keys).map
      (fun descriptor => descriptor.seed) = some 2 := by decide +kernel
  have hunseen : recordAt secondCreation.2.connection sampleHandle.keys 7 = none := by
    decide +kernel
  have hfirstSeed : firstHandle.descriptor.seed = 1 := by decide +kernel
  obtain ⟨descriptor, hstored, hunder⟩ := hclaim _ _ hinserted 7 hwritten
  have hstored' : storedDescriptor lateInsertion.2.backend.connection sampleHandle.keys =
      some descriptor := hstored
  have hunder' : (if recordAt lateInsertion.2.backend.connection sampleHandle.keys 7 =
      recordAt secondCreation.2.connection sampleHandle.keys 7
      then none else some firstHandle.descriptor) = some descriptor := hunder
  rw [hunseen, if_neg hwritten] at hunder'
  rw [hstored', ← Option.some.inj hunder', Option.map_some, hfirstSeed] at hseed
  exact absurd hseed (by decide)

/-- A namespace created by one handle and waited on. -/
theorem consistent_iff_after_creation :
    ∃ deployment, ConsiderateRun sampleHandle.keys deployment ∧
      deployment.handles 0 = some firstHandle ∧ deployment.Consistent sampleHandle.keys := by
  have hfirst : firstCreation = (.ok firstHandle, firstCreation.2) := Prod.ext (eq_ok_get _) rfl
  obtain ⟨_, hnew, _⟩ := created_of_ok hfirst
  have hstart : ConsiderateRun sampleHandle.keys
      { server := sampleHandle.connection, handles := fun _ => none, hashedUnder := fun _ => none } :=
    .start ⟨⟨rfl, rfl, rfl⟩, fun _ => rfl⟩
  have hcreated := hstart.step
    (@HandleStep.created _ _ 0 rfl sampleHandle _ rfl rfl _ _ _ _ _ _ hnew _ hfirst) nofun
  exact ⟨_, hcreated, rfl, hcreated.consistent_iff.1⟩

end Replaced

end Pari.Backend
