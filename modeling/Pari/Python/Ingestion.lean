/-
# Records and native index agree

At most one batch at a time is inserted and not yet appended, because a batch is numbered by a
count of records that is never above the number of inserted keys: a second insertion would
repeat a key. Every step keeps this, so whatever callbacks raise, re-enter or cancel, and however
the calls interleave, the keys of the native index are the positions of the records.
-/

import Pari.Python.Dedupe
import Pari.Store.Insertion

namespace Pari.Python

open Data Pari.Format Pari.Core Pari.Index Pari.Store

variable {T : Type}

/-! ## One call -/

/-- What a call relies on when there are `count` records, of which it added `added`. -/
def Phase.Consistent (count added : Nat) : Phase T → Prop
  | .collecting start _ _ => start.toNat ≤ count
  | .inserted _ records rows => records.length = rows.length
  | .reporting event => event.completed = added
  | .concluding event => event.completed = added
  | .finished (.error (.progressCancelled completed)) => completed = added
  | _ => True

/-- A call has added its batches and counted them. -/
structure Call.Consistent (call : Call T) (count : Nat) (contributed : List (T × Features)) :
    Prop where
  contributed_eq : contributed = call.batches.flatten
  added : call.added = contributed.length
  phase : call.phase.Consistent count call.added

section Calls

variable {call call' : Call T} {count count' batchSize : Nat} {contributed : List (T × Features)}

theorem Phase.Consistent.mono {phase : Phase T} {added : Nat} (h : phase.Consistent count added)
    (hle : count ≤ count') : phase.Consistent count' added := by
  cases phase with
  | collecting start records rows => exact Nat.le_trans h hle
  | finished result =>
      rcases result with failure | value
      · cases failure <;> exact h
      · trivial
  | _ => exact h

theorem Call.Consistent.mono (h : call.Consistent count contributed) (hle : count ≤ count') :
    call.Consistent count' contributed :=
  ⟨h.contributed_eq, h.added, h.phase.mono hle⟩

theorem Call.consistent_new (manner : Manner T) : (Call.new manner).Consistent count [] where
  contributed_eq := rfl
  added := rfl
  phase := trivial

/-- What a call does by itself adds nothing and leaves nothing pending. -/
theorem CallStep.consistent (hstep : CallStep batchSize count call call')
    (h : call.Consistent count contributed) :
    call'.Consistent count contributed ∧ call.phase.pending = [] ∧ call'.phase.pending = [] := by
  obtain ⟨hbatches, hadded, hphase'⟩ := h
  cases hstep with
  | started hphase hstart => exact ⟨⟨hbatches, hadded, hstart.le⟩, by rw [hphase]; rfl, rfl⟩
  | yielded hphase =>
      rw [hphase] at hphase'
      exact ⟨⟨hbatches, hadded, hphase'⟩, by rw [hphase]; rfl, rfl⟩
  | copied hphase =>
      rw [hphase] at hphase'
      exact ⟨⟨hbatches, hadded, hphase'⟩, by rw [hphase]; rfl, rfl⟩
  | raised hphase =>
      refine ⟨⟨hbatches, hadded, trivial⟩, ?_, rfl⟩
      cases hcase : call.phase with
      | inserted start records rows =>
          rw [hcase] at hphase
          exact hphase.elim
      | _ => rfl
  | exhausted hphase =>
      rw [hphase]
      refine ⟨⟨hbatches, hadded, ?_⟩, rfl, ?_⟩
      · dsimp only [Call.exhaust]
        split
        · rfl
        · trivial
      · dsimp only [Call.exhaust]
        split <;> rfl
  | reported hphase => exact ⟨⟨hbatches, hadded, trivial⟩, by rw [hphase]; rfl, rfl⟩
  | concluded hphase => exact ⟨⟨hbatches, hadded, trivial⟩, by rw [hphase]; rfl, rfl⟩
  | cancelled hphase =>
      rcases hphase with hphase | hphase
      · rw [hphase] at hphase'
        exact ⟨⟨hbatches, hadded, hphase'⟩, by rw [hphase]; rfl, rfl⟩
      · rw [hphase] at hphase'
        exact ⟨⟨hbatches, hadded, hphase'⟩, by rw [hphase]; rfl, rfl⟩

theorem Call.pending_append (call : Call T) (start : UInt64) (records : List T) (rows : List Features) :
    (call.append start records rows).phase.pending = [] := by
  dsimp only [Call.append]
  cases call.manner with
  | single record => rfl
  | batched progress total => cases progress <;> rfl

theorem Call.phase_append_ne (call : Call T) (start : UInt64) (records : List T) (rows : List Features)
    (failure : Failure) :
    (call.append start records rows).phase ≠ .finished (.error failure) := by
  dsimp only [Call.append]
  cases call.manner with
  | single record => simp
  | batched progress total => cases progress <;> simp

/-- An appended batch counts. -/
theorem Call.Consistent.append (h : call.Consistent count contributed) {start : UInt64}
    {records : List T} {rows : List Features} (hphase : call.phase = .inserted start records rows) :
    (call.append start records rows).Consistent count' (contributed ++ records.zip rows) := by
  have hlength : records.length = rows.length := by
    have hphase' := h.phase
    rwa [hphase] at hphase'
  refine ⟨?_, ?_, ?_⟩
  · rw [h.contributed_eq, Call.append, List.flatten_append]
    simp
  · rw [Call.append, List.length_append, List.length_zip, ← hlength, Nat.min_self, h.added]
  · dsimp only [Call.append]
    cases call.manner with
    | single record => trivial
    | batched progress total =>
        cases progress with
        | false => trivial
        | true => rfl

end Calls

/-! ## The index between its calls -/

namespace Dedupe

/-- The rows of the batch that is inserted and not appended, if there is one. -/
inductive Pending (dedupe : Dedupe T) : List Features → Prop
  | none (hquiet : dedupe.Settled) : Pending dedupe []
  | one {id : Nat} {call : Call T} {start : UInt64} {records : List T} {rows : List Features}
      (hcall : dedupe.calls id = some call) (hphase : call.phase = .inserted start records rows)
      (hne : records ≠ []) (hstart : start.toNat = dedupe.records.length)
      (hothers : ∀ other call, other ≠ id → dedupe.calls other = some call →
        call.phase.pending = []) : Pending dedupe rows

/-- The native index holds the records and the pending batch, and every call is consistent. -/
structure Consistent (crc : Checksum) (sha1 : Bytes → Bytes) (config : LshConfig)
    (dedupe : Dedupe T) : Prop where
  engine : ∃ pending, dedupe.Pending pending ∧ (dedupe.features ++ pending).length ≤ 2 ^ 64 ∧
    dedupe.engine.Keeps crc config dedupe.world (ingestedRows sha1 config (dedupe.features ++ pending))
  calls : ∀ id call, dedupe.calls id = some call →
    call.Consistent dedupe.records.length (dedupe.contributed id)
  callers : ∀ entry ∈ dedupe.records, dedupe.calls entry.call ≠ none

section Steps

variable {crc : Checksum} {sha1 : Bytes → Bytes} {config : LshConfig} {dedupe dedupe' : Dedupe T}
  {id : Nat} {call : Call T}

theorem calls_setCall (other : Nat) :
    (dedupe.setCall id call).calls other = if other = id then some call else dedupe.calls other :=
  Function.update_apply ..

theorem calls_setCall_of_ne {other : Nat} (hne : other ≠ id) :
    (dedupe.setCall id call).calls other = dedupe.calls other :=
  Function.update_of_ne hne ..

theorem calls_setCall_self : (dedupe.setCall id call).calls id = some call :=
  Function.update_self ..

theorem forall_setCall {P : Nat → Call T → Prop} (hself : P id call)
    (hothers : ∀ other call', other ≠ id → dedupe.calls other = some call' → P other call')
    {other : Nat} {call' : Call T} (h : (dedupe.setCall id call).calls other = some call') :
    P other call' := by
  by_cases heq : other = id
  · rw [heq, calls_setCall_self] at h
    obtain rfl := Option.some.inj h
    exact heq ▸ hself
  · rw [calls_setCall_of_ne heq] at h
    exact hothers other call' heq h

theorem calls_setCall_ne_none {other : Nat} (h : dedupe.calls other ≠ none) :
    (dedupe.setCall id call).calls other ≠ none := by
  by_cases heq : other = id
  · rw [heq, calls_setCall_self]
    exact Option.some_ne_none call
  · rwa [calls_setCall_of_ne heq]

/-- A call that has nothing pending changes by itself. -/
theorem Consistent.setCall (h : dedupe.Consistent crc sha1 config)
    (hbefore : ∀ call, dedupe.calls id = some call → call.phase.pending = [])
    (hafter : call.phase.pending = [])
    (hcall : call.Consistent dedupe.records.length (dedupe.contributed id)) :
    (dedupe.setCall id call).Consistent crc sha1 config := by
  obtain ⟨⟨pending, hpending, hbound, hkeeps⟩, hcalls, hcallers⟩ := h
  refine ⟨⟨pending, ?_, hbound, hkeeps⟩, ?_, ?_⟩
  · cases hpending with
    | none hsettled =>
        apply Pending.none
        intro other call'
        exact forall_setCall hafter fun other call' _ => hsettled other call'
    | @one own call' start records rows hown hphase hne hstart hothers =>
        have hdiffers : own ≠ id := by
          rintro rfl
          have hnone := hbefore call' hown
          rw [hphase] at hnone
          exact hne hnone
        apply Pending.one ((calls_setCall_of_ne hdiffers).trans hown) hphase hne hstart
        intro other call' hother hcall'
        exact forall_setCall (P := fun other call' => other ≠ own → call'.phase.pending = [])
          (fun _ => hafter) (fun other call' _ hcall' hother => hothers other call' hother hcall')
          hcall' hother
  · intro other call'
    exact forall_setCall hcall fun other call' _ => hcalls other call'
  · exact fun entry hentry => calls_setCall_ne_none (hcallers entry hentry)

/-- An operation of the engine that keeps its rows. -/
theorem Consistent.withEngine {engine : DedupeEngine} {world : World}
    (h : dedupe.Consistent crc sha1 config)
    (hkeeps : ∀ features,
      dedupe.engine.Keeps crc config dedupe.world (ingestedRows sha1 config features) →
        engine.Keeps crc config world (ingestedRows sha1 config features)) :
    Consistent crc sha1 config { dedupe with engine, world } := by
  obtain ⟨⟨pending, hpending, hbound, hengine⟩, hcalls, hcallers⟩ := h
  refine ⟨⟨pending, ?_, hbound, hkeeps _ hengine⟩, hcalls, hcallers⟩
  cases hpending with
  | none hsettled => exact .none hsettled
  | one hown hphase hne hstart hothers => exact .one hown hphase hne hstart hothers

theorem contributed_of_calls_eq_none (h : dedupe.Consistent crc sha1 config)
    (hnew : dedupe.calls id = none) : dedupe.contributed id = [] := by
  rw [contributed, List.map_eq_nil_iff, List.filter_eq_nil_iff]
  intro entry hentry hown
  rw [decide_eq_true_eq] at hown
  exact h.callers entry hentry (hown ▸ hnew)

/-- Where nothing is pending, no call stands between its insertion and its append. -/
theorem Consistent.settled (h : dedupe.Consistent crc sha1 config) (hpending : dedupe.Pending []) :
    dedupe.Settled := by
  generalize hrows : ([] : List Features) = rows at hpending
  cases hpending with
  | none hsettled => exact hsettled
  | @one id call _ _ _ hcall hphase hne =>
      have hlength := (h.calls id call hcall).phase
      rw [hphase, ← hrows] at hlength
      exact absurd (List.length_eq_zero_iff.mp hlength) hne

theorem Pending.eq_nil {rows : List Features} (hpending : dedupe.Pending rows)
    (hsettled : dedupe.Settled) : rows = [] := by
  cases hpending with
  | none _ => rfl
  | @one id call _ _ _ hcall hphase hne =>
      have hnone := hsettled id call hcall
      rw [hphase] at hnone
      exact absurd hnone hne

theorem length_features : dedupe.features.length = dedupe.records.length := List.length_map _

/-- An insertion that succeeds finds no other batch pending. -/
theorem Consistent.inserted {start : UInt64} {records : List T} {rows : List Features}
    {surroundings : Surroundings} {engine : DedupeEngine} {world : World}
    (h : dedupe.Consistent crc sha1 config) (hcall : dedupe.calls id = some call)
    (hphase : call.phase = .collecting start records rows) (hcopied : records.length = rows.length)
    (hrun : dedupe.engine.addMany sha1 surroundings start rows dedupe.world =
      (.ok (), engine, world)) :
    (Dedupe.setCall { dedupe with engine, world } id
      { call with phase := .inserted start records rows }).Consistent crc sha1 config := by
  obtain ⟨hbatches, hadded, hstarted⟩ := h.calls id call hcall
  rw [hphase] at hstarted
  obtain ⟨pending, hpending, hbound, hkeeps⟩ := h.engine
  obtain ⟨rfl, hresult⟩ := hkeeps.addMany hrun
  rcases hresult with ⟨rfl, rfl⟩ | ⟨hne, hfree, hkept⟩
  · -- no rows: nothing was inserted, and nothing becomes pending
    obtain rfl := List.length_eq_zero_iff.mp hcopied
    apply Consistent.setCall h
    · intro other hother
      obtain rfl := Option.some.inj (hcall.symm.trans hother)
      rw [hphase]
      rfl
    · rfl
    · exact ⟨hbatches, hadded, rfl⟩
  · -- the first key was free, so it is the number of records
    rw [List.length_append, length_features] at hfree hkept
    obtain rfl : pending = [] := by
      apply List.eq_nil_of_length_eq_zero
      have hle : start.toNat ≤ dedupe.records.length := hstarted
      omega
    rw [List.length_nil, Nat.add_zero] at hfree hkept
    have hstart : start.toNat = dedupe.records.length := Nat.le_antisymm hstarted hfree
    rw [List.append_nil] at hkept
    refine ⟨⟨rows, ?_, hkept hstart⟩, ?_, ?_⟩
    · apply Pending.one calls_setCall_self rfl
      · rintro rfl
        exact hne (List.length_eq_zero_iff.mp hcopied.symm)
      · exact hstart
      · intro other call' hother hcall'
        rw [calls_setCall_of_ne hother] at hcall'
        exact h.settled hpending other call' hcall'
    · intro other call'
      exact forall_setCall ⟨hbatches, hadded, hcopied⟩ fun other call' _ => h.calls other call'
    · exact fun entry hentry => calls_setCall_ne_none (h.callers entry hentry)

theorem Consistent.refused {start : UInt64} {records : List T} {rows : List Features}
    {surroundings : Surroundings} {engine : DedupeEngine} {world : World} {error : NativeError}
    (h : dedupe.Consistent crc sha1 config) (hcall : dedupe.calls id = some call)
    (hphase : call.phase = .collecting start records rows)
    (hrun : dedupe.engine.addMany sha1 surroundings start rows dedupe.world =
      (.error error, engine, world)) :
    (Dedupe.setCall { dedupe with engine, world } id
      { call with phase := .finished (.error (.native error)) }).Consistent crc sha1 config := by
  obtain ⟨hbatches, hadded, _⟩ := h.calls id call hcall
  apply Consistent.setCall
  · apply h.withEngine
    intro features hkeeps
    obtain ⟨rfl, hkept⟩ := hkeeps.addMany hrun
    exact hkept
  · intro other hother
    obtain rfl := Option.some.inj (hcall.symm.trans hother)
    rw [hphase]
    rfl
  · rfl
  · exact ⟨hbatches, hadded, trivial⟩

section Extending

variable {records : List T} {rows : List Features}

theorem features_extend (hlength : records.length = rows.length) :
    (dedupe.extend id records rows).features = dedupe.features ++ rows := by
  rw [features, extend, List.map_append, List.map_map]
  congr 1
  exact List.map_snd_zip hlength.ge

theorem length_records_extend (records : List T) (rows : List Features) :
    dedupe.records.length ≤ (dedupe.extend id records rows).records.length := by
  rw [extend, List.length_append]
  exact Nat.le_add_right _ _

theorem contributed_extend_self :
    (dedupe.extend id records rows).contributed id = dedupe.contributed id ++ records.zip rows := by
  simp [contributed, extend, List.filter_map, Function.comp_def]

theorem contributed_extend_of_ne {other : Nat} (hne : other ≠ id) :
    (dedupe.extend id records rows).contributed other = dedupe.contributed other := by
  simp [contributed, extend, List.filter_map, Function.comp_def, hne.symm]

/-- The batch that is appended is the pending one. -/
theorem Consistent.appended {start : UInt64} (h : dedupe.Consistent crc sha1 config)
    (hcall : dedupe.calls id = some call) (hphase : call.phase = .inserted start records rows)
    (hne : records ≠ []) :
    ((dedupe.extend id records rows).setCall id (call.append start records rows)).Consistent crc
      sha1 config := by
  have hlength : records.length = rows.length := by
    have hconsistent := (h.calls id call hcall).phase
    rwa [hphase] at hconsistent
  have hpendingCall : call.phase.pending = records := by rw [hphase]; rfl
  obtain ⟨pending, hpending, hbound, hkeeps⟩ := h.engine
  have hothers : pending = rows ∧ ∀ other call', other ≠ id → dedupe.calls other = some call' →
      call'.phase.pending = [] := by
    cases hpending with
    | none hsettled => exact absurd (hpendingCall.symm.trans (hsettled id call hcall)) hne
    | @one own call' start' records' rows' hown hphase' hne' hstart hothers =>
        have hsame : id = own := by
          by_contra hdiffers
          exact hne (hpendingCall.symm.trans (hothers id call hdiffers hcall))
        obtain rfl := hsame
        obtain rfl := Option.some.inj (hcall.symm.trans hown)
        rw [hphase] at hphase'
        cases hphase'
        exact ⟨rfl, hothers⟩
  obtain ⟨rfl, hothers⟩ := hothers
  have hfeatures := @features_extend _ dedupe id _ _ hlength
  refine ⟨⟨[], ?_, ?_, ?_⟩, ?_, ?_⟩
  · apply Pending.none
    intro other call'
    exact forall_setCall (P := fun _ call' => call'.phase.pending = [])
      (call.pending_append start records pending) hothers
  · rw [List.append_nil]
    exact hfeatures.symm ▸ hbound
  · rw [List.append_nil]
    exact hfeatures.symm ▸ hkeeps
  · intro other call'
    apply forall_setCall (P := fun other call' => call'.Consistent
      (dedupe.extend id records pending).records.length
      ((dedupe.extend id records pending).contributed other))
    · rw [contributed_extend_self]
      exact (h.calls id call hcall).append hphase
    · intro other call' hother hcall'
      rw [contributed_extend_of_ne hother]
      exact (h.calls other call' hcall').mono (length_records_extend _ _)
  · intro entry hentry
    apply calls_setCall_ne_none
    rcases List.mem_append.mp hentry with hold | hnew
    · exact h.callers entry hold
    · obtain ⟨item, _, rfl⟩ := List.mem_map.mp hnew
      exact fun hnone => by cases hcall.symm.trans hnone

end Extending

/-- Every step keeps the native index and the records together. -/
theorem Consistent.step (h : dedupe.Consistent crc sha1 config)
    (hstep : DedupeStep crc sha1 dedupe dedupe') : dedupe'.Consistent crc sha1 config := by
  cases hstep with
  | began manner hnew =>
      apply h.setCall
      · intro call hcall
        cases hnew.symm.trans hcall
      · rfl
      · rw [contributed_of_calls_eq_none h hnew]
        exact Call.consistent_new manner
  | called hcall hstep =>
      obtain ⟨hconsistent, hbefore, hafter⟩ := hstep.consistent (h.calls _ _ hcall)
      apply h.setCall
      · intro other hother
        obtain rfl := Option.some.inj (hcall.symm.trans hother)
        exact hbefore
      · exact hafter
      · exact hconsistent
  | inserted hcall hphase hcopied hrun => exact h.inserted hcall hphase hcopied hrun
  | refused hcall hphase _ hrun => exact h.refused hcall hphase hrun
  | appended hcall hphase hne => exact h.appended hcall hphase hne
  | synced hrun => exact h.withEngine fun _ hkeeps => hkeeps.sync hrun
  | closed hrun => exact h.withEngine fun _ hkeeps => hkeeps.close hrun
  | elsewhere hfiles => exact h.withEngine fun _ hkeeps => hkeeps.elsewhere hfiles

theorem Consistent.run (h : dedupe.Consistent crc sha1 config)
    (hrun : Relation.ReflTransGen (DedupeStep crc sha1) dedupe dedupe') :
    dedupe'.Consistent crc sha1 config := by
  induction hrun with
  | refl => exact h
  | tail _ hstep ih => exact ih.step hstep

/-- A call adds nothing in the step it fails in, nor later. -/
theorem contributed_of_failed {failure : Failure} (hstep : DedupeStep crc sha1 dedupe dedupe')
    (hcall : dedupe'.calls id = some call) (hphase : call.phase = .finished (.error failure)) :
    dedupe'.contributed id = dedupe.contributed id := by
  cases hstep with
  | @appended own before start records rows _ _ _ =>
      by_cases heq : id = own
      · rw [heq, calls_setCall_self] at hcall
        obtain rfl := Option.some.inj hcall
        exact absurd hphase (before.phase_append_ne start records rows failure)
      · exact contributed_extend_of_ne heq
  | _ => rfl

/-- A new index is consistent. -/
theorem consistent_new {tune : F64 → Nat → Except LshError LshParams} {threshold : F64}
    {numPerm : Nat} {seed : UInt64} {path : Option Path} {batchSize : Nat} {world : World}
    (hnew : Dedupe.new T crc tune threshold numPerm seed path batchSize world = .ok dedupe) :
    ∃ config, dedupe.Consistent crc sha1 config := by
  unfold Dedupe.new at hnew
  split at hnew
  · cases hnew
  next engine world' hengine =>
  obtain rfl := Except.ok.inj hnew
  obtain ⟨config, hkeeps⟩ := DedupeEngine.keeps_new hengine
  refine ⟨config, ⟨[], ?_, Nat.zero_le _, hkeeps⟩, ?_, ?_⟩
  · apply Pending.none
    intro id call hcall
    cases hcall
  · intro id call hcall
    cases hcall
  · intro entry hentry
    cases hentry

end Steps

end Dedupe

/-! ## The result -/

/-- The index and its mirror hold the keys below the number of rows, each with the band hashes
of its row, and every row has a key. -/
structure DedupeState.HoldsExactly (sha1 : Bytes → Bytes) (state : DedupeState)
    (features : List Features) : Prop where
  bound : features.length ≤ 2 ^ 64
  index_keys : ∀ key, state.index.contains key = true ↔ key.toNat < features.length
  index_rows : state.index.Holds (ingestedRows sha1 state.index.config features)
  mirror_keys : ∀ store, state.store = some store →
    ∀ key, store.contains key = true ↔ key.toNat < features.length
  mirror_rows : ∀ store, state.store = some store → store.config = state.index.config ∧
    store.liveRows = ingestedRows sha1 state.index.config features

theorem DedupeState.Keeps.holdsExactly {crc : Checksum} {sha1 : Bytes → Bytes} {config : LshConfig}
    {state : DedupeState} {world : World} {features : List Features}
    (h : state.Keeps crc config world (ingestedRows sha1 config features))
    (hbound : features.length ≤ 2 ^ 64) : state.HoldsExactly sha1 features := by
  obtain ⟨rfl, hindex, hmirror⟩ := h
  have hkeys : ∀ key, ingestedRows sha1 state.index.config features key ≠ none ↔
      key.toNat < features.length := by
    intro key
    rw [Ne, ingestedRows_eq_none_iff, Nat.not_le]
  refine ⟨hbound, ?_, hindex, ?_, ?_⟩
  · intro key
    rw [← hkeys, Ne, ← contains_eq_false_iff_rows hindex, Bool.not_eq_false]
  · intro store hstore key
    obtain ⟨_, _, hlive⟩ := hmirror store hstore
    rw [← hkeys, Ne, ← hlive, ← contains_eq_false_iff_liveRows, Bool.not_eq_false]
  · intro store hstore
    exact (hmirror store hstore).2

theorem Dedupe.Consistent.holdsExactly {crc : Checksum} {sha1 : Bytes → Bytes} {config : LshConfig}
    {dedupe : Dedupe T} {state : DedupeState} (h : dedupe.Consistent crc sha1 config)
    (hsettled : dedupe.Settled) (hstate : dedupe.engine.inner = some state) :
    state.HoldsExactly sha1 dedupe.features := by
  obtain ⟨pending, hpending, hbound, hkeeps⟩ := h.engine
  rw [hpending.eq_nil hsettled, List.append_nil] at hbound hkeeps
  exact (hkeeps.state state hstate).holdsExactly hbound

/-- Whenever no call stands between its insertion and its append, the native index and its
mirror hold exactly the records under their positions, with the features supplied with each. At
any time the records of a call are the batches it completed, a step in which it fails adds none
to them, and a cancelled call says how many they are. -/
theorem ingestion_consistent {crc : Checksum} {sha1 : Bytes → Bytes}
    {tune : F64 → Nat → Except LshError LshParams} {threshold : F64} {numPerm : Nat} {seed : UInt64}
    {path : Option Path} {batchSize : Nat} {world : World} {initial dedupe : Dedupe T}
    (hnew : Dedupe.new T crc tune threshold numPerm seed path batchSize world = .ok initial)
    (hrun : Relation.ReflTransGen (DedupeStep crc sha1) initial dedupe) :
    (dedupe.Settled → ∀ state, dedupe.engine.inner = some state →
      state.HoldsExactly sha1 (dedupe.records.map Entry.features)) ∧
    (∀ id call, dedupe.calls id = some call →
      dedupe.contributed id = call.batches.flatten ∧
      ∀ completed, call.phase = .finished (.error (.progressCancelled completed)) →
        completed = (dedupe.contributed id).length) ∧
    ∀ next id call failure, DedupeStep crc sha1 dedupe next → next.calls id = some call →
      call.phase = .finished (.error failure) → next.contributed id = dedupe.contributed id := by
  obtain ⟨config, hinitial⟩ : ∃ config, initial.Consistent crc sha1 config :=
    Dedupe.consistent_new hnew
  have h := hinitial.run hrun
  refine ⟨?_, ?_, ?_⟩
  · intro hsettled state hstate
    exact h.holdsExactly hsettled hstate
  · intro id call hcall
    obtain ⟨hbatches, hadded, hphase⟩ := h.calls id call hcall
    refine ⟨hbatches, fun completed hcancelled => ?_⟩
    rw [hcancelled] at hphase
    exact Eq.trans hphase hadded
  · intro next id call failure hstep hcall hfailed
    exact Dedupe.contributed_of_failed hstep hcall hfailed

/-! ## Two calls at once -/

/-- A call that comes to a phase by itself. -/
theorem Dedupe.run_call {crc : Checksum} {sha1 : Bytes → Bytes} {dedupe : Dedupe T} {id : Nat}
    {manner : Manner T} {call : Call T} (hnew : dedupe.calls id = none)
    (hrun : Relation.ReflTransGen (CallStep dedupe.batchSize dedupe.records.length)
      (.new manner) call) :
    Relation.ReflTransGen (DedupeStep crc sha1) dedupe (dedupe.setCall id call) := by
  induction hrun with
  | refl => exact .single (.began manner hnew)
  | @tail before after _ hstep ih =>
      have hcalled : DedupeStep crc sha1 (dedupe.setCall id before)
          ((dedupe.setCall id before).setCall id after) :=
        .called Dedupe.calls_setCall_self hstep
      have hsame : (dedupe.setCall id before).setCall id after = dedupe.setCall id after := by
        simp [setCall]
      exact ih.tail (hsame ▸ hcalled)

def sampleCreated : Except BindingError (Dedupe Nat) :=
  Dedupe.new Nat Checksum.crc32 (fun _ _ => .ok ⟨2, 2⟩) sampleConfig.threshold 4 1 none 8
    (worldHolding sampleCore.path.location [])

def sampleInitial : Dedupe Nat := sampleCreated.toOption.get (by decide +kernel)

/-- `add_many` with a progress callback, and `add_features`. -/
def sampleFirst (phase : Phase Nat) : Call Nat := { Call.new (.batched true none) with phase }
def sampleSecond (phase : Phase Nat) : Call Nat := { Call.new (.single 9) with phase }

/-- Both calls counted the records before either inserted its row. -/
def sampleCollecting : Dedupe Nat :=
  (sampleInitial.setCall 0 (sampleFirst (.collecting 0 [7] [[[1, 2]]]))).setCall 1
    (sampleSecond (.collecting 0 [9] [[[3]]]))

/-- The engine inserts a row for one call and then one for the other, under the same key. -/
def sampleInsertion (dedupe : Dedupe Nat) (row : Features) :
    Except NativeError Unit × DedupeEngine × World :=
  dedupe.engine.addMany id {} 0 [row] dedupe.world

def sampleInserted : Dedupe Nat :=
  let (_, engine, world) := sampleInsertion sampleCollecting [[1, 2]]
  Dedupe.setCall { sampleCollecting with engine, world } 0
    (sampleFirst (.inserted 0 [7] [[[1, 2]]]))

def sampleRefused : Dedupe Nat :=
  let (_, engine, world) := sampleInsertion sampleInserted [[3]]
  Dedupe.setCall { sampleInserted with engine, world } 1
    (sampleSecond (.finished (.error (.native (.binding (.index (.duplicateKey 0)))))))

/-- Then the first appends its record, and its callback cancels it. -/
def sampleAppended : Dedupe Nat :=
  (sampleRefused.extend 0 [7] [[[1, 2]]]).setCall 0
    ((sampleFirst (.inserted 0 [7] [[[1, 2]]])).append 0 [7] [[[1, 2]]])

def sampleCancelled : Dedupe Nat :=
  sampleAppended.setCall 0
    { (sampleFirst (.inserted 0 [7] [[[1, 2]]])).append 0 [7] [[[1, 2]]] with
      phase := .finished (.error (.progressCancelled 1)) }

/-- The calls up to the insertion. -/
theorem sampleCollecting_reached :
    Relation.ReflTransGen (DedupeStep Checksum.crc32 id) sampleInitial sampleCollecting := by
  have hfirst : Relation.ReflTransGen (CallStep sampleInitial.batchSize 0)
      (.new (.batched true none)) (sampleFirst (.collecting 0 [7] [[[1, 2]]])) := by
    have hstarted := @CallStep.started Nat sampleInitial.batchSize 0 (.new (.batched true none)) 0 rfl rfl
    have hyielded := @CallStep.yielded Nat sampleInitial.batchSize 0 (sampleFirst (.collecting 0 [] []))
      0 [] [] true none 7 rfl rfl rfl (by decide +kernel)
    have hcopied := @CallStep.copied Nat sampleInitial.batchSize 0 (sampleFirst (.collecting 0 [7] []))
      0 [7] [] [[1, 2]] rfl (by decide)
    exact ((Relation.ReflTransGen.single hstarted).tail hyielded).tail hcopied
  have hsecond : Relation.ReflTransGen (CallStep sampleInitial.batchSize 0)
      (.new (.single 9)) (sampleSecond (.collecting 0 [9] [[[3]]])) := by
    have hstarted := @CallStep.started Nat sampleInitial.batchSize 0 (.new (.single 9)) 0 rfl rfl
    have hcopied := @CallStep.copied Nat sampleInitial.batchSize 0 (sampleSecond (.collecting 0 [9] []))
      0 [9] [] [[3]] rfl (by decide)
    exact (Relation.ReflTransGen.single hstarted).tail hcopied
  have hcalls : sampleInitial.calls = fun _ => none := rfl
  have hleft : Relation.ReflTransGen (DedupeStep Checksum.crc32 id) sampleInitial
      (sampleInitial.setCall 0 (sampleFirst (.collecting 0 [7] [[[1, 2]]]))) :=
    Dedupe.run_call (congrFun hcalls 0) hfirst
  apply hleft.trans
  exact Dedupe.run_call ((Dedupe.calls_setCall_of_ne (by decide)).trans (congrFun hcalls 1)) hsecond

theorem sampleCancelled_reached :
    Relation.ReflTransGen (DedupeStep Checksum.crc32 id) sampleInitial sampleCancelled := by
  have hinserted : DedupeStep Checksum.crc32 id sampleCollecting sampleInserted := by
    have hok : (sampleInsertion sampleCollecting [[1, 2]]).1 = .ok () := by decide +kernel
    exact @DedupeStep.inserted Nat _ _ sampleCollecting 0 (sampleFirst (.collecting 0 [7] [[[1, 2]]]))
      0 [7] [[[1, 2]]] {} _ _ rfl rfl rfl (Prod.ext hok rfl)
  have hrefused : DedupeStep Checksum.crc32 id sampleInserted sampleRefused := by
    have herror : (sampleInsertion sampleInserted [[3]]).1 =
      .error (.binding (.index (.duplicateKey 0))) := by decide +kernel
    exact @DedupeStep.refused Nat _ _ sampleInserted 1 (sampleSecond (.collecting 0 [9] [[[3]]]))
      0 [9] [[[3]]] {} _ _ _ rfl rfl rfl (Prod.ext herror rfl)
  have happended : DedupeStep Checksum.crc32 id sampleRefused sampleAppended :=
    .appended rfl rfl (by decide)
  have hcancelled : DedupeStep Checksum.crc32 id sampleAppended sampleCancelled :=
    .called Dedupe.calls_setCall_self (@CallStep.cancelled Nat _ _
      ((sampleFirst (.inserted 0 [7] [[[1, 2]]])).append 0 [7] [[[1, 2]]])
      { completed := 1, total := none, batchSize := 1, final := false } (Or.inl rfl))
  exact (((sampleCollecting_reached.tail hinserted).tail hrefused).tail happended).tail hcancelled

/-- The record of the cancelled call stays, and the refused call has left nothing. -/
theorem ingestion_consistent_two_calls :
    (∀ state, sampleCancelled.engine.inner = some state → state.HoldsExactly id [[[1, 2]]]) ∧
      1 = (sampleCancelled.contributed 0).length ∧ sampleCancelled.contributed 1 = [] := by
  obtain ⟨hholds, hcalls, _⟩ := ingestion_consistent (eq_ok_get _) sampleCancelled_reached
  refine ⟨hholds ?_, (hcalls 0 _ rfl).2 1 rfl, (hcalls 1 _ rfl).1⟩
  intro id call hcall
  rcases id with _ | _ | id
  · obtain rfl := Option.some.inj hcall
    rfl
  · obtain rfl := Option.some.inj hcall
    rfl
  · cases hcall

end Pari.Python
