/-
# Query metrics of concurrent queries

Queries share an index and record what they observe in six atomic counters, which other threads
may read meanwhile. No update is lost, whatever the order in which the counters are updated: when
no recording is under way the counters hold what recording one query after another gives. A
snapshot taken meanwhile counts at least every recording that was complete when it began, and at
most every recording that had begun when it ended, but its counters need not fit together.
-/

import Mathlib.Algebra.Order.BigOperators.Group.List
import Pari.Data.Interleaving
import Pari.Index.Metrics

namespace Pari.Index

open Data Pari.Format Pari.Core

/-! ## The observer -/

/-- The counters of an observer. -/
inductive Counter
  | operations
  | queries
  | candidates
  | possibleCandidates
  | totalLatencyNs
  | maxLatencyNs
  deriving DecidableEq, Repr

/-- `QueryObserver`: the values of its counters. -/
abbrev QueryObserver := Counter → UInt64

structure AtomicUpdate where
  counter : Counter
  amount : UInt64
  deriving DecidableEq, Repr

namespace QueryObserver

def default : QueryObserver := fun _ => 0

/-- `fetch_max` for the longest latency and `fetch_add`, which wraps around, for the others. -/
def fetch : Counter → UInt64 → UInt64 → UInt64
  | .maxLatencyNs => max
  | _ => (· + ·)

def perform (update : AtomicUpdate) (observer : QueryObserver) : QueryObserver :=
  Function.update observer update.counter
    (fetch update.counter (observer update.counter) update.amount)

/-- The updates of `record`. -/
def recordUpdates (observation : Observation) : List AtomicUpdate :=
  [⟨.operations, 1⟩, ⟨.queries, saturate observation.queries⟩,
    ⟨.candidates, saturate observation.candidates⟩,
    ⟨.possibleCandidates, saturate observation.possibleCandidates⟩,
    ⟨.totalLatencyNs, saturate observation.elapsed⟩, ⟨.maxLatencyNs, saturate observation.elapsed⟩]

/-- `record` alone: its updates one after the other. -/
def record (observer : QueryObserver) (observation : Observation) : QueryObserver :=
  (recordUpdates observation).foldl (fun observer update => perform update observer) observer

/-- `snapshot`, of the values its loads have found. -/
def snapshot (loaded : Counter → UInt64) : QueryMetrics where
  operations := loaded .operations
  queries := loaded .queries
  candidates := loaded .candidates
  possibleCandidates := loaded .possibleCandidates
  totalLatencyNs := loaded .totalLatencyNs
  maxLatencyNs := loaded .maxLatencyNs

end QueryObserver

/-! ## Totals -/

namespace Counter

/-- What an observation adds to a counter. -/
def amountOf : Counter → Observation → Nat
  | .operations => fun _ => 1
  | .queries => Observation.queries
  | .candidates => Observation.candidates
  | .possibleCandidates => Observation.possibleCandidates
  | .totalLatencyNs => Observation.elapsed
  | .maxLatencyNs => Observation.elapsed

def combine : Counter → Nat → Nat → Nat
  | .maxLatencyNs => max
  | _ => (· + ·)

variable {counter : Counter}

theorem combine_assoc (a b c : Nat) :
    counter.combine (counter.combine a b) c = counter.combine a (counter.combine b c) := by
  cases counter with
  | maxLatencyNs => exact max_assoc a b c
  | _ => exact Nat.add_assoc a b c

theorem combine_comm (a b : Nat) : counter.combine a b = counter.combine b a := by
  cases counter with
  | maxLatencyNs => exact max_comm a b
  | _ => exact Nat.add_comm a b

theorem combine_zero (a : Nat) : counter.combine a 0 = a := by
  cases counter with
  | maxLatencyNs => exact Nat.max_zero a
  | _ => exact Nat.add_zero a

theorem le_combine_left (a b : Nat) : a ≤ counter.combine a b := by
  cases counter with
  | maxLatencyNs => exact le_max_left a b
  | _ => exact Nat.le_add_right a b

/-- What amounts come to on a counter. -/
def sumUp (counter : Counter) (amounts : List Nat) : Nat := amounts.foldl counter.combine 0

theorem foldl_combine (start : Nat) (amounts : List Nat) :
    amounts.foldl counter.combine start = counter.combine start (counter.sumUp amounts) := by
  induction amounts using List.reverseRecOn with
  | nil => exact (combine_zero start).symm
  | append_singleton amounts amount ih =>
      rw [sumUp, List.foldl_append, List.foldl_append, ih, List.foldl_cons, List.foldl_nil,
        List.foldl_cons, List.foldl_nil, combine_assoc]
      rfl

theorem sumUp_append (left right : List Nat) :
    counter.sumUp (left ++ right) = counter.combine (counter.sumUp left) (counter.sumUp right) := by
  rw [sumUp, List.foldl_append, foldl_combine]
  rfl

theorem sumUp_perm {left right : List Nat} (h : left.Perm right) :
    counter.sumUp left = counter.sumUp right := by
  refine h.foldl_eq' (fun a _ b _ start => ?_) 0
  rw [combine_assoc, @combine_comm counter a b, combine_assoc]

theorem le_sumUp_of_mem {amounts : List Nat} {amount : Nat} (h : amount ∈ amounts) :
    amount ≤ counter.sumUp amounts := by
  have hperm := List.perm_cons_erase h
  rw [sumUp_perm hperm, ← List.singleton_append, sumUp_append]
  have hone : counter.sumUp [amount] = amount := by
    show counter.combine 0 amount = amount
    rw [combine_comm, combine_zero]
  rw [hone]
  exact le_combine_left amount _

/-- What observations come to on a counter. -/
def total (counter : Counter) (observations : List Observation) : Nat :=
  counter.sumUp (observations.map counter.amountOf)

theorem total_append (left right : List Observation) :
    counter.total (left ++ right) = counter.combine (counter.total left) (counter.total right) := by
  rw [total, List.map_append, sumUp_append]
  rfl

theorem total_perm {left right : List Observation} (h : left.Perm right) :
    counter.total left = counter.total right := sumUp_perm (h.map _)

/-- What updates come to on a counter. -/
def level (counter : Counter) (updates : List AtomicUpdate) : Nat :=
  counter.sumUp ((updates.filter (·.counter = counter)).map (·.amount.toNat))

theorem level_append (left right : List AtomicUpdate) :
    counter.level (left ++ right) = counter.combine (counter.level left) (counter.level right) := by
  rw [level, List.filter_append, List.map_append, sumUp_append]
  rfl

theorem level_singleton (update : AtomicUpdate) :
    counter.level [update] = if update.counter = counter then update.amount.toNat else 0 := by
  by_cases hcounter : update.counter = counter
  · rw [if_pos hcounter, level, List.filter_singleton, decide_eq_true hcounter]
    show counter.combine 0 update.amount.toNat = update.amount.toNat
    rw [combine_comm, combine_zero]
  · rw [if_neg hcounter, level, List.filter_singleton, decide_eq_false hcounter]
    rfl

theorem level_perm {left right : List AtomicUpdate} (h : left.Perm right) :
    counter.level left = counter.level right := sumUp_perm ((h.filter _).map _)

theorem level_mono {left right : List AtomicUpdate} (h : (↑left : Multiset AtomicUpdate) ≤ ↑right) :
    counter.level left ≤ counter.level right := by
  obtain ⟨others, hright⟩ := Multiset.le_iff_exists_add.mp h
  rw [← others.coe_toList, Multiset.coe_add, Multiset.coe_eq_coe] at hright
  rw [level_perm hright, level_append]
  exact le_combine_left _ _

end Counter

/-- The observations of a process whose counters do not wrap around. -/
def Fits (observations : List Observation) : Prop :=
  ∀ counter : Counter, counter.total observations < 2 ^ 64

def updatesOf (observations : List Observation) : List AtomicUpdate :=
  observations.flatMap QueryObserver.recordUpdates

section Totals

variable {counter : Counter} {observations : List Observation}

theorem amounts_updatesOf :
    ((updatesOf observations).filter (·.counter = counter)).map (·.amount.toNat) =
      observations.map fun observation => (saturate (counter.amountOf observation)).toNat := by
  induction observations with
  | nil => rfl
  | cons observation observations ih =>
      rw [updatesOf, List.flatMap_cons, List.filter_append, List.map_append, List.map_cons]
      rw [updatesOf] at ih
      rw [ih, ← List.singleton_append]
      congr 1
      cases counter <;> rfl

/-- Recordings come to what their observations come to. -/
theorem level_updatesOf (hfits : Fits observations) :
    counter.level (updatesOf observations) = counter.total observations := by
  rw [Counter.level, amounts_updatesOf, Counter.total]
  congr 1
  refine List.map_congr_left fun observation hmem => ?_
  have hle : counter.amountOf observation ≤ counter.total observations :=
    Counter.le_sumUp_of_mem (List.mem_map_of_mem hmem)
  have hlt := hfits counter
  rw [toNat_saturate]
  omega

theorem level_maxLatencyNs_lt (updates : List AtomicUpdate) :
    Counter.level .maxLatencyNs updates < 2 ^ 64 := by
  induction updates using List.reverseRecOn with
  | nil => decide
  | append_singleton updates update ih =>
      rw [Counter.level_append]
      refine max_lt ih ?_
      rw [Counter.level_singleton]
      split
      · exact update.amount.toNat_lt
      · decide

theorem toNat_fetch {value amount : UInt64} {level : Nat} (hvalue : value.toNat = level % 2 ^ 64)
    (hmax : counter = .maxLatencyNs → level < 2 ^ 64) :
    (QueryObserver.fetch counter value amount).toNat =
      counter.combine level amount.toNat % 2 ^ 64 := by
  have hamount := amount.toNat_lt
  cases counter with
  | maxLatencyNs =>
      show (max value amount).toNat = max level amount.toNat % 2 ^ 64
      rw [Nat.mod_eq_of_lt (hmax rfl)] at hvalue
      rw [Nat.mod_eq_of_lt (max_lt (hmax rfl) hamount), ← hvalue]
      rcases le_total value amount with hle | hle
      · rw [max_eq_right hle, max_eq_right (UInt64.le_iff_toNat_le.mp hle)]
      · rw [max_eq_left hle, max_eq_left (UInt64.le_iff_toNat_le.mp hle)]
  | _ =>
      show (value + amount).toNat = (level + amount.toNat) % 2 ^ 64
      rw [UInt64.toNat_add, hvalue, Nat.mod_add_mod]

/-- A counter holds what the updates that were made come to, modulo its width. -/
theorem toNat_performed (updates : List AtomicUpdate) :
    ((updates.foldl (fun observer update => QueryObserver.perform update observer)
      QueryObserver.default) counter).toNat = counter.level updates % 2 ^ 64 := by
  induction updates using List.reverseRecOn with
  | nil => cases counter <;> rfl
  | append_singleton updates update ih =>
      rw [List.foldl_append, List.foldl_cons, List.foldl_nil, QueryObserver.perform,
        Counter.level_append, Counter.level_singleton]
      by_cases hcounter : update.counter = counter
      · subst hcounter
        rw [Function.update_self, if_pos rfl]
        exact toNat_fetch ih fun hmax => hmax ▸ level_maxLatencyNs_lt updates
      · rw [Function.update_of_ne (Ne.symm hcounter), if_neg hcounter, Counter.combine_zero]
        exact ih

/-- Updates commute: those of one counter do, and those of two have nothing to do with each
other. -/
theorem perform_comm (first second : AtomicUpdate) (observer : QueryObserver) :
    QueryObserver.perform first (QueryObserver.perform second observer) =
      QueryObserver.perform second (QueryObserver.perform first observer) := by
  obtain ⟨counter, amount⟩ := first
  obtain ⟨other, amount'⟩ := second
  by_cases hcounter : counter = other
  · subst hcounter
    simp only [QueryObserver.perform, Function.update_self, Function.update_idem]
    congr 1
    cases counter with
    | maxLatencyNs => exact max_right_comm _ _ _
    | _ => exact add_right_comm _ _ _
  · simp only [QueryObserver.perform, Function.update_of_ne hcounter,
      Function.update_of_ne (Ne.symm hcounter)]
    exact (Function.update_comm hcounter _ _ _).symm

theorem foldl_recordUpdates (observer : QueryObserver) :
    (updatesOf observations).foldl (fun observer update => QueryObserver.perform update observer)
      observer = observations.foldl QueryObserver.record observer := by
  rw [updatesOf, List.foldl_flatMap]
  rfl

/-- Without wraparound, counters that hold the totals show what `QueryMetrics` counts. -/
theorem snapshot_eq_totals {loaded : Counter → UInt64}
    (hloaded : ∀ counter, (loaded counter).toNat = counter.total observations) :
    QueryObserver.snapshot loaded = QueryMetrics.totals observations := by
  have hsaturate : ∀ counter, loaded counter = saturate (counter.total observations) := by
    intro counter
    have hlt := (loaded counter).toNat_lt
    rw [← UInt64.toNat_inj, toNat_saturate, ← hloaded]
    omega
  have hsum : ∀ amounts : List Nat, amounts.foldl (· + ·) 0 = amounts.sum := fun amounts =>
    (List.sum_eq_foldl).symm
  have hone : (observations.map fun _ => 1).sum = observations.length := by
    rw [List.map_const', List.sum_replicate_nat, Nat.mul_one]
  rw [QueryObserver.snapshot, QueryMetrics.totals, ← hone]
  simp only [hsaturate, Counter.total, Counter.sumUp, Counter.combine, Counter.amountOf, hsum]

end Totals

/-! ## Recording concurrently -/

/-- Queries record observations concurrently. -/
def Recording (observations : List Observation) (pool pool' : Pool QueryObserver AtomicUpdate) :
    Prop :=
  Pool.Run QueryObserver.perform ↑(updatesOf observations) pool pool'

section Recordings

variable {earlier meanwhile : List Observation} {begun : Pool QueryObserver AtomicUpdate}

/-- What the counters hold when recordings have been made, and others after them. -/
theorem Recording.exists_made {first : List Observation} {pool : Pool QueryObserver AtomicUpdate}
    (hbegun : Recording earlier ⟨QueryObserver.default, 0⟩ begun) (hrun : Recording first begun pool) :
    ∃ made later : List AtomicUpdate,
      (↑(updatesOf earlier) : Multiset AtomicUpdate) = ↑made + begun.pending ∧
      begun.pending + ↑(updatesOf first) = ↑later + pool.pending ∧
      ∀ counter, (pool.state counter).toNat = Counter.level counter (made ++ later) % 2 ^ 64 := by
  obtain ⟨made, hmade, hbegunState⟩ := hbegun.exists_order
  obtain ⟨later, hlater, hstate⟩ := hrun.exists_order
  rw [zero_add] at hmade
  refine ⟨made, later, hmade, hlater, fun counter => ?_⟩
  rw [hstate, hbegunState, ← List.foldl_append]
  exact toNat_performed (made ++ later)

theorem Fits.of_le {observations others : List Observation} (hfits : Fits others)
    (hle : ∀ counter : Counter, counter.total observations ≤ counter.total others) :
    Fits observations := fun counter => lt_of_le_of_lt (hle counter) (hfits counter)

theorem updatesOf_append (left right : List Observation) :
    updatesOf (left ++ right) = updatesOf left ++ updatesOf right := List.flatMap_append

theorem updatesOf_perm {left right : List Observation} (h : left.Perm right) :
    (updatesOf left).Perm (updatesOf right) := h.flatMap_right _

/-- A counter that is loaded while recordings are under way. -/
theorem Recording.loaded_between {first complete running : List Observation}
    {pool : Pool QueryObserver AtomicUpdate} (hfits : Fits (earlier ++ first))
    (hbegun : Recording earlier ⟨QueryObserver.default, 0⟩ begun) (hrun : Recording first begun pool)
    (hearlier : earlier.Perm (complete ++ running)) (hrunning : begun.pending ≤ ↑(updatesOf running))
    (counter : Counter) :
    counter.total complete ≤ (pool.state counter).toNat ∧
      (pool.state counter).toNat ≤ counter.total (earlier ++ first) := by
  obtain ⟨made, later, hmade, hlater, hstate⟩ := Recording.exists_made hbegun hrun
  have hall : counter.level (made ++ later) ≤ counter.total (earlier ++ first) := by
    rw [← level_updatesOf hfits]
    refine Counter.level_mono (Multiset.le_iff_exists_add.mpr ⟨pool.pending, ?_⟩)
    rw [updatesOf_append, ← Multiset.coe_add, ← Multiset.coe_add, hmade, add_assoc, add_assoc,
      hlater]
  have hcomplete : counter.total complete ≤ counter.level (made ++ later) := by
    have hfitsComplete : Fits complete := hfits.of_le fun counter => by
      rw [Counter.total_append, Counter.total_perm hearlier, Counter.total_append]
      exact (Counter.le_combine_left _ _).trans (Counter.le_combine_left _ _)
    rw [← level_updatesOf hfitsComplete]
    obtain ⟨others, hothers⟩ := Multiset.le_iff_exists_add.mp hrunning
    have hmade' : (↑made : Multiset AtomicUpdate) = ↑(updatesOf complete) + others := by
      refine @add_right_cancel _ _ _ _ begun.pending _ ?_
      rw [← hmade, Multiset.coe_eq_coe.mpr (updatesOf_perm hearlier), updatesOf_append,
        ← Multiset.coe_add, hothers, add_assoc, add_comm others]
    refine Counter.level_mono (Multiset.le_iff_exists_add.mpr ⟨others + ↑later, ?_⟩)
    rw [← Multiset.coe_add, hmade', add_assoc]
  rw [hstate, Nat.mod_eq_of_lt (lt_of_le_of_lt hall (hfits counter))]
  exact ⟨hcomplete, hall⟩

/-- Counters that are loaded while no recording is under way. -/
theorem Recording.snapshot_eq_totals (hfits : Fits earlier)
    (hbegun : Recording earlier ⟨QueryObserver.default, 0⟩ begun) (hdone : begun.pending = 0)
    {loadedAt : Counter → Pool QueryObserver AtomicUpdate}
    (hloaded : ∀ counter, Recording [] begun (loadedAt counter)) :
    QueryObserver.snapshot (fun counter => (loadedAt counter).state counter) =
      QueryMetrics.totals earlier := by
  refine Index.snapshot_eq_totals fun counter => ?_
  have hfits' : Fits (earlier ++ []) := by rwa [List.append_nil]
  obtain ⟨hlower, hupper⟩ := hbegun.loaded_between hfits' (hloaded counter)
    (List.Perm.of_eq (List.append_nil earlier).symm) (hdone ▸ Multiset.zero_le _) counter
  rw [List.append_nil] at hupper
  exact le_antisymm hupper hlower

/-- No update is lost, and a snapshot is bounded by what it follows and what it precedes. Recordings
that were made earlier have begun when the snapshot begins, and others begin meanwhile; every
counter is loaded at a moment of its own. When no recording is under way, the counters hold what
recording one observation after another gives. While nothing wraps around, a snapshot counts every
recording that was complete when it began, and no more than those that had begun when it ended; and
without recordings meanwhile or under way it is exact. -/
theorem snapshot_exact (hbegun : Recording earlier ⟨QueryObserver.default, 0⟩ begun)
    {loadedAt : Counter → Pool QueryObserver AtomicUpdate}
    (hloaded : ∀ counter, ∃ first rest, Recording first begun (loadedAt counter) ∧
      (first ++ rest).Perm meanwhile) :
    (begun.pending = 0 → begun.state = earlier.foldl QueryObserver.record QueryObserver.default) ∧
    (Fits (earlier ++ meanwhile) →
      (∀ complete running, earlier.Perm (complete ++ running) →
        begun.pending ≤ ↑(updatesOf running) → ∀ counter,
          counter.total complete ≤ ((loadedAt counter).state counter).toNat ∧
          ((loadedAt counter).state counter).toNat ≤ counter.total (earlier ++ meanwhile)) ∧
      (begun.pending = 0 → meanwhile = [] →
        QueryObserver.snapshot (fun counter => (loadedAt counter).state counter) =
          QueryMetrics.totals earlier)) := by
  have hbetween : Fits (earlier ++ meanwhile) → ∀ complete running,
      earlier.Perm (complete ++ running) → begun.pending ≤ ↑(updatesOf running) → ∀ counter,
      counter.total complete ≤ ((loadedAt counter).state counter).toNat ∧
        ((loadedAt counter).state counter).toNat ≤ counter.total (earlier ++ meanwhile) := by
    intro hfits complete running hearlier hrunning counter
    obtain ⟨first, rest, hrun, hmeanwhile⟩ := hloaded counter
    have hle : ∀ counter : Counter,
        counter.total (earlier ++ first) ≤ counter.total (earlier ++ meanwhile) := by
      intro counter
      rw [← Counter.total_perm (hmeanwhile.append_left earlier), ← List.append_assoc,
        Counter.total_append (earlier ++ first)]
      exact Counter.le_combine_left _ _
    obtain ⟨hlower, hupper⟩ :=
      hbegun.loaded_between (hfits.of_le hle) hrun hearlier hrunning counter
    exact ⟨hlower, hupper.trans (hle counter)⟩
  refine ⟨fun hdone => ?_, fun hfits => ⟨hbetween hfits, fun hdone hnone => ?_⟩⟩
  · rw [hbegun.state_eq perform_comm hdone (zero_add _), foldl_recordUpdates]
  · subst hnone
    rw [List.append_nil] at hfits
    refine hbegun.snapshot_eq_totals hfits hdone fun counter => ?_
    obtain ⟨first, rest, hrun, hmeanwhile⟩ := hloaded counter
    obtain ⟨rfl, _⟩ := List.append_eq_nil_iff.mp (List.perm_nil.mp hmeanwhile)
    exact hrun

end Recordings

/-- One recording is complete, and of another only the first update is made. -/
def sampleObservations : List Observation := [⟨1, 3, 8, 40⟩, ⟨2, 1, 16, 25⟩]

def sampleBegun : Pool QueryObserver AtomicUpdate where
  state := ((updatesOf sampleObservations).take 7).foldl
    (fun observer update => QueryObserver.perform update observer) QueryObserver.default
  pending := ↑((updatesOf sampleObservations).drop 7)

theorem recording_sampleBegun : Recording sampleObservations ⟨QueryObserver.default, 0⟩ sampleBegun := by
  have hstarted : Recording sampleObservations ⟨QueryObserver.default, 0⟩
      ⟨QueryObserver.default, ↑(updatesOf sampleObservations)⟩ := Pool.Run.begin_all _ _
  rw [← List.take_append_drop 7 (updatesOf sampleObservations), ← Multiset.coe_add] at hstarted
  exact hstarted.perform_all

/-- The theorem at a snapshot between a complete recording and one under way. -/
theorem snapshot_exact_under_way :
    sampleBegun.pending ≠ 0 ∧ ∀ counter : Counter,
      counter.total (sampleObservations.take 1) ≤ (sampleBegun.state counter).toNat ∧
        (sampleBegun.state counter).toNat ≤ counter.total sampleObservations := by
  have hexact := snapshot_exact recording_sampleBegun fun _ =>
    ⟨[], [], .refl sampleBegun, List.Perm.refl []⟩
  refine ⟨by decide, (hexact.2 ?_).1 (sampleObservations.take 1) (sampleObservations.drop 1) ?_ ?_⟩
  · intro counter
    cases counter <;> decide
  · rw [List.take_append_drop]
  · decide

/-! ## What queries record -/

section Queries

variable {scheme : SignatureScheme} {index : LshIndex scheme} {rows : Rows}

namespace LshIndex

/-- What `query` records when it answers. -/
def queryObservation (index : LshIndex scheme) (output : List UInt64) (elapsed : Nat) :
    Observation where
  queries := 1
  candidates := output.length
  possibleCandidates := index.len
  elapsed := elapsed

/-- What `query_many` records when it answers; it counts with `usize`, saturating. -/
def queryManyObservation (index : LshIndex scheme) (output : List (List UInt64)) (elapsed : Nat) :
    Observation where
  queries := output.length
  candidates :=
    (output.foldl (fun count keys => saturatingAdd count (saturate keys.length)) 0).toNat
  possibleCandidates := (saturate (output.length * index.len)).toNat
  elapsed := elapsed

/-- The observations that queries of an index record. -/
inductive Records (index : LshIndex scheme) : Observation → Prop
  | query {sketch : MinHash scheme} {output : List UInt64} (elapsed : Nat)
      (hquery : index.query sketch = .ok output) :
      Records index (index.queryObservation output elapsed)
  | queryMany {sketches : List (MinHash scheme)} {output : List (List UInt64)} (elapsed : Nat)
      (hquery : index.queryMany sketches = .ok output) :
      Records index (index.queryManyObservation output elapsed)

/-- A query finds no more than the live items. -/
theorem Holds.length_query (h : index.Holds rows) {sketch : MinHash scheme} {output : List UInt64}
    (hquery : index.query sketch = .ok output) : output.length ≤ index.len := by
  have hcompatible : index.config.Compatible sketch := by
    have hbind := hquery
    rw [LshIndex.query, bind_eq_ok_iff] at hbind
    obtain ⟨result, hresult, _⟩ := hbind
    exact ensureCompatible_eq_ok_iff.mp hresult
  obtain ⟨keys, hkeys, hsorted, hmem⟩ := h.query hcompatible
  obtain rfl : keys = output := Except.ok.inj (hkeys.symm.trans hquery)
  have hsubset : keys ⊆ index.data.keyToId.keys := by
    intro key hkey
    obtain ⟨row, hrow, _⟩ := (hmem key).mp hkey
    have hlive : index.data.keyToId[key]? ≠ none := fun hnone => by
      rw [(IndexData.Holds.rows_eq_none_iff h).mpr hnone] at hrow
      cases hrow
    rw [← Std.ExtTreeMap.map_fst_toList_eq_keys, mem_keys_iff]
    exact Option.ne_none_iff_exists'.mp hlive
  rw [LshIndex.len, ← Std.ExtTreeMap.length_keys]
  exact (hsorted.nodup.subperm hsubset).length_le

theorem Records.candidates_le (h : index.Holds rows) {observation : Observation}
    (hrecords : index.Records observation) :
    observation.candidates ≤ observation.possibleCandidates := by
  cases hrecords with
  | query elapsed hquery => exact h.length_query hquery
  | @queryMany sketches output elapsed hquery =>
      rw [LshIndex.queryMany, mapM_eq_ok_iff] at hquery
      have hfound : ∀ keys ∈ output, keys.length ≤ index.len := by
        intro keys hkeys
        obtain ⟨sketch, _, hsketch⟩ := exists_left_of_forall₂ hquery hkeys
        exact h.length_query hsketch
      rw [queryManyObservation, foldl_saturatingAdd_lengths, Nat.mul_comm]
      exact UInt64.le_iff_toNat_le.mp (saturate_mono (sum_lengths_le hfound))

end LshIndex

/-- When no recording is under way, no more candidates are counted than were possible. -/
theorem snapshot_candidates_le {earlier : List Observation} {pool : Pool QueryObserver AtomicUpdate}
    (hbegun : Recording earlier ⟨QueryObserver.default, 0⟩ pool) (hdone : pool.pending = 0)
    (hfits : Fits earlier)
    (hrecords : ∀ observation ∈ earlier, ∃ (index : LshIndex scheme) (live : LiveItems scheme),
      Reachable index live ∧ index.Records observation) :
    (QueryObserver.snapshot pool.state).candidates ≤
      (QueryObserver.snapshot pool.state).possibleCandidates := by
  have hsnapshot := hbegun.snapshot_eq_totals hfits hdone fun _ => Pool.Run.refl pool
  rw [hsnapshot]
  refine saturate_mono (List.sum_le_sum fun observation hmem => ?_)
  obtain ⟨index, live, hreachable, hobservation⟩ := hrecords observation hmem
  exact hobservation.candidates_le hreachable.holds

end Queries
end Pari.Index
