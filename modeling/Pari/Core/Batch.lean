/-
# Batches of sketches

A batch is split into chunks for a bounded number of workers, each of which builds the sketches of
its rows from a copy of one template. The chunks come back in order, so the batch is the list of the
sketches its rows have alone, whatever the thread setting and the machine. The parallelism the
process sees and the worker pool are parameters.
-/

import Mathlib.Algebra.Order.Floor.Div
import Mathlib.Data.PNat.Basic
import Pari.Core.Absorbing

namespace Pari.Core

open Data Pari.Format

/-- Small batches stay sequential. -/
def parallelBatchMinRows : Nat := 256

def autoBatchMaxThreads : Nat := 8

/-- Maximum CPU parallelism for ordered batch construction. -/
inductive BatchThreads
  | auto
  | sequential
  | max (threads : ℕ+)
  deriving DecidableEq

/-- `thread::available_parallelism().map_or(1, NonZeroUsize::get)` -/
def availableThreads (parallelism : Option ℕ+) : Nat := parallelism.elim 1 PNat.val

def BatchThreads.effectiveThreads (parallelism : Option ℕ+) (threads : BatchThreads) (rows : Nat) :
    Nat :=
  if rows < parallelBatchMinRows ∨ threads = .sequential then 1
  else
    let available := availableThreads parallelism
    let requested := match threads with
      | .auto => min available autoBatchMaxThreads
      | .sequential => 1
      | .max threads => threads.val
    Max.max (min (min requested available) rows) 1

section Batches

variable {scheme : SignatureScheme} {ρ : Type}

/-- `from_batch_with`. The pool hands chunks to its workers and collects their results in order. -/
def StoredSketch.fromBatchWith (parallelism : Option ℕ+) (batchPool : Nat → Except MinHashError Unit)
    (update : StoredSketch scheme → ρ → StoredSketch scheme) (rows : List ρ) (numPerm : Nat)
    (seed : UInt64) (threads : BatchThreads) : Except MinHashError (List (StoredSketch scheme)) := do
  let template ← StoredSketch.new scheme numPerm seed
  let build := fun row => update template row
  let effectiveThreads := threads.effectiveThreads parallelism rows.length
  if effectiveThreads = 1 then return rows.map build
  let chunkSize := rows.length ⌈/⌉ effectiveThreads
  batchPool effectiveThreads
  let chunks := (bufferedChunks chunkSize rows).map fun chunk => chunk.map build
  return chunks.flatten

variable {parallelism : Option ℕ+} {threads : BatchThreads} {rows : List ρ}

/-- More than one worker is used for at least so many rows. -/
theorem BatchThreads.effectiveThreads_of_ne_one {count : Nat}
    (h : threads.effectiveThreads parallelism count ≠ 1) :
    1 < threads.effectiveThreads parallelism count ∧ parallelBatchMinRows ≤ count := by
  rw [effectiveThreads] at h ⊢
  split at h
  · exact absurd rfl h
  · next hlarge =>
      rw [if_neg hlarge]
      rw [not_or, not_lt] at hlarge
      dsimp only at h ⊢
      omega

/-- Chunks of the size that is used are never empty, no more than the workers, and together the
rows. -/
theorem chunks_spec {workers : Nat} (hworkers : 0 < workers) (hrows : 0 < rows.length) :
    0 < rows.length ⌈/⌉ workers ∧
      (bufferedChunks (rows.length ⌈/⌉ workers) rows).length ≤ workers ∧
      (bufferedChunks (rows.length ⌈/⌉ workers) rows).flatten = rows := by
  have hsize : 0 < rows.length ⌈/⌉ workers := by
    rw [Nat.pos_iff_ne_zero, Ne, ← Nat.le_zero, ceilDiv_le_iff_le_mul hworkers, Nat.mul_zero]
    omega
  have hcover : rows.length ≤ workers * (rows.length ⌈/⌉ workers) :=
    (ceilDiv_le_iff_le_mul hworkers).mp le_rfl
  refine ⟨hsize, ?_, bufferedChunks_flatten rows hsize⟩
  rw [bufferedChunks, List.length_map, List.length_range, ← Nat.ceilDiv_eq_add_pred_div,
    ceilDiv_le_iff_le_mul hsize, Nat.mul_comm]
  exact hcover

/-- A batch has the sketches its rows have alone, in their order, however many threads share them;
the chunks the threads take are as many as the threads at most, none has size zero, and together
they are the rows. -/
theorem fromBatchWith_eq_map {batchPool : Nat → Except MinHashError Unit}
    (hpool : ∀ workers, batchPool workers = .ok ())
    (update : StoredSketch scheme → ρ → StoredSketch scheme) (rows : List ρ) (numPerm : Nat)
    (seed : UInt64) (threads : BatchThreads) (parallelism : Option ℕ+) :
    StoredSketch.fromBatchWith parallelism batchPool update rows numPerm seed threads =
        (StoredSketch.new scheme numPerm seed).map (fun sketch => rows.map (update sketch)) ∧
      (threads.effectiveThreads parallelism rows.length ≠ 1 →
        0 < rows.length ⌈/⌉ threads.effectiveThreads parallelism rows.length ∧
        (bufferedChunks (rows.length ⌈/⌉ threads.effectiveThreads parallelism rows.length)
          rows).length ≤ threads.effectiveThreads parallelism rows.length ∧
        (bufferedChunks (rows.length ⌈/⌉ threads.effectiveThreads parallelism rows.length)
          rows).flatten = rows) := by
  have hchunks : threads.effectiveThreads parallelism rows.length ≠ 1 → _ := fun h => by
    obtain ⟨hworkers, hrows⟩ := BatchThreads.effectiveThreads_of_ne_one h
    have hlarge : 0 < parallelBatchMinRows := by decide
    exact @chunks_spec _ rows (threads.effectiveThreads parallelism rows.length) (by omega)
      (by omega)
  refine ⟨?_, hchunks⟩
  rw [StoredSketch.fromBatchWith]
  cases StoredSketch.new scheme numPerm seed with
  | error error => rfl
  | ok template =>
      rw [ok_bind, Except.map]
      dsimp only
      split
      · rfl
      · next hmany =>
          rw [hpool, ok_bind, ← List.map_flatten, (hchunks hmany).2.2]
          rfl

end Batches

/-- Three hundred rows on a machine that shows four processors. -/
theorem fromBatchWith_eq_map_three_hundred_rows :
    @StoredSketch.fromBatchWith .pariAffine32V1 UInt32 (some 4) (fun _ => .ok ())
        (fun sketch hash => sketch.updateHashed hash) (List.replicate 300 5) 2 7 .auto =
      (StoredSketch.new .pariAffine32V1 2 7).map fun sketch =>
        (List.replicate 300 5).map fun hash : UInt32 => sketch.updateHashed hash :=
  (@fromBatchWith_eq_map .pariAffine32V1 UInt32 (fun _ => .ok ()) (fun _ => rfl)
    (fun sketch hash => sketch.updateHashed hash) (List.replicate 300 5) 2 7 .auto (some 4)).1

end Pari.Core
