/-
# Updates in any order

Threads update a shared state. What each of them has begun and not yet made is pending, and any
pending update may be the next, so the updates of one thread may be made in any order too, as
relaxed atomic operations may. A run makes what has begun except for what is left pending; where
updates commute, the state depends on nothing else.
-/

import Mathlib.Algebra.Order.Group.Multiset

namespace Data

universe u v

variable {σ : Type u} {α : Type v}

/-- A shared state, and the updates that have begun and are still to be made. -/
structure Pool (σ : Type u) (α : Type v) where
  state : σ
  pending : Multiset α

/-- A run, with the updates that begin in it. -/
inductive Pool.Run (perform : α → σ → σ) : Multiset α → Pool σ α → Pool σ α → Prop
  | refl (pool : Pool σ α) : Run perform 0 pool pool
  | begin {started : Multiset α} {pool : Pool σ α} {state : σ} {pending : Multiset α}
      (hrun : Run perform started pool ⟨state, pending⟩) (more : Multiset α) :
      Run perform (started + more) pool ⟨state, pending + more⟩
  | perform {started : Multiset α} {pool : Pool σ α} {state : σ} {pending : Multiset α} {update : α}
      (hrun : Run perform started pool ⟨state, update ::ₘ pending⟩) :
      Run perform started pool ⟨perform update state, pending⟩

section Runs

variable {perform : α → σ → σ} {started : Multiset α} {pool pool' : Pool σ α}

theorem Pool.Run.begin_all (state : σ) (updates : Multiset α) :
    Run perform updates ⟨state, 0⟩ ⟨state, updates⟩ := by
  have h : Run perform (0 + updates) ⟨state, 0⟩ ⟨state, 0 + updates⟩ := (Run.refl ⟨state, 0⟩).begin updates
  rwa [zero_add] at h

/-- Pending updates may be made one after the other. -/
theorem Pool.Run.perform_all {state : σ} {pending : Multiset α} {order : List α}
    (h : Run perform started pool ⟨state, ↑order + pending⟩) :
    Run perform started pool
      ⟨order.foldl (fun state update => perform update state) state, pending⟩ := by
  induction order generalizing state with
  | nil =>
      rw [Multiset.coe_nil, zero_add] at h
      exact h
  | cons update order ih =>
      rw [← Multiset.cons_coe, Multiset.cons_add] at h
      exact ih h.perform

/-- What is made in a run is what was pending or has begun, except for what is pending at its end,
and it is made in some order. -/
theorem Pool.Run.exists_order (h : Run perform started pool pool') :
    ∃ order : List α, pool.pending + started = ↑order + pool'.pending ∧
      pool'.state = order.foldl (fun state update => perform update state) pool.state := by
  induction h with
  | refl pool => exact ⟨[], by simp, rfl⟩
  | begin _ more ih =>
      obtain ⟨order, hmade, hstate⟩ := ih
      refine ⟨order, ?_, hstate⟩
      rw [← add_assoc, hmade, add_assoc]
  | @perform _ _ state pending update _ ih =>
      obtain ⟨order, hmade, hstate⟩ := ih
      refine ⟨order ++ [update], ?_, ?_⟩
      · rw [hmade, ← Multiset.coe_add, Multiset.coe_singleton, add_assoc, Multiset.singleton_add]
      · rw [List.foldl_append, ← hstate]
        rfl

/-- Where updates commute, a run that leaves nothing pending leaves the state that making the
updates in any one order leaves. -/
theorem Pool.Run.state_eq (h : Run perform started pool pool')
    (hcommute : ∀ first second state,
      perform first (perform second state) = perform second (perform first state))
    (hdone : pool'.pending = 0) {order : List α} (horder : pool.pending + started = ↑order) :
    pool'.state = order.foldl (fun state update => perform update state) pool.state := by
  obtain ⟨made, hmade, hstate⟩ := h.exists_order
  rw [hdone, add_zero, horder] at hmade
  rw [hstate]
  exact (Multiset.coe_eq_coe.mp hmade.symm).foldl_eq'
    (fun first _ second _ state => hcommute second first state) _

end Runs

end Data
