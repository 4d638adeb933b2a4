/-
# The index over the memory backend

Any sequence of operations on an index over the memory backend is answered as the same
sequence on an in-memory index with the same parameters: both are determined by the rows they
hold. The in-memory index allocates identifiers, so the sequences are those that insert fewer
items than it has identifiers for.
-/

import Pari.Backend.LawfulIndex
import Pari.Backend.Memory
import Pari.Index.Reachable

namespace Pari.Backend

open Data Data.Method Pari.Format Pari.Core Pari.Index

/-! ## Operations -/

abbrev LshIndex32 := LshIndex .pariAffine32V1

/-- The batch operations, and the single ones that are not batches of one. -/
inductive Operation
  | insertMany (items : List (UInt64 × MinHash32))
  | remove (key : UInt64)
  | removeMany (keys : List UInt64)
  | containsMany (keys : List UInt64)
  | query (sketch : MinHash32)
  | queryMany (sketches : List MinHash32)

inductive Answer
  | inserted
  | removed (existed : Bool)
  | removedMany (count : Nat)
  | present (flags : List Bool)
  | candidates (keys : List UInt64)
  | candidateLists (answers : List (List UInt64))
  deriving DecidableEq

/-- The operation on an index over a backend. -/
def Operation.run {β : Type} [StorageBackend β] : Operation → IndexMethod β Answer
  | .insertMany items => do
      BackendIndex32.insertMany items
      pure .inserted
  | .remove key => do
      let existed ← BackendIndex32.remove key
      pure (.removed existed)
  | .removeMany keys => do
      let count ← BackendIndex32.removeMany keys
      pure (.removedMany count)
  | .containsMany keys => do
      let flags ← BackendIndex32.containsMany keys
      pure (.present flags)
  | .query sketch => do
      let keys ← BackendIndex32.query sketch
      pure (.candidates keys)
  | .queryMany sketches => do
      let answers ← BackendIndex32.queryMany sketches
      pure (.candidateLists answers)

/-- Remove keys from an in-memory index one by one, counting those that existed. -/
def removeEach (reference : LshIndex32) : List UInt64 → Nat × LshIndex32
  | [] => (0, reference)
  | key :: keys =>
      let (existed, reference) := reference.remove key
      let (count, reference) := removeEach reference keys
      ((if existed then 1 else 0) + count, reference)

/-- The same operation on an in-memory index. -/
def Operation.runReference (reference : LshIndex32) :
    Operation → Except LshError Answer × LshIndex32
  | .insertMany items =>
      ((reference.insertMany items).1.map fun _ => .inserted, (reference.insertMany items).2)
  | .remove key => (.ok (.removed (reference.remove key).1), (reference.remove key).2)
  | .removeMany keys =>
      (.ok (.removedMany (removeEach reference keys).1), (removeEach reference keys).2)
  | .containsMany keys => (.ok (.present (keys.map reference.contains)), reference)
  | .query sketch => ((reference.query sketch).map .candidates, reference)
  | .queryMany sketches => ((reference.queryMany sketches).map .candidateLists, reference)

/-- The answers to a sequence of operations. -/
def answers {β : Type} [StorageBackend β] (index : BackendIndex32 β) :
    List Operation → List (Except BackendIndexError Answer)
  | [] => []
  | operation :: operations =>
      (call index operation.run).1 :: answers (call index operation.run).2 operations

/-- The index after a sequence of operations. -/
def after {β : Type} [StorageBackend β] (index : BackendIndex32 β) :
    List Operation → BackendIndex32 β
  | [] => index
  | operation :: operations => after (call index operation.run).2 operations

def referenceAnswers (reference : LshIndex32) : List Operation → List (Except LshError Answer)
  | [] => []
  | operation :: operations =>
      (operation.runReference reference).1 ::
        referenceAnswers (operation.runReference reference).2 operations

/-- The items an operation inserted, by its answer. -/
def Operation.insertions : Operation → Except BackendIndexError Answer → Nat
  | .insertMany items, .ok _ => items.length
  | _, _ => 0

/-- The items a sequence of operations inserts in all. -/
def insertions {β : Type} [StorageBackend β] (index : BackendIndex32 β) : List Operation → Nat
  | [] => 0
  | operation :: operations => operation.insertions (call index operation.run).1 +
      insertions (call index operation.run).2 operations

/-- Both succeed with the same answer, or both fail. -/
def Agree (answer : Except BackendIndexError Answer) (expected : Except LshError Answer) : Prop :=
  ∀ value, answer = .ok value ↔ expected = .ok value

theorem agree_of_ok (value : Answer) : Agree (.ok value) (.ok value) := by
  simp [Agree]

theorem agree_of_error (error : BackendIndexError) (failure : LshError) :
    Agree (.error error) (.error failure) := by
  simp [Agree]

/-! ## The in-memory index -/

section Reference

variable {reference : LshIndex32} {rows : Rows}

theorem contains_of_holds (h : reference.Holds rows) (key : UInt64) :
    reference.contains key = (rows key).isSome := by
  have hnone := @IndexData.Holds.rows_eq_none_iff _ _ _ key h
  rw [LshIndex.contains, ← Std.ExtTreeMap.isSome_getElem?_eq_contains, Bool.eq_iff_iff,
    Option.isSome_iff_ne_none, Option.isSome_iff_ne_none, Ne, Ne, hnone]

theorem idToKey_length_remove (reference : LshIndex32) (key : UInt64) :
    (reference.remove key).2.data.idToKey.length = reference.data.idToKey.length := by
  rw [LshIndex.remove]
  dsimp only
  rw [IndexData.remove]
  split
  · rfl
  · split
    · rfl
    · split
      · rfl
      · exact List.length_set

/-- Removing keys one by one counts and forgets them as the rows say. -/
theorem removeEach_of_holds (h : reference.Holds rows) (keys : List UInt64) :
    (removeEach reference keys).1 = (deleteRows rows keys).1 ∧
      (removeEach reference keys).2.config = reference.config ∧
      (removeEach reference keys).2.data.idToKey.length = reference.data.idToKey.length ∧
      (removeEach reference keys).2.Holds (deleteRows rows keys).2 := by
  induction keys generalizing reference rows with
  | nil => exact ⟨rfl, rfl, rfl, h⟩
  | cons key keys ih =>
      obtain ⟨hexisted, hconfig, hholds⟩ := h.remove key
      obtain ⟨hcount, hconfigs, hlength, hrest⟩ := ih hholds
      refine ⟨?_, hconfigs.trans hconfig, hlength.trans (idToKey_length_remove reference key), hrest⟩
      simp only [removeEach, deleteRows, hexisted, hcount]

/-- A query of the in-memory index finds the keys that share a band with it. -/
theorem query_of_holds (h : reference.Holds rows) {sketch : MinHash32}
    (hsketch : reference.config.Compatible sketch) :
    ∃ keys, reference.query sketch = .ok keys ∧
      Finds rows (computeBandHashes reference.config.params sketch.signature) keys := by
  obtain ⟨keys, hquery, hascending, hmem⟩ := h.query hsketch
  exact ⟨keys, hquery, hascending, hmem⟩

theorem queryMany_of_holds (h : reference.Holds rows) {sketches : List MinHash32}
    (hsketches : ∀ sketch ∈ sketches, reference.config.Compatible sketch) :
    ∃ answers, reference.queryMany sketches = .ok answers ∧
      List.Forall₂ (fun (sketch : MinHash32) keys =>
        Finds rows (computeBandHashes reference.config.params sketch.signature) keys)
        sketches answers := by
  induction sketches with
  | nil => exact ⟨[], rfl, .nil⟩
  | cons sketch sketches ih =>
      rw [List.forall_mem_cons] at hsketches
      obtain ⟨keys, hquery, hkeys⟩ := query_of_holds h hsketches.1
      obtain ⟨answers, hqueries, hanswers⟩ := ih hsketches.2
      refine ⟨keys :: answers, ?_, .cons hkeys hanswers⟩
      rw [LshIndex.queryMany] at hqueries ⊢
      rw [List.mapM_cons, hquery, ok_bind, hqueries]
      rfl

/-- The in-memory index refuses the sketches that do not fit. -/
theorem query_of_not_compatible {sketch : MinHash32}
    (hsketch : ¬ reference.config.Compatible sketch) :
    ∃ failure, reference.query sketch = .error failure := by
  cases hcheck : reference.ensureCompatible sketch with
  | error failure => exact ⟨failure, by rw [LshIndex.query, hcheck, error_bind]⟩
  | ok result => exact absurd (LshIndex.ensureCompatible_eq_ok_iff.mp hcheck) hsketch

theorem queryMany_of_not_compatible (h : reference.Holds rows) {sketches : List MinHash32}
    (hsketches : ¬ ∀ sketch ∈ sketches, reference.config.Compatible sketch) :
    ∃ failure, reference.queryMany sketches = .error failure := by
  cases hqueries : reference.queryMany sketches with
  | error failure => exact ⟨failure, rfl⟩
  | ok answers =>
      refine absurd (fun sketch hmem => ?_) hsketches
      by_contra hcompatible
      obtain ⟨keys, _, hquery⟩ := exists_right_of_forall₂ (mapM_eq_ok_iff.mp hqueries) hmem
      obtain ⟨failure, herror⟩ := query_of_not_compatible hcompatible
      rw [hquery] at herror
      cases herror

end Reference

/-! ## The simulation -/

section Simulation

variable {β : Type} [StorageBackend β] {Keeps : β → IndexDescriptor → Rows → Prop}
  {index : BackendIndex32 β} {reference : LshIndex32} {rows : Rows}

/-- An index over a backend and an in-memory index hold the same rows under the same
configuration. -/
structure Mirrors (Keeps : β → IndexDescriptor → Rows → Prop) (index : BackendIndex32 β)
    (reference : LshIndex32) (rows : Rows) : Prop where
  keeps : index.KeepsRows Keeps rows
  holds : reference.Holds rows
  config : reference.config = index.descriptor.toLshConfig

/-- The sketches that have band hashes are those that fit. -/
theorem not_compatible_of_error {descriptor : IndexDescriptor} {sketches : List MinHash32}
    {error : BackendIndexError} (h : sketches.mapM (sketchHashes descriptor) = .error error) :
    ¬ ∀ sketch ∈ sketches, descriptor.toLshConfig.Compatible sketch := by
  intro hsketches
  have hok : sketches.mapM (sketchHashes descriptor) = .ok (sketches.map fun sketch =>
      computeBandHashes descriptor.params sketch.signature) := by
    refine mapM_eq_ok_map fun sketch hmem => ?_
    rw [sketchHashes, bandHashes_eq_ok_iff.mpr ⟨hsketches sketch hmem, rfl⟩, mapError_ok]
  rw [hok] at h
  cases h

theorem compatible_of_ok {descriptor : IndexDescriptor} {sketches : List MinHash32}
    {hashes : List (List UInt64)} (h : sketches.mapM (sketchHashes descriptor) = .ok hashes) :
    ∀ sketch ∈ sketches, descriptor.toLshConfig.Compatible sketch := by
  intro sketch hmem
  obtain ⟨row, _, hrow⟩ := exists_right_of_forall₂ (mapM_eq_ok_iff.mp h) hmem
  rw [sketchHashes, mapError_eq_ok_iff] at hrow
  exact (bandHashes_eq_ok_iff.mp hrow).1

theorem Mirrors.insertMany (lawful : Lawful Keeps) (h : Mirrors Keeps index reference rows)
    (items : List (UInt64 × MinHash32))
    (hroom : reference.data.idToKey.length + (Operation.insertMany items).insertions
      (call index (Operation.insertMany items).run).1 ≤ 2 ^ 32 - 1) :
    Agree (call index (Operation.insertMany items).run).1
        ((Operation.insertMany items).runReference reference).1 ∧
      ((Operation.insertMany items).runReference reference).2.data.idToKey.length =
        reference.data.idToKey.length + (Operation.insertMany items).insertions
          (call index (Operation.insertMany items).run).1 ∧
      ∃ rows', Mirrors Keeps (call index (Operation.insertMany items).run).2
        ((Operation.insertMany items).runReference reference).2 rows' := by
  by_cases hitems : Acceptable index.descriptor.toLshConfig rows items
  · obtain ⟨backend', hrun, hkeeps⟩ := lawful.insertMany_of_acceptable h.keeps hitems
    have hcall : call index (Operation.insertMany items).run =
        (.ok .inserted, { index with backend := backend' }) := by
      rw [Operation.run, call_bind_ok hrun, call_pure]
    rw [hcall] at hroom ⊢
    have haccepts : reference.Accepts rows items :=
      ⟨hitems.fresh, hitems.distinct, by rw [h.config]; exact hitems.compatible, hroom⟩
    obtain ⟨hconfig, hlength, hholds⟩ := h.holds.insertMany_of_accepts haccepts
    refine ⟨?_, hlength, _, hkeeps, ?_, hconfig.trans h.config⟩
    · rw [Operation.runReference, h.holds.insertMany_ok_iff.mpr haccepts]
      exact agree_of_ok _
    · rw [← h.config]
      exact hholds
  · obtain ⟨error, backend', hrun, hkeeps⟩ := lawful.insertMany_of_not_acceptable h.keeps hitems
    have hcall : call index (Operation.insertMany items).run =
        (.error error, { index with backend := backend' }) := by
      rw [Operation.run, call_bind_error hrun]
    rw [hcall]
    cases hresult : (reference.insertMany items).1 with
    | ok result =>
        have haccepts := h.holds.insertMany_ok_iff.mp hresult
        refine absurd ⟨haccepts.fresh, haccepts.distinct, ?_⟩ hitems
        rw [← h.config]
        exact haccepts.compatible
    | error failure =>
        have hsame := LshIndex.insertMany_of_error hresult
        rw [Operation.runReference, hresult, hsame]
        exact ⟨agree_of_error _ _, rfl, rows, hkeeps, h.holds, h.config⟩

theorem Mirrors.queryMany (lawful : Lawful Keeps) (h : Mirrors Keeps index reference rows)
    (sketches : List MinHash32) :
    ∃ backend', (call index (Operation.queryMany sketches).run).2 =
        { index with backend := backend' } ∧
      Agree (call index (Operation.queryMany sketches).run).1
        ((reference.queryMany sketches).map .candidateLists) ∧
      Keeps backend' index.descriptor rows := by
  cases hhashes : sketches.mapM (sketchHashes index.descriptor) with
  | error error =>
      have hcall : call index (Operation.queryMany sketches).run = (.error error, index) := by
        rw [Operation.run, call_bind_error (queryMany_of_error hhashes)]
      obtain ⟨failure, hreference⟩ := queryMany_of_not_compatible h.holds
        (by rw [h.config]; exact not_compatible_of_error hhashes)
      rw [hcall, hreference]
      exact ⟨index.backend, rfl, agree_of_error _ _, h.keeps⟩
  | ok hashes =>
      have hsketches := compatible_of_ok hhashes
      obtain ⟨found, backend', hrun, hfound, hkeeps⟩ :=
        lawful.queryMany_of_compatible h.keeps hsketches
      have hcall : call index (Operation.queryMany sketches).run =
          (.ok (.candidateLists found), { index with backend := backend' }) := by
        rw [Operation.run, call_bind_ok hrun, call_pure]
      obtain ⟨expected, hreference, hexpected⟩ := queryMany_of_holds h.holds
        (by rw [h.config]; exact hsketches)
      rw [h.config] at hexpected
      rw [hcall, hreference, finds_unique hfound hexpected]
      exact ⟨backend', rfl, agree_of_ok _, hkeeps⟩

theorem Mirrors.query (lawful : Lawful Keeps) (h : Mirrors Keeps index reference rows)
    (sketch : MinHash32) :
    ∃ backend', (call index (Operation.query sketch).run).2 =
        { index with backend := backend' } ∧
      Agree (call index (Operation.query sketch).run).1
        ((reference.query sketch).map .candidates) ∧
      Keeps backend' index.descriptor rows := by
  cases hhashes : sketchHashes index.descriptor sketch with
  | error error =>
      have hcall : call index (Operation.query sketch).run = (.error error, index) := by
        rw [Operation.run, call_bind_error (query_of_error hhashes)]
      have hone : [sketch].mapM (sketchHashes index.descriptor) = .error error := by
        rw [List.mapM_cons, hhashes, error_bind]
      obtain ⟨failure, hreference⟩ := @query_of_not_compatible reference sketch (by
        rw [h.config]
        exact fun hsketch =>
          not_compatible_of_error hone (List.forall_mem_singleton.mpr hsketch))
      rw [hcall, hreference]
      exact ⟨index.backend, rfl, agree_of_error _ _, h.keeps⟩
  | ok hashes =>
      rw [sketchHashes, mapError_eq_ok_iff] at hhashes
      have hsketch := (bandHashes_eq_ok_iff.mp hhashes).1
      obtain ⟨found, backend', hrun, hfound, hkeeps⟩ :=
        lawful.query_of_compatible h.keeps hsketch
      have hcall : call index (Operation.query sketch).run =
          (.ok (.candidates found), { index with backend := backend' }) := by
        rw [Operation.run, call_bind_ok hrun, call_pure]
      obtain ⟨expected, hreference, hexpected⟩ :=
        query_of_holds h.holds (by rw [h.config]; exact hsketch)
      rw [h.config] at hexpected
      rw [hcall, hreference, hfound.unique hexpected]
      exact ⟨backend', rfl, agree_of_ok _, hkeeps⟩

/-- One operation is answered alike, and the two indexes go on mirroring each other. -/
theorem Mirrors.step (lawful : Lawful Keeps) (h : Mirrors Keeps index reference rows)
    (operation : Operation)
    (hroom : reference.data.idToKey.length +
      operation.insertions (call index operation.run).1 ≤ 2 ^ 32 - 1) :
    Agree (call index operation.run).1 (operation.runReference reference).1 ∧
      (operation.runReference reference).2.data.idToKey.length =
        reference.data.idToKey.length + operation.insertions (call index operation.run).1 ∧
      ∃ rows', Mirrors Keeps (call index operation.run).2
        (operation.runReference reference).2 rows' := by
  cases operation with
  | insertMany items => exact h.insertMany lawful items hroom
  | remove key =>
      obtain ⟨backend', hrun, hkeeps⟩ := lawful.remove h.keeps key
      have hcall : call index (Operation.remove key).run =
          (.ok (.removed (rows key).isSome), { index with backend := backend' }) := by
        rw [Operation.run, call_bind_ok hrun, call_pure]
      obtain ⟨hexisted, hconfig, hholds⟩ := h.holds.remove key
      rw [hcall, Operation.runReference, hexisted]
      exact ⟨agree_of_ok _, idToKey_length_remove reference key, _, hkeeps, hholds,
        hconfig.trans h.config⟩
  | removeMany keys =>
      obtain ⟨backend', hrun, hkeeps⟩ := lawful.removeMany h.keeps keys
      have hcall : call index (Operation.removeMany keys).run =
          (.ok (.removedMany (deleteRows rows keys).1), { index with backend := backend' }) := by
        rw [Operation.run, call_bind_ok hrun, call_pure]
      obtain ⟨hcount, hconfig, hlength, hholds⟩ := removeEach_of_holds h.holds keys
      rw [hcall, Operation.runReference, hcount]
      exact ⟨agree_of_ok _, hlength, _, hkeeps, hholds, hconfig.trans h.config⟩
  | containsMany keys =>
      obtain ⟨backend', hrun, hkeeps⟩ := lawful.index_containsMany h.keeps keys
      have hcall : call index (Operation.containsMany keys).run =
          (.ok (.present (keys.map fun key => (rows key).isSome)),
            { index with backend := backend' }) := by
        rw [Operation.run, call_bind_ok hrun, call_pure]
      rw [hcall, Operation.runReference, List.map_congr_left fun key _ =>
        contains_of_holds h.holds key]
      exact ⟨agree_of_ok _, rfl, rows, hkeeps, h.holds, h.config⟩
  | query sketch =>
      obtain ⟨backend', hsame, hagree, hkeeps⟩ := h.query lawful sketch
      rw [hsame]
      exact ⟨hagree, rfl, rows, hkeeps, h.holds, h.config⟩
  | queryMany sketches =>
      obtain ⟨backend', hsame, hagree, hkeeps⟩ := h.queryMany lawful sketches
      rw [hsame]
      exact ⟨hagree, rfl, rows, hkeeps, h.holds, h.config⟩

/-- Every operation of a sequence is answered alike. -/
theorem Mirrors.answers (lawful : Lawful Keeps) (h : Mirrors Keeps index reference rows)
    {operations : List Operation}
    (hroom : reference.data.idToKey.length + insertions index operations ≤ 2 ^ 32 - 1) :
    List.Forall₂ Agree (answers index operations) (referenceAnswers reference operations) ∧
      ∃ reference' rows', Mirrors Keeps (after index operations) reference' rows' := by
  induction operations generalizing index reference rows with
  | nil => exact ⟨.nil, reference, rows, h⟩
  | cons operation operations ih =>
      rw [insertions] at hroom
      obtain ⟨hagree, hlength, rows', hnext⟩ := h.step lawful operation (by omega)
      obtain ⟨hrest, hend⟩ := ih hnext (by omega)
      exact ⟨.cons hagree hrest, hend⟩

end Simulation

/-! ## The memory backend -/

namespace MemoryBackend

/-- What an initialized memory backend keeps. -/
def Keeps (backend : MemoryBackend) (descriptor : IndexDescriptor) (rows : Rows) : Prop :=
  backend.descriptor = some descriptor ∧ backend.Holds descriptor.params.bands rows

theorem lawful : Lawful Keeps where
  width h := h.2.width
  containsMany h keys := ⟨_, h.2.containsMany keys, h⟩
  insertMany h items hbatch := by
    obtain ⟨backend', hrun, hdescriptor, hholds⟩ := h.2.insertMany h.1 hbatch
    exact ⟨backend', hrun, hdescriptor, hholds⟩
  rejected := by
    intro backend descriptor rows h items _ hbatch
    cases hvalid : backend.validateItems descriptor.params.bands ∅ items with
    | ok result => exact absurd (h.2.validateItems_eq_ok_iff.mp hvalid).1 hbatch
    | error error => exact ⟨error, backend, insertMany_of_error h.1 hvalid, h⟩
  queryBuckets := by
    intro backend descriptor rows h buckets
    obtain ⟨members, hrun, hmembers⟩ := h.2.queryBuckets buckets
    exact ⟨members, backend, hrun, hmembers, h⟩
  deleteMany h keys := by
    obtain ⟨backend', hrun, hdescriptor, hholds⟩ := h.2.deleteMany h.1 keys
    exact ⟨backend', hrun, hdescriptor, hholds⟩

end MemoryBackend

section Memory

variable {index : BackendIndex32 MemoryBackend} {rows : Rows}

/-- An index that was created is new, under a validated configuration without retention. -/
theorem createWithParams_of_ok {threshold : F64} {numPerm : Nat} {seed : UInt64}
    {params : LshParams} {retention : Option Duration} {backend : MemoryBackend}
    (h : call MemoryBackend.new (createWithParams threshold numPerm seed params retention) =
      (.ok index, backend)) :
    index.KeepsRows MemoryBackend.Keeps (fun _ => none) ∧
      LshConfig.new threshold numPerm seed params = .ok index.descriptor.toLshConfig := by
  rw [createWithParams] at h
  cases hdescriptor : IndexDescriptor.new threshold numPerm seed params retention with
  | error error =>
      rw [hdescriptor] at h
      cases h
  | ok descriptor =>
      rw [hdescriptor, mapError_ok, call_lift_ok_bind, call_read_bind] at h
      obtain ⟨rfl, rfl, rfl, rfl, rfl⟩ := IndexDescriptor.new_eq_ok_iff.mp hdescriptor
      cases hretention : descriptor.retention with
      | some retention =>
          have hincapable : validateRetentionCapability MemoryBackend.new descriptor =
              .error (.unsupportedCapability .ttl) := by
            rw [validateRetentionCapability, hretention]
            rfl
          rw [hincapable] at h
          cases h
      | none =>
          have hcapable : validateRetentionCapability MemoryBackend.new descriptor = .ok () := by
            rw [validateRetentionCapability, hretention]
            rfl
          have hrun : call MemoryBackend.new (MemoryBackend.initializeNamespace descriptor) =
              (.ok (), { MemoryBackend.new with descriptor := some descriptor }) := by
            rw [MemoryBackend.initializeNamespace, call_read_bind, rejectIf_of_not (by decide),
              call_lift_ok_bind, rejectIf_of_not (by simp [hretention]), call_lift_ok_bind]
            rfl
          have hinitialized : call MemoryBackend.new
              ((StorageBackend.initializeNamespace descriptor).onPart id
                (fun backend _ => backend) BackendIndexError.backend) =
              (.ok (), { MemoryBackend.new with descriptor := some descriptor }) := by
            show ((call MemoryBackend.new (MemoryBackend.initializeNamespace descriptor)).1.mapError
                BackendIndexError.backend,
              (call MemoryBackend.new (MemoryBackend.initializeNamespace descriptor)).2) = _
            rw [hrun]
            rfl
          rw [hcapable, mapError_ok, call_lift_ok_bind, call_bind_ok hinitialized, call_read] at h
          cases h
          exact ⟨⟨rfl, MemoryBackend.Holds.empty _ _⟩,
            LshConfig.new_eq_ok_iff.mpr ⟨rfl, rfl, rfl, rfl⟩⟩

/-- A rejected batch leaves the index as it was. -/
theorem insertMany_same_of_error (h : index.KeepsRows MemoryBackend.Keeps rows)
    {items : List (UInt64 × MinHash32)} {error : BackendIndexError}
    (herror : (call index (BackendIndex32.insertMany items)).1 = .error error) :
    (call index (BackendIndex32.insertMany items)).2 = index := by
  rw [BackendIndex32.insertMany, call_read_bind] at herror ⊢
  cases hprepared : BackendIndex32.prepareItems index.descriptor ∅ items with
  | error failure => rw [call_lift_error_bind]
  | ok stored =>
      rw [hprepared, call_lift_ok_bind, call_onBackend] at herror
      rw [call_lift_ok_bind, call_onBackend]
      cases hvalid : index.backend.validateItems index.descriptor.params.bands ∅ stored with
      | error failure =>
          have hrun := MemoryBackend.insertMany_of_error h.1 hvalid
          show { index with backend := (call index.backend (MemoryBackend.insertMany stored)).2 } = _
          rw [hrun]
      | ok result =>
          obtain ⟨backend', hrun, _⟩ :=
            h.2.insertMany h.1 (h.2.validateItems_eq_ok_iff.mp hvalid).1
          change Except.mapError BackendIndexError.backend
            (call index.backend (MemoryBackend.insertMany stored)).1 = _ at herror
          rw [hrun] at herror
          cases herror

/-- Queries change nothing. -/
theorem queryMany_same (index : BackendIndex32 MemoryBackend) (sketches : List MinHash32) :
    (call index (BackendIndex32.queryMany sketches)).2 = index := by
  rw [BackendIndex32.queryMany, call_read_bind]
  cases BackendIndex32.requestBuckets index.descriptor .empty sketches with
  | error error => rw [call_lift_error_bind]
  | ok requested =>
      obtain ⟨queryPositions, requests⟩ := requested
      rw [call_lift_ok_bind]
      dsimp only
      split
      · rfl
      · have hanswered : call index (BackendIndex32.onBackend
            (StorageBackend.queryBuckets requests.values)) =
            (.ok (requests.values.map (SetTable.members index.backend.buckets)), index) := rfl
        rw [call_bind_ok hanswered, rejectIf_of_not (by simp), call_lift_ok_bind, call_pure]

theorem query_same (index : BackendIndex32 MemoryBackend) (sketch : MinHash32) :
    (call index (BackendIndex32.query sketch)).2 = index := by
  cases hmany : call index (BackendIndex32.queryMany [sketch]) with
  | mk result index' =>
      have hsame := queryMany_same index [sketch]
      rw [hmany] at hsame
      subst hsame
      cases result with
      | error error => rw [BackendIndex32.query, call_bind_error hmany]
      | ok answers => rw [BackendIndex32.query, call_bind_ok hmany, call_pure]

/-- A batch of queries is one query after another. -/
theorem queryMany_eq_mapM (h : index.KeepsRows MemoryBackend.Keeps rows)
    (sketches : List MinHash32) :
    call index (BackendIndex32.queryMany sketches) =
      call index (sketches.mapM BackendIndex32.query) := by
  have hone {sketch : MinHash32}
      (hsketch : index.descriptor.toLshConfig.Compatible sketch) :
      ∃ keys, call index (BackendIndex32.query sketch) = (.ok keys, index) ∧
        Finds rows (computeBandHashes index.descriptor.params sketch.signature) keys := by
    obtain ⟨keys, backend', hrun, hkeys, _⟩ := MemoryBackend.lawful.query_of_compatible h hsketch
    have hanswer : (call index (BackendIndex32.query sketch)).1 = .ok keys := by rw [hrun]
    exact ⟨keys, Prod.ext hanswer (query_same index sketch), hkeys⟩
  cases hhashes : sketches.mapM (sketchHashes index.descriptor) with
  | error error =>
      rw [queryMany_of_error hhashes]
      induction sketches with
      | nil => cases hhashes
      | cons sketch sketches ih =>
          rw [List.mapM_cons] at hhashes ⊢
          cases hsketch : sketchHashes index.descriptor sketch with
          | error failure =>
              rw [hsketch, error_bind] at hhashes
              obtain rfl := Except.error.inj hhashes
              rw [call_bind_error (query_of_error hsketch)]
          | ok hashes =>
              rw [hsketch, ok_bind] at hhashes
              rw [sketchHashes, mapError_eq_ok_iff] at hsketch
              obtain ⟨keys, hrun, _⟩ := hone (bandHashes_eq_ok_iff.mp hsketch).1
              rw [call_bind_ok hrun]
              cases hrest : sketches.mapM (sketchHashes index.descriptor) with
              | error failure =>
                  rw [hrest, error_bind] at hhashes
                  obtain rfl := Except.error.inj hhashes
                  rw [call_bind_error (ih hrest).symm]
              | ok rows =>
                  rw [hrest] at hhashes
                  cases hhashes
  | ok hashes =>
      have hsketches := compatible_of_ok hhashes
      obtain ⟨found, backend', hrun, hfound, _⟩ :=
        MemoryBackend.lawful.queryMany_of_compatible h hsketches
      have hanswer : (call index (BackendIndex32.queryMany sketches)).1 = .ok found := by rw [hrun]
      have hmany : call index (BackendIndex32.queryMany sketches) = (.ok found, index) :=
        Prod.ext hanswer (queryMany_same index sketches)
      rw [hmany]
      clear hrun hanswer hmany hhashes
      induction hfound with
      | nil => rfl
      | @cons sketch keys sketches found hkeys _ ih =>
          rw [List.forall_mem_cons] at hsketches
          obtain ⟨others, hrun, hothers⟩ := hone hsketches.1
          rw [hothers.unique hkeys] at hrun
          rw [List.mapM_cons, call_bind_ok hrun, call_bind_ok (ih hsketches.2).symm, call_pure]

/-- An index over the memory backend answers every sequence of operations as an in-memory
index with the same parameters does. A batch of removals counts every distinct live key once,
a rejected batch changes no later answer, and a batch of queries is answered as its queries
one by one. -/
theorem memory_answers_as_reference {threshold : F64} {numPerm : Nat} {seed : UInt64}
    {params : LshParams} {retention : Option Duration} {backend : MemoryBackend}
    (hnew : call MemoryBackend.new (createWithParams threshold numPerm seed params retention) =
      (.ok index, backend)) :
    ∃ reference, LshIndex.withParams .pariAffine32V1 threshold numPerm seed params =
        .ok reference ∧
      ∀ operations, insertions index operations < 2 ^ 32 - 1 →
        List.Forall₂ Agree (answers index operations) (referenceAnswers reference operations) ∧
        (∀ keys, (call (after index operations) (BackendIndex32.removeMany keys)).1 =
          .ok (keys.toFinset.filter fun key =>
            (after index operations).backend.records.contains key).card) ∧
        (∀ items error later,
          (call (after index operations) (BackendIndex32.insertMany items)).1 = .error error →
          answers (call (after index operations) (BackendIndex32.insertMany items)).2 later =
            answers (after index operations) later) ∧
        ∀ sketches, call (after index operations) (BackendIndex32.queryMany sketches) =
          call (after index operations) (sketches.mapM BackendIndex32.query) := by
  obtain ⟨hkeeps, hconfig⟩ := createWithParams_of_ok hnew
  have hreference : LshIndex.withParams .pariAffine32V1 threshold numPerm seed params =
      .ok ⟨index.descriptor.toLshConfig, IndexData.new params.bands⟩ := by
    rw [LshIndex.withParams, hconfig]
    rfl
  have hmirrors : Mirrors MemoryBackend.Keeps index
      ⟨index.descriptor.toLshConfig, IndexData.new params.bands⟩ fun _ => none :=
    ⟨hkeeps, (LshIndex.withParams_holds hreference).1, rfl⟩
  refine ⟨_, hreference, fun operations hroom => ?_⟩
  have hidentifiers : (IndexData.new params.bands).idToKey.length +
      insertions index operations ≤ 2 ^ 32 - 1 := by
    rw [IndexData.new, List.length_nil]
    omega
  obtain ⟨hagree, reference', rows', hend⟩ :=
    hmirrors.answers MemoryBackend.lawful hidentifiers
  refine ⟨hagree, fun keys => ?_, fun items error later herror => ?_,
    fun sketches => queryMany_eq_mapM hend.keeps sketches⟩
  · obtain ⟨_, hrun, _⟩ := MemoryBackend.lawful.removeMany hend.keeps keys
    rw [hrun, deleteRows_fst]
    simp only [hend.keeps.2.contains_eq]
  · rw [insertMany_same_of_error hend.keeps herror]

/-- A descriptor of two bands of two rows, without retention. -/
def sampleDescriptor : IndexDescriptor :=
  { sampleConfig with retention := none, retained := rfl }

/-- An index created over a new memory backend, one insertion and one query. -/
theorem memory_answers_first_insertion :
    ∃ reference, LshIndex.withParams .pariAffine32V1 sampleConfig.threshold 4 1 ⟨2, 2⟩ =
        .ok reference ∧
      List.Forall₂ Agree
        (answers ⟨{ MemoryBackend.new with descriptor := some sampleDescriptor }, sampleDescriptor⟩
          [.insertMany [(7, sampleSketch)], .query sampleSketch])
        (referenceAnswers reference [.insertMany [(7, sampleSketch)], .query sampleSketch]) := by
  obtain ⟨reference, hreference, hanswers⟩ := memory_answers_as_reference
    (show call MemoryBackend.new (createWithParams sampleConfig.threshold 4 1 ⟨2, 2⟩ none) =
      (.ok ⟨{ MemoryBackend.new with descriptor := some sampleDescriptor }, sampleDescriptor⟩,
        { MemoryBackend.new with descriptor := some sampleDescriptor }) from rfl)
  refine ⟨reference, hreference, (hanswers _ ?_).1⟩
  have hinsert (answer : Except BackendIndexError Answer) :
      (Operation.insertMany [(7, sampleSketch)]).insertions answer ≤ 1 := by
    cases answer with
    | error error => exact Nat.zero_le 1
    | ok value => exact le_refl 1
  have hquery (answer : Except BackendIndexError Answer) :
      (Operation.query sampleSketch).insertions answer = 0 := rfl
  rw [insertions, insertions, insertions, hquery]
  exact (hinsert _).trans_lt (by decide)

end Memory

end Pari.Backend
