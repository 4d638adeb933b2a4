/-
# What the index answers

Over a lawful backend every operation of the index is determined by the rows the backend
keeps. The same rows determine what the in-memory index answers, so the two agree as long as
the in-memory index does not run out of identifiers.
-/

import Pari.Backend.Contract

namespace Pari.Backend

open Data Data.Method Pari.Format Pari.Core Pari.Index

/-- The batches the rows allow: new distinct keys and fitting sketches. -/
structure Acceptable (config : LshConfig) (rows : Rows) (items : List (UInt64 × MinHash32)) :
    Prop where
  fresh : ∀ item ∈ items, rows item.1 = none
  distinct : (items.map Prod.fst).Nodup
  compatible : ∀ item ∈ items, config.Compatible item.2

theorem Acceptable.freshBatch {config : LshConfig} {rows : Rows}
    {items : List (UInt64 × MinHash32)} (h : Acceptable config rows items) :
    FreshBatch config.params.bands rows (config.rowsOf items) where
  fresh := by
    intro item hmem
    obtain ⟨source, hsource, rfl⟩ := List.mem_map.mp hmem
    exact h.fresh source hsource
  distinct := by simpa [LshConfig.rowsOf, Function.comp_def] using h.distinct
  width := by
    intro item hmem
    obtain ⟨source, hsource, rfl⟩ := List.mem_map.mp hmem
    exact (h.compatible source hsource).length_bandHashes

/-- The answer of a query: the ascending list of the keys that share a band with it. -/
structure Finds (rows : Rows) (hashes keys : List UInt64) : Prop where
  ascending : Ascending keys
  mem_iff : ∀ key, key ∈ keys ↔ ∃ row, rows key = some row ∧ SharesBand row hashes

theorem Finds.unique {rows : Rows} {hashes keys others : List UInt64}
    (h : Finds rows hashes keys) (h' : Finds rows hashes others) : keys = others :=
  h.ascending.ext h'.ascending fun key => (h.mem_iff key).trans (h'.mem_iff key).symm

/-- The answers of a batch of queries are determined one by one. -/
theorem finds_unique {γ : Type} {rows : Rows} {hashes : γ → List UInt64} {queries : List γ}
    {answers others : List (List UInt64)}
    (h : List.Forall₂ (fun query keys => Finds rows (hashes query) keys) queries answers)
    (h' : List.Forall₂ (fun query keys => Finds rows (hashes query) keys) queries others) :
    answers = others := by
  induction h generalizing others with
  | nil =>
      cases h'
      rfl
  | cons hfirst _ ih =>
      cases h' with
      | cons hother hothers => rw [hfirst.unique hother, ih hothers]

section Lawful

variable {β : Type} [StorageBackend β] {Keeps : β → IndexDescriptor → Rows → Prop}
  {index : BackendIndex32 β} {rows : Rows}

/-- What the backend of an index keeps under its descriptor. -/
abbrev BackendIndex32.KeepsRows (Keeps : β → IndexDescriptor → Rows → Prop)
    (index : BackendIndex32 β) (rows : Rows) : Prop :=
  Keeps index.backend index.descriptor rows

@[simp]
theorem call_onBackend {α : Type} (method : Method β BackendError α) :
    call index (BackendIndex32.onBackend method) =
      ((call index.backend method).1.mapError .backend,
        { index with backend := (call index.backend method).2 }) := rfl

/-- An acceptable batch is stored. -/
theorem Lawful.insertMany_of_acceptable (lawful : Lawful Keeps) (h : index.KeepsRows Keeps rows)
    {items : List (UInt64 × MinHash32)}
    (hitems : Acceptable index.descriptor.toLshConfig rows items) :
    ∃ backend', call index (BackendIndex32.insertMany items) =
        (.ok (), { index with backend := backend' }) ∧
      Keeps backend' index.descriptor
        (insertRows rows (index.descriptor.toLshConfig.rowsOf items)) := by
  have hprepared := prepareItems_eq_ok_iff.mpr
    ⟨(by simp : ∀ item ∈ items, item.1 ∉ (∅ : OrderedSet UInt64)), hitems.distinct,
      hitems.compatible, rfl⟩
  obtain ⟨backend', hrun, hkeeps⟩ := lawful.insertMany h (storedItems index.descriptor items)
    (by rw [rowsOfItems_storedItems]; exact hitems.freshBatch)
  rw [rowsOfItems_storedItems] at hkeeps
  refine ⟨backend', ?_, hkeeps⟩
  rw [BackendIndex32.insertMany, call_read_bind, hprepared, call_lift_ok_bind, call_onBackend, hrun]
  rfl

/-- Any other batch fails, and the rows stay. -/
theorem Lawful.insertMany_of_not_acceptable (lawful : Lawful Keeps)
    (h : index.KeepsRows Keeps rows) {items : List (UInt64 × MinHash32)}
    (hitems : ¬ Acceptable index.descriptor.toLshConfig rows items) :
    ∃ error backend', call index (BackendIndex32.insertMany items) =
        (.error error, { index with backend := backend' }) ∧
      Keeps backend' index.descriptor rows := by
  cases hprepared : BackendIndex32.prepareItems index.descriptor ∅ items with
  | error error =>
      refine ⟨error, index.backend, ?_, h⟩
      rw [BackendIndex32.insertMany, call_read_bind, hprepared, call_lift_error_bind]
  | ok stored =>
      obtain ⟨_, hdistinct, hcompatible, rfl⟩ := prepareItems_eq_ok_iff.mp hprepared
      have hwidth : ∀ item ∈ storedItems index.descriptor items,
          item.bandHashes.length = index.descriptor.params.bands := by
        intro item hmem
        obtain ⟨source, hsource, rfl⟩ := List.mem_map.mp hmem
        exact (hcompatible source hsource).length_bandHashes
      have hstale : ¬ FreshBatch index.descriptor.params.bands rows
          (rowsOfItems (storedItems index.descriptor items)) := by
        rw [rowsOfItems_storedItems]
        refine fun hbatch => hitems ⟨?_, hdistinct, hcompatible⟩
        exact fun item hmem => hbatch.fresh _ (List.mem_map_of_mem hmem)
      obtain ⟨error, backend', hrun, hkeeps⟩ := lawful.rejected h _ hwidth hstale
      refine ⟨.backend error, backend', ?_, hkeeps⟩
      rw [BackendIndex32.insertMany, call_read_bind, hprepared, call_lift_ok_bind, call_onBackend,
        hrun]
      rfl

/-- Fitting queries are answered, each with the keys that share a band with it. -/
theorem Lawful.queryMany_of_compatible (lawful : Lawful Keeps) (h : index.KeepsRows Keeps rows)
    {sketches : List MinHash32}
    (hsketches : ∀ sketch ∈ sketches, index.descriptor.toLshConfig.Compatible sketch) :
    ∃ answers backend', call index (BackendIndex32.queryMany sketches) =
        (.ok answers, { index with backend := backend' }) ∧
      List.Forall₂ (fun (sketch : MinHash32) keys =>
        Finds rows (computeBandHashes index.descriptor.params sketch.signature) keys)
        sketches answers ∧
      Keeps backend' index.descriptor rows := by
  obtain ⟨queryPositions, requests, hrequests, _, hnames⟩ :=
    @requestBuckets_of_compatible index.descriptor .empty sketches hsketches
  cases queryPositions with
  | nil =>
      cases hnames
      exact ⟨[], index.backend, rfl, .nil, h⟩
  | cons positions queryPositions =>
      obtain ⟨members, backend', hrun, hmembers, hkeeps⟩ := lawful.queryBuckets h requests.values
      refine ⟨(positions :: queryPositions).map (BackendIndex32.candidateKeys
        (requests.values.map members)), backend', ?_, ?_, hkeeps⟩
      · rw [BackendIndex32.queryMany, call_read_bind, hrequests, call_lift_ok_bind]
        dsimp only
        rw [if_neg (by simp)]
        have hanswered : call index (BackendIndex32.onBackend
            (StorageBackend.queryBuckets requests.values)) =
            (.ok (requests.values.map members), { index with backend := backend' }) := by
          rw [call_onBackend, hrun]
          rfl
        rw [call_bind_ok hanswered, rejectIf_of_not (by simp), call_lift_ok_bind, call_pure]
      · rw [List.forall₂_map_right_iff]
        refine forall₂_imp_of_mem hnames.flip fun sketch hsketch positions _ hnamed => ?_
        refine ⟨ascending_candidateKeys _ _, fun key => ?_⟩
        rw [mem_candidateKeys_of_names hmembers hnamed]
        exact exists_filed_iff_sharesBand (bands_lt index.descriptor.toLshConfig) (lawful.width h)
          (hsketches sketch hsketch).length_bandHashes

/-- A query that does not fit fails its whole batch with its own error, without a request. -/
theorem queryMany_of_error {sketches : List MinHash32} {error : BackendIndexError}
    (h : sketches.mapM (sketchHashes index.descriptor) = .error error) :
    call index (BackendIndex32.queryMany sketches) = (.error error, index) := by
  rw [BackendIndex32.queryMany, call_read_bind, requestBuckets_of_error h, call_lift_error_bind]

/-! ## Single operations -/

theorem Lawful.query_of_compatible (lawful : Lawful Keeps) (h : index.KeepsRows Keeps rows)
    {sketch : MinHash32} (hsketch : index.descriptor.toLshConfig.Compatible sketch) :
    ∃ keys backend', call index (BackendIndex32.query sketch) =
        (.ok keys, { index with backend := backend' }) ∧
      Finds rows (computeBandHashes index.descriptor.params sketch.signature) keys ∧
      Keeps backend' index.descriptor rows := by
  obtain ⟨answers, backend', hrun, hfinds, hkeeps⟩ :=
    lawful.queryMany_of_compatible h (List.forall_mem_singleton.mpr hsketch)
  obtain ⟨keys, _, hkeys, hnil, rfl⟩ := List.forall₂_cons_left_iff.mp hfinds
  cases hnil
  refine ⟨keys, backend', ?_, hkeys, hkeeps⟩
  rw [BackendIndex32.query, call_bind_ok hrun]
  rfl

theorem query_of_error {sketch : MinHash32} {error : BackendIndexError}
    (h : sketchHashes index.descriptor sketch = .error error) :
    call index (BackendIndex32.query sketch) = (.error error, index) := by
  have hmany : call index (BackendIndex32.queryMany [sketch]) = (.error error, index) :=
    queryMany_of_error (by rw [List.mapM_cons, h, error_bind])
  rw [BackendIndex32.query, call_bind_error hmany]

/-- Deleting reports whether the key was live. -/
theorem Lawful.remove (lawful : Lawful Keeps) (h : index.KeepsRows Keeps rows) (key : UInt64) :
    ∃ backend', call index (BackendIndex32.remove key) =
        (.ok (rows key).isSome, { index with backend := backend' }) ∧
      Keeps backend' index.descriptor (Function.update rows key none) := by
  obtain ⟨backend', hrun, hkeeps⟩ := lawful.deleteMany h [key]
  have hdeleted : call index (BackendIndex32.onBackend (StorageBackend.deleteMany [key])) =
      (.ok (deleteRows rows [key]).1, { index with backend := backend' }) := by
    rw [call_onBackend, hrun]
    rfl
  refine ⟨backend', ?_, hkeeps⟩
  rw [BackendIndex32.remove, call_bind_ok hdeleted, call_pure]
  cases hlive : (rows key).isSome <;> simp [deleteRows, hlive]

/-- A batch of deletions counts every distinct live key once. -/
theorem Lawful.removeMany (lawful : Lawful Keeps) (h : index.KeepsRows Keeps rows)
    (keys : List UInt64) :
    ∃ backend', call index (BackendIndex32.removeMany keys) =
        (.ok (deleteRows rows keys).1, { index with backend := backend' }) ∧
      Keeps backend' index.descriptor (deleteRows rows keys).2 := by
  have hsame : deleteRows rows ((∅ : OrderedSet UInt64).insertMany keys).toList =
      deleteRows rows keys := by
    refine deleteRows_congr fun key => ?_
    rw [Std.ExtTreeSet.mem_toList, mem_insertMany]
    simp
  obtain ⟨backend', hrun, hkeeps⟩ :=
    lawful.deleteMany h ((∅ : OrderedSet UInt64).insertMany keys).toList
  rw [hsame] at hrun hkeeps
  refine ⟨backend', ?_, hkeeps⟩
  rw [BackendIndex32.removeMany, call_onBackend, hrun]
  rfl

theorem Lawful.index_containsMany (lawful : Lawful Keeps) (h : index.KeepsRows Keeps rows)
    (keys : List UInt64) :
    ∃ backend', call index (BackendIndex32.containsMany keys) =
        (.ok (keys.map fun key => (rows key).isSome), { index with backend := backend' }) ∧
      Keeps backend' index.descriptor rows := by
  obtain ⟨backend', hrun, hkeeps⟩ := lawful.containsMany h keys
  have hanswered : call index (BackendIndex32.onBackend (StorageBackend.containsMany keys)) =
      (.ok (keys.map fun key => (rows key).isSome), { index with backend := backend' }) := by
    rw [call_onBackend, hrun]
    rfl
  refine ⟨backend', ?_, hkeeps⟩
  rw [BackendIndex32.containsMany, call_bind_ok hanswered, rejectIf_of_not (by simp),
    call_lift_ok_bind, call_pure]

end Lawful

end Pari.Backend
