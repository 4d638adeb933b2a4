/-
# Runs of the in-memory index

A run creates an index and applies insertions, failed insertions and removals in any
order. Beside the index it carries the sketches of the live items, which is all a
caller knows; the index agrees with them after every run.
-/

import Pari.Index.LiveItems

namespace Pari.Index

open Data Pari.Format Pari.Core

variable {scheme : SignatureScheme}

/-- The sketches of the live items. -/
abbrev LiveItems (scheme : SignatureScheme) := UInt64 → Option (MinHash scheme)

/-- Add the items of a batch. -/
def insertItems (live : LiveItems scheme) (items : List (UInt64 × MinHash scheme)) :
    LiveItems scheme :=
  items.foldl (fun live item => Function.update live item.1 (some item.2)) live

/-- The index states a caller can reach, with the items the caller has put in. -/
inductive Reachable : LshIndex scheme → LiveItems scheme → Prop
  | withParams {threshold : F64} {numPerm : Nat} {seed : UInt64} {params : LshParams}
      {index : LshIndex scheme}
      (hnew : LshIndex.withParams scheme threshold numPerm seed params = .ok index) :
      Reachable index fun _ => none
  | insertMany {index : LshIndex scheme} {live : LiveItems scheme} (hrun : Reachable index live)
      (items : List (UInt64 × MinHash scheme)) (hok : (index.insertMany items).1 = .ok ()) :
      Reachable (index.insertMany items).2 (insertItems live items)
  | insertManyFailed {index : LshIndex scheme} {live : LiveItems scheme}
      (hrun : Reachable index live) (items : List (UInt64 × MinHash scheme)) {error : LshError}
      (herror : (index.insertMany items).1 = .error error) :
      Reachable (index.insertMany items).2 live
  | remove {index : LshIndex scheme} {live : LiveItems scheme} (hrun : Reachable index live)
      (key : UInt64) : Reachable (index.remove key).2 (Function.update live key none)

/-- The rows of the live items. -/
def rowsOfLive (config : LshConfig) (live : LiveItems scheme) : Rows := fun key =>
  (live key).map fun sketch => computeBandHashes config.params sketch.signature

theorem rowsOfLive_update (config : LshConfig) (live : LiveItems scheme) (key : UInt64)
    (item : Option (MinHash scheme)) :
    rowsOfLive config (Function.update live key item) =
      Function.update (rowsOfLive config live) key
        (item.map fun sketch => computeBandHashes config.params sketch.signature) := by
  funext other
  by_cases heq : other = key
  · rw [heq, rowsOfLive, Function.update_self, Function.update_self]
  · rw [rowsOfLive, Function.update_of_ne heq, Function.update_of_ne heq, rowsOfLive]

theorem rowsOfLive_insertItems (config : LshConfig) (live : LiveItems scheme)
    (items : List (UInt64 × MinHash scheme)) :
    rowsOfLive config (insertItems live items) =
      insertRows (rowsOfLive config live) (config.rowsOf items) := by
  induction items generalizing live with
  | nil => rfl
  | cons item items ih =>
      rw [insertItems, List.foldl_cons, ← insertItems, ih, rowsOfLive_update]
      rfl

/-- Every reachable index holds the rows of its live items. -/
theorem Reachable.holds {index : LshIndex scheme} {live : LiveItems scheme}
    (h : Reachable index live) : index.Holds (rowsOfLive index.config live) := by
  induction h with
  | withParams hnew => exact (LshIndex.withParams_holds hnew).1
  | insertMany hrun items hok ih =>
      obtain ⟨hconfig, _, hholds⟩ := ih.insertMany_of_accepts (ih.insertMany_ok_iff.mp hok)
      rw [hconfig, rowsOfLive_insertItems]
      exact hholds
  | insertManyFailed hrun items herror ih =>
      rw [LshIndex.insertMany_of_error herror]
      exact ih
  | remove hrun key ih =>
      obtain ⟨_, hconfig, hholds⟩ := ih.remove key
      rw [hconfig, rowsOfLive_update]
      exact hholds

/-! ## Bands of a signature -/

/-- Two signatures agree on every row of a band. -/
def AgreeOnBand (params : LshParams) (band : Nat) (left right : List (Word scheme)) : Prop :=
  ∀ position, band * params.rows ≤ position → position < (band + 1) * params.rows →
    left[position]? = right[position]?

/-- The hash of a band is the hash of the signature values in it. -/
theorem getElem?_computeBandHashes {params : LshParams} {signature : List (Word scheme)}
    {band : Nat} (hband : band < params.bands)
    (hused : params.bands * params.rows ≤ signature.length) (hrows : 0 < params.rows) :
    (computeBandHashes params signature)[band]? =
      some (hashBand scheme (window (band * params.rows) params.rows signature)) := by
  have hend : band * params.rows + params.rows ≤ params.bands * params.rows := by
    rw [← Nat.succ_mul]
    exact Nat.mul_le_mul_right _ hband
  have htaken : (signature.take (params.bands * params.rows)).length =
      params.bands * params.rows := by
    rw [List.length_take, Nat.min_eq_left hused]
  have hprefix : window (band * params.rows) params.rows
      (signature.take (params.bands * params.rows)) =
        window (band * params.rows) params.rows signature := by
    conv_rhs => rw [← List.take_append_drop (params.bands * params.rows) signature]
    rw [window_append_left (by omega)]
  rw [computeBandHashes, chunksExact, htaken, Nat.mul_div_cancel _ hrows, List.map_map,
    List.getElem?_map, List.getElem?_range hband, Option.map_some, Function.comp_apply, hprefix]

theorem window_eq_of_agreeOnBand {params : LshParams} {band : Nat}
    {left right : List (Word scheme)} (h : AgreeOnBand params band left right) :
    window (band * params.rows) params.rows left =
      window (band * params.rows) params.rows right := by
  refine List.ext_getElem? fun offset => ?_
  simp only [window, List.getElem?_take, List.getElem?_drop]
  split
  · next hlt =>
      refine h _ (Nat.le_add_right _ _) ?_
      rw [Nat.succ_mul]
      omega
  · rfl

/-- Signatures that agree on a band share its hash. -/
theorem sharesBand_of_agreeOnBand {params : LshParams} {band : Nat}
    {left right : List (Word scheme)} (hband : band < params.bands) (hrows : 0 < params.rows)
    (hleft : params.bands * params.rows ≤ left.length)
    (hright : params.bands * params.rows ≤ right.length)
    (h : AgreeOnBand params band left right) :
    SharesBand (computeBandHashes params left) (computeBandHashes params right) := by
  refine ⟨band, _, getElem?_computeBandHashes hband hleft hrows, ?_⟩
  rw [getElem?_computeBandHashes hband hright hrows, window_eq_of_agreeOnBand h]

/-- A live item after a batch was live before it or is in the batch. -/
theorem mem_of_insertItems {live : LiveItems scheme} {items : List (UInt64 × MinHash scheme)}
    {key : UInt64} {sketch : MinHash scheme} (h : insertItems live items key = some sketch) :
    live key = some sketch ∨ (key, sketch) ∈ items := by
  induction items generalizing live with
  | nil => exact Or.inl h
  | cons item items ih =>
      rcases @ih (Function.update live item.1 (some item.2)) h with hold | hmem
      · by_cases heq : key = item.1
        · rw [heq, Function.update_self] at hold
          rw [heq, ← Option.some.inj hold]
          exact Or.inr List.mem_cons_self
        · rw [Function.update_of_ne heq] at hold
          exact Or.inl hold
      · exact Or.inr (List.mem_cons_of_mem item hmem)

/-- Every live sketch is compatible with the index. -/
theorem Reachable.compatible {index : LshIndex scheme} {live : LiveItems scheme}
    (h : Reachable index live) {key : UInt64} {sketch : MinHash scheme}
    (hlive : live key = some sketch) : index.config.Compatible sketch := by
  induction h generalizing key sketch with
  | withParams hnew => cases hlive
  | insertMany hrun items hok ih =>
      have haccepts := hrun.holds.insertMany_ok_iff.mp hok
      rw [(hrun.holds.insertMany_of_accepts haccepts).1]
      rcases mem_of_insertItems hlive with hold | hmem
      · exact ih hold
      · exact haccepts.compatible (key, sketch) hmem
  | insertManyFailed hrun items herror ih =>
      rw [LshIndex.insertMany_of_error herror]
      exact ih hlive
  | @remove index live hrun removed ih =>
      rw [(hrun.holds.remove removed).2.1]
      by_cases heq : key = removed
      · rw [heq, Function.update_self] at hlive
        cases hlive
      · rw [Function.update_of_ne heq] at hlive
        exact ih hlive

/-! ## Queries of a reachable index -/

/-- A query of a reachable index returns exactly the ascending list of the live keys that
share a band hash with it; in particular it misses no live item whose signature agrees
with it on all rows of a band. No table keeps an empty bucket or a dead identifier. -/
theorem Reachable.query_exact {index : LshIndex scheme} {live : LiveItems scheme}
    (h : Reachable index live) :
    (∀ sketch, index.config.Compatible sketch → ∃ keys,
      index.query sketch = .ok keys ∧ Ascending keys ∧
      (∀ key, key ∈ keys ↔ ∃ item, live key = some item ∧
        SharesBand (computeBandHashes index.config.params item.signature)
          (computeBandHashes index.config.params sketch.signature)) ∧
      ∀ key item band, live key = some item → band < index.config.params.bands →
        AgreeOnBand index.config.params band item.signature sketch.signature → key ∈ keys) ∧
    ∀ table ∈ index.data.buckets, ∀ (hash : UInt64) (ids : List UInt32), table[hash]? = some ids →
      ids ≠ [] ∧ ∀ id ∈ ids, ∃ key, index.data.liveKey id = some key ∧ live key ≠ none := by
  have hholds := h.holds
  constructor
  · intro sketch hsketch
    obtain ⟨keys, hquery, hsorted, hmem⟩ := hholds.query hsketch
    have hshares : ∀ key, key ∈ keys ↔ ∃ item, live key = some item ∧
        SharesBand (computeBandHashes index.config.params item.signature)
          (computeBandHashes index.config.params sketch.signature) := by
      intro key
      rw [hmem]
      simp only [rowsOfLive, Option.map_eq_some_iff]
      constructor
      · rintro ⟨_, ⟨item, hitem, rfl⟩, hshared⟩
        exact ⟨item, hitem, hshared⟩
      · rintro ⟨item, hitem, hshared⟩
        exact ⟨_, ⟨item, hitem, rfl⟩, hshared⟩
    refine ⟨keys, hquery, hsorted, hshares, ?_⟩
    intro key item band hitem hband hagree
    obtain ⟨_, _, _, _, hrows, hused⟩ := index.config.bounds
    have hlength : ∀ other : MinHash scheme, index.config.Compatible other →
        index.config.params.bands * index.config.params.rows ≤ other.signature.length :=
      fun other hother => hused.trans (le_of_eq hother.numPerm.symm)
    exact (hshares key).mpr ⟨item, hitem, sharesBand_of_agreeOnBand hband hrows
      (hlength item (h.compatible hitem)) (hlength sketch hsketch) hagree⟩
  · intro table htable hash ids hids
    obtain ⟨band, hband⟩ := List.mem_iff_getElem?.mp htable
    have htables := hholds.tables.table band table hband
    refine ⟨htables.nonempty hash ids hids, fun id hid => ?_⟩
    have hmem : id ∈ table[hash]?.getD [] := by rwa [hids, Option.getD_some]
    rw [htables.mem_iff, hashIn, Option.bind_eq_some_iff] at hmem
    obtain ⟨row, hrow, _⟩ := hmem
    have hlive : index.data.liveKey id ≠ none := by
      rw [Ne, hholds.live, hrow]
      simp
    obtain ⟨key, hkey⟩ := Option.ne_none_iff_exists'.mp hlive
    refine ⟨key, hkey, fun hnone => ?_⟩
    have hstored : rowsOfLive index.config live key = some row :=
      hholds.rows_eq_some_iff.mpr ⟨id, hkey, hrow⟩
    rw [rowsOfLive, hnone] at hstored
    cases hstored

/-- Two bands of two rows over four permutations. -/
def sampleConfig : LshConfig where
  threshold := ⟨0x3FE0000000000000⟩
  numPerm := 4
  seed := 1
  params := ⟨2, 2⟩
  valid := by decide

def sampleSketch : MinHash32 where
  seed := 1
  signature := ([3, 1, 4, 1] : List UInt32)
  valid := by decide

/-- The sample index after its first insertion is reachable. -/
theorem sampleReachable (items : List (UInt64 × MinHash32))
    (hok : (LshIndex.insertMany ⟨sampleConfig, IndexData.new 2⟩ items).1 = .ok ()) :
    Reachable (LshIndex.insertMany ⟨sampleConfig, IndexData.new 2⟩ items).2
      (insertItems (fun _ => none) items) := by
  have hnew : LshIndex.withParams .pariAffine32V1 sampleConfig.threshold 4 1 ⟨2, 2⟩ =
      .ok ⟨sampleConfig, IndexData.new 2⟩ := by
    have hconfig : LshConfig.new sampleConfig.threshold 4 1 ⟨2, 2⟩ = .ok sampleConfig :=
      sampleConfig.new_eq_ok
    rw [LshIndex.withParams, hconfig]
    rfl
  exact (Reachable.withParams hnew).insertMany items hok

/-- The index after its first insertion answers with the inserted key. -/
theorem query_exact_first_insertion :
    ∃ keys, (LshIndex.insertMany ⟨sampleConfig, IndexData.new 2⟩ [(7, sampleSketch)]).2.query
      sampleSketch = .ok keys ∧ 7 ∈ keys := by
  have hrun := sampleReachable [(7, sampleSketch)] (by decide)
  obtain ⟨keys, hquery, _, _, hagree⟩ := hrun.query_exact.1 sampleSketch ⟨rfl, rfl⟩
  exact ⟨keys, hquery, hagree 7 sampleSketch 0 rfl (by decide) fun _ _ _ => rfl⟩

end Pari.Index
