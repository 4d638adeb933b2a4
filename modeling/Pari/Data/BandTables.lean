/-
# Band tables

One hash table for each band of a row: the table of a band maps a hash to the items
whose rows have that hash in that band. A family of tables represents a partial
assignment of rows to items when every bucket holds exactly the items it should, once
each, and no bucket is empty. Adding the row of a new item and removing a row keep
that relation, and the buckets a query row selects are the items that agree with it
in some band.
-/

import Mathlib.Logic.Function.Basic
import Pari.Data.Collections

namespace Data

universe u v

/-- Two rows have the same hash in some band. -/
def SharesBand {κ : Type u} (left right : List κ) : Prop :=
  ∃ (band : Nat) (hash : κ), left[band]? = some hash ∧ right[band]? = some hash

theorem SharesBand.symm {κ : Type u} {left right : List κ} (h : SharesBand left right) :
    SharesBand right left := by
  obtain ⟨band, hash, hleft, hright⟩ := h
  exact ⟨band, hash, hright, hleft⟩

variable {κ : Type u} [LinearOrder κ] {ι : Type v}

/-- The buckets of one band. -/
abbrev Table (κ : Type u) [Ord κ] (ι : Type v) := OrderedMap κ (List ι)

/-- `table.entry(hash).or_default().push(item)`. -/
def pushAt (table : Table κ ι) (hash : κ) (item : ι) : Table κ ι :=
  table.alter hash fun bucket => some (bucket.getD [] ++ [item])

/-- `get_mut(hash)`, `retain(|other| other != item)`, and `remove(hash)` when nothing is
left. -/
def retainAt [DecidableEq ι] (table : Table κ ι) (hash : κ) (item : ι) : Table κ ι :=
  match table[hash]? with
  | none => table
  | some bucket =>
      if (bucket.filter (· ≠ item)).isEmpty then table.erase hash
      else table.insert hash (bucket.filter (· ≠ item))

/-! ## One table -/

/-- The buckets are the fibres of a partial function: exactly the items with the hash,
without repetition, and never empty. -/
structure Table.Represents (table : Table κ ι) (hashOf : ι → Option κ) : Prop where
  mem_iff : ∀ (hash : κ) (item : ι), item ∈ table[hash]?.getD [] ↔ hashOf item = some hash
  nodup : ∀ (hash : κ) (bucket : List ι), table[hash]? = some bucket → bucket.Nodup
  nonempty : ∀ (hash : κ) (bucket : List ι), table[hash]? = some bucket → bucket ≠ []

theorem Table.Represents.empty : Table.Represents (∅ : Table κ ι) fun _ => none where
  mem_iff := by simp
  nodup := by simp
  nonempty := by simp

section OneTable

variable [DecidableEq ι] {table : Table κ ι} {hashOf : ι → Option κ} {hash : κ} {item : ι}

/-- Pushing an item that is in no bucket records its hash. -/
theorem Table.Represents.pushAt (h : Table.Represents table hashOf) (hfresh : hashOf item = none) :
    Table.Represents (pushAt table hash item) (Function.update hashOf item (some hash)) where
  mem_iff := by
    intro other candidate
    rw [Data.pushAt, getElem?_alter]
    by_cases heq : hash = other
    · subst heq
      rw [if_pos rfl, Option.getD_some, List.mem_append, h.mem_iff, List.mem_singleton]
      by_cases hitem : candidate = item
      · simp [hitem]
      · simp [hitem]
    · rw [if_neg heq, h.mem_iff]
      by_cases hitem : candidate = item
      · subst hitem
        simp [hfresh, heq]
      · simp [hitem]
  nodup := by
    intro other bucket hbucket
    rw [Data.pushAt, getElem?_alter] at hbucket
    split at hbucket
    · obtain rfl := Option.some.inj hbucket
      have hnot : item ∉ table[hash]?.getD [] := by
        rw [h.mem_iff, hfresh]
        simp
      have hold : (table[hash]?.getD []).Nodup := by
        cases hentry : table[hash]? with
        | none => simp
        | some old => exact h.nodup hash old hentry
      exact List.nodup_append.mpr ⟨hold, by simp, fun a ha b hb hab =>
        hnot (List.mem_singleton.mp hb ▸ hab ▸ ha)⟩
    · exact h.nodup other bucket hbucket
  nonempty := by
    intro other bucket hbucket
    rw [Data.pushAt, getElem?_alter] at hbucket
    split at hbucket
    · obtain rfl := Option.some.inj hbucket
      simp
    · exact h.nonempty other bucket hbucket

/-- What a table holds after an item has been retained away: every bucket without it. -/
theorem getElem?_retainAt (h : Table.Represents table hashOf)
    (hitem : hashOf item = none ∨ hashOf item = some hash) (other : κ) :
    (retainAt table hash item)[other]?.getD [] = (table[other]?.getD []).filter (· ≠ item) := by
  have habsent (heq : hash ≠ other) :
      (table[other]?.getD []).filter (· ≠ item) = table[other]?.getD [] := by
    rw [List.filter_eq_self]
    intro candidate hmem
    rw [h.mem_iff] at hmem
    have hne : candidate ≠ item := by
      rintro rfl
      rcases hitem with hnone | hsome
      · rw [hnone] at hmem
        cases hmem
      · rw [hsome] at hmem
        exact heq (Option.some.inj hmem)
    simpa using hne
  unfold retainAt
  split
  · next hentry =>
      by_cases heq : hash = other
      · subst heq
        simp [hentry]
      · exact (habsent heq).symm
  · next bucket hentry =>
      split
      · next hempty =>
          rw [getElem?_erase]
          by_cases heq : hash = other
          · subst heq
            rw [if_pos rfl, hentry, Option.getD_some, List.isEmpty_iff.mp hempty,
              Option.getD_none]
          · rw [if_neg heq, habsent heq]
      · rw [getElem?_insert]
        by_cases heq : hash = other
        · subst heq
          rw [if_pos rfl, hentry, Option.getD_some, Option.getD_some]
        · rw [if_neg heq, habsent heq]

/-- A bucket that is left after retaining is nonempty. -/
theorem retainAt_nonempty (h : Table.Represents table hashOf) {other : κ} {bucket : List ι}
    (hbucket : (retainAt table hash item)[other]? = some bucket) : bucket ≠ [] := by
  unfold retainAt at hbucket
  split at hbucket
  · exact h.nonempty other bucket hbucket
  · next old hentry =>
      split at hbucket
      · rw [getElem?_erase] at hbucket
        split at hbucket
        · cases hbucket
        · exact h.nonempty other bucket hbucket
      · next hkept =>
          rw [getElem?_insert] at hbucket
          split at hbucket
          · obtain rfl := Option.some.inj hbucket
            exact fun hnil => hkept (List.isEmpty_iff.mpr hnil)
          · exact h.nonempty other bucket hbucket

/-- Retaining an item away, from the bucket it is in, forgets its hash. -/
theorem Table.Represents.retainAt (h : Table.Represents table hashOf)
    (hitem : hashOf item = none ∨ hashOf item = some hash) :
    Table.Represents (retainAt table hash item) (Function.update hashOf item none) where
  mem_iff := by
    intro other candidate
    rw [getElem?_retainAt h hitem, List.mem_filter, h.mem_iff]
    by_cases heq : candidate = item
    · simp [heq]
    · simp [heq]
  nodup := by
    intro other bucket hbucket
    have hfilter := getElem?_retainAt h hitem other
    rw [hbucket, Option.getD_some] at hfilter
    rw [hfilter]
    cases hentry : table[other]? with
    | none => simp
    | some old => exact (h.nodup other old hentry).filter _
  nonempty := fun _ _ hbucket => retainAt_nonempty h hbucket

end OneTable

/-! ## A table for each band -/

/-- `for (table, hash) in tables.iter_mut().zip(row)`: one update for each pair; tables
without a partner stay as they are. -/
def zipUpdate {α β : Type*} (update : α → β → α) : List α → List β → List α
  | table :: tables, hash :: hashes => update table hash :: zipUpdate update tables hashes
  | tables, _ => tables

/-- File the item in the bucket of every hash of its row. -/
def addRow (tables : List (Table κ ι)) (row : List κ) (item : ι) : List (Table κ ι) :=
  zipUpdate (fun table hash => pushAt table hash item) tables row

/-- Take the item out of the bucket of every hash of its row. -/
def removeRow [DecidableEq ι] (tables : List (Table κ ι)) (row : List κ) (item : ι) : List (Table κ ι) :=
  zipUpdate (fun table hash => retainAt table hash item) tables row

/-- The items of every bucket a row selects, band by band. -/
def candidates (tables : List (Table κ ι)) (row : List κ) : List ι :=
  (tables.zip row).flatMap fun pair => pair.1[pair.2]?.getD []

/-- The hash an assignment of rows gives an item in one band. -/
def hashIn (rows : ι → Option (List κ)) (band : Nat) (item : ι) : Option κ :=
  (rows item).bind (·[band]?)

/-- The tables represent an assignment of rows to items, band by band. -/
structure RepresentsRows (bands : Nat) (tables : List (Table κ ι))
    (rows : ι → Option (List κ)) : Prop where
  length : tables.length = bands
  width : ∀ (item : ι) (row : List κ), rows item = some row → row.length = bands
  table : ∀ (band : Nat) (table : Table κ ι), tables[band]? = some table →
    Table.Represents table (hashIn rows band)

section Tables

variable {bands : Nat} {tables : List (Table κ ι)} {rows : ι → Option (List κ)} {row : List κ}
  {item : ι}

theorem length_zipUpdate {α β : Type*} (update : α → β → α) (tables : List α) (hashes : List β) :
    (zipUpdate update tables hashes).length = tables.length := by
  fun_induction zipUpdate update tables hashes with
  | case1 table tables hash hashes ih => simp [ih]
  | case2 tables hashes => rfl

theorem getElem?_zipUpdate {α β : Type*} {update : α → β → α} {tables : List α} {hashes : List β}
    {band : Nat} {result : α} (hlength : hashes.length = tables.length)
    (h : (zipUpdate update tables hashes)[band]? = some result) :
    ∃ table hash, tables[band]? = some table ∧ hashes[band]? = some hash ∧
      result = update table hash := by
  induction tables generalizing hashes band with
  | nil => cases hashes <;> simp [zipUpdate] at h
  | cons table tables ih =>
      cases hashes with
      | nil => simp at hlength
      | cons hash hashes =>
          cases band with
          | zero => exact ⟨table, hash, rfl, rfl, (Option.some.inj h).symm⟩
          | succ band => exact ih (Nat.succ.inj hlength) h

theorem RepresentsRows.empty (bands : Nat) :
    RepresentsRows bands (List.replicate bands (∅ : Table κ ι)) fun _ => none where
  length := List.length_replicate
  width := by simp
  table := by
    intro band table htable
    obtain ⟨_, rfl⟩ := List.mem_replicate.mp (List.mem_of_getElem? htable)
    exact Table.Represents.empty

/-- The candidates of a query are the items whose rows share a band with it. -/
theorem RepresentsRows.mem_candidates_iff (h : RepresentsRows bands tables rows)
    {query : List κ} :
    item ∈ candidates tables query ↔ ∃ row, rows item = some row ∧ SharesBand row query := by
  rw [candidates, List.mem_flatMap]
  constructor
  · rintro ⟨⟨table, hash⟩, hpair, hmem⟩
    obtain ⟨band, hband⟩ := List.mem_iff_getElem?.mp hpair
    obtain ⟨htable, hhash⟩ := List.getElem?_zip_eq_some.mp hband
    rw [(h.table band table htable).mem_iff, hashIn, Option.bind_eq_some_iff] at hmem
    obtain ⟨row, hrow, hshared⟩ := hmem
    exact ⟨row, hrow, band, hash, hshared, hhash⟩
  · rintro ⟨row, hrow, band, hash, hshared, hhash⟩
    have hlt : band < tables.length := by
      rw [h.length, ← h.width item row hrow]
      exact (List.getElem?_eq_some_iff.mp hshared).1
    have htable : tables[band]? = some tables[band] := List.getElem?_eq_getElem hlt
    refine ⟨(tables[band], hash), List.mem_of_getElem? (i := band) ?_, ?_⟩
    · exact List.getElem?_zip_eq_some.mpr ⟨htable, hhash⟩
    · rw [(h.table band _ htable).mem_iff, hashIn, hrow, Option.bind_some, hshared]

variable [DecidableEq ι]

/-- Filing the row of an item without one assigns it. -/
theorem RepresentsRows.addRow (h : RepresentsRows bands tables rows) (hwidth : row.length = bands)
    (hfresh : rows item = none) :
    RepresentsRows bands (addRow tables row item) (Function.update rows item (some row)) where
  length := by rw [Data.addRow, length_zipUpdate, h.length]
  width := by
    intro other otherRow hother
    by_cases heq : other = item
    · rw [heq, Function.update_self] at hother
      rwa [← Option.some.inj hother]
    · rw [Function.update_of_ne heq] at hother
      exact h.width other otherRow hother
  table := by
    intro band result hresult
    obtain ⟨table, hash, htable, hhash, rfl⟩ :=
      getElem?_zipUpdate (hwidth.trans h.length.symm) hresult
    have hitem : hashIn rows band item = none := by rw [hashIn, hfresh, Option.bind_none]
    have hpushed : Table.Represents (pushAt table hash item) _ :=
      (h.table band table htable).pushAt hitem
    convert hpushed using 1
    funext other
    by_cases heq : other = item
    · rw [heq, hashIn, Function.update_self, Function.update_self, Option.bind_some, hhash]
    · rw [hashIn, Function.update_of_ne heq, Function.update_of_ne heq, hashIn]

/-- Taking an item out of the buckets of its row, or of any row when it has none, leaves it
without a row. -/
theorem RepresentsRows.removeRow (h : RepresentsRows bands tables rows)
    (hwidth : row.length = bands) (hrow : rows item = none ∨ rows item = some row) :
    RepresentsRows bands (removeRow tables row item) (Function.update rows item none) where
  length := by rw [Data.removeRow, length_zipUpdate, h.length]
  width := by
    intro other otherRow hother
    by_cases heq : other = item
    · rw [heq, Function.update_self] at hother
      cases hother
    · rw [Function.update_of_ne heq] at hother
      exact h.width other otherRow hother
  table := by
    intro band result hresult
    obtain ⟨table, hash, htable, hhash, rfl⟩ :=
      getElem?_zipUpdate (hwidth.trans h.length.symm) hresult
    have hitem : hashIn rows band item = none ∨ hashIn rows band item = some hash := by
      rcases hrow with hnone | hsome
      · exact Or.inl (by rw [hashIn, hnone, Option.bind_none])
      · exact Or.inr (by rw [hashIn, hsome, Option.bind_some, hhash])
    have hkept := (h.table band table htable).retainAt hitem
    convert hkept using 1
    funext other
    by_cases heq : other = item
    · rw [heq, hashIn, Function.update_self, Function.update_self, Option.bind_none]
    · rw [hashIn, Function.update_of_ne heq, Function.update_of_ne heq, hashIn]

end Tables

end Data
