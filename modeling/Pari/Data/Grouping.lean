/-
# Grouping records by key

The values filed under a key are its fibre. A grouping of a list of records lists the
nonempty fibres in key order, and is determined by the fibres: filing records one by one
in a table and listing the table produces it, and so does any other procedure that ends
with ascending keys and the right values under each.
-/

import Pari.Data.BandTables

namespace Data

universe u v

variable {κ : Type u} [LinearOrder κ] {β : Type v}

/-- The values filed under a key, in order. -/
def fibre (records : List (κ × β)) (key : κ) : List β :=
  (records.filter fun record => record.1 = key).map Prod.snd

/-- The nonempty fibres in key order. -/
structure IsGrouping (records : List (κ × β)) (groups : List (κ × List β)) : Prop where
  ascending : Ascending (groups.map Prod.fst)
  mem_iff : ∀ (key : κ) (values : List β),
    (key, values) ∈ groups ↔ values = fibre records key ∧ values ≠ []

/-- File every record under its key. -/
def collectTable (records : List (κ × β)) : Table κ β :=
  records.foldl (fun table record => pushAt table record.1 record.2) ∅

section Fibres

variable {records : List (κ × β)} {key : κ} {value : β}

@[simp]
theorem fibre_nil (key : κ) : fibre ([] : List (κ × β)) key = [] := rfl

theorem fibre_cons (record : κ × β) (records : List (κ × β)) (key : κ) :
    fibre (record :: records) key =
      if record.1 = key then record.2 :: fibre records key else fibre records key := by
  rw [fibre, List.filter_cons]
  by_cases h : record.1 = key <;> simp [h, fibre]

theorem fibre_append (left right : List (κ × β)) (key : κ) :
    fibre (left ++ right) key = fibre left key ++ fibre right key := by
  rw [fibre, List.filter_append, List.map_append, fibre, fibre]

@[simp]
theorem mem_fibre_iff : value ∈ fibre records key ↔ (key, value) ∈ records := by
  rw [fibre, List.mem_map]
  constructor
  · rintro ⟨⟨other, _⟩, hmem, rfl⟩
    rw [List.mem_filter, decide_eq_true_eq] at hmem
    rw [← hmem.2]
    exact hmem.1
  · intro hmem
    exact ⟨(key, value), List.mem_filter.mpr ⟨hmem, by simp⟩, rfl⟩

theorem fibre_perm {left right : List (κ × β)} (h : left.Perm right) (key : κ) :
    (fibre left key).Perm (fibre right key) :=
  (h.filter _).map _

/-- A fibre of sorted records is sorted. -/
theorem pairwise_fibre {r : β → β → Prop} {records : List (κ × β)}
    (h : records.Pairwise fun left right => left.1 = right.1 → r left.2 right.2) (key : κ) :
    (fibre records key).Pairwise r := by
  rw [fibre, List.pairwise_map]
  refine (h.filter _).imp_of_mem ?_
  intro left right hleft hright himp
  rw [List.mem_filter, decide_eq_true_eq] at hleft hright
  exact himp (hleft.2.trans hright.2.symm)

/-- The fibres of distinct keys have no more values than there are records. -/
theorem sum_length_fibre_le (records : List (κ × β)) {keys : List κ} (h : keys.Nodup) :
    (keys.map fun key => (fibre records key).length).sum ≤ records.length := by
  induction keys generalizing records with
  | nil => exact Nat.zero_le _
  | cons key keys ih =>
      rw [List.nodup_cons] at h
      have hrest : ∀ other ∈ keys, (fibre records other).length =
          (fibre (records.filter fun record => ! decide (record.1 = key)) other).length := by
        intro other hother
        have hne : other ≠ key := fun heq => h.1 (heq ▸ hother)
        rw [fibre, fibre, List.filter_filter]
        congr 2
        refine List.filter_congr fun record _ => ?_
        by_cases heq : record.1 = other <;> simp [heq, hne]
      have hfirst : (fibre records key).length =
          (records.filter fun record => decide (record.1 = key)).length := List.length_map _
      have hsplit := List.length_eq_length_filter_add (l := records)
        fun record => decide (record.1 = key)
      rw [List.map_cons, List.sum_cons, List.map_congr_left hrest]
      have hle := ih (records.filter fun record => ! decide (record.1 = key)) h.2
      omega

end Fibres

/-- The grouping is determined by the fibres. -/
theorem IsGrouping.unique {left right : List (κ × β)} {groups groups' : List (κ × List β)}
    (h : IsGrouping left groups) (h' : IsGrouping right groups')
    (hfibre : ∀ key, fibre left key = fibre right key) : groups = groups' := by
  have hsame : ∀ entry, entry ∈ groups ↔ entry ∈ groups' := by
    rintro ⟨key, values⟩
    rw [h.mem_iff, h'.mem_iff, hfibre]
  have hpairwise : ∀ {records : List (κ × β)} {groups : List (κ × List β)},
      IsGrouping records groups → groups.Pairwise fun a b => a.1 < b.1 :=
    fun hgroups => List.pairwise_map.mp hgroups.ascending
  have hnodup : ∀ {list : List (κ × List β)}, (list.Pairwise fun a b => a.1 < b.1) →
      list.Nodup := fun hlist => hlist.imp fun hlt heq => absurd (congrArg Prod.fst heq) hlt.ne
  have hperm : groups.Perm groups' :=
    (List.perm_ext_iff_of_nodup (hnodup (hpairwise h)) (hnodup (hpairwise h'))).mpr hsame
  exact hperm.eq_of_pairwise (fun a b _ _ hab hba => absurd hab hba.asymm) (hpairwise h)
    (hpairwise h')

/-! ## Filing records in a table -/

/-- Filing records adds their fibres. -/
theorem getElem?_foldl_pushAt (records : List (κ × β)) (table : Table κ β) (key : κ) :
    (records.foldl (fun table record => pushAt table record.1 record.2) table)[key]?.getD [] =
      table[key]?.getD [] ++ fibre records key := by
  induction records generalizing table with
  | nil => simp
  | cons record records ih =>
      rw [List.foldl_cons, ih, pushAt, getElem?_alter, fibre_cons]
      by_cases h : record.1 = key
      · simp [h]
      · simp [h]

theorem foldl_pushAt_ne_nil {records : List (κ × β)} {table : Table κ β}
    (h : ∀ (key : κ) (values : List β), table[key]? = some values → values ≠ [])
    {key : κ} {values : List β} (hvalues :
      (records.foldl (fun table record => pushAt table record.1 record.2) table)[key]? =
        some values) : values ≠ [] := by
  induction records generalizing table with
  | nil => exact h key values hvalues
  | cons record records ih =>
      refine ih ?_ hvalues
      intro other otherValues hother
      simp only [pushAt, getElem?_alter] at hother
      split at hother
      · obtain rfl := Option.some.inj hother
        simp
      · exact h other otherValues hother

/-- The filed table holds the nonempty fibres. -/
theorem getElem?_collectTable {records : List (κ × β)} {key : κ} {values : List β} :
    (collectTable records)[key]? = some values ↔ values = fibre records key ∧ values ≠ [] := by
  have hfibre := getElem?_foldl_pushAt records (∅ : Table κ β) key
  simp only [Std.ExtTreeMap.getElem?_empty, Option.getD_none, List.nil_append] at hfibre
  constructor
  · intro h
    refine ⟨?_, foldl_pushAt_ne_nil (by simp) h⟩
    rw [collectTable] at h
    rw [h, Option.getD_some] at hfibre
    exact hfibre
  · rintro ⟨rfl, hne⟩
    rw [collectTable]
    cases hentry : (records.foldl (fun table record => pushAt table record.1 record.2)
        (∅ : Table κ β))[key]? with
    | none =>
        rw [hentry, Option.getD_none] at hfibre
        exact absurd hfibre.symm hne
    | some values =>
        rw [hentry, Option.getD_some] at hfibre
        rw [hfibre]

/-- Listing the filed table gives the grouping. -/
theorem isGrouping_collectTable (records : List (κ × β)) :
    IsGrouping records (collectTable records).toList where
  ascending := ascending_keys
  mem_iff := by
    intro key values
    rw [mem_toList_iff, getElem?_collectTable]

/-! ## Consecutive records -/

/-- Collect the values behind an open group until the key changes. -/
def groupFrom (key : κ) (values : List β) : List (κ × β) → List (κ × List β)
  | [] => [(key, values)]
  | record :: records =>
      if record.1 = key then groupFrom key (values ++ [record.2]) records
      else (key, values) :: groupFrom record.1 [record.2] records

/-- Group the records that follow each other with one key. -/
def groupConsecutive : List (κ × β) → List (κ × List β)
  | [] => []
  | record :: records => groupFrom record.1 [record.2] records

/-- A group of a new least key in front of a grouping. -/
theorem IsGrouping.cons {records : List (κ × β)} {groups : List (κ × List β)} {key : κ}
    {values : List β} (h : IsGrouping records groups) (hvalues : values ≠ [])
    (hleast : ∀ record ∈ records, key < record.1) :
    IsGrouping (values.map (Prod.mk key) ++ records) ((key, values) :: groups) where
  ascending := by
    rw [List.map_cons, Ascending, List.pairwise_cons]
    refine ⟨fun other hother => ?_, h.ascending⟩
    obtain ⟨⟨other, others⟩, hgroup, rfl⟩ := List.mem_map.mp hother
    obtain ⟨rfl, hne⟩ := (h.mem_iff other others).mp hgroup
    obtain ⟨value, hvalue⟩ := List.exists_mem_of_ne_nil _ hne
    exact hleast _ (mem_fibre_iff.mp hvalue)
  mem_iff := by
    intro other others
    have hnew : fibre (values.map (Prod.mk key)) other = if other = key then values else [] := by
      rw [fibre, List.filter_map, List.map_map]
      by_cases heq : other = key
      · simp [heq, Function.comp_def]
      · simp [heq, Ne.symm heq, Function.comp_def]
    have hold : fibre records key = [] := by
      apply List.eq_nil_iff_forall_not_mem.mpr
      intro value hvalue
      exact lt_irrefl key (hleast _ (mem_fibre_iff.mp hvalue))
    rw [List.mem_cons, h.mem_iff, fibre_append, hnew]
    by_cases heq : other = key
    · subst heq
      simp only [Prod.mk.injEq, true_and, hold, List.append_nil, if_true]
      constructor
      · rintro (rfl | ⟨rfl, hne⟩)
        · exact ⟨rfl, hvalues⟩
        · exact absurd rfl hne
      · exact fun hsame => Or.inl hsame.1
    · simp [heq]

/-- Grouping sorted records behind an open group. -/
theorem isGrouping_groupFrom {key : κ} {values : List β} {records : List (κ × β)}
    (hvalues : values ≠ []) (hleast : ∀ record ∈ records, key ≤ record.1)
    (hsorted : records.Pairwise fun left right => left.1 ≤ right.1) :
    IsGrouping (values.map (Prod.mk key) ++ records) (groupFrom key values records) := by
  have hempty : IsGrouping ([] : List (κ × β)) ([] : List (κ × List β)) :=
    ⟨List.Pairwise.nil, fun _ _ => by simp⟩
  induction records generalizing key values with
  | nil => exact hempty.cons hvalues (by simp)
  | cons record records ih =>
      rw [List.pairwise_cons] at hsorted
      rw [List.forall_mem_cons] at hleast
      rw [groupFrom]
      by_cases heq : record.1 = key
      · subst heq
        have hopen := @ih record.1 (values ++ [record.2]) (by simp) hleast.2 hsorted.2
        rw [List.map_append, List.append_assoc] at hopen
        rw [if_pos rfl]
        exact hopen
      · rw [if_neg heq]
        have hrest := @ih record.1 [record.2] (by simp) hsorted.1 hsorted.2
        refine IsGrouping.cons hrest hvalues fun other hother => ?_
        have hfirst : key < record.1 := lt_of_le_of_ne hleast.1 (Ne.symm heq)
        rcases List.mem_cons.mp hother with rfl | hother
        · exact hfirst
        · exact lt_of_lt_of_le hfirst (hsorted.1 other hother)

/-- Sorted records are grouped by grouping those that follow each other. -/
theorem isGrouping_groupConsecutive {records : List (κ × β)}
    (hsorted : records.Pairwise fun left right => left.1 ≤ right.1) :
    IsGrouping records (groupConsecutive records) := by
  cases records with
  | nil => exact ⟨List.Pairwise.nil, fun _ _ => by simp [groupConsecutive]⟩
  | cons record records =>
      rw [List.pairwise_cons] at hsorted
      exact isGrouping_groupFrom (List.cons_ne_nil record.2 []) hsorted.1 hsorted.2

theorem flatMap_groupFrom {key : κ} {values : List β} {records : List (κ × β)} :
    (groupFrom key values records).flatMap Prod.snd = values ++ records.map Prod.snd := by
  induction records generalizing key values with
  | nil => rw [groupFrom, List.flatMap_singleton]; exact (List.append_nil _).symm
  | cons record records ih =>
      rw [groupFrom]
      split
      · rw [ih, List.append_assoc]
        rfl
      · rw [List.flatMap_cons, ih]
        rfl

/-- Grouping keeps the values in order. -/
theorem flatMap_groupConsecutive {records : List (κ × β)} :
    (groupConsecutive records).flatMap Prod.snd = records.map Prod.snd := by
  cases records with
  | nil => rfl
  | cons record records => exact flatMap_groupFrom

end Data
