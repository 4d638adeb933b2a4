/-
# Observing an index

An index over a backend also keeps what its process observed: metrics of the queries since
observation was switched on, and the number of items as far as this handle knows. Neither
changes an answer. Over a conforming backend both are exact after every sequence of
operations on an index that was created: a book kept from the operations and their answers
alone gives the same totals.
-/

import Mathlib.Algebra.Order.BigOperators.Group.List
import Pari.Backend.Conforming

namespace Pari.Backend

open Data Data.Method Pari.Format Pari.Core Pari.Index

/-! ## The observed index -/

/-- An index over a backend with its process-local observations. -/
structure ObservedIndex32 (β : Type) extends BackendIndex32 β where
  queryMetrics : Option QueryMetrics
  knownItems : Option UInt64

/-- A method of an observed index. -/
abbrev ObservedMethod (β α : Type) := Method (ObservedIndex32 β) BackendIndexError α

/-- Backend statistics with the query metrics of the index. -/
structure ObservedStats extends BackendStats where
  queries : Option QueryMetrics
  deriving DecidableEq

variable {β : Type} [StorageBackend β]

namespace ObservedIndex32

/-- A new index knows that it has no items. -/
def create (tune : F64 → Nat → Except LshError LshParams) (threshold : F64) (numPerm : Nat)
    (seed : UInt64) (retention : Option Duration) :
    Method β BackendIndexError (ObservedIndex32 β) := do
  let index ← Backend.create tune threshold numPerm seed retention
  pure { index with queryMetrics := none, knownItems := some 0 }

def createWithParams (threshold : F64) (numPerm : Nat) (seed : UInt64) (params : LshParams)
    (retention : Option Duration) : Method β BackendIndexError (ObservedIndex32 β) := do
  let index ← Backend.createWithParams threshold numPerm seed params retention
  pure { index with queryMetrics := none, knownItems := some 0 }

/-- An opened index does not know how many items there are. -/
def openIndex : Method β BackendIndexError (ObservedIndex32 β) := do
  let index ← Backend.openIndex
  pure { index with queryMetrics := none, knownItems := none }

/-- A step of the index that touches no observation. -/
def onIndex {α : Type} (method : IndexMethod β α) : ObservedMethod β α := fun observed =>
  ((call observed.toBackendIndex32 method).1,
    { observed with toBackendIndex32 := (call observed.toBackendIndex32 method).2 })

/-- Change the number of known items, if it is known. -/
def adjustItems (change : UInt64 → UInt64) (observed : ObservedIndex32 β) : ObservedIndex32 β :=
  { observed with knownItems := observed.knownItems.map change }

/-- `saturating_sub`. -/
def saturatingSub (items : UInt64) (removed : Nat) : UInt64 := UInt64.ofNat (items.toNat - removed)

def insertMany (items : List (UInt64 × MinHash32)) : ObservedMethod β Unit := do
  onIndex (BackendIndex32.insertMany items)
  update (adjustItems fun known => saturatingAdd known (saturate items.length))

def insert (key : UInt64) (sketch : MinHash32) : ObservedMethod β Unit := insertMany [(key, sketch)]

/-- The observation of a batch of queries: what was found, and what could have been. -/
def observation (knownItems : Option UInt64) (answers : List (List UInt64)) (elapsed : Nat) :
    Observation where
  queries := answers.length
  candidates :=
    (answers.foldl (fun count keys => saturatingAdd count (saturate keys.length)) 0).toNat
  possibleCandidates :=
    (knownItems.elim 0 fun items => saturate (items.toNat * answers.length)).toNat
  elapsed := elapsed

/-- Record the answers of a batch, if observation is on. -/
def observe (answers : List (List UInt64)) (elapsed : Nat) (observed : ObservedIndex32 β) :
    ObservedIndex32 β :=
  let recorded (metrics : QueryMetrics) :=
    metrics.record (observation observed.knownItems answers elapsed)
  { observed with queryMetrics := observed.queryMetrics.map recorded }

/-- Query many signatures; an empty batch returns before it is recorded. -/
def queryMany (elapsed : Nat) (sketches : List MinHash32) :
    ObservedMethod β (List (List UInt64)) := do
  let answers ← onIndex (BackendIndex32.queryMany sketches)
  update fun observed => if sketches.isEmpty then observed else observed.observe answers elapsed
  pure answers

def query (elapsed : Nat) (sketch : MinHash32) : ObservedMethod β (List UInt64) := do
  let results ← queryMany elapsed [sketch]
  pure (results.getLast?.getD [])

def remove (key : UInt64) : ObservedMethod β Bool := do
  let removed ← onIndex (BackendIndex32.remove key)
  update fun observed => if removed then observed.adjustItems fun known => saturatingSub known 1
    else observed
  pure removed

def removeMany (keys : List UInt64) : ObservedMethod β Nat := do
  let removed ← onIndex (BackendIndex32.removeMany keys)
  update (adjustItems fun known => saturatingSub known removed)
  pure removed

def containsMany (keys : List UInt64) : ObservedMethod β (List Bool) :=
  onIndex (BackendIndex32.containsMany keys)

def contains (key : UInt64) : ObservedMethod β Bool := onIndex (BackendIndex32.contains key)

def flush : ObservedMethod β Unit := onIndex BackendIndex32.flush

def health : ObservedMethod β Unit := onIndex BackendIndex32.health

/-- The statistics of the backend also say how many items there are. -/
def stats : ObservedMethod β ObservedStats := do
  let stats ← onIndex BackendIndex32.stats
  update fun observed => { observed with knownItems := some stats.items }
  read fun observed => { stats with queries := observed.queryMetrics }

/-- Switching observation on starts new metrics, also when it was on. -/
def setObservability (enabled : Bool) : ObservedMethod β Unit :=
  update fun observed =>
    { observed with queryMetrics := if enabled then some .default else none }

omit [StorageBackend β] in
@[simp]
theorem call_onIndex {α : Type} (observed : ObservedIndex32 β) (method : IndexMethod β α) :
    call observed (onIndex method) = ((call observed.toBackendIndex32 method).1,
      { observed with toBackendIndex32 := (call observed.toBackendIndex32 method).2 }) := rfl

end ObservedIndex32

/-! ## Operations -/

/-- The operations on an observed index; those that query take time. -/
inductive ObservedOperation
  | index (operation : Operation) (elapsed : Nat)
  | flush
  | health
  | stats
  | setObservability (enabled : Bool)

inductive ObservedAnswer
  | plain (answer : Answer)
  | done
  | stats (stats : ObservedStats)
  deriving DecidableEq

def Operation.observed (elapsed : Nat) : Operation → ObservedMethod β Answer
  | .insertMany items => do
      ObservedIndex32.insertMany items
      pure .inserted
  | .remove key => do
      let existed ← ObservedIndex32.remove key
      pure (.removed existed)
  | .removeMany keys => do
      let count ← ObservedIndex32.removeMany keys
      pure (.removedMany count)
  | .containsMany keys => do
      let flags ← ObservedIndex32.containsMany keys
      pure (.present flags)
  | .query sketch => do
      let keys ← ObservedIndex32.query elapsed sketch
      pure (.candidates keys)
  | .queryMany sketches => do
      let answers ← ObservedIndex32.queryMany elapsed sketches
      pure (.candidateLists answers)

def ObservedOperation.run : ObservedOperation → ObservedMethod β ObservedAnswer
  | .index operation elapsed => do
      let answer ← operation.observed elapsed
      pure (.plain answer)
  | .flush => do
      ObservedIndex32.flush
      pure .done
  | .health => do
      ObservedIndex32.health
      pure .done
  | .stats => do
      let stats ← ObservedIndex32.stats
      pure (.stats stats)
  | .setObservability enabled => do
      ObservedIndex32.setObservability enabled
      pure .done

/-- The same operation on an index that keeps no observations. -/
def ObservedOperation.runUnobserved : ObservedOperation → IndexMethod β ObservedAnswer
  | .index operation _ => do
      let answer ← operation.run
      pure (.plain answer)
  | .flush => do
      BackendIndex32.flush
      pure .done
  | .health => do
      BackendIndex32.health
      pure .done
  | .stats => do
      let stats ← BackendIndex32.stats
      pure (.stats { stats with queries := none })
  | .setObservability _ => pure .done

/-- An answer without its query metrics. -/
def ObservedAnswer.unobserved : ObservedAnswer → ObservedAnswer
  | .plain answer => .plain answer
  | .done => .done
  | .stats observed => .stats { observed with queries := none }

def observedAnswers (observed : ObservedIndex32 β) :
    List ObservedOperation → List (Except BackendIndexError ObservedAnswer)
  | [] => []
  | operation :: operations => (call observed operation.run).1 ::
      observedAnswers (call observed operation.run).2 operations

def observedAfter (observed : ObservedIndex32 β) : List ObservedOperation → ObservedIndex32 β
  | [] => observed
  | operation :: operations => observedAfter (call observed operation.run).2 operations

def unobservedAnswers (index : BackendIndex32 β) :
    List ObservedOperation → List (Except BackendIndexError ObservedAnswer)
  | [] => []
  | operation :: operations => (call index operation.runUnobserved).1 ::
      unobservedAnswers (call index operation.runUnobserved).2 operations

/-! ## Observing changes no answer -/

section Transparency

/-- What is left of an observed index without its observations. -/
abbrev plainIndex (observed : ObservedIndex32 β) : BackendIndex32 β := observed.toBackendIndex32

omit [StorageBackend β] in
theorem shadows_onIndex {α : Type} (method : IndexMethod β α) :
    Shadows plainIndex id (ObservedIndex32.onIndex method) method := by
  intro observed
  rw [ObservedIndex32.call_onIndex, Except.map_id]
  exact ⟨rfl, rfl⟩

theorem shadows_queryMany (elapsed : Nat) (sketches : List MinHash32) :
    Shadows plainIndex id (ObservedIndex32.queryMany elapsed sketches)
      (BackendIndex32.queryMany sketches : IndexMethod β (List (List UInt64))) := by
  refine (shadows_onIndex _).andUpdate fun answers observed => ?_
  split
  · rfl
  · rfl

theorem shadows_observed (operation : Operation) (elapsed : Nat) :
    Shadows plainIndex id (operation.observed elapsed : ObservedMethod β Answer) operation.run := by
  cases operation with
  | insertMany items =>
      have hinsert : Shadows plainIndex id (ObservedIndex32.insertMany items)
          (BackendIndex32.insertMany items : IndexMethod β Unit) :=
        (shadows_onIndex _).andUpdate fun _ _ => rfl
      exact hinsert.bind _ fun _ _ => ⟨rfl, rfl⟩
  | remove key =>
      have hremove : Shadows plainIndex id (ObservedIndex32.remove key)
          (BackendIndex32.remove key : IndexMethod β Bool) := by
        refine (shadows_onIndex _).andUpdate fun removed observed => ?_
        split
        · rfl
        · rfl
      exact hremove.bind _ fun _ _ => ⟨rfl, rfl⟩
  | removeMany keys =>
      have hremove : Shadows plainIndex id (ObservedIndex32.removeMany keys)
          (BackendIndex32.removeMany keys : IndexMethod β Nat) :=
        (shadows_onIndex _).andUpdate fun _ _ => rfl
      exact hremove.bind _ fun _ _ => ⟨rfl, rfl⟩
  | containsMany keys => exact (shadows_onIndex _).bind _ fun _ _ => ⟨rfl, rfl⟩
  | query sketch =>
      have hquery : Shadows plainIndex id (ObservedIndex32.query elapsed sketch)
          (BackendIndex32.query sketch : IndexMethod β (List UInt64)) :=
        (shadows_queryMany elapsed [sketch]).bind _ fun _ _ => ⟨rfl, rfl⟩
      exact hquery.bind _ fun _ _ => ⟨rfl, rfl⟩
  | queryMany sketches => exact (shadows_queryMany elapsed sketches).bind _ fun _ _ => ⟨rfl, rfl⟩

theorem shadows_run (operation : ObservedOperation) :
    Shadows plainIndex ObservedAnswer.unobserved
      (operation.run : ObservedMethod β ObservedAnswer) operation.runUnobserved := by
  cases operation with
  | index operation elapsed =>
      exact (shadows_observed operation elapsed).bind _ fun _ _ => ⟨rfl, rfl⟩
  | flush => exact (shadows_onIndex _).bind _ fun _ _ => ⟨rfl, rfl⟩
  | health => exact (shadows_onIndex _).bind _ fun _ _ => ⟨rfl, rfl⟩
  | stats =>
      have hstats : Shadows plainIndex ObservedStats.toBackendStats
          ObservedIndex32.stats (BackendIndex32.stats >>= pure : IndexMethod β BackendStats) :=
        (shadows_onIndex _).bind _ fun _ _ => ⟨rfl, rfl⟩
      rw [bind_pure] at hstats
      exact hstats.bind _ fun _ _ => ⟨rfl, rfl⟩
  | setObservability enabled =>
      intro observed
      exact ⟨rfl, rfl⟩

/-- The answers are those of an index that is not observed, over any backend. -/
theorem unobserved_answers (observed : ObservedIndex32 β) (operations : List ObservedOperation) :
    (observedAnswers observed operations).map (Except.map ObservedAnswer.unobserved) =
      unobservedAnswers observed.toBackendIndex32 operations := by
  induction operations generalizing observed with
  | nil => rfl
  | cons operation operations ih =>
      have hstep := shadows_run operation observed
      rw [observedAnswers, List.map_cons, unobservedAnswers, ih, hstep.1]
      exact congrArg (fun index => _ :: unobservedAnswers index operations) hstep.2

end Transparency

/-! ## The book -/

/-- What the operations and their answers say: the live items, and what was observed since
observation was switched on. -/
structure Book where
  items : List (UInt64 × List UInt64)
  log : Option (List Observation)

namespace Book

def empty : Book := ⟨[], none⟩

def forget (book : Book) (keys : List UInt64) : Book :=
  { book with items := book.items.filter fun item => !keys.contains item.1 }

/-- A batch of queries may find every live item for each of its sketches. -/
def note (book : Book) (answers : List (List UInt64)) (elapsed : Nat) : Book :=
  let observation : Observation :=
    { queries := answers.length
      candidates := (answers.map List.length).sum
      possibleCandidates := book.items.length * answers.length
      elapsed := elapsed }
  { book with log := book.log.map fun log => log ++ [observation] }

/-- Enter one operation with its answer. -/
def enter (config : LshConfig) (book : Book) :
    ObservedOperation → Except BackendIndexError ObservedAnswer → Book
  | .index (.insertMany items) _, .ok _ => { book with items := book.items ++ config.rowsOf items }
  | .index (.remove key) _, .ok _ => book.forget [key]
  | .index (.removeMany keys) _, .ok _ => book.forget keys
  | .index (.query _) elapsed, .ok (.plain (.candidates keys)) => book.note [keys] elapsed
  | .index (.queryMany _) elapsed, .ok (.plain (.candidateLists answers)) =>
      if answers.isEmpty then book else book.note answers elapsed
  | .setObservability enabled, _ => { book with log := if enabled then some [] else none }
  | _, _ => book

end Book

/-- The book of a sequence of operations. -/
def bookAfter (config : LshConfig) (book : Book) (observed : ObservedIndex32 β) :
    List ObservedOperation → Book
  | [] => book
  | operation :: operations =>
      bookAfter config (book.enter config operation (call observed operation.run).1)
        (call observed operation.run).2 operations

/-- The items an operation asks to insert. -/
def ObservedOperation.requested : ObservedOperation → Nat
  | .index (.insertMany items) _ => items.length
  | _ => 0

/-! ## Keeping the book -/

section Tracking

omit [StorageBackend β]

variable {Keeps : β → IndexDescriptor → Rows → Prop} {observed : ObservedIndex32 β} {book : Book}

/-- The index holds the items of the book and has observed what it says. -/
structure Tracks (Keeps : β → IndexDescriptor → Rows → Prop) (observed : ObservedIndex32 β)
    (book : Book) : Prop where
  keeps : ∃ rows, Keeps observed.backend observed.descriptor rows ∧ Enumerates book.items rows
  known : observed.knownItems.map UInt64.toNat = some book.items.length
  metrics : observed.queryMetrics = book.log.map QueryMetrics.totals
  bounded : ∀ log, book.log = some log →
    ∀ observation ∈ log, observation.candidates ≤ observation.possibleCandidates

/-- Only saturated counts are recorded. -/
theorem record_observation {metrics : QueryMetrics} {known : UInt64} {items : Nat}
    (hknown : known.toNat = items) (answers : List (List UInt64)) (elapsed : Nat) :
    metrics.record (ObservedIndex32.observation (some known) answers elapsed) =
      metrics.record
        { queries := answers.length
          candidates := (answers.map List.length).sum
          possibleCandidates := items * answers.length
          elapsed := elapsed } := by
  simp only [QueryMetrics.record, ObservedIndex32.observation, foldl_saturatingAdd_lengths,
    Option.elim_some, saturate_toNat, hknown]

/-- A query finds no more than the live items. -/
theorem Finds.length_le {rows : Rows} {hashes keys : List UInt64} (h : Finds rows hashes keys)
    {items : List (UInt64 × List UInt64)} (hitems : Enumerates items rows) :
    keys.length ≤ items.length := by
  have hlive : keys ⊆ items.map Prod.fst := by
    intro key hkey
    obtain ⟨row, hrow, _⟩ := (h.mem_iff key).mp hkey
    exact List.mem_map.mpr ⟨(key, row), (hitems.mem_iff key row).mpr hrow, rfl⟩
  have hle := (List.subperm_of_subset h.ascending.nodup hlive).length_le
  rwa [List.length_map] at hle

/-- No more was found than was possible. -/
theorem Tracks.candidates_le (h : Tracks Keeps observed book) {log : List Observation}
    (hlog : book.log = some log) :
    (QueryMetrics.totals log).candidates ≤ (QueryMetrics.totals log).possibleCandidates := by
  refine saturate_mono ?_
  exact List.sum_le_sum fun observation hmem => h.bounded log hlog observation hmem

/-- Another backend state with the same rows. -/
theorem Tracks.replace (h : Tracks Keeps observed book) {backend : β} {rows : Rows}
    (hkeeps : Keeps backend observed.descriptor rows) (hitems : Enumerates book.items rows) :
    Tracks Keeps { observed with backend := backend } book :=
  ⟨⟨rows, hkeeps, hitems⟩, h.known, h.metrics, h.bounded⟩

theorem Tracks.observe (h : Tracks Keeps observed book) {answers : List (List UInt64)}
    (hanswers : ∀ keys ∈ answers, keys.length ≤ book.items.length) (elapsed : Nat) :
    Tracks Keeps (observed.observe answers elapsed) (book.note answers elapsed) := by
  obtain ⟨known, hknown, hcount⟩ := Option.map_eq_some_iff.mp h.known
  refine ⟨h.keeps, h.known, ?_, ?_⟩
  · show observed.queryMetrics.map _ = _
    rw [Book.note, Option.map_map, h.metrics, Option.map_map, hknown]
    refine Option.map_congr fun log _ => ?_
    exact (record_observation hcount answers elapsed).trans (QueryMetrics.record_totals log _)
  · intro log hlog
    obtain ⟨old, hold, rfl⟩ := Option.map_eq_some_iff.mp hlog
    intro observation hmem
    rcases List.mem_append.mp hmem with hmem | hmem
    · exact h.bounded old hold observation hmem
    · rw [List.mem_singleton.mp hmem]
      exact sum_lengths_le hanswers

/-- Items are forgotten and no longer counted. -/
theorem Tracks.forget (h : Tracks Keeps observed book) {rows : Rows} {backend : β}
    (hitems : Enumerates book.items rows) (keys : List UInt64)
    (hkeeps : Keeps backend observed.descriptor (deleteRows rows keys).2) :
    Tracks Keeps (({ observed with backend := backend } : ObservedIndex32 β).adjustItems fun known =>
      ObservedIndex32.saturatingSub known (deleteRows rows keys).1) (book.forget keys) := by
  obtain ⟨known, hknown, hcount⟩ := Option.map_eq_some_iff.mp h.known
  have hlength := length_deleteRows hitems keys
  refine ⟨⟨_, hkeeps, enumerates_deleteRows hitems keys⟩, ?_, h.metrics, h.bounded⟩
  have hlt : book.items.length - (deleteRows rows keys).1 < 2 ^ 64 :=
    (Nat.sub_le _ _).trans_lt (hcount ▸ known.toNat_lt)
  show (observed.knownItems.map _).map UInt64.toNat = some (book.forget keys).items.length
  rw [hknown, Option.map_some, Option.map_some, ObservedIndex32.saturatingSub, hcount,
    UInt64.toNat_ofNat_of_lt' hlt, ← hlength, Nat.add_sub_cancel_left]
  rfl

/-- Items are stored and counted. -/
theorem Tracks.store (h : Tracks Keeps observed book) {rows : Rows} {backend : β}
    (hitems : Enumerates book.items rows) {added : List (UInt64 × List UInt64)} {bands : Nat}
    (hbatch : FreshBatch bands rows added)
    (hkeeps : Keeps backend observed.descriptor (insertRows rows added))
    (hroom : book.items.length + added.length < 2 ^ 64) :
    Tracks Keeps (({ observed with backend := backend } : ObservedIndex32 β).adjustItems fun known =>
      saturatingAdd known (saturate added.length)) { book with items := book.items ++ added } := by
  obtain ⟨known, hknown, hcount⟩ := Option.map_eq_some_iff.mp h.known
  refine ⟨⟨_, hkeeps, enumerates_insertRows hitems hbatch⟩, ?_, h.metrics, h.bounded⟩
  show (observed.knownItems.map _).map UInt64.toNat = _
  rw [hknown, Option.map_some, Option.map_some, saturatingAdd, hcount, toNat_saturate,
    toNat_saturate, List.length_append]
  congr 1
  omega

end Tracking

/-! ## What the methods do to the book -/

section Methods

variable {Keeps : β → IndexDescriptor → Rows → Prop} {observed : ObservedIndex32 β} {book : Book}
  {rows : Rows}

/-- A later state of an index, and its book. -/
structure Follows (Keeps : β → IndexDescriptor → Rows → Prop) (observed observed' : ObservedIndex32 β)
    (book : Book) : Prop where
  tracks : Tracks Keeps observed' book
  descriptor : observed'.descriptor = observed.descriptor

omit [StorageBackend β] in
/-- The items of the book determine the rows. -/
theorem Tracks.keepsRows (h : Tracks Keeps observed book) (hitems : Enumerates book.items rows) :
    observed.toBackendIndex32.KeepsRows Keeps rows := by
  obtain ⟨others, hkeeps, hothers⟩ := h.keeps
  exact hothers.unique hitems ▸ hkeeps

omit [StorageBackend β] in
theorem call_onIndex_eq {α : Type} {method : IndexMethod β α} {result : Except BackendIndexError α}
    {backend : β} (h : call observed.toBackendIndex32 method =
      (result, { observed.toBackendIndex32 with backend := backend })) :
    call observed (ObservedIndex32.onIndex method) = (result, { observed with backend := backend }) := by
  rw [ObservedIndex32.call_onIndex, h]

theorem Tracks.ensures_insertMany (lawful : Lawful Keeps) (h : Tracks Keeps observed book)
    (hrows : Enumerates book.items rows) {items : List (UInt64 × MinHash32)}
    (hitems : Acceptable observed.descriptor.toLshConfig rows items)
    (hroom : book.items.length + items.length < 2 ^ 64) :
    Ensures observed (ObservedIndex32.insertMany items) fun _ observed' =>
      Follows Keeps observed observed'
        { book with items := book.items ++ observed.descriptor.toLshConfig.rowsOf items } := by
  obtain ⟨backend', hrun, hstored⟩ := lawful.insertMany_of_acceptable (h.keepsRows hrows) hitems
  have hlength : (observed.descriptor.toLshConfig.rowsOf items).length = items.length :=
    List.length_map _
  have hstore := h.store hrows hitems.freshBatch hstored (hlength.symm ▸ hroom)
  rw [hlength] at hstore
  refine ⟨(), _, ?_, hstore, rfl⟩
  rw [ObservedIndex32.insertMany, call_bind_ok (call_onIndex_eq hrun), call_update]

theorem Tracks.call_insertMany_error (lawful : Lawful Keeps) (h : Tracks Keeps observed book)
    (hrows : Enumerates book.items rows) {items : List (UInt64 × MinHash32)}
    (hitems : ¬ Acceptable observed.descriptor.toLshConfig rows items) :
    ∃ error observed', call observed (ObservedIndex32.insertMany items) =
        (.error error, observed') ∧ Follows Keeps observed observed' book := by
  obtain ⟨error, backend', hrun, hstill⟩ :=
    lawful.insertMany_of_not_acceptable (h.keepsRows hrows) hitems
  exact ⟨error, _, call_bind_error (call_onIndex_eq hrun), h.replace hstill hrows, rfl⟩

theorem Tracks.ensures_remove (lawful : Lawful Keeps) (h : Tracks Keeps observed book)
    (hrows : Enumerates book.items rows) (key : UInt64) :
    Ensures observed (ObservedIndex32.remove key) fun existed observed' =>
      existed = (rows key).isSome ∧ Follows Keeps observed observed' (book.forget [key]) := by
  obtain ⟨backend', hrun, hremoved⟩ := lawful.remove (h.keepsRows hrows) key
  have hforgotten := h.forget hrows [key] hremoved
  have hadjusted : (if (rows key).isSome then ({ observed with backend := backend' } :
        ObservedIndex32 β).adjustItems fun known => ObservedIndex32.saturatingSub known 1
      else { observed with backend := backend' }) =
      ({ observed with backend := backend' } : ObservedIndex32 β).adjustItems fun known =>
        ObservedIndex32.saturatingSub known (deleteRows rows [key]).1 := by
    cases hlive : (rows key).isSome with
    | true => simp [deleteRows, hlive]
    | false =>
        have hsame : (fun known => ObservedIndex32.saturatingSub known 0) = id := by
          funext known
          exact UInt64.ofNat_toNat
        simp [deleteRows, hlive, ObservedIndex32.adjustItems, hsame]
  rw [← hadjusted] at hforgotten
  refine .intro ?_ ⟨rfl, hforgotten, ?_⟩
  · rw [ObservedIndex32.remove, call_bind_ok (call_onIndex_eq hrun), call_update_bind, call_pure]
  · split
    · rfl
    · rfl

theorem Tracks.ensures_removeMany (lawful : Lawful Keeps) (h : Tracks Keeps observed book)
    (hrows : Enumerates book.items rows) (keys : List UInt64) :
    Ensures observed (ObservedIndex32.removeMany keys) fun count observed' =>
      count = (deleteRows rows keys).1 ∧ Follows Keeps observed observed' (book.forget keys) := by
  obtain ⟨backend', hrun, hremoved⟩ := lawful.removeMany (h.keepsRows hrows) keys
  refine .intro ?_ ⟨rfl, h.forget hrows keys hremoved, rfl⟩
  rw [ObservedIndex32.removeMany, call_bind_ok (call_onIndex_eq hrun), call_update_bind, call_pure]

theorem Tracks.ensures_containsMany (lawful : Lawful Keeps) (h : Tracks Keeps observed book)
    (hrows : Enumerates book.items rows) (keys : List UInt64) :
    Ensures observed (ObservedIndex32.containsMany keys) fun flags observed' =>
      flags = keys.map (fun key => (rows key).isSome) ∧ Follows Keeps observed observed' book := by
  obtain ⟨backend', hrun, hstill⟩ := lawful.index_containsMany (h.keepsRows hrows) keys
  exact .intro (call_onIndex_eq hrun) ⟨rfl, h.replace hstill hrows, rfl⟩

/-- A batch of queries with a sketch that does not fit changes nothing. -/
theorem call_queryMany_error {sketches : List MinHash32} {error : BackendIndexError}
    (h : sketches.mapM (sketchHashes observed.descriptor) = .error error) (elapsed : Nat) :
    call observed (ObservedIndex32.queryMany elapsed sketches) = (.error error, observed) :=
  call_bind_error (call_onIndex_eq (queryMany_of_error h))

/-- Any other batch is answered and noted. -/
theorem Tracks.ensures_queryMany (lawful : Lawful Keeps) (h : Tracks Keeps observed book)
    (hrows : Enumerates book.items rows) {sketches : List MinHash32}
    (hsketches : ∀ sketch ∈ sketches, observed.descriptor.toLshConfig.Compatible sketch)
    (elapsed : Nat) :
    Ensures observed (ObservedIndex32.queryMany elapsed sketches) fun answers observed' =>
      List.Forall₂ (fun (sketch : MinHash32) keys =>
        Finds rows (computeBandHashes observed.descriptor.params sketch.signature) keys)
        sketches answers ∧
      Follows Keeps observed observed'
        (if answers.isEmpty then book else book.note answers elapsed) := by
  obtain ⟨answers, backend', hrun, hfinds, hstill⟩ :=
    lawful.queryMany_of_compatible (h.keepsRows hrows) hsketches
  have hempty : answers.isEmpty = sketches.isEmpty := by
    rw [Bool.eq_iff_iff, List.isEmpty_iff_length_eq_zero, List.isEmpty_iff_length_eq_zero,
      hfinds.length_eq]
  have hcall : call observed (ObservedIndex32.queryMany elapsed sketches) =
      (.ok answers, if sketches.isEmpty then { observed with backend := backend' }
        else ({ observed with backend := backend' } : ObservedIndex32 β).observe answers elapsed) := by
    rw [ObservedIndex32.queryMany, call_bind_ok (call_onIndex_eq hrun), call_update_bind, call_pure]
  refine .intro hcall ⟨hfinds, ?_⟩
  rw [hempty]
  split
  · exact ⟨h.replace hstill hrows, rfl⟩
  · refine ⟨(h.replace hstill hrows).observe (fun keys hmem => ?_) elapsed, rfl⟩
    obtain ⟨sketch, _, hfound⟩ := exists_left_of_forall₂ hfinds hmem
    exact hfound.length_le hrows

theorem Tracks.ensures_query (lawful : Lawful Keeps) (h : Tracks Keeps observed book)
    (hrows : Enumerates book.items rows) {sketch : MinHash32}
    (hsketch : observed.descriptor.toLshConfig.Compatible sketch) (elapsed : Nat) :
    Ensures observed (ObservedIndex32.query elapsed sketch) fun keys observed' =>
      Finds rows (computeBandHashes observed.descriptor.params sketch.signature) keys ∧
        Follows Keeps observed observed' (book.note [keys] elapsed) := by
  refine (h.ensures_queryMany lawful hrows (List.forall_mem_singleton.mpr hsketch) elapsed).bind
    fun answers observed' hanswers => ?_
  obtain ⟨hfinds, hfollows⟩ := hanswers
  obtain ⟨keys, _, hkeys, hnil, rfl⟩ := List.forall₂_cons_left_iff.mp hfinds
  cases hnil
  exact .pure ⟨hkeys, hfollows⟩

end Methods

/-! ## Every operation keeps the book -/

section Steps

variable {offered : BackendCapabilities} {Fresh : β → Prop}
  {Keeps : β → IndexDescriptor → Rows → Prop} {observed : ObservedIndex32 β} {book : Book}
  {rows : Rows}

theorem Tracks.ensures_flush (conforming : Conforming offered Fresh Keeps)
    (h : Tracks Keeps observed book) (hrows : Enumerates book.items rows) :
    Ensures observed (ObservedIndex32.flush : ObservedMethod β Unit) fun _ observed' =>
      Follows Keeps observed observed' book := by
  obtain ⟨_, backend', hrun, hstill⟩ := conforming.flush (h.keepsRows hrows)
  have hinner : call observed.toBackendIndex32 BackendIndex32.flush =
      (.ok (), { observed.toBackendIndex32 with backend := backend' }) := by
    rw [BackendIndex32.flush, call_onBackend, hrun]
    rfl
  exact .intro (call_onIndex_eq hinner) ⟨h.replace hstill hrows, rfl⟩

theorem Tracks.ensures_health (conforming : Conforming offered Fresh Keeps)
    (h : Tracks Keeps observed book) (hrows : Enumerates book.items rows) :
    Ensures observed (ObservedIndex32.health : ObservedMethod β Unit) fun _ observed' =>
      Follows Keeps observed observed' book := by
  obtain ⟨_, backend', hrun, hstill⟩ := conforming.health (h.keepsRows hrows)
  have hinner : call observed.toBackendIndex32 BackendIndex32.health =
      (.ok (), { observed.toBackendIndex32 with backend := backend' }) := by
    rw [BackendIndex32.health, call_onBackend, hrun]
    rfl
  exact .intro (call_onIndex_eq hinner) ⟨h.replace hstill hrows, rfl⟩

/-- The statistics count the items of the book and report its metrics; they fail only where a
count does not fit its word. -/
theorem Tracks.stats_cases (conforming : Conforming offered Fresh Keeps)
    (h : Tracks Keeps observed book) (hrows : Enumerates book.items rows) :
    ∃ result observed', call observed (ObservedIndex32.stats : ObservedMethod β ObservedStats) =
        (result, observed') ∧ Follows Keeps observed observed' book ∧
      (∀ stats, result = .ok stats → CountsItems stats.toBackendStats observed.descriptor book.items ∧
        stats.queries = book.log.map QueryMetrics.totals) ∧
      (book.items.length * observed.descriptor.params.bands < 2 ^ 64 →
        ∃ stats, result = .ok stats) := by
  obtain ⟨result, backend', hrun, hstill, hcounts, hfits⟩ :=
    conforming.stats (h.keepsRows hrows) hrows
  have hinner : call observed.toBackendIndex32 BackendIndex32.stats =
      (result.mapError .backend, { observed.toBackendIndex32 with backend := backend' }) := by
    rw [BackendIndex32.stats, call_onBackend, hrun]
  cases result with
  | error error =>
      refine ⟨_, _, call_bind_error (call_onIndex_eq hinner), ⟨h.replace hstill hrows, rfl⟩,
        fun stats hstats => ?_, fun hlt => ?_⟩
      · cases hstats
      · obtain ⟨stats, hstats⟩ := hfits hlt
        cases hstats
  | ok stats =>
      refine ⟨.ok { stats with queries := observed.queryMetrics },
        { observed with backend := backend', knownItems := some stats.items }, ?_,
        ⟨⟨⟨rows, hstill, hrows⟩, congrArg some (hcounts stats rfl).items, h.metrics, h.bounded⟩,
          rfl⟩, fun stats' hstats => ?_, fun _ => ⟨_, rfl⟩⟩
      · rw [ObservedIndex32.stats, call_bind_ok (call_onIndex_eq hinner), call_update_bind, call_read]
      · cases hstats
        exact ⟨hcounts stats rfl, h.metrics⟩

omit [StorageBackend β] in
theorem Tracks.setObservability (h : Tracks Keeps observed book) (enabled : Bool) :
    Ensures observed (ObservedIndex32.setObservability enabled : ObservedMethod β Unit)
      fun _ observed' => Follows Keeps observed observed'
        { book with log := if enabled then some [] else none } := by
  refine .update ⟨⟨h.keeps, h.known, ?_, ?_⟩, rfl⟩
  · cases enabled with
    | true => rfl
    | false => rfl
  · intro log hlog observation hmem
    change (if enabled then some [] else none) = some log at hlog
    split at hlog
    · obtain rfl := Option.some.inj hlog
      cases hmem
    · cases hlog

theorem Tracks.ensures_contains {observed : ObservedIndex32 β} (lawful : Lawful Keeps)
    (h : Tracks Keeps observed book) (hrows : Enumerates book.items rows) (key : UInt64) :
    Ensures observed (ObservedIndex32.contains key) fun present observed' =>
      present = (rows key).isSome ∧ Follows Keeps observed observed' book := by
  obtain ⟨backend', hrun, hstill⟩ := lawful.index_containsMany (h.keepsRows hrows) [key]
  have hcontains : call observed.toBackendIndex32 (BackendIndex32.contains key) =
      (.ok (rows key).isSome, { observed.toBackendIndex32 with backend := backend' }) := by
    rw [BackendIndex32.contains, call_bind_ok hrun]
    rfl
  exact .intro (call_onIndex_eq hcontains) ⟨rfl, h.replace hstill hrows, rfl⟩

/-- A prepared batch with a stored key is refused for a key that clashes. -/
theorem Tracks.call_insertMany_duplicate {observed : ObservedIndex32 β}
    (conforming : Conforming offered Fresh Keeps) (h : Tracks Keeps observed book)
    (hrows : Enumerates book.items rows) {items : List (UInt64 × MinHash32)}
    (hdistinct : (items.map Prod.fst).Nodup)
    (hcompatible : ∀ item ∈ items, observed.descriptor.toLshConfig.Compatible item.2)
    (hstale : ¬ Acceptable observed.descriptor.toLshConfig rows items) :
    ∃ key observed', Clashes rows (storedItems observed.descriptor items) key ∧
      call observed (ObservedIndex32.insertMany items) =
        (.error (.backend (.duplicateKey key)), observed') ∧
      Follows Keeps observed observed' book := by
  obtain ⟨error, observed', hrun, hfollows⟩ :=
    h.call_insertMany_error conforming.lawful hrows hstale
  have hprepared := prepareItems_eq_ok_iff.mpr
    ⟨(by simp : ∀ item ∈ items, item.1 ∉ (∅ : OrderedSet UInt64)), hdistinct, hcompatible, rfl⟩
  have hwidth : ∀ item ∈ storedItems observed.descriptor items,
      item.bandHashes.length = observed.descriptor.params.bands := by
    intro item hmem
    obtain ⟨source, hsource, rfl⟩ := List.mem_map.mp hmem
    exact (hcompatible source hsource).length_bandHashes
  have hbatch : ¬ FreshBatch observed.descriptor.params.bands rows
      (rowsOfItems (storedItems observed.descriptor items)) := by
    rw [rowsOfItems_storedItems]
    exact fun hbatch => hstale ⟨fun item hmem => hbatch.fresh _ (List.mem_map_of_mem hmem),
      hdistinct, hcompatible⟩
  obtain ⟨key, hclashes, hfails⟩ := conforming.duplicateKey (h.keepsRows hrows) _ hwidth hbatch
  have hbackend : (call observed.toBackendIndex32 (BackendIndex32.insertMany items)).1 =
      .error (.backend (.duplicateKey key)) := by
    rw [BackendIndex32.insertMany, call_read_bind, hprepared, call_lift_ok_bind, call_onBackend,
      hfails]
    rfl
  have hfailed : Fails observed (ObservedIndex32.insertMany items)
      (.backend (.duplicateKey key)) := by
    refine Fails.bind ?_
    rw [Fails, ObservedIndex32.call_onIndex, hbackend]
  rw [Fails, hrun] at hfailed
  obtain rfl := Except.error.inj hfailed
  exact ⟨key, observed', hclashes, hrun, hfollows⟩

/-- The book after an operation, and the index it leaves. -/
abbrev Entered (Keeps : β → IndexDescriptor → Rows → Prop) (observed : ObservedIndex32 β)
    (book : Book) (operation : ObservedOperation) : Prop :=
  Follows Keeps observed (call observed operation.run).2
    (book.enter observed.descriptor.toLshConfig operation (call observed operation.run).1)

/-- An operation answers what its method returned. -/
theorem call_run {α : Type} {operation : Operation} {elapsed : Nat} {method : ObservedMethod β α}
    {wrap : α → Answer} {value : α} {observed' : ObservedIndex32 β}
    (hoperation : operation.observed elapsed = method >>= fun value => pure (wrap value))
    (h : call observed method = (.ok value, observed')) :
    call observed (ObservedOperation.index operation elapsed).run =
      (.ok (.plain (wrap value)), observed') := by
  have hobserved : call observed (operation.observed elapsed) = (.ok (wrap value), observed') := by
    rw [hoperation, call_bind_ok h, call_pure]
  rw [ObservedOperation.run, call_bind_ok hobserved, call_pure]

/-- Every operation on the index keeps the book, as long as the items can be counted. -/
theorem Tracks.step_index (lawful : Lawful Keeps) (h : Tracks Keeps observed book)
    (operation : Operation) (elapsed : Nat)
    (hroom : book.items.length + (ObservedOperation.index operation elapsed).requested < 2 ^ 64) :
    Entered Keeps observed book (.index operation elapsed) := by
  obtain ⟨rows, _, hrows⟩ := h.keeps
  cases operation with
  | insertMany items =>
      by_cases hitems : Acceptable observed.descriptor.toLshConfig rows items
      · obtain ⟨_, observed', hrun, hfollows⟩ := h.ensures_insertMany lawful hrows hitems hroom
        have hoperation : (Operation.insertMany items).observed elapsed =
            (ObservedIndex32.insertMany items >>= fun _ => pure .inserted :
              ObservedMethod β Answer) := rfl
        rw [Entered, call_run hoperation hrun]
        exact hfollows
      · obtain ⟨error, observed', hrun, hfollows⟩ := h.call_insertMany_error lawful hrows hitems
        have hcall : call observed (ObservedOperation.index (.insertMany items) elapsed).run =
            (.error error, observed') := call_bind_error (call_bind_error hrun)
        rw [Entered, hcall]
        exact hfollows
  | remove key =>
      obtain ⟨existed, observed', hrun, _, hfollows⟩ := h.ensures_remove lawful hrows key
      have hcall : call observed (ObservedOperation.index (.remove key) elapsed).run =
          (.ok (.plain (.removed existed)), observed') := call_run rfl hrun
      rw [Entered, hcall]
      exact hfollows
  | removeMany keys =>
      obtain ⟨count, observed', hrun, _, hfollows⟩ := h.ensures_removeMany lawful hrows keys
      have hcall : call observed (ObservedOperation.index (.removeMany keys) elapsed).run =
          (.ok (.plain (.removedMany count)), observed') := call_run rfl hrun
      rw [Entered, hcall]
      exact hfollows
  | containsMany keys =>
      obtain ⟨flags, observed', hrun, _, hfollows⟩ := h.ensures_containsMany lawful hrows keys
      have hcall : call observed (ObservedOperation.index (.containsMany keys) elapsed).run =
          (.ok (.plain (.present flags)), observed') := call_run rfl hrun
      rw [Entered, hcall]
      exact hfollows
  | query sketch =>
      cases hhashes : sketchHashes observed.descriptor sketch with
      | error error =>
          have hmany : [sketch].mapM (sketchHashes observed.descriptor) = .error error := by
            rw [List.mapM_cons, hhashes, error_bind]
          have hcall : call observed (ObservedOperation.index (.query sketch) elapsed).run =
              (.error error, observed) :=
            call_bind_error (call_bind_error (call_bind_error (call_queryMany_error hmany elapsed)))
          rw [Entered, hcall]
          exact ⟨h, rfl⟩
      | ok hashes =>
          rw [sketchHashes, mapError_eq_ok_iff] at hhashes
          obtain ⟨keys, observed', hrun, _, hfollows⟩ :=
            h.ensures_query lawful hrows (bandHashes_eq_ok_iff.mp hhashes).1 elapsed
          have hcall : call observed (ObservedOperation.index (.query sketch) elapsed).run =
              (.ok (.plain (.candidates keys)), observed') := call_run rfl hrun
          rw [Entered, hcall]
          exact hfollows
  | queryMany sketches =>
      cases hhashes : sketches.mapM (sketchHashes observed.descriptor) with
      | error error =>
          have hcall : call observed (ObservedOperation.index (.queryMany sketches) elapsed).run =
              (.error error, observed) :=
            call_bind_error (call_bind_error (call_queryMany_error hhashes elapsed))
          rw [Entered, hcall]
          exact ⟨h, rfl⟩
      | ok hashes =>
          obtain ⟨answers, observed', hrun, _, hfollows⟩ :=
            h.ensures_queryMany lawful hrows (compatible_of_ok hhashes) elapsed
          have hcall : call observed (ObservedOperation.index (.queryMany sketches) elapsed).run =
              (.ok (.plain (.candidateLists answers)), observed') := call_run rfl hrun
          rw [Entered, hcall]
          exact hfollows

/-- Every operation keeps the book. -/
theorem Tracks.step (conforming : Conforming offered Fresh Keeps) (h : Tracks Keeps observed book)
    (operation : ObservedOperation) (hroom : book.items.length + operation.requested < 2 ^ 64) :
    Entered Keeps observed book operation := by
  obtain ⟨rows, _, hrows⟩ := h.keeps
  cases operation with
  | index operation elapsed => exact h.step_index conforming.lawful operation elapsed hroom
  | flush =>
      obtain ⟨_, observed', hrun, hfollows⟩ := h.ensures_flush conforming hrows
      rw [Entered, ObservedOperation.run, call_bind_ok hrun, call_pure]
      exact hfollows
  | health =>
      obtain ⟨_, observed', hrun, hfollows⟩ := h.ensures_health conforming hrows
      rw [Entered, ObservedOperation.run, call_bind_ok hrun, call_pure]
      exact hfollows
  | stats =>
      obtain ⟨result, observed', hrun, hfollows, _⟩ := h.stats_cases conforming hrows
      cases result with
      | error error =>
          rw [Entered, ObservedOperation.run, call_bind_error hrun]
          exact hfollows
      | ok stats =>
          rw [Entered, ObservedOperation.run, call_bind_ok hrun, call_pure]
          exact hfollows
  | setObservability enabled =>
      obtain ⟨_, observed', hrun, hfollows⟩ := h.setObservability enabled
      rw [Entered, ObservedOperation.run, call_bind_ok hrun, call_pure]
      exact hfollows

/-- An operation enters no more items than it asks for. -/
theorem Book.length_enter_le (config : LshConfig) (book : Book) (operation : ObservedOperation)
    (answer : Except BackendIndexError ObservedAnswer) :
    (book.enter config operation answer).items.length ≤ book.items.length + operation.requested := by
  have hforget (keys : List UInt64) : (book.forget keys).items.length ≤ book.items.length :=
    List.length_filter_le _ _
  rw [Book.enter.eq_def]
  split
  · rw [List.length_append, LshConfig.rowsOf, List.length_map, ObservedOperation.requested]
  · exact (hforget _).trans (Nat.le_add_right _ _)
  · exact (hforget _).trans (Nat.le_add_right _ _)
  · exact Nat.le_add_right _ _
  · split
    · exact Nat.le_add_right _ _
    · exact Nat.le_add_right _ _
  · exact Nat.le_add_right _ _
  · exact Nat.le_add_right _ _

/-- Every sequence of operations keeps the book. -/
theorem Tracks.run (conforming : Conforming offered Fresh Keeps) (h : Tracks Keeps observed book)
    (operations : List ObservedOperation)
    (hroom : book.items.length + (operations.map ObservedOperation.requested).sum < 2 ^ 64) :
    Tracks Keeps (observedAfter observed operations)
        (bookAfter observed.descriptor.toLshConfig book observed operations) ∧
      (observedAfter observed operations).descriptor = observed.descriptor := by
  induction operations generalizing observed book with
  | nil => exact ⟨h, rfl⟩
  | cons operation operations ih =>
      rw [List.map_cons, List.sum_cons] at hroom
      have hnext := h.step conforming operation (by omega)
      have hle := book.length_enter_le observed.descriptor.toLshConfig operation
        (call observed operation.run).1
      obtain ⟨hend, hdescriptor⟩ := ih hnext.tracks (by omega)
      rw [hnext.descriptor] at hend hdescriptor
      exact ⟨hend, hdescriptor⟩

/-- A valid descriptor that the backend can retain is initialized. -/
theorem createWithParams_of_initialized {backend : β} {post : β → Prop} {threshold : F64} {numPerm : Nat}
    {seed : UInt64} {params : LshParams} {retention : Option Duration} {descriptor : IndexDescriptor}
    (hcapabilities : StorageBackend.capabilities backend = offered)
    (hinitialized : Ensures backend (StorageBackend.initializeNamespace descriptor) fun _ backend' =>
      post backend')
    (hdescriptor : IndexDescriptor.new threshold numPerm seed params retention = .ok descriptor)
    (hcapable : descriptor.retention.isSome = true → offered.supports .ttl = true) :
    ∃ backend', call backend (createWithParams threshold numPerm seed params retention) =
        (.ok ⟨backend', descriptor⟩, backend') ∧ post backend' := by
  obtain ⟨_, backend', hrun, hpost⟩ := hinitialized
  refine ⟨backend', ?_, hpost⟩
  have hvalid : validateRetentionCapability backend descriptor = .ok () := by
    rw [validateRetentionCapability, hcapabilities]
    refine rejectIf_of_not fun h => ?_
    rw [hcapable h.1] at h
    cases h.2
  have hstarted : call backend ((StorageBackend.initializeNamespace descriptor).onPart id
      (fun backend _ => backend) BackendIndexError.backend) = (.ok (), backend') := by
    rw [call_onPart, id_eq, hrun]
    rfl
  rw [createWithParams, hdescriptor, mapError_ok, call_lift_ok_bind, call_read_bind, hvalid,
    mapError_ok, call_lift_ok_bind, call_bind_ok hstarted, call_read]

/-- An index created over a fresh backend has no items and an empty book. -/
theorem tracks_of_create (conforming : Conforming offered Fresh Keeps) {backend backend' : β}
    (hfresh : Fresh backend) {threshold : F64} {numPerm : Nat} {seed : UInt64} {params : LshParams}
    {retention : Option Duration}
    (hcreate : call backend
      (ObservedIndex32.createWithParams threshold numPerm seed params retention) =
        (.ok observed, backend')) :
    Tracks Keeps observed .empty := by
  rw [ObservedIndex32.createWithParams] at hcreate
  cases hdescriptor : IndexDescriptor.new threshold numPerm seed params retention with
  | error error =>
      have hfailed : call backend (Backend.createWithParams threshold numPerm seed params retention) =
          (.error (.backend error), backend) := by
        rw [Backend.createWithParams, hdescriptor]
        rfl
      rw [call_bind_error hfailed] at hcreate
      cases hcreate
  | ok descriptor =>
      by_cases hcapable : descriptor.retention.isSome = true ∧ offered.supports .ttl = false
      · have hrefused : validateRetentionCapability backend descriptor =
            .error (.unsupportedCapability .ttl) := by
          rw [validateRetentionCapability, conforming.fresh_capabilities hfresh]
          exact if_pos hcapable
        have hfailed : call backend (Backend.createWithParams threshold numPerm seed params retention) =
            (.error (.backend (.unsupportedCapability .ttl)), backend) := by
          rw [Backend.createWithParams, hdescriptor, mapError_ok, call_lift_ok_bind, call_read_bind,
            hrefused]
          rfl
        rw [call_bind_error hfailed] at hcreate
        cases hcreate
      · have hretained : descriptor.retention.isSome = true → offered.supports .ttl = true :=
          fun h => by simpa [h] using hcapable
        obtain ⟨backend'', hrun, hkeeps⟩ := createWithParams_of_initialized
          (conforming.fresh_capabilities hfresh)
          (conforming.initialized hfresh descriptor hretained) hdescriptor hretained
        rw [call_bind_ok hrun, call_pure] at hcreate
        cases hcreate
        refine ⟨⟨_, hkeeps, enumerates_nil⟩, rfl, rfl, fun log hlog => ?_⟩
        cases hlog

end Steps

/-! ## Exact observation -/

/-- After every sequence of operations on an index that was created over a conforming backend,
its number of known items is the number of live items, its metrics are the totals of the queries
answered since observation was switched on, and no query found more than was possible. The
statistics report both. An index that is not observed gives the same answers. -/
theorem observed_exact {offered : BackendCapabilities} {Fresh : β → Prop}
    {Keeps : β → IndexDescriptor → Rows → Prop} (conforming : Conforming offered Fresh Keeps)
    {backend backend' : β} (hfresh : Fresh backend) {threshold : F64} {numPerm : Nat}
    {seed : UInt64} {params : LshParams} {retention : Option Duration}
    {observed : ObservedIndex32 β} (hcreate : call backend
      (ObservedIndex32.createWithParams threshold numPerm seed params retention) =
        (.ok observed, backend')) (operations : List ObservedOperation)
    (hroom : (operations.map ObservedOperation.requested).sum < 2 ^ 64) :
    ∃ book, book = bookAfter observed.descriptor.toLshConfig .empty observed operations ∧
      (observedAfter observed operations).knownItems.map UInt64.toNat = some book.items.length ∧
      (observedAfter observed operations).queryMetrics = book.log.map QueryMetrics.totals ∧
      (∀ metrics, (observedAfter observed operations).queryMetrics = some metrics →
        metrics.candidates ≤ metrics.possibleCandidates) ∧
      (∀ stats, (call (observedAfter observed operations) ObservedIndex32.stats).1 = .ok stats →
        CountsItems stats.toBackendStats observed.descriptor book.items ∧
          stats.queries = book.log.map QueryMetrics.totals) ∧
      (observedAnswers observed operations).map (Except.map ObservedAnswer.unobserved) =
        unobservedAnswers observed.toBackendIndex32 operations := by
  have htracks := tracks_of_create conforming hfresh hcreate
  obtain ⟨hend, hdescriptor⟩ := htracks.run conforming operations (by
    rw [Book.empty, List.length_nil, Nat.zero_add]
    exact hroom)
  refine ⟨_, rfl, hend.known, hend.metrics, fun metrics hmetrics => ?_, fun stats hstats => ?_,
    unobserved_answers observed operations⟩
  · rw [hend.metrics, Option.map_eq_some_iff] at hmetrics
    obtain ⟨log, hlog, rfl⟩ := hmetrics
    exact hend.candidates_le hlog
  · obtain ⟨rows, _, hrows⟩ := hend.keeps
    obtain ⟨result, observed', hrun, _, hcounts, _⟩ := hend.stats_cases conforming hrows
    rw [hrun] at hstats
    have hcounted := hcounts stats hstats
    rw [hdescriptor] at hcounted
    exact hcounted

/-- A new index over a memory backend, observed through an insertion and a query. -/
theorem observed_exact_first_query :
    ∃ (observed : ObservedIndex32 MemoryBackend) (book : Book),
      book = bookAfter observed.descriptor.toLshConfig .empty observed
        [.setObservability true, .index (.insertMany [(7, sampleSketch)]) 0,
          .index (.query sampleSketch) 3] ∧
      (observedAfter observed [.setObservability true, .index (.insertMany [(7, sampleSketch)]) 0,
        .index (.query sampleSketch) 3]).queryMetrics = book.log.map QueryMetrics.totals := by
  obtain ⟨book, hbook, _, hmetrics, _⟩ := observed_exact MemoryBackend.conforming rfl
    (show call MemoryBackend.new
      (ObservedIndex32.createWithParams sampleConfig.threshold 4 1 ⟨2, 2⟩ none) =
        (.ok ⟨⟨{ MemoryBackend.new with descriptor := some sampleDescriptor }, sampleDescriptor⟩,
          none, some 0⟩, { MemoryBackend.new with descriptor := some sampleDescriptor }) from rfl)
    [.setObservability true, .index (.insertMany [(7, sampleSketch)]) 0,
      .index (.query sampleSketch) 3] (by decide)
  exact ⟨_, book, hbook, hmetrics⟩

end Pari.Backend
