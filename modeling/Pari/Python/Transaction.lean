/-
# Staged outputs as a transaction

Leaving publishes every output or none: whatever fails, whatever other processes do to anything
but the staging names, and whichever exception the body raised. The nonce of the staging names
occurs in no output name, as that of a fresh UUID.
-/

import Pari.Python.Leaving

namespace Pari.Python

open Data

namespace StagedOutputs

/-! ## How a transaction begins -/

/-- The nonce occurs in the name of no output. -/
def Fresh (nonce : String) (outputs : StagedOutputs) : Prop :=
  ∀ output ∈ outputs, ∀ name, output.original.fileName = some name →
    ¬ nonce.toList <:+: name.toList

section Beginning

variable {ε : Type} {names redirected : Namespace} {nonce : String} {attributes : List String}
  {outputs outputs' : StagedOutputs} {world world' : World}

/-- What is known of an output. -/
def Begun (names : Namespace) (nonce : String) (output : StagedOutput) : Prop :=
  names output.attr = some output.original ∧
    ∃ name, output.original.fileName = some name ∧
      output.staged = stageFor output.original name nonce

theorem begun_of_init (hbegun : ∀ output ∈ outputs, Begun names nonce output)
    (h : @init ε names nonce attributes outputs = .ok outputs') :
    ∀ output ∈ outputs', Begun names nonce output := by
  induction attributes generalizing outputs with
  | nil =>
      cases h
      exact hbegun
  | cons attr attributes ih =>
      unfold init at h
      split at h
      · exact ih hbegun h
      · next final hfinal =>
          split at h
          · cases h
          · next name hname =>
              split at h
              · exact ih hbegun h
              · apply ih _ h
                intro output hmem
                rcases List.mem_append.mp hmem with hold | hnew
                · exact hbegun output hold
                · obtain rfl := List.mem_singleton.mp hnew
                  exact ⟨hfinal, name, hname, rfl⟩

/-- A staging name has the nonce in it. -/
theorem infix_stageName (name : String) : nonce.toList <:+: (stageName name nonce).toList := by
  refine ⟨".".toList ++ name.toList ++ ".pari-workload-".toList, ".tmp".toList, ?_⟩
  simp [stageName, String.toList_append]

theorem infix_companionName (name : String) :
    nonce.toList <:+: (stageName name nonce ++ ".tmp").toList := by
  rw [String.toList_append]
  exact (infix_stageName name).trans (List.prefix_append _ _).isInfix

/-- Every name of the transaction's own files has the nonce in it. -/
theorem infix_of_reserved (hbegun : ∀ output ∈ outputs, Begun names nonce output)
    {location : Location} (h : Reserved outputs location) :
    ∃ name, location.2 = some name ∧ nonce.toList <:+: name.toList := by
  obtain ⟨path, hpath, rfl⟩ := h
  rcases List.mem_append.mp hpath with hstaged | hcompanion
  · obtain ⟨output, hmem, rfl⟩ := List.mem_map.mp hstaged
    obtain ⟨_, name, _, heq⟩ := hbegun output hmem
    exact ⟨stageName name nonce, by rw [heq]; rfl, infix_stageName name⟩
  · obtain ⟨output, hmem, rfl⟩ := List.mem_map.mp hcompanion
    obtain ⟨_, name, _, heq⟩ := hbegun output hmem
    exact ⟨stageName name nonce ++ ".tmp", by rw [heq]; rfl, infix_companionName name⟩

theorem resolveAll_eq_ok {paths : List Path} {locations : List Location}
    (h : @resolveAll ε paths world = (.ok locations, world')) :
    locations.map some = paths.map fun path =>
      realpath world.files FileSystem.maxLinks path.location := by
  induction paths generalizing world locations with
  | nil =>
      cases h
      rfl
  | cons path paths ih =>
      unfold resolveAll at h
      rcases hcall : resolve path world with ⟨result, looked⟩
      rw [hcall] at h
      cases result with
      | error error => cases h
      | ok location =>
          dsimp only at h
          have hrun := World.run_of_call hcall
          split at hrun
          · cases hrun
          · next found hfound =>
              obtain ⟨rfl, hfiles⟩ := Prod.mk.inj (Except.ok.inj hrun)
              rcases hrest : @resolveAll ε paths looked with ⟨rest, last⟩
              rw [hrest] at h
              cases rest with
              | error error => cases h
              | ok others =>
                  cases h
                  have htail := ih hrest
                  rw [← hfiles] at htail
                  rw [List.map_cons, List.map_cons, htail, hfound]

/-- Entering succeeds only for distinct outputs. -/
theorem distinct_of_enter
    (h : @enter ε outputs names world = (.ok redirected, world')) :
    (outputs.map (·.original.location)).Nodup := by
  unfold enter at h
  rcases hresolve : @resolveAll ε (outputs.map (·.original)) world with ⟨result, resolved⟩
  rw [hresolve] at h
  cases result with
  | error error => cases h
  | ok finals =>
      dsimp only at h
      split at h
      · next hnodup =>
          have hfinals := resolveAll_eq_ok hresolve
          rw [List.map_map] at hfinals
          have hsome := hnodup.map (Option.some_injective Location)
          rw [hfinals] at hsome
          apply List.Nodup.of_map (realpath world.files FileSystem.maxLinks)
          rw [List.map_map]
          exact hsome
      · cases h

theorem apart_of_fresh (hbegun : ∀ output ∈ outputs, Begun names nonce output)
    (hfresh : Fresh nonce outputs) (hdistinct : (outputs.map (·.original.location)).Nodup) :
    Apart outputs where
  distinct := hdistinct
  reserved := by
    intro output hmem hreserved
    obtain ⟨name, hname, hinfix⟩ := infix_of_reserved hbegun hreserved
    exact hfresh output hmem name hname hinfix

/-- Restoring gives every attribute its path again. -/
theorem restore_eq (hbegun : ∀ output ∈ outputs, names output.attr = some output.original)
    {current : Namespace} {attr : String}
    (h : attr ∈ outputs.map (·.attr) ∨ current attr = names attr) :
    restore outputs current attr = names attr := by
  induction outputs generalizing current with
  | nil =>
      rcases h with hmem | hsame
      · cases hmem
      · exact hsame
  | cons output outputs ih =>
      apply ih fun other hother => hbegun other (List.mem_cons_of_mem _ hother)
      by_cases heq : attr = output.attr
      · refine Or.inr ?_
        rw [heq]
        dsimp only
        rw [Function.update_self]
        exact (hbegun output (List.mem_cons_self ..)).symm
      · rcases h with hmem | hsame
        · rcases List.mem_cons.mp hmem with hhead | htail
          · exact absurd hhead heq
          · exact Or.inl htail
        · exact Or.inr ((Function.update_of_ne heq _ _).trans hsame)

end Beginning

/-! ## How it ends -/

section Ending

variable {ε : Type} {outputs : StagedOutputs} {others : Others} {world : World}

/-- What a failed transaction leaves of an output, as far as no call on a path it tells of
failed. -/
structure Withdrawn (others : Others) (outputs : StagedOutputs) (errors : List (Path × IoError))
    (output : StagedOutput) (world last : World) : Prop where
  staged : (∃ error, (output.staged, error) ∈ errors) ∨
    last.files.entries output.staged.location = none
  companion : (∃ error, (companion output.staged, error) ∈ errors) ∨
    last.files.entries (companion output.staged).location = none
  original : (∃ error, (output.original, error) ∈ errors) ∨
    TakenBack others outputs output world last

/-- What the body of the `try` has done. -/
structure PublishRun (outputs : StagedOutputs) (others : Others) (done : StagedOutputs)
    (published : List (Path × Entry)) (world world' : World) : Prop where
  records : List.Forall₂ (Records world.files) done published
  sub : done.Sublist outputs
  among : World.Among others (Acts world.files done (targets outputs) []) world world'

theorem publish_spec (hspare : others.Spare (Reserved outputs)) (hapart : Apart outputs)
    {result : Except (OutputsError ε) Unit} {published : List (Path × Entry)} {world' : World}
    (h : publish others outputs world = ((result, published), world')) :
    (∃ done, PublishRun outputs others done published world world') ∧
      (result = .ok () → ∀ output ∈ outputs, Published others outputs output world world' ∧
        world'.files.entries output.staged.location = none) := by
  have hintact : Intact world.files outputs world.files := ⟨fun _ _ => rfl, fun _ _ _ _ => rfl⟩
  have hlook := @missingStages_among ε world.files others world (outputs.map (·.staged))
  unfold publish at h
  rcases hmissing : @missingStages ε others (outputs.map (·.staged)) world with ⟨checked, looked⟩
  rw [hmissing] at h hlook
  have hlooked : World.Among others (Acts world.files [] (targets outputs) []) world looked :=
    Acts.among_mono hlook (List.Subset.refl _) (List.nil_subset _) (List.Subset.refl _)
  cases checked with
  | error error =>
      cases h
      exact ⟨⟨[], .nil, List.nil_sublist _, hlooked⟩, nofun⟩
  | ok missing =>
      dsimp only at h
      split at h
      · cases h
        exact ⟨⟨[], .nil, List.nil_sublist _, hlooked⟩, nofun⟩
      · rcases hlinks : @linkStages ε others outputs [] looked with ⟨⟨linked, records⟩, middle⟩
        rw [hlinks] at h
        obtain ⟨done, rest, new, houtputs, rfl, hrest, hrun⟩ := linkStages_spec hspare hapart
          (List.Subset.refl _) hapart.distinct (hintact.of_look hspare hlook) hlinks
        have hsub : done.Sublist outputs := by
          rw [houtputs]
          exact List.sublist_append_left _ _
        have hlinked : World.Among others (Acts world.files done (targets outputs) []) world
            middle :=
          (Acts.among_mono hlook (List.nil_subset _) (List.nil_subset _)
            (List.Subset.refl _)).trans
            (Acts.among_mono hrun.among (List.Subset.refl _) (List.nil_subset _)
              (List.Subset.refl _))
        cases linked with
        | error error =>
            cases h
            exact ⟨⟨done, hrun.records, hsub, hlinked⟩, nofun⟩
        | ok value =>
            cases hrest rfl
            rw [List.append_nil] at houtputs
            subst houtputs
            dsimp only at h
            have hunlink := @unlinkStages_among ε world.files others middle
              (outputs.map (·.staged))
            rcases hlast : @unlinkStages ε others (outputs.map (·.staged)) middle with
              ⟨reply, last⟩
            rw [hlast] at h hunlink
            cases h
            refine ⟨⟨outputs, hrun.records, hsub, hlinked.trans (Acts.among_mono hunlink
              (List.nil_subset _) (List.subset_append_left _ _) (List.Subset.refl _))⟩, ?_⟩
            rintro rfl output hmem
            have hgone := gone_of_unlinkStages hspare (by
              intro path hpath
              exact ⟨path, List.mem_append_left _ hpath, rfl⟩) hlast output.staged
                (List.mem_map_of_mem hmem)
            obtain ⟨inode, moment, hstaged, hamong, hentry, hcontents, huntouched⟩ :=
              hrun.linked output hmem
            refine ⟨⟨inode, moment, hstaged, ?_, hentry, hcontents, huntouched.trans ?_⟩, hgone⟩
            · exact (Acts.among_mono hlook (List.nil_subset _) (List.nil_subset _)
                (List.nil_subset _)).trans
                (Acts.among_mono hamong (List.Subset.refl _) (List.nil_subset _)
                  (List.nil_subset _))
            · apply Acts.among_untouched hunlink nofun _ nofun
              intro path hpath hsame
              apply hapart.reserved output hmem
              exact ⟨path, List.mem_append_left _ hpath, hsame.symm⟩

/-- What a cleanup leaves of an output, after it was or was not linked. -/
theorem withdrawn_of_cleaned {done : StagedOutputs} {published : List (Path × Entry)}
    {errors : List (Path × IoError)} {middle last : World} (hapart : Apart outputs)
    (hrun : PublishRun outputs others done published world middle)
    (hcleaned : Cleaned world.files outputs others done errors middle last)
    {output : StagedOutput} (hmem : output ∈ outputs) :
    Withdrawn others outputs errors output world last := by
  have hstart : World.Among others (Acts world.files outputs (targets outputs) outputs) world
      middle :=
    Acts.among_mono hrun.among hrun.sub.subset (List.Subset.refl _) (List.nil_subset _)
  refine ⟨?_, ?_, ?_⟩
  · exact hcleaned.gone _ (List.mem_append_left _ (List.mem_map_of_mem hmem))
  · exact hcleaned.gone _ (List.mem_append_right _
      (List.mem_map_of_mem (f := fun output => Pari.Python.companion output.staged) hmem))
  · by_cases hdone : output ∈ done
    · refine (hcleaned.returned output hdone).imp_right ?_
      rintro ⟨inode, returned, hstaged, hamong, hentry, hrest⟩
      exact Or.inr ⟨inode, returned, hstaged, hstart.trans (Acts.among_mono hamong
        (List.nil_subset _) (List.Subset.refl _) hrun.sub.subset), hentry, hrest⟩
    · -- An output that was not linked is none of those that may be touched.
      have hother : ∀ other ∈ done, other.original.location ≠ output.original.location := by
        intro other hother hsame
        apply hdone
        obtain rfl := List.inj_on_of_nodup_map hapart.distinct (hrun.sub.subset hother) hmem hsame
        exact hother
      have hreserved : ∀ path ∈ targets outputs, path.location ≠ output.original.location :=
        fun path hpath hsame => hapart.reserved output hmem ⟨path, hpath, hsame.symm⟩
      refine Or.inr (Or.inl ?_)
      exact (Acts.among_untouched hrun.among hother hreserved nofun).trans
        (Acts.among_untouched hcleaned.among nofun hreserved hother)

/-- Without failures of the cleanup everything was withdrawn. -/
theorem Withdrawn.of_nil {output : StagedOutput} {last : World}
    (h : Withdrawn others outputs [] output world last) (errors : List (Path × IoError)) :
    Withdrawn others outputs errors output world last where
  staged := h.staged.imp_left fun ⟨_, hmem⟩ => nomatch hmem
  companion := h.companion.imp_left fun ⟨_, hmem⟩ => nomatch hmem
  original := h.original.imp_left fun ⟨_, hmem⟩ => nomatch hmem

/-- What the cleanup after a failure leaves. -/
theorem cleanup_withdraws (hspare : others.Spare (Reserved outputs)) (hapart : Apart outputs)
    (hhonest : world.Honest) {done : StagedOutputs} {published : List (Path × Entry)}
    {middle last : World} {original error : OutputsError ε}
    (hrun : PublishRun outputs others done published world middle)
    (h : cleanup others outputs original published middle = (error, last)) :
    World.Among others (Acts world.files outputs (targets outputs) outputs) world last ∧
      ∀ output ∈ outputs, Withdrawn others outputs error.cleanupErrors output world last := by
  have hnodup := (hrun.sub.map (·.original.location)).nodup hapart.distinct
  obtain ⟨errors, herror, hcleaned⟩ := cleanup_spec hspare (hrun.among.honest hhonest)
    hrun.records hnodup original
  rw [h] at herror hcleaned
  refine ⟨?_, fun output hmem => ?_⟩
  · exact (Acts.among_mono hrun.among hrun.sub.subset (List.Subset.refl _)
      (List.nil_subset _)).trans (Acts.among_mono hcleaned.among (List.nil_subset _)
        (List.Subset.refl _) hrun.sub.subset)
  · have hwithdrawn := withdrawn_of_cleaned hapart hrun hcleaned hmem
    rcases herror with ⟨_, rfl⟩ | hcleanup
    · exact hwithdrawn.of_nil _
    · rw [show error = _ from hcleanup]
      exact hwithdrawn

/-- Leaving restores the attributes. If it succeeds, every output was linked to its staged file
and no staging name remains; if it fails, then as far as no call of the cleanup fails no link
that it made and no staging name remain. Besides looking and removing staging names each call
at most links a staged file to a free output path, or removes an output path where the call
before had left that output's staged file. -/
theorem exit_transactional {names redirected : Namespace} {nonce : String}
    {attributes : List String} {entering entered : World}
    (hinit : @init ε names nonce attributes [] = .ok outputs)
    (henter : @enter ε outputs names entering = (.ok redirected, entered))
    (hfresh : Fresh nonce outputs) (hspare : others.Spare (Reserved outputs))
    (hhonest : world.Honest) {raised : Option ε} {current restored : Namespace}
    {result : Except (OutputsError ε) Unit} {last : World}
    (h : exit others outputs raised current world = (result, restored, last)) :
    (∀ output ∈ outputs, restored output.attr = names output.attr) ∧
      World.Among others (Acts world.files outputs (targets outputs) outputs) world last ∧
      (result = .ok () → raised = none ∧ ∀ output ∈ outputs,
        Published others outputs output world last ∧
          last.files.entries output.staged.location = none) ∧
      ∀ error, result = .error error → ∀ output ∈ outputs,
        Withdrawn others outputs error.cleanupErrors output world last := by
  have hbegun : ∀ output ∈ outputs, Begun names nonce output :=
    @begun_of_init ε names nonce attributes [] outputs nofun hinit
  have hapart := apart_of_fresh hbegun hfresh (distinct_of_enter henter)
  have hrestore : ∀ output ∈ outputs, restore outputs current output.attr = names output.attr :=
    fun output hmem => restore_eq (fun other hother => (hbegun other hother).1)
      (Or.inl (List.mem_map_of_mem hmem))
  unfold exit at h
  cases raised with
  | some error =>
      dsimp only at h
      rcases hcleanup : cleanup others outputs (.raised error) [] world with ⟨error', cleaned⟩
      rw [hcleanup] at h
      cases h
      obtain ⟨hamong, hwithdrawn⟩ := cleanup_withdraws hspare hapart hhonest
        ⟨.nil, List.nil_sublist _, .refl⟩ hcleanup
      refine ⟨hrestore, hamong, nofun, ?_⟩
      rintro _ ⟨⟩
      exact hwithdrawn
  | none =>
      dsimp only at h
      rcases hpublish : @publish ε others outputs world with ⟨⟨reply, published⟩, middle⟩
      rw [hpublish] at h
      obtain ⟨⟨done, hrun⟩, hok⟩ := publish_spec hspare hapart hpublish
      cases reply with
      | ok value =>
          cases h
          refine ⟨hrestore, ?_, fun _ => ⟨rfl, hok rfl⟩, nofun⟩
          exact Acts.among_mono hrun.among hrun.sub.subset (List.Subset.refl _)
            (List.nil_subset _)
      | error error =>
          dsimp only at h
          rcases hcleanup : cleanup others outputs error published middle with ⟨error', cleaned⟩
          rw [hcleanup] at h
          cases h
          obtain ⟨hamong, hwithdrawn⟩ := cleanup_withdraws hspare hapart hhonest hrun hcleanup
          refine ⟨hrestore, hamong, nofun, ?_⟩
          rintro _ ⟨⟩
          exact hwithdrawn

end Ending

/-! ## Two outputs -/

def firstPath : Path where
  parent := "out"
  fileName := some "first"

def secondPath : Path where
  parent := "out"
  fileName := some "second"

/-- Two outputs. -/
def twoOutputs : StagedOutputs :=
  [⟨"first", firstPath, stageFor firstPath "first" "7-ab"⟩,
    ⟨"second", secondPath, stageFor secondPath "second" "7-ab"⟩]

def foreignName : Location := ("out", some "foreign")

/-- Both outputs are staged, and another process has a file. -/
def stagedFiles : FileSystem where
  entries := fun location =>
    if location = (stageFor firstPath "first" "7-ab").location then some (.file 0)
    else if location = (stageFor secondPath "second" "7-ab").location then some (.file 1)
    else if location = foreignName then some (.file 2)
    else none
  contents := fun inode => [UInt8.ofNat inode]
  nextInode := 3
  allocated := by
    intro location inode h
    split at h
    · cases h
      decide
    · split at h
      · cases h
        decide
      · split at h
        · cases h
          decide
        · cases h

def stagedWorld (faults : Nat → Option Fault) : World where
  files := stagedFiles
  faults
  calls := 0
  counter := 0
  processId := 7
  history := []

/-- Another process puts its file under a name. -/
def putForeign (location : Location) (files : FileSystem) : FileSystem :=
  match h : files.entries foreignName with
  | none => files
  | some entry => files.setEntry location (some entry) fun inode hinode =>
      files.allocated foreignName inode (h.trans hinode)

theorem entries_putForeign {location : Location} {files : FileSystem} {entry : Entry}
    (hentry : files.entries foreignName = some entry) :
    (putForeign location files).entries location = some entry := by
  unfold putForeign
  split
  · next hnone =>
      rw [hentry] at hnone
      cases hnone
  · next other hother =>
      obtain rfl := Option.some.inj (hentry.symm.trans hother)
      exact Function.update_self _ _ _

/-- The names that the process claims, by the calls before which it does. -/
def claiming (claims : List (Nat × Location)) : Others := fun n files =>
  match claims.lookup n with
  | none => files
  | some location => putForeign location files

def namesOfTwo : Namespace := fun attr =>
  if attr = "first" then some firstPath else if attr = "second" then some secondPath else none

/-- Leaving the two outputs. -/
def leaveTwo (claims : List (Nat × Location)) (faults : Nat → Option Fault) :
    Except (OutputsError Unit) Unit × Namespace × World :=
  exit (claiming claims) twoOutputs none (fun _ => none) (stagedWorld faults)

/-- Two outputs published. -/
theorem exit_transactional_two_outputs :
    ∃ restored last, leaveTwo [] (fun _ => none) = (.ok (), restored, last) ∧
      ∀ output ∈ twoOutputs, Published (claiming []) twoOutputs output
        (stagedWorld fun _ => none) last ∧ last.files.entries output.staged.location = none := by
  obtain ⟨redirected, entered, henter⟩ : ∃ redirected entered,
      @enter Unit twoOutputs namesOfTwo (stagedWorld fun _ => none) = (.ok redirected, entered) :=
    ⟨_, _, rfl⟩
  have hinit : @init Unit namesOfTwo "7-ab" ["first", "second"] [] = .ok twoOutputs := rfl
  have hfresh : Fresh "7-ab" twoOutputs := by
    intro output hmem name hname
    rcases List.mem_cons.mp hmem with rfl | hmem
    · cases hname
      decide
    · obtain rfl := List.mem_singleton.mp hmem
      cases hname
      decide
  have hspare : (claiming []).Spare (Reserved twoOutputs) :=
    ⟨fun _ _ _ _ => rfl, fun _ _ _ _ _ _ => rfl⟩
  have hhonest : (stagedWorld fun _ => none).Honest := by
    intro n fault hfault
    cases hfault
  obtain ⟨restored, last, hrun⟩ : ∃ restored last,
      leaveTwo [] (fun _ => none) = (.ok (), restored, last) := ⟨_, _, rfl⟩
  exact ⟨restored, last, hrun,
    ((exit_transactional hinit henter hfresh hspare hhonest hrun).2.2.1 rfl).2⟩

/-- In each of three runs the second path is claimed before its link, so the first link is to be
taken back. Another process puts its file under the first path after the check of the rollback,
and loses it; or the check itself fails, and the link remains; or the process puts its file under
the first staging name between the check and the link, and the link to that file remains. -/
theorem exit_not_transactional :
    (∀ files, files.entries foreignName = some (.file 2) →
        (claiming [(5, secondPath.location), (11, firstPath.location)] 11 files).entries
          firstPath.location = some (.file 2)) ∧
      (let raced := (leaveTwo [(5, secondPath.location), (11, firstPath.location)]
          fun _ => none).2.2
       raced.calls = 12 ∧ raced.files.entries foreignName = some (.file 2) ∧
         raced.files.entries firstPath.location = none) ∧
      (let unchecked := (leaveTwo [(5, secondPath.location)]
          fun n => if n = 10 then some ⟨.other, 0⟩ else none).2.2
       unchecked.calls = 11 ∧ unchecked.files.entries firstPath.location = some (.file 0)) ∧
      (let swapped := leaveTwo [(3, (stageFor firstPath "first" "7-ab").location),
          (5, secondPath.location)] fun _ => none
       (∃ error, swapped.1 = .error error ∧ error.cleanupErrors = []) ∧
         swapped.2.2.files.entries firstPath.location = some (.file 2)) := by
  refine ⟨fun files hentry => ?_, ⟨rfl, rfl, rfl⟩, ⟨rfl, rfl⟩, ⟨_, rfl, rfl⟩, rfl⟩
  exact entries_putForeign hentry

end StagedOutputs

end Pari.Python
