/-
# What leaving staged outputs does

Each call of the transaction looks, links a staged file to a free output path, removes a staging
name, or removes an output path where the call before had left its own link. On success every
output was linked and no staging name remains; on failure every link is taken back, as far as
the calls of the cleanup do not fail.
-/

import Pari.Python.Outputs

namespace Pari.Python

open Data

namespace StagedOutputs

/-! ## What each call does -/

/-- The names of the transaction's own files. -/
def Reserved (outputs : StagedOutputs) (location : Location) : Prop :=
  ∃ path ∈ targets outputs, location = path.location

/-- What the calls of a transaction do, by the outputs they may link, the names they may remove
and the outputs they may take back. -/
inductive Acts (start : FileSystem) (links : StagedOutputs) (discards : List Path)
    (returns : StagedOutputs) : Move
  | look {left files : FileSystem} : Acts start links discards returns left files files
  | link {left before after : FileSystem} {output : StagedOutput} {inode : Nat}
      (member : output ∈ links)
      (staged : start.entries output.staged.location = some (.file inode))
      (free : before.entries output.original.location = none)
      (entries : after.entries = Function.update before.entries output.original.location
        (some (.file inode)))
      (contents : after.contents = before.contents) : Acts start links discards returns left before after
  | discard {left before : FileSystem} {path : Path} (member : path ∈ discards) :
      Acts start links discards returns left before (before.unlink path.location)
  | takeBack {left before : FileSystem} {output : StagedOutput} {inode : Nat}
      (member : output ∈ returns)
      (staged : start.entries output.staged.location = some (.file inode))
      (seen : left.entries output.original.location = some (.file inode)) :
      Acts start links discards returns left before (before.unlink output.original.location)

/-- No output path is a name of the transaction's own files or another output path. -/
structure Apart (outputs : StagedOutputs) : Prop where
  distinct : (outputs.map (·.original.location)).Nodup
  reserved : ∀ output ∈ outputs, ¬ Reserved outputs output.original.location

/-- The staged files are as they were at the start. -/
structure Intact (start : FileSystem) (outputs : StagedOutputs) (files : FileSystem) : Prop where
  entries : ∀ output ∈ outputs,
    files.entries output.staged.location = start.entries output.staged.location
  contents : ∀ output ∈ outputs, ∀ inode,
    start.entries output.staged.location = some (.file inode) →
      files.contents inode = start.contents inode

/-- An output was linked to its staged file, and its path was not touched again. -/
def Published (others : Others) (outputs : StagedOutputs) (output : StagedOutput)
    (world last : World) : Prop :=
  ∃ inode linked, world.files.entries output.staged.location = some (.file inode) ∧
    World.Among others (Acts world.files outputs (targets outputs) outputs) world linked ∧
    linked.files.entries output.original.location = some (.file inode) ∧
    linked.files.contents inode = world.files.contents inode ∧
    World.Among others (World.Untouched output.original.location) linked last

/-- An output path was never touched, or after its link it held something else than the staged
file and was not touched again. -/
def TakenBack (others : Others) (outputs : StagedOutputs) (output : StagedOutput)
    (world last : World) : Prop :=
  World.Among others (World.Untouched output.original.location) world last ∨
    ∃ inode returned, world.files.entries output.staged.location = some (.file inode) ∧
      World.Among others (Acts world.files outputs (targets outputs) outputs) world returned ∧
      returned.files.entries output.original.location ≠ some (.file inode) ∧
      World.Among others (World.Untouched output.original.location) returned last

section Acting

variable {start : FileSystem} {links links' returns returns' outputs : StagedOutputs}
  {discards discards' : List Path} {left before after : FileSystem} {others : Others}
  {world world' : World} {location : Location}

theorem Acts.mono (h : Acts start links discards returns left before after)
    (hlinks : links ⊆ links') (hdiscards : discards ⊆ discards') (hreturns : returns ⊆ returns') :
    Acts start links' discards' returns' left before after := by
  cases h with
  | look => exact .look
  | link member staged free entries contents =>
      exact .link (hlinks member) staged free entries contents
  | discard member => exact .discard (hdiscards member)
  | takeBack member staged seen => exact .takeBack (hreturns member) staged seen

theorem Acts.of_nil (h : Acts start [] [] [] left before after) : after = before := by
  cases h with
  | look => rfl
  | link member => cases member
  | discard member => cases member
  | takeBack member => cases member

/-- A call leaves alone what it may neither link nor remove. -/
theorem Acts.untouched (h : Acts start links discards returns left before after)
    (hlinks : ∀ output ∈ links, output.original.location ≠ location)
    (hdiscards : ∀ path ∈ discards, path.location ≠ location)
    (hreturns : ∀ output ∈ returns, output.original.location ≠ location) :
    World.Untouched location left before after := by
  cases h with
  | look => rfl
  | link member staged free entries contents =>
      rw [World.Untouched, entries]
      exact Function.update_of_ne (hlinks _ member).symm _ _
  | discard member => exact Function.update_of_ne (hdiscards _ member).symm _ _
  | takeBack member staged seen => exact Function.update_of_ne (hreturns _ member).symm _ _

/-- No call changes the contents of a file. -/
theorem Acts.contents (h : Acts start links discards returns left before after) :
    after.contents = before.contents := by
  cases h with
  | look => rfl
  | link member staged free entries contents => exact contents
  | discard member => rfl
  | takeBack member staged seen => rfl

/-- A name that is not linked and is gone stays gone. -/
theorem Acts.gone (h : Acts start links discards returns left before after)
    (hlinks : ∀ output ∈ links, output.original.location ≠ location)
    (hgone : before.entries location = none) : after.entries location = none := by
  cases h with
  | look => exact hgone
  | link member staged free entries contents =>
      rw [entries, Function.update_of_ne (hlinks _ member).symm]
      exact hgone
  | @discard _ _ path member =>
      by_cases heq : location = path.location
      · rw [heq]
        exact Function.update_self _ _ _
      · exact (Function.update_of_ne heq _ _).trans hgone
  | @takeBack _ _ output inode member staged seen =>
      by_cases heq : location = output.original.location
      · rw [heq]
        exact Function.update_self _ _ _
      · exact (Function.update_of_ne heq _ _).trans hgone

theorem Acts.among_mono (h : World.Among others (Acts start links discards returns) world world')
    (hlinks : links ⊆ links') (hdiscards : discards ⊆ discards') (hreturns : returns ⊆ returns') :
    World.Among others (Acts start links' discards' returns') world world' :=
  h.imp fun _ _ _ hact => hact.mono hlinks hdiscards hreturns

theorem Acts.among_untouched
    (h : World.Among others (Acts start links discards returns) world world')
    (hlinks : ∀ output ∈ links, output.original.location ≠ location)
    (hdiscards : ∀ path ∈ discards, path.location ≠ location)
    (hreturns : ∀ output ∈ returns, output.original.location ≠ location) :
    World.Among others (World.Untouched location) world world' :=
  h.imp fun _ _ _ hact => hact.untouched hlinks hdiscards hreturns

/-- A name of the transaction that is gone stays gone. -/
theorem Acts.among_gone (hspare : others.Spare (Reserved outputs))
    (h : World.Among others (Acts start links discards returns) world world')
    (hlinks : ∀ output ∈ links, output.original.location ≠ location)
    (hreserved : Reserved outputs location) (hgone : world.files.entries location = none) :
    world'.files.entries location = none := by
  induction h with
  | refl => exact hgone
  | @call before after run moved calls faults ih =>
      apply moved.gone hlinks
      exact (hspare.entries before.calls before.files location hreserved).trans ih

theorem reserved_staged {output : StagedOutput} (h : output ∈ outputs) :
    Reserved outputs output.staged.location :=
  ⟨_, List.mem_append_left _ (List.mem_map_of_mem h), rfl⟩

theorem Intact.met (hspare : others.Spare (Reserved outputs))
    (h : Intact start outputs world.files) : Intact start outputs (world.met others).files where
  entries := by
    intro output hmem
    rw [← h.entries output hmem]
    exact hspare.entries _ _ _ (reserved_staged hmem)
  contents := by
    intro output hmem inode hstaged
    rw [← h.contents output hmem inode hstaged]
    apply hspare.contents _ _ _ _ (reserved_staged hmem)
    rw [h.entries output hmem, hstaged]

end Acting

/-! ## Looking and linking -/

section Linking

variable {ε : Type} {start : FileSystem} {outputs todo : StagedOutputs} {output : StagedOutput}
  {others : Others} {world world' : World} {path : Path} {location : Location}

/-- Looking is a chain of looks. -/
theorem look_among {α : Type} {run : FileSystem → Except IoErrorKind (α × FileSystem)}
    (hrun : ∀ files value files', run files = .ok (value, files') → files' = files) :
    World.Among others (Acts start [] [] []) world ((world.met others).call run).2 := by
  apply World.among_call .look
  intro value files hok
  rw [hrun _ value files hok]
  exact .look

theorem lstat_among : World.Among others (Acts start [] [] []) world
    (lstat path (world.met others)).2 := by
  apply look_among
  intro files value files' hok
  split at hok
  · cases hok
  · cases hok
    rfl

theorem existsAt_among : World.Among others (Acts start [] [] []) world
    (existsAt location (world.met others)).2 := by
  have hlook : World.Among others (Acts start [] [] []) world
      (stat location (world.met others)).2 := by
    apply look_among
    intro files value files' hok
    split at hok
    · cases hok
    · cases hok
      rfl
  unfold existsAt
  split
  · next hcall =>
      rw [hcall] at hlook
      exact hlook
  · next hcall =>
      rw [hcall] at hlook
      split
      · exact hlook
      · exact hlook

theorem missingStages_among (paths : List Path) :
    World.Among others (Acts start [] [] []) world (@missingStages ε others paths world).2 := by
  induction paths generalizing world with
  | nil => exact .refl
  | cons path paths ih =>
      have hlook := @existsAt_among start others world path.location
      unfold missingStages
      rcases hcall : existsAt path.location (world.met others) with ⟨result, looked⟩
      rw [hcall] at hlook
      cases result with
      | error error => exact hlook
      | ok found =>
          have hrest := hlook.trans (@ih looked)
          dsimp only
          rcases hmissing : @missingStages ε others paths looked with ⟨rest, last⟩
          rw [hmissing] at hrest
          cases rest with
          | error error => exact hrest
          | ok missing => exact hrest

/-- What a look at an entry has seen, and leaves. -/
theorem lstat_eq_ok {current : Entry} (h : lstat path world = (.ok current, world')) :
    world.files.entries path.location = some current ∧ world'.files = world.files := by
  have hrun := World.run_of_call h
  split at hrun
  · cases hrun
  · next entry hentry =>
      obtain ⟨rfl, hfiles⟩ := Prod.mk.inj (Except.ok.inj hrun)
      exact ⟨hentry, hfiles.symm⟩

/-- A look that finds nothing says the truth. -/
theorem lstat_notFound (hhonest : world.Honest) {error : IoError}
    (h : lstat path world = (.error error, world')) (hkind : error.kind = .notFound) :
    world'.files.entries path.location = none := by
  obtain ⟨hrun, hfiles⟩ := World.run_of_notFound hhonest h hkind
  rw [hfiles]
  split at hrun
  · next hnone => exact hnone
  · cases hrun

theorem identity_among {requireRegular : Bool} : World.Among others (Acts start [] [] []) world
    (@identity ε others path requireRegular world).2 := by
  have hlook := @lstat_among start others world path
  unfold identity
  rcases hcall : lstat path (world.met others) with ⟨result, looked⟩
  rw [hcall] at hlook
  cases result with
  | error error => exact hlook
  | ok entry =>
      dsimp only
      split
      · exact hlook
      · exact hlook

/-- The identity of a staged output is that of a regular file. -/
theorem identity_eq_ok {current : Entry}
    (h : @identity ε others path true world = (.ok current, world')) :
    (∃ inode, current = .file inode ∧
        (world.met others).files.entries path.location = some (.file inode)) ∧
      world'.files = (world.met others).files ∧
      World.Among others (Acts start [] [] []) world world' := by
  have hlook := @identity_among ε start others world path true
  rw [h] at hlook
  unfold identity at h
  rcases hcall : lstat path (world.met others) with ⟨result, looked⟩
  rw [hcall] at h
  cases result with
  | error error => cases h
  | ok entry =>
      dsimp only at h
      obtain ⟨hentry, hfiles⟩ := lstat_eq_ok hcall
      split at h
      · cases h
      · next hregular =>
          cases h
          refine ⟨?_, hfiles, hlook⟩
          cases current with
          | file inode => exact ⟨inode, rfl, hentry⟩
          | symlink target => exact absurd rfl hregular
          | directory => exact absurd rfl hregular

/-- The link of an output, among what else is known of it. -/
structure Links (start : FileSystem) (outputs : StagedOutputs) (others : Others)
    (output : StagedOutput) (world world' : World) : Prop where
  among : World.Among others (Acts start [output] [] []) world world'
  intact : Intact start outputs world'.files
  linked : ∃ inode, start.entries output.staged.location = some (.file inode) ∧
    world'.files.entries output.original.location = some (.file inode)

theorem hardLink_among {inode : Nat}
    (hstaged : start.entries output.staged.location = some (.file inode))
    (hentry : (world.met others).files.entries output.staged.location = some (.file inode)) :
    World.Among others (Acts start [output] [] []) world
      ((world.met others).hardLink output.staged output.original).2 := by
  apply World.among_call .look
  intro value files hok
  cases hlink : (world.met others).files.hardLink output.staged.location
      output.original.location with
  | error kind =>
      rw [hlink] at hok
      cases hok
  | ok linked =>
      rw [hlink] at hok
      cases hok
      obtain ⟨hfree, hentries, hcontents⟩ := World.hardLink_leaves hentry hlink
      exact .link (List.mem_singleton_self _) hstaged hfree hentries hcontents

/-- Linking an output whose staged file is as it was. -/
theorem hardLink_links (hspare : others.Spare (Reserved outputs)) (hapart : Apart outputs)
    (hmem : output ∈ outputs) (hintact : Intact start outputs world.files) {inode : Nat}
    (hstaged : start.entries output.staged.location = some (.file inode))
    (h : (world.met others).hardLink output.staged output.original = (.ok (), world')) :
    Links start outputs others output world world' := by
  have hmet := hintact.met hspare
  have hentry : (world.met others).files.entries output.staged.location = some (.file inode) :=
    (hmet.entries output hmem).trans hstaged
  have hlink := FileSystem.of_map_unit (World.run_of_call h)
  obtain ⟨_, hentries, hcontents⟩ := World.hardLink_leaves hentry hlink
  have hamong := hardLink_among hstaged hentry
  rw [h] at hamong
  refine ⟨hamong, ⟨?_, ?_⟩, inode, hstaged, ?_⟩
  · intro other hother
    have hne : other.staged.location ≠ output.original.location := by
      intro heq
      apply hapart.reserved output hmem
      rw [← heq]
      exact reserved_staged hother
    rw [hentries, Function.update_of_ne hne]
    exact hmet.entries other hother
  · intro other hother node hnode
    rw [hcontents]
    exact hmet.contents other hother node hnode
  · rw [hentries]
    exact Function.update_self _ _ _

/-! ## Linking one output after another -/

/-- An entry of `published`. -/
def Records (start : FileSystem) (output : StagedOutput) (published : Path × Entry) : Prop :=
  published.1 = output.original ∧ ∃ inode, published.2 = .file inode ∧
    start.entries output.staged.location = some (.file inode)

/-- An output was linked on the way and its path not touched again. -/
def LinkedOn (start : FileSystem) (others : Others) (done : StagedOutputs) (output : StagedOutput)
    (world world' : World) : Prop :=
  ∃ inode linked, start.entries output.staged.location = some (.file inode) ∧
    World.Among others (Acts start done [] []) world linked ∧
    linked.files.entries output.original.location = some (.file inode) ∧
    linked.files.contents inode = start.contents inode ∧
    World.Among others (World.Untouched output.original.location) linked world'

/-- A run of the links of some outputs. -/
structure LinkRun (start : FileSystem) (outputs : StagedOutputs) (others : Others)
    (done : StagedOutputs) (new : List (Path × Entry)) (world world' : World) : Prop where
  records : List.Forall₂ (Records start) done new
  intact : Intact start outputs world'.files
  among : World.Among others (Acts start done [] []) world world'
  linked : ∀ output ∈ done, LinkedOn start others done output world world'

theorem Intact.of_look (hspare : others.Spare (Reserved outputs))
    (hintact : Intact start outputs world.files)
    (h : World.Among others (Acts start [] [] []) world world') :
    Intact start outputs world'.files := by
  induction h with
  | refl => exact hintact
  | @call before after run moved calls faults ih =>
      rw [moved.of_nil]
      exact ih.met hspare

/-- A run that only looked. -/
theorem LinkRun.nil (hspare : others.Spare (Reserved outputs))
    (hintact : Intact start outputs world.files)
    (h : World.Among others (Acts start [] [] []) world world') :
    LinkRun start outputs others [] [] world world' where
  records := .nil
  intact := hintact.of_look hspare h
  among := h
  linked := nofun

/-- A link before a run of links of other outputs. -/
theorem LinkRun.cons {done : StagedOutputs} {new : List (Path × Entry)} {record : Path × Entry}
    {looked linked : World} (hmem : output ∈ outputs)
    (hrecord : Records start output record)
    (hlook : World.Among others (Acts start [] [] []) world looked)
    (hlink : Links start outputs others output looked linked)
    (hothers : ∀ other ∈ done, other.original.location ≠ output.original.location)
    (hrun : LinkRun start outputs others done new linked world') :
    LinkRun start outputs others (output :: done) (record :: new) world world' := by
  have hfirst : World.Among others (Acts start (output :: done) [] []) world linked :=
    (Acts.among_mono hlook (List.nil_subset _) (List.nil_subset _) (List.nil_subset _)).trans
      (Acts.among_mono hlink.among (by simp) (List.nil_subset _) (List.nil_subset _))
  have hmore : ∀ {first last : World}, World.Among others (Acts start done [] []) first last →
      World.Among others (Acts start (output :: done) [] []) first last :=
    fun h => Acts.among_mono h (List.subset_cons_self _ _) (List.nil_subset _) (List.nil_subset _)
  refine ⟨.cons hrecord hrun.records, hrun.intact, hfirst.trans (hmore hrun.among), ?_⟩
  intro other hother
  rcases List.mem_cons.mp hother with rfl | hold
  · obtain ⟨inode, hstaged, hentry⟩ := hlink.linked
    refine ⟨inode, linked, hstaged, hfirst, hentry, ?_, ?_⟩
    · exact hlink.intact.contents _ hmem inode hstaged
    · exact Acts.among_untouched hrun.among hothers nofun nofun
  · obtain ⟨inode, middle, hstaged, hamong, hentry, hcontents, huntouched⟩ :=
      hrun.linked other hold
    exact ⟨inode, middle, hstaged, hfirst.trans (hmore hamong), hentry, hcontents, huntouched⟩

theorem linkStages_spec (hspare : others.Spare (Reserved outputs)) (hapart : Apart outputs)
    (hsub : todo ⊆ outputs) (hnodup : (todo.map (·.original.location)).Nodup)
    (hintact : Intact start outputs world.files) {published published' : List (Path × Entry)}
    {result : Except (OutputsError ε) Unit}
    (h : linkStages others todo published world = ((result, published'), world')) :
    ∃ done rest new, todo = done ++ rest ∧ published' = published ++ new ∧
      (result = .ok () → rest = []) ∧ LinkRun start outputs others done new world world' := by
  induction todo generalizing published world with
  | nil =>
      cases h
      exact ⟨[], [], [], rfl, (List.append_nil _).symm, fun _ => rfl, .nil hspare hintact .refl⟩
  | cons output todo ih =>
      have hmem : output ∈ outputs := hsub (List.mem_cons_self ..)
      unfold linkStages at h
      rcases hidentity : @identity ε others output.staged true world with ⟨found, looked⟩
      rw [hidentity] at h
      cases found with
      | error error =>
          cases h
          have hlook := @identity_among ε start others world output.staged true
          rw [hidentity] at hlook
          exact ⟨[], _, [], rfl, (List.append_nil _).symm, nofun, .nil hspare hintact hlook⟩
      | ok current =>
          dsimp only at h
          obtain ⟨⟨inode, rfl, hentry⟩, hfiles, hlook⟩ :=
            @identity_eq_ok ε start others world looked output.staged current hidentity
          have hlooked := hintact.of_look hspare hlook
          have hstaged : start.entries output.staged.location = some (.file inode) :=
            ((hintact.met hspare).entries output hmem).symm.trans hentry
          rcases hcall : (looked.met others).hardLink output.staged output.original with
            ⟨reply, linked⟩
          rw [hcall] at h
          cases reply with
          | error error =>
              cases h
              have hfailed : World.Among others (Acts start [] [] []) looked world' :=
                World.among_of_error .look hcall
              exact ⟨[], _, [], rfl, (List.append_nil _).symm, nofun,
                .nil hspare hintact (hlook.trans hfailed)⟩
          | ok value =>
              have hlink := hardLink_links hspare hapart hmem hlooked hstaged hcall
              obtain ⟨hhead, htail⟩ := List.nodup_cons.mp hnodup
              obtain ⟨done, rest, new, rfl, rfl, hrest, hrun⟩ := ih
                (List.subset_of_cons_subset hsub) htail hlink.intact h
              refine ⟨output :: done, rest, (output.original, .file inode) :: new, rfl,
                by simp, hrest, LinkRun.cons hmem ⟨rfl, inode, rfl, hstaged⟩ hlook hlink ?_ hrun⟩
              intro other hother heq
              apply hhead
              have hname : other.original.location ∈
                  (done ++ rest).map (·.original.location) :=
                List.mem_map_of_mem (List.mem_append_left _ hother)
              rw [heq] at hname
              exact hname

end Linking

/-! ## Removing staging names -/

section Discarding

variable {ε : Type} {start : FileSystem} {outputs done : StagedOutputs} {others : Others}
  {world world' : World} {paths : List Path} {path : Path} {errors : List (Path × IoError)}

theorem removeFile_among : World.Among others (Acts start [] [path] []) world
    ((world.met others).removeFile path).2 :=
  World.among_removeFile .look (.discard (List.mem_singleton_self _))

theorem removeIfExists_among : World.Among others (Acts start [] [path] []) world
    ((world.met others).removeIfExists path).2 :=
  World.among_removeIfExists .look (.discard (List.mem_singleton_self _))

theorem unlinkStages_among (paths : List Path) :
    World.Among others (Acts start [] paths []) world (@unlinkStages ε others paths world).2 := by
  induction paths generalizing world with
  | nil => exact .refl
  | cons path paths ih =>
      have hremove := @removeFile_among start others world path
      unfold unlinkStages
      rcases hcall : (world.met others).removeFile path with ⟨result, removed⟩
      rw [hcall] at hremove
      have hfirst : World.Among others (Acts start [] (path :: paths) []) world removed :=
        Acts.among_mono hremove (List.Subset.refl _) (by simp) (List.Subset.refl _)
      cases result with
      | error error => exact hfirst
      | ok value =>
          exact hfirst.trans (Acts.among_mono (@ih removed) (List.Subset.refl _)
            (List.subset_cons_self _ _) (List.Subset.refl _))

/-- The staging names are gone once all were removed. -/
theorem gone_of_unlinkStages (hspare : others.Spare (Reserved outputs))
    (hreserved : ∀ path ∈ paths, Reserved outputs path.location)
    (h : @unlinkStages ε others paths world = (.ok (), world')) :
    ∀ path ∈ paths, world'.files.entries path.location = none := by
  induction paths generalizing world with
  | nil => exact nofun
  | cons path paths ih =>
      unfold unlinkStages at h
      rcases hcall : (world.met others).removeFile path with ⟨result, removed⟩
      rw [hcall] at h
      cases result with
      | error error => cases h
      | ok value =>
          dsimp only at h
          have hrest := @unlinkStages_among ε removed.files others removed paths
          rw [h] at hrest
          intro other hother
          rcases List.mem_cons.mp hother with rfl | hmem
          · exact Acts.among_gone hspare hrest nofun (hreserved _ hother)
              (World.gone_of_removeFile hcall)
          · exact ih (fun path hpath => hreserved path (List.mem_cons_of_mem _ hpath)) h other hmem

section Trying

variable {α : Type} {pathOf : α → Path} {run : α → World → Except IoError Unit × World}
  {move : Move} {items : List α} {item : α}

theorem world_tryEach_cons : (tryEach pathOf run (item :: items) world).2 =
    (tryEach pathOf run items (run item world).2).2 := by
  rw [tryEach]
  dsimp only
  split <;> rfl

theorem errors_tryEach_cons : (tryEach pathOf run (item :: items) world).1 =
    (match (run item world).1 with
      | .ok () => []
      | .error error => [(pathOf item, error)]) ++
    (tryEach pathOf run items (run item world).2).1 := by
  rw [tryEach]
  dsimp only
  split <;> simp_all

/-- A list of calls is a chain of what each of them does. -/
theorem tryEach_among
    (hrun : ∀ item ∈ items, ∀ world, World.Among others move world (run item world).2) :
    World.Among others move world (tryEach pathOf run items world).2 := by
  induction items generalizing world with
  | nil => exact .refl
  | cons item items ih =>
      rw [world_tryEach_cons]
      have hrest := @ih (run item world).2
        fun other hother => hrun other (List.mem_cons_of_mem _ hother)
      exact (hrun item (List.mem_cons_self ..) world).trans hrest

/-- A failure is told of. -/
theorem told_of_error {error : IoError} (h : (run item world).1 = .error error) :
    (pathOf item, error) ∈ (tryEach pathOf run (item :: items) world).1 := by
  rw [errors_tryEach_cons, h]
  exact List.mem_cons_self ..

end Trying

/-- Each staging name is gone, or its removal failed and is told of. -/
theorem gone_of_tryEach (hspare : others.Spare (Reserved outputs)) (hhonest : world.Honest)
    (hreserved : ∀ path ∈ paths, Reserved outputs path.location) :
    ∀ path ∈ paths,
      (∃ error, (path, error) ∈ (tryEach id (fun path world =>
          (world.met others).removeIfExists path) paths world).1) ∨
        (tryEach id (fun path world =>
          (world.met others).removeIfExists path) paths world).2.files.entries path.location =
            none := by
  induction paths generalizing world with
  | nil => exact nofun
  | cons first paths ih =>
      have hfirst := @removeIfExists_among world.files others world first
      have hremoved := hfirst.honest hhonest
      have hrest := @tryEach_among others ((world.met others).removeIfExists first).2 Path id
        (fun path world => (world.met others).removeIfExists path)
        (Acts world.files [] paths []) paths fun path hpath middle =>
          Acts.among_mono (@removeIfExists_among world.files others middle path)
            (List.Subset.refl _) (by simpa using hpath) (List.Subset.refl _)
      intro path hmem
      rw [world_tryEach_cons]
      rcases List.mem_cons.mp hmem with rfl | hold
      · rcases hcall : (world.met others).removeIfExists path with ⟨result, removed⟩
        cases result with
        | error error => exact Or.inl ⟨error, told_of_error (congrArg Prod.fst hcall)⟩
        | ok value =>
            rw [hcall] at hrest
            refine Or.inr (Acts.among_gone hspare hrest nofun (hreserved _ hmem) ?_)
            exact World.gone_of_removeIfExists (by exact hhonest) hcall
      · rcases @ih ((world.met others).removeIfExists first).2 hremoved
          (fun path hpath => hreserved path (List.mem_cons_of_mem _ hpath)) path hold with
          ⟨error, herror⟩ | hgone
        · refine Or.inl ⟨error, ?_⟩
          rw [errors_tryEach_cons]
          exact List.mem_append_right _ herror
        · exact Or.inr hgone

end Discarding

/-! ## Taking links back -/

section Returning

variable {ε : Type} {start : FileSystem} {outputs done : StagedOutputs} {output : StagedOutput}
  {others : Others} {world world' : World} {record : Path × Entry}
  {published : List (Path × Entry)}

/-- A link was taken back on the way and its path not touched again. -/
def Returned (start : FileSystem) (others : Others) (discards : List Path) (done : StagedOutputs)
    (output : StagedOutput) (world world' : World) : Prop :=
  ∃ inode returned, start.entries output.staged.location = some (.file inode) ∧
    World.Among others (Acts start [] discards done) world returned ∧
    returned.files.entries output.original.location ≠ some (.file inode) ∧
    World.Among others (World.Untouched output.original.location) returned world'

theorem takeBack_among (hrecord : Records start output record) :
    World.Among others (Acts start [] [] [output]) world (takeBack others record world).2 := by
  obtain ⟨path, entry⟩ := record
  obtain ⟨rfl, inode, rfl, hstaged⟩ := hrecord
  have hlook := @lstat_among start others world output.original
  unfold takeBack
  rcases hcall : lstat output.original (world.met others) with ⟨result, looked⟩
  rw [hcall] at hlook
  have hfirst : World.Among others (Acts start [] [] [output]) world looked :=
    Acts.among_mono hlook (List.Subset.refl _) (List.Subset.refl _) (List.nil_subset _)
  cases result with
  | error error =>
      dsimp only
      split
      · exact hfirst
      · exact hfirst
  | ok current =>
      dsimp only
      split
      · next hsame =>
          obtain ⟨hentry, hfiles⟩ := lstat_eq_ok hcall
          rw [hsame, ← hfiles] at hentry
          apply hfirst.trans
          apply World.among_removeIfExists .look
          exact .takeBack (List.mem_singleton_self _) hstaged hentry
      · exact hfirst

/-- A link that was taken back is gone, or another file had taken its place. -/
theorem returned_of_takeBack (hhonest : world.Honest) {inode : Nat}
    (h : takeBack others (output.original, .file inode) world = (.ok (), world')) :
    world'.files.entries output.original.location ≠ some (.file inode) := by
  unfold takeBack at h
  have hlook := @lstat_among world.files others world output.original
  rcases hcall : lstat output.original (world.met others) with ⟨result, looked⟩
  rw [hcall] at h hlook
  cases result with
  | error error =>
      dsimp only at h
      split at h
      · next hkind =>
          cases h
          rw [lstat_notFound (by exact hhonest) hcall hkind]
          nofun
      · cases h
  | ok current =>
      obtain ⟨hentry, hfiles⟩ := lstat_eq_ok hcall
      dsimp only at h
      split at h
      · have hlooked : looked.Honest := hlook.honest hhonest
        rw [World.gone_of_removeIfExists (by exact hlooked) h]
        nofun
      · next hdifferent =>
          cases h
          rw [hfiles, hentry]
          exact fun hsame => hdifferent (Option.some.inj hsame)

theorem tryEach_takeBack_spec (hhonest : world.Honest)
    (hrecords : List.Forall₂ (Records start) done published)
    (hnodup : (done.map (·.original.location)).Nodup) :
    World.Among others (Acts start [] [] done) world
        (tryEach Prod.fst (takeBack others) published world).2 ∧
      ∀ output ∈ done,
        (∃ error, (output.original, error) ∈
          (tryEach Prod.fst (takeBack others) published world).1) ∨
        Returned start others [] done output world
          (tryEach Prod.fst (takeBack others) published world).2 := by
  induction hrecords generalizing world with
  | nil => exact ⟨.refl, nofun⟩
  | @cons output record done published hrecord hrecords ih =>
      obtain ⟨hhead, htail⟩ := List.nodup_cons.mp hnodup
      have hback := @takeBack_among start output others world record hrecord
      obtain ⟨hrest, hreturned⟩ := @ih (takeBack others record world).2
        (hback.honest hhonest) htail
      have hfirst : World.Among others (Acts start [] [] (output :: done)) world
          (takeBack others record world).2 :=
        Acts.among_mono hback (List.Subset.refl _) (List.Subset.refl _) (by simp)
      rw [world_tryEach_cons]
      refine ⟨hfirst.trans (Acts.among_mono hrest (List.Subset.refl _) (List.Subset.refl _)
        (List.subset_cons_self _ _)), ?_⟩
      intro other hother
      rcases List.mem_cons.mp hother with rfl | hold
      · obtain ⟨path, entry⟩ := record
        obtain ⟨rfl, inode, rfl, hstaged⟩ := hrecord
        rcases hcall : takeBack others (other.original, .file inode) world with ⟨result, last⟩
        cases result with
        | error error => exact Or.inl ⟨error, told_of_error (congrArg Prod.fst hcall)⟩
        | ok value =>
            rw [hcall] at hfirst hrest
            refine Or.inr ⟨inode, last, hstaged, hfirst, returned_of_takeBack hhonest hcall, ?_⟩
            apply Acts.among_untouched hrest nofun nofun
            intro next hnext hsame
            apply hhead
            have hname : next.original.location ∈ done.map (·.original.location) :=
              List.mem_map_of_mem hnext
            rw [hsame] at hname
            exact hname
      · rcases hreturned other hold with ⟨error, herror⟩ | ⟨inode, returned, hstaged, hamong, hrest⟩
        · refine Or.inl ⟨error, ?_⟩
          rw [errors_tryEach_cons]
          exact List.mem_append_right _ herror
        · exact Or.inr ⟨inode, returned, hstaged, hfirst.trans (Acts.among_mono hamong
            (List.Subset.refl _) (List.Subset.refl _) (List.subset_cons_self _ _)), hrest⟩

/-- What a cleanup leaves, with the failures it tells of. -/
structure Cleaned (start : FileSystem) (outputs : StagedOutputs) (others : Others)
    (done : StagedOutputs) (errors : List (Path × IoError)) (world world' : World) : Prop where
  among : World.Among others (Acts start [] (targets outputs) done) world world'
  gone : ∀ path ∈ targets outputs,
    (∃ error, (path, error) ∈ errors) ∨ world'.files.entries path.location = none
  returned : ∀ output ∈ done, (∃ error, (output.original, error) ∈ errors) ∨
    Returned start others (targets outputs) done output world world'

theorem cleanup_spec (hspare : others.Spare (Reserved outputs)) (hhonest : world.Honest)
    (hrecords : List.Forall₂ (Records start) done published)
    (hnodup : (done.map (·.original.location)).Nodup) (original : OutputsError ε) :
    ∃ errors, ((cleanup others outputs original published world).1 = original ∧ errors = [] ∨
        (cleanup others outputs original published world).1 = .cleanup errors original) ∧
      Cleaned start outputs others done errors world
        (cleanup others outputs original published world).2 := by
  have hreserved : ∀ path ∈ targets outputs, Reserved outputs path.location :=
    fun path hpath => ⟨path, hpath, rfl⟩
  have hgone := @gone_of_tryEach outputs others world (targets outputs) hspare hhonest hreserved
  have hdiscard := @tryEach_among others world Path id
    (fun path world => (world.met others).removeIfExists path)
    (Acts start [] (targets outputs) []) (targets outputs) fun path hpath middle =>
      Acts.among_mono (@removeIfExists_among start others middle path)
        (List.Subset.refl _) (by simpa using hpath) (List.Subset.refl _)
  unfold cleanup
  rcases hfirst : tryEach id (fun path world => (world.met others).removeIfExists path)
    (targets outputs) world with ⟨errors, middle⟩
  rw [hfirst] at hgone hdiscard
  obtain ⟨hback, hreturned⟩ := @tryEach_takeBack_spec start done others middle published
    (hdiscard.honest hhonest) hrecords hnodup
  rcases hsecond : tryEach Prod.fst (takeBack others) published middle with ⟨more, last⟩
  rw [hsecond] at hback hreturned
  have hdiscarded : World.Among others (Acts start [] (targets outputs) done) world middle :=
    Acts.among_mono hdiscard (List.Subset.refl _) (List.Subset.refl _) (List.nil_subset _)
  have hbacked : ∀ {world' : World}, World.Among others (Acts start [] [] done) middle world' →
      World.Among others (Acts start [] (targets outputs) done) middle world' :=
    fun h => Acts.among_mono h (List.Subset.refl _) (List.nil_subset _) (List.Subset.refl _)
  have hcleaned : Cleaned start outputs others done (errors ++ more) world last := by
    refine ⟨hdiscarded.trans (hbacked hback), ?_, ?_⟩
    · intro path hpath
      rcases hgone path hpath with ⟨error, herror⟩ | hnone
      · exact Or.inl ⟨error, List.mem_append_left _ herror⟩
      · exact Or.inr (Acts.among_gone hspare hback nofun (hreserved path hpath) hnone)
    · intro output houtput
      rcases hreturned output houtput with ⟨error, herror⟩ |
        ⟨inode, returned, hstaged, hamong, hentry, hrest⟩
      · exact Or.inl ⟨error, List.mem_append_right _ herror⟩
      · exact Or.inr ⟨inode, returned, hstaged, hdiscarded.trans (hbacked hamong), hentry, hrest⟩
  dsimp only
  rw [hsecond]
  refine ⟨errors ++ more, ?_, ?_⟩
  · dsimp only
    split
    · next hnone => exact Or.inl ⟨rfl, hnone⟩
    · exact Or.inr rfl
  · dsimp only
    split
    · exact hcleaned
    · exact hcleaned

end Returning

end StagedOutputs

end Pari.Python
