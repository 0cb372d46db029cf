import AnchorMind.Cli.FileTransaction
import Mathlib.Data.List.Nodup
import Mathlib.Data.List.Perm.Subperm

/-!
# What a failed transaction leaves

Every undo sets its own path back, or leaves it and names it.  Two steps of the rollback
do more: the look-up of the temporary file, whose error ends the rollback with nothing
named, and the restoring of a replaced file, which may leave a temporary file behind or
a file that is not quite the old one.  Apart from these, a transaction is all or nothing.
-/

namespace AnchorMind.Cli.FileTransaction

open Kernel.FileTree Function

variable {Text Bytes : Type*}

def Unchanged (leftovers : List Leftover) (before after : Tree String Bytes) : Prop :=
  ∀ path, (∀ leftover ∈ leftovers, leftover.path ≠ path) ->
    after.look path = before.look path

/-- `writeAll` writes everything, or throws and leaves what it does not name. -/
def AllOrNothing (host : Host Text Bytes) (entries : List (Entry Text))
    (before : Tree String Bytes) : Prop :=
  match writeAll host entries before with
  | (.written _, after) => AllWritten host entries before after
  | (.failed _ _ leftovers, after) => Unchanged leftovers before after
  | (.thrown _, after) => Unchanged [] before after

/-- Restoring leaves no temporary file and no other file than the old one: either nothing
is written, or the write and the rename go through and the old file had just the bytes
of the text and the usual mode. -/
def RestoresCleanly (host : Host Text Bytes) (before : Tree String Bytes) (draw : Nat)
    (replaced : FilePath × Text) : Prop :=
  let temp := tempPathFor host draw replaced.1
  (∃ code, host.writeFails temp = some (code, none)) \/
    host.writeFails temp = none /\ host.renameFails temp replaced.1 = none /\
      before.look replaced.1 = some (written host replaced.2)

/-- Of the run in which an entry failed: the look-up of its temporary file answers and
every replaced file is restored cleanly in its turn, or the look-up fails before anything
has changed. -/
def Undoable (host : Host Text Bytes) (before : Tree String Bytes) (run : Run Text Bytes) :
    Prop :=
  (∀ temp, run.journal.temp = some temp ->
      ∃ found, (lstatOrNull host run temp).1 = .ok found) /\
    (∀ turn replaced, run.journal.replaced.reverse[turn]? = some replaced ->
      RestoresCleanly host before (run.draws + turn) replaced) \/
  (∃ temp code, run.journal.temp = some temp /\
    (lstatOrNull host run temp).1 = .error code) /\
      ∀ path, run.tree.look path = before.look path

/-- No entry fails, or what was done by then can be undone. -/
def Recovers (host : Host Text Bytes) (entries : List (Entry Text))
    (before : Tree String Bytes) : Prop :=
  match writeEntries host entries (beginRun before) with
  | (none, _) => True
  | (some _, run) => Undoable host before run

def Settled (before : Tree String Bytes) (pending : List FilePath)
    (left : List Leftover × Run Text Bytes) : Prop :=
  ∀ path, path ∉ pending -> (∀ leftover ∈ left.1, leftover.path ≠ path) ->
    left.2.tree.look path = before.look path

/-- A path that an undo neither changes nor names. -/
structure Kept (path : FilePath) (left after : List Leftover × Run Text Bytes) : Prop where
  look : after.2.tree.look path = left.2.tree.look path
  unnamed : (∀ leftover ∈ left.1, leftover.path ≠ path) ->
    ∀ leftover ∈ after.1, leftover.path ≠ path

/-- An undo that takes a node away, or fails and changes nothing. -/
def Removes (undo : FilePath -> Run Text Bytes -> Option String × Run Text Bytes) : Prop :=
  ∀ path run, (∃ code, undo path run = (some code, run)) \/
    ∃ tree, undo path run = (none, { run with tree := tree }) /\
      tree.look = update run.tree.look path none

section

variable {host : Host Text Bytes} {before : Tree String Bytes}
  {left middle after : List Leftover × Run Text Bytes} {path label : FilePath}
  {undo : Run Text Bytes -> Option String × Run Text Bytes}

theorem removes_unlinkPath (host : Host Text Bytes) : Removes (unlinkPath host) := by
  intro path run
  unfold unlinkPath
  split
  · exact Or.inl ⟨_, rfl⟩
  · rename_i tree hunlink
    unfold unlinkSync at hunlink
    split at hunlink
    · cases hunlink
    · exact Or.inr ⟨tree, rfl, (Tree.unlink_ok hunlink).2⟩

theorem removes_rmdirPath (host : Host Text Bytes) : Removes (rmdirPath host) := by
  intro path run
  unfold rmdirPath
  split
  · exact Or.inl ⟨_, rfl⟩
  · rename_i tree hrmdir
    unfold rmdirSync at hrmdir
    split at hrmdir
    · cases hrmdir
    · exact Or.inr ⟨tree, rfl, (Tree.rmdir_ok hrmdir).2⟩

theorem Kept.refl : Kept path left left := ⟨rfl, fun hunnamed => hunnamed⟩

theorem Kept.trans (hfirst : Kept path left middle) (hsecond : Kept path middle after) :
    Kept path left after :=
  ⟨hsecond.look.trans hfirst.look, fun hunnamed => hsecond.unnamed (hfirst.unnamed hunnamed)⟩

theorem Kept.attempt (hne : label ≠ path)
    (hlook : (undo left.2).2.tree.look path = left.2.tree.look path) :
    Kept path left (attempt label undo left) := by
  unfold FileTransaction.attempt
  split
  · rename_i run hundo
    rw [hundo] at hlook
    exact ⟨hlook, fun hunnamed => hunnamed⟩
  · rename_i code run hundo
    rw [hundo] at hlook
    refine ⟨hlook, fun hunnamed leftover hmem => ?_⟩
    rcases List.mem_append.mp hmem with hold | hnew
    · exact hunnamed leftover hold
    · obtain rfl := List.mem_singleton.mp hnew
      exact hne

theorem Settled.attempt {pending : List FilePath}
    (hsettled : Settled before (label :: pending) left)
    (hundo : (∃ code run, undo left.2 = (some code, run) /\ run.tree = left.2.tree) \/
      ∃ run, undo left.2 = (none, run) /\
        run.tree.look = update left.2.tree.look label (before.look label)) :
    Settled before pending (attempt label undo left) := by
  unfold FileTransaction.attempt
  intro path hpending hunnamed
  rcases hundo with ⟨code, run, heq, htree⟩ | ⟨run, heq, hlook⟩
  · rw [heq] at hunnamed ⊢
    have hne : label ≠ path :=
      hunnamed ⟨label, code⟩ (List.mem_append_right _ List.mem_cons_self)
    change run.tree.look path = before.look path
    rw [htree]
    refine hsettled path ?_ fun leftover hmem => hunnamed leftover (List.mem_append_left _ hmem)
    exact fun hmem => (List.mem_cons.mp hmem).elim (fun hlabel => hne hlabel.symm) hpending
  · rw [heq] at hunnamed ⊢
    change run.tree.look path = before.look path
    rw [hlook]
    rcases eq_or_ne path label with rfl | hne
    · rw [update_self]
    · rw [update_of_ne hne]
      refine hsettled path ?_ hunnamed
      exact fun hmem => (List.mem_cons.mp hmem).elim hne hpending

end

section

variable {before : Tree String Bytes} {left : List Leftover × Run Text Bytes}
  {undo : FilePath -> Run Text Bytes -> Option String × Run Text Bytes} {path label : FilePath}

/-- `unlinkPath` or `rmdirPath` over the paths of a list. -/
def removeAll (undo : FilePath -> Run Text Bytes -> Option String × Run Text Bytes)
    (paths : List FilePath) (left : List Leftover × Run Text Bytes) :
    List Leftover × Run Text Bytes :=
  paths.foldl (fun left path => attempt path (undo path) left) left

section

variable (hremoves : Removes undo)
include hremoves

theorem Removes.attempt_kept (hne : label ≠ path) :
    Kept path left (attempt label (undo label) left) := by
  refine Kept.attempt hne ?_
  rcases hremoves label left.2 with ⟨code, heq⟩ | ⟨tree, heq, hlook⟩
  · rw [heq]
  · rw [heq]
    change tree.look path = _
    rw [hlook, update_of_ne hne.symm]

theorem Removes.attempt_draws : (attempt label (undo label) left).2.draws = left.2.draws := by
  unfold attempt
  rcases hremoves label left.2 with ⟨code, heq⟩ | ⟨tree, heq, -⟩ <;> rw [heq]

theorem Removes.attempt_settled {pending : List FilePath} (hmissing : before.look label = none)
    (hsettled : Settled before (label :: pending) left) :
    Settled before pending (attempt label (undo label) left) := by
  refine hsettled.attempt ?_
  rcases hremoves label left.2 with ⟨code, heq⟩ | ⟨tree, heq, hlook⟩
  · exact Or.inl ⟨code, left.2, heq, rfl⟩
  · refine Or.inr ⟨_, heq, ?_⟩
    rw [hmissing]
    exact hlook

theorem Removes.removeAll_kept {paths : List FilePath} (hpath : path ∉ paths) :
    Kept path left (removeAll undo paths left) := by
  induction paths generalizing left with
  | nil => exact Kept.refl
  | cons label rest ih =>
    rw [List.mem_cons, not_or] at hpath
    exact (hremoves.attempt_kept (Ne.symm hpath.1)).trans (ih hpath.2)

theorem Removes.removeAll_draws (paths : List FilePath) :
    (removeAll undo paths left).2.draws = left.2.draws := by
  induction paths generalizing left with
  | nil => rfl
  | cons label rest ih =>
    have hrest : (removeAll undo rest (attempt label (undo label) left)).2.draws = _ := ih
    exact hrest.trans hremoves.attempt_draws

theorem Removes.removeAll_settled {paths pending : List FilePath}
    (hmissing : ∀ path ∈ paths, before.look path = none)
    (hsettled : Settled before (paths ++ pending) left) :
    Settled before pending (removeAll undo paths left) := by
  induction paths generalizing left with
  | nil => exact hsettled
  | cons label rest ih =>
    refine ih (fun path hpath => hmissing path (List.mem_cons_of_mem _ hpath)) ?_
    exact hremoves.attempt_settled (hmissing label List.mem_cons_self) hsettled

end

end

variable {host : Host Text Bytes} {before : Tree String Bytes} {run : Run Text Bytes}
  {left : List Leftover × Run Text Bytes} {path : FilePath} {replaced : FilePath × Text}

theorem restore_keeps (hlabel : replaced.1 ≠ path)
    (htemp : tempPathFor host run.draws replaced.1 ≠ path) :
    (restore host replaced run).2.tree.look path = run.tree.look path := by
  have hwritten : ∀ answer tree,
      writeFileSync host run.tree (tempPathFor host run.draws replaced.1) replaced.2 =
        (answer, tree) -> tree.look path = run.tree.look path := by
    intro answer tree hwrite
    rcases writeFileSync_cases hwrite with ⟨rfl, -⟩ | ⟨-, content, mode, hlook, -⟩
    · rfl
    · rw [hlook, update_of_ne htemp.symm]
  simp only [restore]
  split
  · rename_i code tree hwrite
    exact hwritten _ tree hwrite
  · rename_i tree hwrite
    split
    · exact hwritten _ tree hwrite
    · rename_i renamed hrename
      obtain ⟨-, content, mode, -, hlook⟩ := renameSync_ok hrename
      change renamed.look path = _
      rw [hlook, update_of_ne hlabel.symm, update_of_ne htemp.symm]
      exact hwritten _ tree hwrite

theorem restore_draws : (restore host replaced run).2.draws = run.draws + 1 := by
  simp only [restore]
  split
  · rfl
  · split <;> rfl

/-- A file written beside one that is no directory can take its place. -/
theorem exists_renamed {draw mode : Nat} {content : Bytes} {target : FilePath}
    {tree made : Tree String Bytes} (hne : tempPathFor host draw target ≠ target)
    (hcreate : tree.create (tempPathFor host draw target) (.file content mode) = .ok made)
    (htarget : tree.isDir target = false) :
    ∃ renamed, made.rename (tempPathFor host draw target) target = .ok renamed /\
      renamed.look = update tree.look target (some (.file content mode)) := by
  obtain ⟨hfree, hlook⟩ := Tree.create_ok hcreate
  have hsource : made.look (tempPathFor host draw target) = some (.file content mode) := by
    rw [hlook, update_self]
  have hdir : made.isDir target.tail = true := by
    refine made.inTree (tempPathFor host draw target).head! _ ?_
    change made.look (tempPathFor host draw target) ≠ none
    rw [hsource]
    exact Option.some_ne_none _
  have hother : made.isDir target = false := by
    rw [Tree.isDir, hlook, update_of_ne hne.symm]
    exact htarget
  obtain ⟨renamed, hrename⟩ := Tree.exists_rename hne hsource hother hdir
  obtain ⟨-, moved, movedMode, hmoved, hlast⟩ := Tree.rename_ok hrename
  refine ⟨renamed, hrename, ?_⟩
  rw [hlast, <- hmoved, hsource, hlook, update_idem, <- hfree,
    update_eq_self]

theorem restore_clean (hclean : RestoresCleanly host before run.draws replaced)
    (hne : tempPathFor host run.draws replaced.1 ≠ replaced.1)
    (hfile : run.tree.isDir replaced.1 = false) :
    (∃ code after, restore host replaced run = (some code, after) /\
      after.tree = run.tree) \/
      ∃ after, restore host replaced run = (none, after) /\
        after.tree.look = update run.tree.look replaced.1 (before.look replaced.1) := by
  rcases hclean with ⟨code, hfails⟩ | ⟨hwrites, hrenames, hwas⟩
  · refine Or.inl ⟨code, { run with draws := run.draws + 1 }, ?_, rfl⟩
    simp only [restore, writeFileSync, hfails]
  · cases hcreate : run.tree.create (tempPathFor host run.draws replaced.1)
        (written host replaced.2) with
    | error code =>
      refine Or.inl ⟨code, { run with draws := run.draws + 1 }, ?_, rfl⟩
      simp only [restore, writeFileSync, hwrites, hcreate]
    | ok tree =>
      obtain ⟨renamed, hrename, hlook⟩ := exists_renamed hne hcreate hfile
      refine Or.inr ⟨{ run with draws := run.draws + 1, tree := renamed }, ?_, ?_⟩
      · simp only [restore, writeFileSync, hwrites, hcreate, renameSync, hrenames, hrename]
      · rw [hwas]
        exact hlook

theorem restore_unclean (hunclean : Not (RestoresCleanly host before run.draws replaced))
    (hne : tempPathFor host run.draws replaced.1 ≠ replaced.1)
    (hfile : ∃ content mode, run.tree.look replaced.1 = some (.file content mode))
    (hfree : run.tree.look (tempPathFor host run.draws replaced.1) = none) :
    (restore host replaced run).2.tree.look (tempPathFor host run.draws replaced.1) ≠ none \/
      (restore host replaced run).1 = none /\
        (restore host replaced run).2.tree.look replaced.1 ≠ before.look replaced.1 := by
  obtain ⟨content, mode, hfile⟩ := hfile
  have hdir : run.tree.isDir (tempPathFor host run.draws replaced.1).tail = true := by
    change run.tree.isDir replaced.1.tail = true
    cases hpath : replaced.1 with
    | nil => exact run.tree.rooted
    | cons name dir =>
      refine run.tree.inTree name dir ?_
      rw [<- hpath, hfile]
      exact Option.some_ne_none _
  have hstays : ∀ tree node,
      run.tree.create (tempPathFor host run.draws replaced.1) node = .ok tree ->
        tree.look (tempPathFor host run.draws replaced.1) = some node := by
    intro tree node hcreate
    rw [(Tree.create_ok hcreate).2, update_self]
  rcases hfails : host.writeFails (tempPathFor host run.draws replaced.1) with
    _ | ⟨code, _ | part⟩
  · obtain ⟨tree, hcreate⟩ := Tree.exists_create (written host replaced.2) hfree hdir
    have hsource := hstays tree _ hcreate
    cases hrenames : host.renameFails (tempPathFor host run.draws replaced.1) replaced.1 with
    | some code =>
      left
      simp only [restore, writeFileSync, hfails, hcreate, renameSync, hrenames, hsource]
      exact Option.some_ne_none _
    | none =>
      have htarget : run.tree.isDir replaced.1 = false := by
        rw [Tree.isDir, hfile]
        rfl
      obtain ⟨renamed, hrename, hlook⟩ := exists_renamed hne hcreate htarget
      right
      simp only [restore, writeFileSync, hfails, hcreate, renameSync, hrenames, hrename]
      refine ⟨trivial, fun hsame => hunclean (Or.inr ⟨hfails, hrenames, ?_⟩)⟩
      rw [<- hsame, hlook, update_self]
      rfl
  · exact absurd (Or.inl ⟨code, hfails⟩) hunclean
  · obtain ⟨tree, hcreate⟩ :=
      Tree.exists_create (.file part (host.masked 0o644)) hfree hdir
    left
    simp only [restore, writeFileSync, hfails, hcreate, hstays tree _ hcreate]
    exact Option.some_ne_none _

/-- The second loop of `undoAll`. -/
def restoreAll (host : Host Text Bytes) (items : List (FilePath × Text))
    (left : List Leftover × Run Text Bytes) : List Leftover × Run Text Bytes :=
  items.foldl (fun left replaced => attempt replaced.1 (restore host replaced) left) left

variable {items : List (FilePath × Text)}

theorem attempt_restore_draws (item : FilePath × Text) :
    (attempt item.1 (restore host item) left).2.draws = left.2.draws + 1 := by
  have hdraws : (restore host item left.2).2.draws = left.2.draws + 1 := restore_draws
  unfold attempt
  split <;> rename_i heq <;> rw [heq] at hdraws <;> exact hdraws

theorem restoreAll_draws : (restoreAll host items left).2.draws = left.2.draws + items.length := by
  induction items generalizing left with
  | nil => rfl
  | cons item rest ih =>
    have hrest : (restoreAll host rest (attempt item.1 (restore host item) left)).2.draws = _ := ih
    rw [attempt_restore_draws] at hrest
    rw [List.length_cons]
    refine hrest.trans ?_
    omega

variable {item : FilePath × Text}

theorem later_turns {motive : Nat -> FilePath × Text -> Prop}
    (hturns : ∀ turn other, (item :: items)[turn]? = some other ->
      motive (left.2.draws + turn) other) :
    ∀ turn other, items[turn]? = some other ->
      motive ((attempt item.1 (restore host item) left).2.draws + turn) other := by
  intro turn other hother
  have hnext := hturns (turn + 1) other (by simpa using hother)
  rw [attempt_restore_draws]
  convert hnext using 1
  omega

theorem restoreAll_kept (hlabels : ∀ item ∈ items, item.1 ≠ path)
    (htemps : ∀ turn item, items[turn]? = some item ->
      tempPathFor host (left.2.draws + turn) item.1 ≠ path) :
    Kept path left (restoreAll host items left) := by
  induction items generalizing left with
  | nil => exact Kept.refl
  | cons item rest ih =>
    have hone : Kept path left (attempt item.1 (restore host item) left) :=
      Kept.attempt (hlabels item List.mem_cons_self)
        (restore_keeps (hlabels item List.mem_cons_self) (htemps 0 item rfl))
    refine hone.trans (ih (fun other hother => hlabels other (List.mem_cons_of_mem _ hother)) ?_)
    exact later_turns (motive := fun draw other => tempPathFor host draw other.1 ≠ path) htemps

theorem restoreAll_settled {pending : List FilePath}
    (hclean : ∀ turn item, items[turn]? = some item ->
      RestoresCleanly host before (left.2.draws + turn) item)
    (hne : ∀ turn item, items[turn]? = some item ->
      tempPathFor host (left.2.draws + turn) item.1 ≠ item.1)
    (hfile : ∀ item ∈ items, left.2.tree.isDir item.1 = false)
    (hwas : ∀ item ∈ items, before.isDir item.1 = false)
    (hsettled : Settled before (items.map Prod.fst ++ pending) left) :
    Settled before pending (restoreAll host items left) := by
  induction items generalizing left with
  | nil => exact hsettled
  | cons item rest ih =>
    have hone := restore_clean (hclean 0 item rfl) (hne 0 item rfl)
      (hfile item List.mem_cons_self)
    refine ih (later_turns hclean)
      (later_turns (motive := fun draw other => tempPathFor host draw other.1 ≠ other.1) hne)
      ?_ (fun other hother => hwas other (List.mem_cons_of_mem _ hother)) ?_
    · intro other hother
      have hstill := hfile other (List.mem_cons_of_mem _ hother)
      change (attempt item.1 (restore host item) left).2.tree.isDir other.1 = false
      unfold attempt
      rcases hone with ⟨code, after, heq, htree⟩ | ⟨after, heq, hlook⟩ <;> rw [heq]
      · change after.tree.isDir other.1 = false
        rw [htree, hstill]
      · change (after.tree.look other.1).any Node.isDir = false
        rw [hlook]
        rcases eq_or_ne other.1 item.1 with hsame | hapart
        · rw [hsame, update_self]
          exact hwas item List.mem_cons_self
        · rw [update_of_ne hapart]
          exact hstill
    · refine hsettled.attempt ?_
      rcases hone with ⟨code, after, heq, htree⟩ | ⟨after, heq, hlook⟩
      · exact Or.inl ⟨code, after, heq, htree⟩
      · exact Or.inr ⟨after, heq, hlook⟩

structure TurnsApart (host : Host Text Bytes) (items : List (FilePath × Text)) (draws : Nat) :
    Prop where
  once : (items.map Prod.fst).Nodup
  apart : ∀ turn item other, turn < items.length -> item ∈ items -> other ∈ items ->
    tempPathFor host (draws + turn) item.1 ≠ other.1
  distinct : ∀ turn again item other, turn < items.length -> again < items.length ->
    item ∈ items -> other ∈ items ->
      tempPathFor host (draws + turn) item.1 = tempPathFor host (draws + again) other.1 ->
        turn = again

theorem attempt_unnamed {label : FilePath} {undo : Run Text Bytes -> Option String × Run Text Bytes}
    (hundo : label ≠ path \/ (undo left.2).1 = none)
    (hunnamed : ∀ leftover ∈ left.1, leftover.path ≠ path) :
    ∀ leftover ∈ (attempt label undo left).1, leftover.path ≠ path := by
  unfold attempt
  split
  · exact hunnamed
  · rename_i code run heq
    rw [heq] at hundo
    intro leftover hmem
    rcases List.mem_append.mp hmem with hold | hnew
    · exact hunnamed leftover hold
    · obtain rfl := List.mem_singleton.mp hnew
      exact hundo.resolve_right nofun

/-- After a turn that is not clean, the temporary file or the old file differs and is not
named, and the later turns leave it. -/
theorem restoreAll_unclean {first rest : List (FilePath × Text)}
    (hapart : TurnsApart host (first ++ item :: rest) left.2.draws)
    (hunclean : Not (RestoresCleanly host before (left.2.draws + first.length) item))
    (hfile : ∃ content mode, left.2.tree.look item.1 = some (.file content mode))
    (hfree : left.2.tree.look (tempPathFor host (left.2.draws + first.length) item.1) = none)
    (hmissing : before.look (tempPathFor host (left.2.draws + first.length) item.1) = none) :
    ∃ path, (path = tempPathFor host (left.2.draws + first.length) item.1 \/ path = item.1) /\
      ((∀ leftover ∈ left.1, leftover.path ≠ path) ->
        ∀ leftover ∈ (restoreAll host (first ++ item :: rest) left).1,
          leftover.path ≠ path) /\
        (restoreAll host (first ++ item :: rest) left).2.tree.look path ≠ before.look path := by
  set temp := tempPathFor host (left.2.draws + first.length) item.1 with htemp
  have hmem : item ∈ first ++ item :: rest := List.mem_append_right _ List.mem_cons_self
  have hfirst : ∀ other ∈ first, other ∈ first ++ item :: rest :=
    fun other hother => List.mem_append_left _ hother
  have hrest : ∀ other ∈ rest, other ∈ first ++ item :: rest :=
    fun other hother => List.mem_append_right _ (List.mem_cons_of_mem _ hother)
  have hlength : (first ++ item :: rest).length = first.length + rest.length + 1 := by
    rw [List.length_append, List.length_cons]
    omega
  have hne : temp ≠ item.1 := hapart.apart first.length item item (by omega) hmem hmem
  have honce := hapart.once
  rw [List.map_append, List.map_cons, List.nodup_append, List.nodup_cons] at honce
  obtain ⟨-, ⟨hlater, -⟩, hearlier⟩ := honce
  -- before its turn
  have hbefore : ∀ path, path = temp \/ path = item.1 ->
      Kept path left (restoreAll host first left) := by
    rintro path (rfl | rfl)
    · refine restoreAll_kept ?_ ?_
      · intro other hother heq
        exact hapart.apart first.length item other (by omega) hmem (hfirst other hother) heq.symm
      · intro turn other hother heq
        have hturn := (List.getElem?_eq_some_iff.mp hother).1
        have hsame := hapart.distinct turn first.length other item (by omega) (by omega)
          (hfirst other (List.mem_of_getElem? hother)) hmem heq
        omega
    · refine restoreAll_kept ?_ ?_
      · intro other hother
        exact hearlier _ (List.mem_map_of_mem hother) _ List.mem_cons_self
      · intro turn other hother
        have hturn := (List.getElem?_eq_some_iff.mp hother).1
        exact hapart.apart turn other item (by omega)
          (hfirst other (List.mem_of_getElem? hother)) hmem
  -- after its turn
  have hafter : ∀ path middle, path = temp \/ path = item.1 ->
      middle.2.draws = left.2.draws + first.length + 1 ->
        Kept path middle (restoreAll host rest middle) := by
    rintro path middle (rfl | rfl) hdraws
    · refine restoreAll_kept ?_ ?_
      · intro other hother heq
        exact hapart.apart first.length item other (by omega) hmem (hrest other hother) heq.symm
      · intro turn other hother heq
        have hturn := (List.getElem?_eq_some_iff.mp hother).1
        rw [hdraws, Nat.add_assoc, Nat.add_assoc, htemp] at heq
        have hsame := hapart.distinct (first.length + (1 + turn)) first.length other item
          (by omega) (by omega) (hrest other (List.mem_of_getElem? hother)) hmem heq
        omega
    · refine restoreAll_kept ?_ ?_
      · intro other hother heq
        exact hlater (heq ▸ List.mem_map_of_mem hother)
      · intro turn other hother
        have hturn := (List.getElem?_eq_some_iff.mp hother).1
        rw [hdraws, Nat.add_assoc, Nat.add_assoc]
        exact hapart.apart _ other item (by omega) (hrest other (List.mem_of_getElem? hother)) hmem
  have hsplit : restoreAll host (first ++ item :: rest) left =
      restoreAll host rest (attempt item.1 (restore host item) (restoreAll host first left)) := by
    unfold restoreAll
    rw [List.foldl_append, List.foldl_cons]
  have hdraws : (restoreAll host first left).2.draws = left.2.draws + first.length :=
    restoreAll_draws
  have hdrawn : (attempt item.1 (restore host item) (restoreAll host first left)).2.draws =
      left.2.draws + first.length + 1 := by
    rw [attempt_restore_draws, hdraws]
  have hlook : (attempt item.1 (restore host item) (restoreAll host first left)).2.tree =
      (restore host item (restoreAll host first left).2).2.tree := by
    unfold attempt
    split <;> rename_i heq <;> rw [heq]
  rw [<- hdraws] at hunclean
  have hturn := restore_unclean hunclean (by rw [hdraws]; exact hne)
    (by rw [(hbefore item.1 (.inr rfl)).look]; exact hfile)
    (by rw [hdraws, (hbefore temp (.inl rfl)).look]; exact hfree)
  rw [hdraws] at hturn
  rw [hsplit]
  rcases hturn with hdebris | ⟨hnone, hdiffers⟩
  · have hkept := hafter temp _ (.inl rfl) hdrawn
    refine ⟨temp, .inl rfl, fun hunnamed => hkept.unnamed ?_, ?_⟩
    · exact attempt_unnamed (.inl hne.symm) ((hbefore temp (.inl rfl)).unnamed hunnamed)
    · rw [hkept.look, hlook, hmissing]
      exact hdebris
  · have hkept := hafter item.1 _ (.inr rfl) hdrawn
    refine ⟨item.1, .inr rfl, fun hunnamed => hkept.unnamed ?_, ?_⟩
    · exact attempt_unnamed (.inr hnone) ((hbefore item.1 (.inr rfl)).unnamed hunnamed)
    · rw [hkept.look, hlook]
      exact hdiffers

variable {entries done : List (Entry Text)} {temp : FilePath}

section

variable (hjournaled : Journaled host before entries done run)
include hjournaled

section

variable (hdone : ∀ old ∈ done, old ∈ entries)
include hdone

theorem Journaled.missing_of_files (hinspected : Inspected entries before)
    (hpath : path ∈ run.journal.files) : before.look path = none := by
  obtain ⟨entry, hentry, rfl, hstatus⟩ := hjournaled.files path hpath
  exact hinspected.create entry (hdone entry hentry) hstatus

variable {item : FilePath × Text}

theorem Journaled.file_of_replaced (hinspected : Inspected entries before)
    (hitem : item ∈ run.journal.replaced) :
    (∃ content mode, before.look item.1 = some (.file content mode)) /\
      ∃ content mode, run.tree.look item.1 = some (.file content mode) := by
  obtain ⟨entry, hentry, heq, hstatus⟩ := hjournaled.replaced item hitem
  rw [<- heq]
  exact ⟨hinspected.conflict entry (hdone entry hentry) hstatus, _, _,
    hjournaled.inPlace entry hentry⟩

theorem Journaled.replaced_apart (hinspected : Inspected entries before)
    (hitem : item ∈ run.journal.replaced) :
    item.1 ∉ run.journal.files /\ item.1 ∉ run.journal.dirs := by
  obtain ⟨⟨content, mode, hwas⟩, -⟩ := hjournaled.file_of_replaced hdone hinspected hitem
  refine ⟨fun hfile => ?_, fun hdir => ?_⟩
  · rw [hjournaled.missing_of_files hdone hinspected hfile] at hwas
    cases hwas
  · rw [(hjournaled.dirs _ hdir).1] at hwas
    cases hwas

omit hdone in
theorem Journaled.replaced_length : run.journal.replaced.length ≤ done.length := by
  have hsubset : run.journal.replaced.map Prod.fst ⊆ done.map Entry.absPath := by
    intro path hpath
    obtain ⟨item, hitem, rfl⟩ := List.mem_map.mp hpath
    obtain ⟨entry, hentry, heq, -⟩ := hjournaled.replaced item hitem
    exact heq ▸ List.mem_map_of_mem hentry
  simpa using (List.Nodup.subperm hjournaled.replacedOnce hsubset).length_le

theorem Journaled.turnsApart (hfresh : FreshNames host entries before)
    (hdraws : run.draws ≤ done.length + 1) (hlength : done.length < entries.length) :
    TurnsApart host run.journal.replaced.reverse run.draws := by
  have hcount := hjournaled.replaced_length
  have hentry : ∀ item ∈ run.journal.replaced.reverse,
      ∃ entry ∈ entries, entry.absPath = item.1 := by
    intro item hitem
    obtain ⟨entry, hentry, heq, -⟩ := hjournaled.replaced item (List.mem_reverse.mp hitem)
    exact ⟨entry, hdone entry hentry, heq⟩
  refine ⟨?_, ?_, ?_⟩
  · rw [List.map_reverse, List.nodup_reverse]
    exact hjournaled.replacedOnce
  · intro turn item other hturn hitem hother heq
    rw [List.length_reverse] at hturn
    obtain ⟨entry, hmem, hpath⟩ := hentry item hitem
    obtain ⟨another, hmem', hpath'⟩ := hentry other hother
    rw [<- hpath, <- hpath'] at heq
    have hlimit : run.draws + turn < 2 * entries.length := by omega
    exact hfresh.apart _ entry another hlimit hmem hmem' (heq.symm ▸ List.suffix_refl _)
  · intro turn again item other hturn hagain hitem hother heq
    rw [List.length_reverse] at hturn hagain
    obtain ⟨entry, hmem, hpath⟩ := hentry item hitem
    obtain ⟨another, hmem', hpath'⟩ := hentry other hother
    rw [<- hpath, <- hpath'] at heq
    have hsame := hfresh.distinct _ _ entry another (by omega) (by omega) hmem hmem' heq
    omega

omit hdone in
/-- The rollback ends at the look-up, or undoes the journal from a state that differs at
the temporary path alone. -/
theorem Journaled.rollback_cases (hfresh : FreshNames host entries before)
    (hbound : run.draws ≤ 2 * entries.length) :
    (∃ temp code looked, run.journal.temp = some temp /\
      (lstatOrNull host run temp).1 = .error code /\
        rollback host run = (.error code, looked) /\ looked.tree = run.tree) \/
      ∃ start, rollback host run =
          (.ok (undoAll host run.journal start).1, (undoAll host run.journal start).2) /\
        (∀ temp, run.journal.temp = some temp ->
          ∃ found, (lstatOrNull host run temp).1 = .ok found) /\
        start.2.draws = run.draws /\
        (∀ path, run.journal.temp ≠ some path -> Kept path ([], run) start) /\
        Settled before (run.journal.files.reverse ++ (run.journal.replaced.reverse.map Prod.fst ++
          (run.journal.dirs.reverse ++ []))) start := by
  have hsame : ∀ path, path ∉ run.journal.files.reverse ++
      (run.journal.replaced.reverse.map Prod.fst ++ (run.journal.dirs.reverse ++ [])) ->
        run.journal.temp ≠ some path -> run.tree.look path = before.look path := by
    intro path hpath htemp
    simp only [List.mem_append, List.mem_reverse, List.map_reverse, not_or] at hpath
    exact hjournaled.same path hpath.1 hpath.2.1 hpath.2.2.1 htemp
  unfold rollback
  split
  · rename_i hnone
    refine Or.inr ⟨([], run), rfl, fun temp hsome => (by rw [hnone] at hsome; cases hsome), rfl,
      fun _ _ => Kept.refl, fun path hpath _ => hsame path hpath ?_⟩
    rw [hnone]
    exact nofun
  · rename_i temp hsome
    obtain ⟨hmissing, -, -⟩ := hjournaled.temp_apart hfresh hbound hsome
    cases hlook : lstatOrNull host run temp with
    | mk answer looked =>
      have hlooked := lstatOrNull_looked hlook
      cases answer with
      | error code => exact Or.inl ⟨temp, code, looked, hsome, by rw [hlook], rfl, by rw [hlooked]⟩
      | ok found =>
        have hremoves := removes_unlinkPath host
        right
        have hanswers : ∀ other, run.journal.temp = some other ->
            ∃ found, (lstatOrNull host run other).1 = .ok found := by
          intro other heq
          cases hsome.symm.trans heq
          exact ⟨found, by rw [hlook]⟩
        cases found with
        | true =>
          refine ⟨attempt temp (unlinkPath host temp) ([], looked), by rw [hlooked]; rfl,
            hanswers, ?_, ?_, ?_⟩
          · rw [hremoves.attempt_draws, hlooked]
          · intro path hpath
            have hkept : Kept path ([], looked) _ :=
              hremoves.attempt_kept fun heq => hpath (heq ▸ hsome)
            subst hlooked
            exact ⟨hkept.look, hkept.unnamed⟩
          · refine hremoves.attempt_settled hmissing ?_
            intro path hpath _
            rw [List.mem_cons, not_or] at hpath
            subst hlooked
            refine hsame path hpath.2 ?_
            rw [hsome]
            exact fun heq => hpath.1 (Option.some.inj heq).symm
        | false =>
          refine ⟨([], looked), by rw [hlooked]; rfl, hanswers, by rw [hlooked], ?_, ?_⟩
          · intro path _
            subst hlooked
            exact ⟨rfl, fun hunnamed => hunnamed⟩
          · intro path hpath _
            subst hlooked
            change run.tree.look path = before.look path
            rcases eq_or_ne path temp with rfl | hne
            · rw [hmissing]
              exact look_of_lstatOrNull hlook
            · refine hsame path hpath ?_
              rw [hsome]
              exact fun heq => hne (Option.some.inj heq).symm

/-- A rollback after which every path that is not named is as before. -/
def KeepsAll (before : Tree String Bytes) (outcome : Except String (List Leftover) × Run Text
    Bytes) :
    Prop :=
  match outcome with
  | (.ok leftovers, after) => Unchanged leftovers before after.tree
  | (.error _, after) => Unchanged [] before after.tree

variable {start : List Leftover × Run Text Bytes}

theorem Journaled.unchanged_of_clean (hinspected : Inspected entries before)
    (happart : TurnsApart host run.journal.replaced.reverse run.draws)
    (hdraws : start.2.draws = run.draws)
    (hkept : ∀ path, run.journal.temp ≠ some path -> Kept path ([], run) start)
    (htemp : ∀ item ∈ run.journal.replaced, run.journal.temp ≠ some item.1)
    (hsettled : Settled before (run.journal.files.reverse ++
      (run.journal.replaced.reverse.map Prod.fst ++ (run.journal.dirs.reverse ++ []))) start)
    (hclean : ∀ turn replaced, run.journal.replaced.reverse[turn]? = some replaced ->
      RestoresCleanly host before (run.draws + turn) replaced) :
    Unchanged (undoAll host run.journal start).1 before (undoAll host run.journal start).2.tree :=
      by
  have hfiles : ∀ path ∈ run.journal.files.reverse, before.look path = none :=
    fun path hpath => hjournaled.missing_of_files hdone hinspected (List.mem_reverse.mp hpath)
  have hdirs : ∀ path ∈ run.journal.dirs.reverse, before.look path = none :=
    fun path hpath => (hjournaled.dirs path (List.mem_reverse.mp hpath)).1
  have hunlinked := (removes_unlinkPath host).removeAll_settled hfiles hsettled
  have hdraws' : (removeAll (unlinkPath host) run.journal.files.reverse start).2.draws =
      run.draws := ((removes_unlinkPath host).removeAll_draws _).trans hdraws
  have hfile : ∀ item ∈ run.journal.replaced.reverse,
      (removeAll (unlinkPath host) run.journal.files.reverse start).2.tree.isDir item.1 = false :=
        by
    intro item hitem
    have hmem := List.mem_reverse.mp hitem
    obtain ⟨-, content, mode, hnode⟩ := hjournaled.file_of_replaced hdone hinspected hmem
    have hstays : Kept item.1 start _ := (removes_unlinkPath host).removeAll_kept
      fun hpath => (hjournaled.replaced_apart hdone hinspected hmem).1 (List.mem_reverse.mp hpath)
    rw [Tree.isDir, hstays.look, (hkept _ (htemp item hmem)).look, hnode]
    rfl
  have hwas : ∀ item ∈ run.journal.replaced.reverse,
      before.isDir item.1 = false := by
    intro item hitem
    obtain ⟨⟨content, mode, hnode⟩, -⟩ :=
      hjournaled.file_of_replaced hdone hinspected (List.mem_reverse.mp hitem)
    rw [Tree.isDir, hnode]
    rfl
  have hrestored := restoreAll_settled
    (fun turn item hitem => hdraws' ▸ hclean turn item hitem)
    (fun turn item hitem => hdraws' ▸ happart.apart turn item item
      (List.getElem?_eq_some_iff.mp hitem).1 (List.mem_of_getElem? hitem)
      (List.mem_of_getElem? hitem))
    hfile hwas hunlinked
  have hundone := (removes_rmdirPath host).removeAll_settled hdirs hrestored
  exact fun path hunnamed => hundone path List.not_mem_nil hunnamed

theorem Journaled.clean_of_unchanged (hinspected : Inspected entries before)
    (hfresh : FreshNames host entries before) (hdraws : run.draws ≤ done.length + 1)
    (hlength : done.length < entries.length) (hsame : start.2.draws = run.draws)
    (hkept : ∀ path, run.journal.temp ≠ some path -> Kept path ([], run) start)
    (hunchanged : Unchanged (undoAll host run.journal start).1 before
      (undoAll host run.journal start).2.tree) {turn : Nat}
    (hitem : run.journal.replaced.reverse[turn]? = some item) :
    RestoresCleanly host before (run.draws + turn) item := by
  by_contra hunclean
  have hcount := hjournaled.replaced_length
  have happart := hjournaled.turnsApart hdone hfresh hdraws hlength
  have hturn : turn < run.journal.replaced.length := by
    simpa using (List.getElem?_eq_some_iff.mp hitem).1
  have hmem : item ∈ run.journal.replaced := List.mem_reverse.mp (List.mem_of_getElem? hitem)
  obtain ⟨entry, hentry, heq, -⟩ := hjournaled.replaced item hmem
  have hlimit : run.draws + turn < 2 * entries.length := by omega
  -- the two paths of the turn are apart from what the other lists speak of
  have hmissing : before.look (tempPathFor host (run.draws + turn) item.1) = none := by
    rw [<- heq]
    exact hfresh.unused _ entry hlimit (hdone entry hentry)
  have hunder : ∀ other ∈ entries,
      Not (tempPathFor host (run.draws + turn) item.1 <:+ other.absPath) := by
    intro other hother
    rw [<- heq]
    exact hfresh.apart _ entry other hlimit (hdone entry hentry) hother
  have hfree : ∀ path, path = tempPathFor host (run.draws + turn) item.1 \/ path = item.1 ->
      path ∉ run.journal.files /\ path ∉ run.journal.dirs /\ run.journal.temp ≠ some path := by
    rintro path (rfl | rfl)
    · refine ⟨fun hpath => ?_, fun hpath => ?_, fun hpath => ?_⟩
      · obtain ⟨other, hother, hfile, -⟩ := hjournaled.files _ hpath
        exact hunder other (hdone other hother) (hfile ▸ List.suffix_refl _)
      · obtain ⟨-, -, other, hother, hsuffix⟩ := hjournaled.dirs _ hpath
        exact hunder other hother hsuffix
      · obtain ⟨draw, other, hdraw, hother, hname⟩ := hjournaled.temp _ hpath
        rw [<- heq] at hname
        have := hfresh.distinct _ draw entry other hlimit (by
          omega) (hdone entry hentry) hother hname
        omega
    · obtain ⟨hfile, hdir⟩ := hjournaled.replaced_apart hdone hinspected hmem
      refine ⟨hfile, hdir, fun hpath => ?_⟩
      obtain ⟨draw, other, hdraw, hother, hname⟩ := hjournaled.temp _ hpath
      refine hfresh.apart draw other entry (by omega) hother (hdone entry hentry) ?_
      rw [<- hname, heq]
  have hbefore : ∀ path,
      path = tempPathFor host (run.draws + turn) item.1 \/ path = item.1 ->
        Kept path ([], run) (removeAll (unlinkPath host) run.journal.files.reverse start) := by
    intro path hpath
    obtain ⟨hfile, -, htemp⟩ := hfree path hpath
    exact (hkept path htemp).trans ((removes_unlinkPath host).removeAll_kept
      fun hfile' => hfile (List.mem_reverse.mp hfile'))
  have hdraws' : (removeAll (unlinkPath host) run.journal.files.reverse start).2.draws =
      run.draws := ((removes_unlinkPath host).removeAll_draws _).trans hsame
  obtain ⟨first, rest, hsplit, hfirst⟩ : ∃ first rest,
      run.journal.replaced.reverse = first ++ item :: rest /\ first.length = turn := by
    obtain ⟨hbound, rfl⟩ := List.getElem?_eq_some_iff.mp hitem
    refine ⟨run.journal.replaced.reverse.take turn, run.journal.replaced.reverse.drop (turn + 1),
      ?_, ?_⟩
    · rw [<- List.drop_eq_getElem_cons hbound, List.take_append_drop]
    · rw [List.length_take]
      omega
  obtain ⟨-, content, mode, hnode⟩ := hjournaled.file_of_replaced hdone hinspected hmem
  have hsaved : run.tree.look (tempPathFor host (run.draws + turn) item.1) = none := by
    obtain ⟨hfile, hdir, htemp⟩ := hfree _ (.inl rfl)
    rw [<- hmissing]
    refine hjournaled.same _ hfile (fun hreplaced => ?_) hdir htemp
    obtain ⟨other, hother, hname⟩ := List.mem_map.mp hreplaced
    obtain ⟨another, hmem', hpath', -⟩ := hjournaled.replaced other hother
    refine hunder another (hdone another hmem') ?_
    rw [hpath', hname]
  rw [hsplit, <- hdraws'] at happart
  rw [<- hdraws', <- hfirst] at hunclean hmissing hsaved
  obtain ⟨path, hpath, hunnamed, hdiffers⟩ := restoreAll_unclean happart hunclean
    ⟨content, mode, (hbefore item.1 (.inr rfl)).look.trans hnode⟩
    ((hbefore _ (.inl (by rw [hdraws', hfirst]))).look.trans hsaved) hmissing
  rw [hdraws', hfirst] at hpath
  obtain ⟨-, hdir, -⟩ := hfree path hpath
  rw [<- hsplit] at hunnamed hdiffers
  have hlast : Kept path _ (undoAll host run.journal start) :=
    (removes_rmdirPath host).removeAll_kept fun hdir' => hdir (List.mem_reverse.mp hdir')
  refine hdiffers (hlast.look.symm.trans (hunchanged path ?_))
  refine hlast.unnamed (hunnamed ((hbefore path hpath).unnamed ?_))
  exact nofun

theorem Journaled.keepsAll_iff (hinspected : Inspected entries before)
    (hfresh : FreshNames host entries before) (hdraws : run.draws ≤ done.length + 1)
    (hlength : done.length < entries.length) :
    KeepsAll before (rollback host run) <-> Undoable host before run := by
  have happart := hjournaled.turnsApart hdone hfresh hdraws hlength
  have htemp : ∀ item ∈ run.journal.replaced, run.journal.temp ≠ some item.1 := by
    intro item hitem hsome
    obtain ⟨entry, hentry, heq, -⟩ := hjournaled.replaced item hitem
    have hbound : run.draws ≤ 2 * entries.length := by omega
    exact (hjournaled.temp_apart hfresh hbound hsome).2.1 entry (hdone entry hentry) heq
  rcases hjournaled.rollback_cases hfresh (by omega) with
    ⟨temp, code, looked, hsome, hfails, heq, htree⟩ | ⟨start, heq, hanswers, hsame, hkept, hsettled⟩
  · rw [heq]
    constructor
    · intro hunchanged
      refine Or.inr ⟨⟨temp, code, hsome, hfails⟩, fun path => ?_⟩
      rw [<- htree]
      exact hunchanged path nofun
    · rintro (⟨hanswers, -⟩ | ⟨-, hsame⟩)
      · obtain ⟨found, hfound⟩ := hanswers temp hsome
        rw [hfails] at hfound
        cases hfound
      · intro path _
        rw [htree]
        exact hsame path
  · rw [heq]
    constructor
    · intro hunchanged
      exact Or.inl ⟨hanswers, fun turn item hitem =>
        hjournaled.clean_of_unchanged hdone hinspected hfresh hdraws hlength hsame hkept
          hunchanged hitem⟩
    · rintro (⟨-, hclean⟩ | ⟨⟨temp, code, hsome, hfails⟩, -⟩)
      · exact hjournaled.unchanged_of_clean hdone hinspected happart hsame hkept htemp hsettled
          hclean
      · obtain ⟨found, hfound⟩ := hanswers temp hsome
        rw [hfails] at hfound
        cases hfound

end

end

/-- A transaction writes everything or leaves what it does not name, just when no entry
fails or what was done by then can be undone. -/
theorem allOrNothing_iff {host : Host Text Bytes} {entries : List (Entry Text)}
    {before : Tree String Bytes} (hinspected : Inspected entries before)
    (hfresh : FreshNames host entries before) :
    AllOrNothing host entries before <-> Recovers host entries before := by
  cases hwrite : writeEntries host entries (beginRun before) with
  | mk answer last =>
    have hrun := Journaled.begin.writeEntries rfl hfresh hinspected.distinct
      rfl (Nat.zero_le _) hwrite
    simp only [AllOrNothing, writeAll, Recovers, hwrite]
    cases answer with
    | none => exact ⟨fun _ => trivial, fun _ => hrun.1.allWritten hrun.2⟩
    | some failure =>
      obtain ⟨done, hjournaled, hdone, hdraws, hlength⟩ := hrun
      change _ <-> Undoable host before last
      rw [<- hjournaled.keepsAll_iff hdone hinspected hfresh hdraws hlength]
      obtain ⟨path, code⟩ := failure
      simp only [KeepsAll]
      cases hrollback : rollback host last with
      | mk outcome after => cases outcome <;> rfl

/-- A directory with the file `a` in it. -/
def sampleTree : Tree String String where
  look path :=
    match path with
    | [] => some (.dir 0o755)
    | ["a"] => some (.file "old" 0o644)
    | _ => none
  paths := [[], ["a"]]
  complete path hpath := by
    revert hpath
    split <;> simp
  rooted := rfl
  inTree name dir hnode := by
    split at hnode
    · rename_i heq
      cases heq
    · rename_i heq
      cases heq
      rfl
    · exact absurd rfl hnode

/-- The file `a` is replaced, then `b` is created. -/
def sampleEntries : List (Entry String) :=
  [ { absPath := ["a"], content := "new", status := .conflict, existing := "old" },
    { absPath := ["b"], content := "more", status := .create, existing := "" } ]

def sampleHex (draw : Nat) : String :=
  ["5f0c21aa", "91be03d7", "c4d8e216", "07a9f53b"].getD draw ""

/-- Writing `b` fails, and so does renaming the second temporary file of `a`. -/
def sampleHost : Host String String where
  pid := 7
  hex := sampleHex
  umask := 0o022
  encode text := text
  lstatFails _ := none
  mkdirFails _ := none
  writeFails path := if path = [".b.7.91be03d7.tmp"] then some ("ENOSPC", none) else none
  renameFails source _ := if source = [".a.7.c4d8e216.tmp"] then some "EBUSY" else none
  unlinkFails _ := none
  rmdirFails _ := none

theorem sampleEntries_inspected : Inspected sampleEntries sampleTree where
  distinct := by decide
  create := by
    simp only [sampleEntries, List.forall_mem_cons]
    exact ⟨nofun, fun _ => rfl, fun _ hmem => (by cases hmem)⟩
  conflict := by
    simp only [sampleEntries, List.forall_mem_cons]
    exact ⟨fun _ => ⟨"old", 0o644, rfl⟩, nofun,
      fun _ hmem => (by cases hmem)⟩

theorem sampleHost_fresh : FreshNames sampleHost sampleEntries sampleTree where
  unused draw entry hdraw hentry := by
    have hall : ∀ draw, draw < 2 * sampleEntries.length ->
        ∀ entry ∈ sampleEntries,
          sampleTree.look (tempPathFor sampleHost draw entry.absPath) = none := by
      decide +kernel
    exact hall draw hdraw entry hentry
  apart draw entry other hdraw hentry hother := by
    have hall : ∀ draw, draw < 2 * sampleEntries.length ->
        ∀ entry ∈ sampleEntries, ∀ other ∈ sampleEntries,
          Not (tempPathFor sampleHost draw entry.absPath <:+ other.absPath) := by
      decide +kernel
    exact hall draw hdraw entry hentry other hother
  distinct draw again entry other hdraw hagain hentry hother := by
    have hall : ∀ draw, draw < 2 * sampleEntries.length ->
        ∀ again, again < 2 * sampleEntries.length ->
          ∀ entry ∈ sampleEntries, ∀ other ∈ sampleEntries,
            tempPathFor sampleHost draw entry.absPath =
              tempPathFor sampleHost again other.absPath -> draw = again := by
      decide +kernel
    exact hall draw hdraw again hagain entry hentry other hother

theorem allOrNothing_iff_two_files :
    Inspected sampleEntries sampleTree /\ FreshNames sampleHost sampleEntries sampleTree /\
      (AllOrNothing sampleHost sampleEntries sampleTree <->
        Recovers sampleHost sampleEntries sampleTree) :=
  ⟨sampleEntries_inspected, sampleHost_fresh,
    allOrNothing_iff sampleEntries_inspected sampleHost_fresh⟩

/-- `b` cannot be written, the restored contents of `a` cannot be renamed into place, and
their temporary file stays: the error names `a` alone. -/
theorem restored_temp_unnamed :
    Inspected sampleEntries sampleTree /\ FreshNames sampleHost sampleEntries sampleTree /\
      Not (AllOrNothing sampleHost sampleEntries sampleTree) := by
  refine ⟨sampleEntries_inspected, sampleHost_fresh, fun hall => ?_⟩
  have hfailed : (writeAll sampleHost sampleEntries sampleTree).1 =
      .failed ["b"] "ENOSPC" [{ path := ["a"], code := "EBUSY" }] := by
    decide +kernel
  have hleft : (writeAll sampleHost sampleEntries sampleTree).2.look [".a.7.c4d8e216.tmp"] =
      some (.file "old" 0o644) := by
    decide +kernel
  unfold AllOrNothing at hall
  revert hfailed hleft hall
  rcases writeAll sampleHost sampleEntries sampleTree with ⟨result, after⟩
  intro hunchanged hfailed hleft
  obtain rfl : result = _ := hfailed
  have hsame := hunchanged [".a.7.c4d8e216.tmp"] (by decide +kernel)
  change after.look _ = _ at hleft
  rw [hleft] at hsame
  exact absurd hsame (by decide +kernel)

end AnchorMind.Cli.FileTransaction
