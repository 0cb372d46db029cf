import Mathlib.Data.List.Basic

/-!
# Trees of files

A finite tree of directories and regular files under one root.  Every node but the root
stands in a directory, so a tree with a file in place of an ancestor cannot be built.
Each operation either leaves a tree that differs at the paths it names, or is refused.
-/

namespace AnchorMind.Kernel.FileTree

open List Function

abbrev Path (Name : Type*) := List Name

inductive Node (Bytes : Type*) where
  | file (content : Bytes) (mode : Nat)
  | dir (mode : Nat)
  deriving DecidableEq

def Node.isDir {Bytes : Type*} : Node Bytes -> Bool
  | .file _ _ => false
  | .dir _ => true

structure Tree (Name Bytes : Type*) where
  look : Path Name -> Option (Node Bytes)
  paths : List (Path Name)
  complete : ∀ path, look path ≠ none -> path ∈ paths
  rooted : (look []).any Node.isDir = true
  inTree : ∀ name dir, look (name :: dir) ≠ none -> (look dir).any Node.isDir = true

namespace Tree

variable {Name Bytes : Type*} [DecidableEq Name]

def isDir (tree : Tree Name Bytes) (path : Path Name) : Bool := (tree.look path).any Node.isDir

omit [DecidableEq Name] in
theorem isDir_iff {tree : Tree Name Bytes} {path : Path Name} :
    tree.isDir path = true <-> ∃ mode, tree.look path = some (.dir mode) := by
  unfold isDir
  rcases hlook : tree.look path with _ | ⟨content, mode⟩ | mode <;> simp [Node.isDir]

omit [DecidableEq Name] in
theorem look_cons_eq_none {tree : Tree Name Bytes} {path : Path Name}
    (hdir : tree.isDir path = false) (name : Name) : tree.look (name :: path) = none := by
  by_contra hnode
  have hparent : tree.isDir path = true := tree.inTree name path hnode
  rw [hdir] at hparent
  cases hparent

def place (tree : Tree Name Bytes) (name : Name) (dir : Path Name) (node : Node Bytes)
    (hdir : tree.isDir dir = true) (hfree : tree.isDir (name :: dir) = false) :
    Tree Name Bytes where
  look := update tree.look (name :: dir) (some node)
  paths := (name :: dir) :: tree.paths
  complete path hpath := by
    rcases eq_or_ne path (name :: dir) with rfl | hne
    · exact mem_cons_self
    · rw [update_of_ne hne] at hpath
      exact mem_cons_of_mem _ (tree.complete path hpath)
  rooted := by
    rw [update_of_ne (cons_ne_nil name dir).symm]
    exact tree.rooted
  inTree other parent hnode := by
    have hparent : parent ≠ name :: dir := by
      rintro rfl
      have hself : other :: name :: dir ≠ name :: dir := cons_ne_self _ _
      rw [update_of_ne hself] at hnode
      exact hnode (look_cons_eq_none hfree other)
    rw [update_of_ne hparent]
    rcases eq_or_ne (other :: parent) (name :: dir) with heq | hne
    · obtain ⟨rfl, rfl⟩ := cons.inj heq
      exact hdir
    · rw [update_of_ne hne] at hnode
      exact tree.inTree other parent hnode

/-- Take away a node with nothing under it. -/
def remove (tree : Tree Name Bytes) (name : Name) (dir : Path Name)
    (hempty : ∀ child, tree.look (child :: name :: dir) = none) : Tree Name Bytes where
  look := update tree.look (name :: dir) none
  paths := tree.paths
  complete path hpath := by
    rcases eq_or_ne path (name :: dir) with rfl | hne
    · rw [update_self] at hpath
      exact absurd rfl hpath
    · rw [update_of_ne hne] at hpath
      exact tree.complete path hpath
  rooted := by
    rw [update_of_ne (cons_ne_nil name dir).symm]
    exact tree.rooted
  inTree other parent hnode := by
    rcases eq_or_ne (other :: parent) (name :: dir) with heq | hne
    · rw [heq, update_self] at hnode
      exact absurd rfl hnode
    · rw [update_of_ne hne] at hnode
      have hparent : parent ≠ name :: dir := by
        rintro rfl
        exact hnode (hempty other)
      rw [update_of_ne hparent]
      exact tree.inTree other parent hnode

def underFile (tree : Tree Name Bytes) : Path Name -> Bool
  | [] => false
  | _ :: dir =>
    match tree.look dir with
    | some node => !node.isDir
    | none => tree.underFile dir

def lstat (tree : Tree Name Bytes) (path : Path Name) : Except String (Node Bytes) :=
  match tree.look path with
  | some node => .ok node
  | none => .error (if tree.underFile path then "ENOTDIR" else "ENOENT")

def parentError (tree : Tree Name Bytes) (dir : Path Name) : String :=
  if (tree.look dir).isSome || tree.underFile dir then "ENOTDIR" else "ENOENT"

def create (tree : Tree Name Bytes) (path : Path Name) (node : Node Bytes) :
    Except String (Tree Name Bytes) :=
  match path with
  | [] => .error "EEXIST"
  | name :: dir =>
    if hfree : tree.look (name :: dir) = none then
      if hdir : tree.isDir dir = true then
        .ok (tree.place name dir node hdir (by rw [isDir, hfree]; rfl))
      else .error (tree.parentError dir)
    else .error "EEXIST"

def unlink (tree : Tree Name Bytes) (path : Path Name) : Except String (Tree Name Bytes) :=
  match path with
  | [] => .error "EISDIR"
  | name :: dir =>
    if hdir : tree.isDir (name :: dir) = true then .error "EISDIR"
    else if tree.look (name :: dir) = none then
      .error (if tree.underFile (name :: dir) then "ENOTDIR" else "ENOENT")
    else
      .ok (tree.remove name dir (look_cons_eq_none (Bool.eq_false_iff.mpr hdir)))

def isEmpty (tree : Tree Name Bytes) (path : Path Name) : Bool :=
  tree.paths.all fun other => other.tail ≠ path || other.isEmpty || (tree.look other).isNone

theorem look_cons_of_isEmpty {tree : Tree Name Bytes} {path : Path Name}
    (hempty : tree.isEmpty path = true) (child : Name) : tree.look (child :: path) = none := by
  by_contra hnode
  have hchild := all_eq_true.mp hempty (child :: path) (tree.complete _ hnode)
  simp [hnode] at hchild

def rmdir (tree : Tree Name Bytes) (path : Path Name) : Except String (Tree Name Bytes) :=
  match path with
  | [] => .error "EBUSY"
  | name :: dir =>
    if tree.isDir (name :: dir) = false then
      .error (if tree.look (name :: dir) = none then "ENOENT" else "ENOTDIR")
    else if hempty : tree.isEmpty (name :: dir) = true then
      .ok (tree.remove name dir (look_cons_of_isEmpty hempty))
    else .error "ENOTEMPTY"

def rename (tree : Tree Name Bytes) (source target : Path Name) :
    Except String (Tree Name Bytes) :=
  match tree.unlink source, target with
  | .error code, _ => .error code
  | .ok _, [] => .error "EISDIR"
  | .ok rest, name :: dir =>
    if hfree : rest.isDir (name :: dir) = false then
      if hdir : rest.isDir dir = true then
        match tree.look source with
        | some node => .ok (rest.place name dir node hdir hfree)
        | none => .error "ENOENT"
      else .error (tree.parentError dir)
    else .error "EISDIR"

variable {tree after : Tree Name Bytes} {path source target : Path Name} {node : Node Bytes}

theorem create_ok (hcreate : tree.create path node = .ok after) :
    tree.look path = none /\ after.look = update tree.look path (some node) := by
  unfold create at hcreate
  split at hcreate
  · cases hcreate
  · split at hcreate
    · rename_i hfree
      split at hcreate
      · cases hcreate
        exact ⟨hfree, rfl⟩
      · cases hcreate
    · cases hcreate

theorem exists_create (node : Node Bytes) (hfree : tree.look path = none)
    (hdir : tree.isDir path.tail = true) : ∃ after, tree.create path node = .ok after := by
  cases path with
  | nil =>
    have hrooted := tree.rooted
    rw [hfree] at hrooted
    cases hrooted
  | cons name dir =>
    simp only [tail_cons] at hdir
    simp only [create, dif_pos hfree, dif_pos hdir]
    exact ⟨_, rfl⟩

theorem unlink_ok (hunlink : tree.unlink path = .ok after) :
    (∃ content mode, tree.look path = some (.file content mode)) /\
      after.look = update tree.look path none := by
  unfold unlink at hunlink
  split at hunlink
  · cases hunlink
  · rename_i name dir
    split at hunlink
    · cases hunlink
    · rename_i hdir
      split at hunlink
      · cases hunlink
      · rename_i hnode
        cases hunlink
        refine ⟨?_, rfl⟩
        rcases hlook : tree.look (name :: dir) with _ | ⟨content, mode⟩ | mode
        · exact absurd hlook hnode
        · exact ⟨content, mode, rfl⟩
        · exact absurd (isDir_iff.mpr ⟨mode, hlook⟩) hdir

theorem exists_unlink {content : Bytes} {mode : Nat}
    (hfile : tree.look path = some (.file content mode)) :
    ∃ after, tree.unlink path = .ok after := by
  cases path with
  | nil =>
    have hrooted := tree.rooted
    rw [hfile] at hrooted
    cases hrooted
  | cons name dir =>
    have hdir : Not (tree.isDir (name :: dir) = true) := by
      rw [isDir_iff, hfile]
      rintro ⟨_, hnode⟩
      cases hnode
    have hnode : Not (tree.look (name :: dir) = none) := by
      rw [hfile]
      exact Option.some_ne_none _
    simp only [unlink, dif_neg hdir, if_neg hnode]
    exact ⟨_, rfl⟩

theorem rmdir_ok (hrmdir : tree.rmdir path = .ok after) :
    tree.isDir path = true /\ after.look = update tree.look path none := by
  unfold rmdir at hrmdir
  split at hrmdir
  · cases hrmdir
  · split at hrmdir
    · cases hrmdir
    · rename_i hdir
      split at hrmdir
      · cases hrmdir
        exact ⟨by simpa using hdir, rfl⟩
      · cases hrmdir

theorem rename_ok (hrename : tree.rename source target = .ok after) :
    tree.isDir target = false /\
      ∃ content mode, tree.look source = some (.file content mode) /\
        after.look =
          update (update tree.look source none) target
            (some (.file content mode)) := by
  unfold rename at hrename
  split at hrename
  · cases hrename
  · cases hrename
  · rename_i rest name dir hunlink
    obtain ⟨⟨content, mode, hsource⟩, hrest⟩ := unlink_ok hunlink
    split at hrename
    · rename_i hfree
      split at hrename
      · rw [hsource] at hrename
        cases hrename
        refine ⟨?_, content, mode, hsource, by rw [<- hrest]; rfl⟩
        rcases eq_or_ne (name :: dir) source with rfl | hne
        · rw [isDir, hsource]
          rfl
        · rwa [isDir, hrest, update_of_ne hne] at hfree
      · cases hrename
    · cases hrename

theorem exists_rename {content : Bytes} {mode : Nat} (hne : source ≠ target)
    (hsource : tree.look source = some (.file content mode)) (htarget : tree.isDir target = false)
    (hdir : tree.isDir target.tail = true) : ∃ after, tree.rename source target = .ok after := by
  obtain ⟨rest, hunlink⟩ := exists_unlink hsource
  obtain ⟨-, hrest⟩ := unlink_ok hunlink
  have hother : ∀ path, path ≠ source -> rest.isDir path = tree.isDir path := by
    intro path hpath
    rw [isDir, isDir, hrest, update_of_ne hpath]
  have hparent : target.tail ≠ source := by
    intro heq
    rw [heq, isDir, hsource] at hdir
    cases hdir
  unfold rename
  rw [hunlink]
  cases target with
  | nil =>
    have hrooted : tree.isDir [] = true := tree.rooted
    rw [htarget] at hrooted
    cases hrooted
  | cons name dir =>
    have hfree : rest.isDir (name :: dir) = false := by rw [hother _ hne.symm, htarget]
    have hplace : rest.isDir dir = true := by
      rw [hother dir hparent]
      exact hdir
    simp only [dif_pos hfree, dif_pos hplace, hsource]
    exact ⟨_, rfl⟩

end Tree

end AnchorMind.Kernel.FileTree
