import AnchorMind.Kernel.FileTree
import Mathlib.Data.List.Infix

/-!
# Writing a set of files

`writeAll` writes each entry to a temporary file beside its target and renames it over the
target, and keeps a journal of what it made.  After a failure it goes back over the journal;
what cannot be undone is named in the error.  Any operation may fail, also while going back,
and a write may leave part of the file.
-/

namespace AnchorMind.Cli.FileTransaction

open Kernel.FileTree List Function

abbrev FilePath := Path String

inductive Status where
  | create
  | conflict
  deriving DecidableEq

structure Entry (Text : Type*) where
  absPath : FilePath
  content : Text
  status : Status
  existing : Text
  deriving DecidableEq

/-- What the process and the operating system bring: the process id, the random part of
the n-th temporary name, the umask, the encoding of a text, and the failures.  A look-up
fails for another reason than that nothing is there. -/
structure Host (Text Bytes : Type*) where
  pid : Nat
  hex : Nat -> String
  umask : Nat
  encode : Text -> Bytes
  lstatFails : Nat -> Option { code : String // code ≠ "ENOENT" }
  mkdirFails : FilePath -> Option String
  /-- The code, and what was written before the failure. -/
  writeFails : FilePath -> Option (String × Option Bytes)
  renameFails : FilePath -> FilePath -> Option String
  unlinkFails : FilePath -> Option String
  rmdirFails : FilePath -> Option String

structure Journal (Text : Type*) where
  files : List FilePath
  replaced : List (FilePath × Text)
  dirs : List FilePath
  temp : Option FilePath

/-- A call under way: the tree, the journal, and how many look-ups and random names it
has made. -/
structure Run (Text Bytes : Type*) where
  tree : Tree String Bytes
  journal : Journal Text
  lstats : Nat
  draws : Nat

structure Leftover where
  path : FilePath
  code : String
  deriving DecidableEq

inductive Result where
  | written (count : Nat)
  /-- `FileTransactionError` -/
  | failed (path : FilePath) (code : String) (leftovers : List Leftover)
  /-- An error of the rollback itself. -/
  | thrown (code : String)
  deriving DecidableEq

section

variable {Text Bytes : Type*} (host : Host Text Bytes)

def Host.masked (mode : Nat) : Nat := mode - (mode &&& host.umask)

/-- `tempPathFor`, with the n-th random name. -/
def tempPathFor (draw : Nat) (absPath : FilePath) : FilePath :=
  ("." ++ absPath.headD "" ++ "." ++ toString host.pid ++ "." ++ host.hex draw ++ ".tmp") ::
    absPath.tail

def written (text : Text) : Node Bytes := .file (host.encode text) (host.masked 0o644)

def lstatSync (run : Run Text Bytes) (path : FilePath) : Except String (Node Bytes) :=
  match host.lstatFails run.lstats with
  | some code => .error code.val
  | none => run.tree.lstat path

/-- Whether a node is there. -/
def lstatOrNull (run : Run Text Bytes) (path : FilePath) : Except String Bool × Run Text Bytes :=
  let looked := { run with lstats := run.lstats + 1 }
  match lstatSync host run path with
  | .ok _ => (.ok true, looked)
  | .error code => if code = "ENOENT" then (.ok false, looked) else (.error code, looked)

def mkdirSync (tree : Tree String Bytes) (path : FilePath) : Except String (Tree String Bytes) :=
  match host.mkdirFails path with
  | some code => .error code
  | none => tree.create path (.dir (host.masked 0o755))

/-- `writeFileSync` with the flag `wx`; the tree is there also after a failure. -/
def writeFileSync (tree : Tree String Bytes) (path : FilePath) (text : Text) :
    Option String × Tree String Bytes :=
  match host.writeFails path with
  | none =>
    match tree.create path (written host text) with
    | .error code => (some code, tree)
    | .ok after => (none, after)
  | some (code, none) => (some code, tree)
  | some (code, some left) =>
    match tree.create path (.file left (host.masked 0o644)) with
    | .error refused => (some refused, tree)
    | .ok after => (some code, after)

def renameSync (tree : Tree String Bytes) (source target : FilePath) :
    Except String (Tree String Bytes) :=
  match host.renameFails source target with
  | some code => .error code
  | none => tree.rename source target

def unlinkSync (tree : Tree String Bytes) (path : FilePath) :
    Except String (Tree String Bytes) :=
  match host.unlinkFails path with
  | some code => .error code
  | none => tree.unlink path

def rmdirSync (tree : Tree String Bytes) (path : FilePath) : Except String (Tree String Bytes) :=
  match host.rmdirFails path with
  | some code => .error code
  | none => tree.rmdir path

def missingDirs : FilePath -> Run Text Bytes -> Except String (List FilePath) × Run Text Bytes
  | [], run =>
    let looked := lstatOrNull host run []
    (looked.1.map fun _ => [], looked.2)
  | name :: parent, run =>
    match lstatOrNull host run (name :: parent) with
    | (.error code, run) => (.error code, run)
    | (.ok true, run) => (.ok [], run)
    | (.ok false, run) =>
      let above := missingDirs parent run
      (above.1.map fun dirs => dirs ++ [name :: parent], above.2)

def makeDirs : List FilePath -> Run Text Bytes -> Option String × Run Text Bytes
  | [], run => (none, run)
  | dir :: rest, run =>
    match mkdirSync host run.tree dir with
    | .error code => (some code, run)
    | .ok tree =>
      makeDirs rest { run with
        tree := tree
        journal := { run.journal with dirs := run.journal.dirs ++ [dir] } }

def ensureDirs (dir : FilePath) (run : Run Text Bytes) : Option String × Run Text Bytes :=
  match missingDirs host dir run with
  | (.error code, run) => (some code, run)
  | (.ok missing, run) => makeDirs host missing run

def Journal.record (journal : Journal Text) (entry : Entry Text) : Journal Text :=
  match entry.status with
  | .create => { journal with files := journal.files ++ [entry.absPath], temp := none }
  | .conflict =>
    { journal with
      replaced := journal.replaced ++ [(entry.absPath, entry.existing)]
      temp := none }

def writeOne (entry : Entry Text) (run : Run Text Bytes) : Option String × Run Text Bytes :=
  match ensureDirs host entry.absPath.tail run with
  | (some code, run) => (some code, run)
  | (none, run) =>
    let temp := tempPathFor host run.draws entry.absPath
    let drawn := { run with
      draws := run.draws + 1
      journal := { run.journal with temp := some temp } }
    match writeFileSync host drawn.tree temp entry.content with
    | (some code, tree) => (some code, { drawn with tree := tree })
    | (none, tree) =>
      match renameSync host tree temp entry.absPath with
      | .error code => (some code, { drawn with tree := tree })
      | .ok tree => (none, { drawn with tree := tree, journal := drawn.journal.record entry })

def writeEntries : List (Entry Text) -> Run Text Bytes ->
    Option (FilePath × String) × Run Text Bytes
  | [], run => (none, run)
  | entry :: rest, run =>
    match writeOne host entry run with
    | (some code, run) => (some (entry.absPath, code), run)
    | (none, run) => writeEntries rest run

/-- `attempt`: a failure is named and the next undo goes on. -/
def attempt (label : FilePath) (undo : Run Text Bytes -> Option String × Run Text Bytes)
    (left : List Leftover × Run Text Bytes) : List Leftover × Run Text Bytes :=
  match undo left.2 with
  | (none, run) => (left.1, run)
  | (some code, run) => (left.1 ++ [{ path := label, code := code }], run)

def unlinkPath (path : FilePath) (run : Run Text Bytes) : Option String × Run Text Bytes :=
  match unlinkSync host run.tree path with
  | .error code => (some code, run)
  | .ok tree => (none, { run with tree := tree })

def rmdirPath (path : FilePath) (run : Run Text Bytes) : Option String × Run Text Bytes :=
  match rmdirSync host run.tree path with
  | .error code => (some code, run)
  | .ok tree => (none, { run with tree := tree })

def restore (replaced : FilePath × Text) (run : Run Text Bytes) :
    Option String × Run Text Bytes :=
  let temp := tempPathFor host run.draws replaced.1
  let drawn := { run with draws := run.draws + 1 }
  match writeFileSync host drawn.tree temp replaced.2 with
  | (some code, tree) => (some code, { drawn with tree := tree })
  | (none, tree) =>
    match renameSync host tree temp replaced.1 with
    | .error code => (some code, { drawn with tree := tree })
    | .ok tree => (none, { drawn with tree := tree })

def undoAll (journal : Journal Text) (left : List Leftover × Run Text Bytes) :
    List Leftover × Run Text Bytes :=
  let unlinked := journal.files.reverse.foldl
    (fun left file => attempt file (unlinkPath host file) left) left
  let restored := journal.replaced.reverse.foldl
    (fun left replaced => attempt replaced.1 (restore host replaced) left) unlinked
  journal.dirs.reverse.foldl (fun left dir => attempt dir (rmdirPath host dir) left) restored

def rollback (run : Run Text Bytes) : Except String (List Leftover) × Run Text Bytes :=
  match run.journal.temp with
  | none =>
    let undone := undoAll host run.journal ([], run)
    (.ok undone.1, undone.2)
  | some temp =>
    match lstatOrNull host run temp with
    | (.error code, run) => (.error code, run)
    | (.ok found, run) =>
      let start := if found then attempt temp (unlinkPath host temp) ([], run) else ([], run)
      let undone := undoAll host run.journal start
      (.ok undone.1, undone.2)

def beginRun (tree : Tree String Bytes) : Run Text Bytes where
  tree := tree
  journal := { files := [], replaced := [], dirs := [], temp := none }
  lstats := 0
  draws := 0

def writeAll (entries : List (Entry Text)) (tree : Tree String Bytes) :
    Result × Tree String Bytes :=
  match writeEntries host entries (beginRun tree) with
  | (none, run) => (.written entries.length, run.tree)
  | (some (path, code), run) =>
    match rollback host run with
    | (.ok leftovers, run) => (.failed path code leftovers, run.tree)
    | (.error code, run) => (.thrown code, run.tree)

end

end AnchorMind.Cli.FileTransaction

/-!
# The journal of a transaction

While entries are written, the journal covers every path at which the tree differs from
the one before: the files that were created, those that were replaced, the directories
that were missing and the temporary file in use.
-/

namespace AnchorMind.Cli.FileTransaction

open Kernel.FileTree List Function

variable {Text Bytes : Type*}

/-- Every entry is in its place, and elsewhere nothing has changed but directories that
were missing above an entry. -/
structure AllWritten (host : Host Text Bytes) (entries : List (Entry Text))
    (before after : Tree String Bytes) : Prop where
  inPlace : ∀ entry ∈ entries,
    after.look entry.absPath = some (written host entry.content)
  elsewhere : ∀ path, (∀ entry ∈ entries, entry.absPath ≠ path) ->
    after.look path = before.look path \/
      before.look path = none /\ after.isDir path = true /\
        ∃ entry ∈ entries, path <:+ entry.absPath

structure Inspected (entries : List (Entry Text)) (before : Tree String Bytes) : Prop where
  distinct : (entries.map Entry.absPath).Nodup
  create : ∀ entry ∈ entries, entry.status = .create ->
    before.look entry.absPath = none
  conflict : ∀ entry ∈ entries, entry.status = .conflict ->
    ∃ content mode, before.look entry.absPath = some (.file content mode)

/-- Temporary names are new: no node has one, no entry lies at or under one, and no two
draws give the same. -/
structure FreshNames (host : Host Text Bytes) (entries : List (Entry Text))
    (before : Tree String Bytes) : Prop where
  unused : ∀ draw entry, draw < 2 * entries.length -> entry ∈ entries ->
    before.look (tempPathFor host draw entry.absPath) = none
  apart : ∀ draw entry other, draw < 2 * entries.length -> entry ∈ entries ->
    other ∈ entries -> Not (tempPathFor host draw entry.absPath <:+ other.absPath)
  distinct : ∀ draw again entry other, draw < 2 * entries.length ->
    again < 2 * entries.length -> entry ∈ entries -> other ∈ entries ->
      tempPathFor host draw entry.absPath = tempPathFor host again other.absPath -> draw = again

section

variable {host : Host Text Bytes} {tree after : Tree String Bytes} {path : FilePath}

theorem mkdirSync_ok (hmkdir : mkdirSync host tree path = .ok after) :
    tree.look path = none /\
      after.look = update tree.look path (some (.dir (host.masked 0o755))) := by
  unfold mkdirSync at hmkdir
  split at hmkdir
  · cases hmkdir
  · exact Tree.create_ok hmkdir

theorem writeFileSync_cases {text : Text} {answer : Option String}
    (hwrite : writeFileSync host tree path text = (answer, after)) :
    (after = tree /\ answer.isSome = true) \/
      tree.look path = none /\ ∃ content mode,
        after.look = update tree.look path (some (.file content mode)) /\
          (answer = none -> Node.file content mode = written host text) := by
  unfold writeFileSync at hwrite
  split at hwrite
  · split at hwrite
    · cases hwrite
      exact Or.inl ⟨rfl, rfl⟩
    · rename_i hcreate
      cases hwrite
      obtain ⟨hfree, hlook⟩ := Tree.create_ok hcreate
      exact Or.inr ⟨hfree, _, _, hlook, fun _ => rfl⟩
  · cases hwrite
    exact Or.inl ⟨rfl, rfl⟩
  · split at hwrite
    · cases hwrite
      exact Or.inl ⟨rfl, rfl⟩
    · rename_i hcreate
      cases hwrite
      obtain ⟨hfree, hlook⟩ := Tree.create_ok hcreate
      exact Or.inr ⟨hfree, _, _, hlook, nofun⟩

theorem renameSync_ok {source : FilePath} (hrename : renameSync host tree source path = .ok after) :
    tree.isDir path = false /\ ∃ content mode, tree.look source = some (.file content mode) /\
      after.look =
        update (update tree.look source none) path
          (some (.file content mode)) := by
  unfold renameSync at hrename
  split at hrename
  · cases hrename
  · exact Tree.rename_ok hrename

end

/-- After the entries `done`: what the journal says of each path, and that the tree is as
before elsewhere. -/
structure Journaled (host : Host Text Bytes) (before : Tree String Bytes)
    (entries done : List (Entry Text)) (run : Run Text Bytes) : Prop where
  files : ∀ path ∈ run.journal.files,
    ∃ entry ∈ done, entry.absPath = path /\ entry.status = .create
  replaced : ∀ item ∈ run.journal.replaced,
    ∃ entry ∈ done, entry.absPath = item.1 /\ entry.status = .conflict
  replacedOnce : (run.journal.replaced.map Prod.fst).Nodup
  dirs : ∀ path ∈ run.journal.dirs,
    before.look path = none /\ run.tree.isDir path = true /\
      ∃ entry ∈ entries, path <:+ entry.absPath
  inPlace : ∀ entry ∈ done,
    run.tree.look entry.absPath = some (written host entry.content)
  temp : ∀ temp, run.journal.temp = some temp ->
    ∃ draw entry, draw < run.draws /\ entry ∈ entries /\
      temp = tempPathFor host draw entry.absPath
  same : ∀ path, path ∉ run.journal.files -> path ∉ run.journal.replaced.map Prod.fst ->
    path ∉ run.journal.dirs -> run.journal.temp ≠ some path ->
      run.tree.look path = before.look path

section

variable {host : Host Text Bytes} {before : Tree String Bytes} {entries done : List (Entry Text)}
  {run : Run Text Bytes} {entry : Entry Text} {tree : Tree String Bytes} {path : FilePath}

theorem Journaled.mkdir (hjournaled : Journaled host before entries done run)
    (htemp : run.journal.temp = none) (hentry : entry ∈ entries) (hpath : path <:+ entry.absPath)
    (hmkdir : mkdirSync host run.tree path = .ok tree) :
    Journaled host before entries done
      { run with
        tree := tree
        journal := { run.journal with dirs := run.journal.dirs ++ [path] } } := by
  obtain ⟨hfree, hlook⟩ := mkdirSync_ok hmkdir
  have hkeeps : ∀ other, run.tree.look other ≠ none ->
      tree.look other = run.tree.look other := by
    intro other hother
    rw [hlook, update_of_ne]
    rintro rfl
    exact hother hfree
  have hinPlace : ∀ old ∈ done,
      tree.look old.absPath = some (written host old.content) := by
    intro old hdone
    have hwas := hjournaled.inPlace old hdone
    rw [hkeeps _ (by rw [hwas]; exact Option.some_ne_none _), hwas]
  have hmissing : before.look path = none := by
    rw [<- hjournaled.same path, hfree]
    · intro hfile
      obtain ⟨old, hold, rfl, -⟩ := hjournaled.files path hfile
      rw [hjournaled.inPlace old hold] at hfree
      cases hfree
    · intro hreplaced
      obtain ⟨item, hitem, rfl⟩ := mem_map.mp hreplaced
      obtain ⟨old, hold, hold', -⟩ := hjournaled.replaced item hitem
      rw [<- hold', hjournaled.inPlace old hold] at hfree
      cases hfree
    · intro hdir
      have hwas := (hjournaled.dirs path hdir).2.1
      rw [Tree.isDir, hfree] at hwas
      cases hwas
    · rw [htemp]
      exact nofun
  refine { hjournaled with dirs := ?_, inPlace := hinPlace, same := ?_ }
  · intro other hother
    rcases mem_append.mp hother with hold | hnew
    · obtain ⟨hnone, hdir, habove⟩ := hjournaled.dirs other hold
      refine ⟨hnone, ?_, habove⟩
      rw [Tree.isDir] at hdir ⊢
      rwa [hkeeps other]
      intro heq
      rw [heq] at hdir
      cases hdir
    · obtain rfl := mem_singleton.mp hnew
      refine ⟨hmissing, ?_, entry, hentry, hpath⟩
      change (tree.look other).any Node.isDir = true
      rw [hlook, update_self]
      rfl
  · intro other hfiles hreplaced hdirs htemp'
    have hne : other ≠ path := by
      rintro rfl
      exact hdirs (mem_append_right _ mem_cons_self)
    change tree.look other = before.look other
    rw [hlook, update_of_ne hne]
    exact hjournaled.same other hfiles hreplaced
      (fun hmem => hdirs (mem_append_left _ hmem)) htemp'

variable {looked : Run Text Bytes}

theorem lstatOrNull_looked {answer : Except String Bool}
    (hlook : lstatOrNull host run path = (answer, looked)) :
    looked = { run with lstats := run.lstats + 1 } := by
  simp only [lstatOrNull] at hlook
  split at hlook
  · cases hlook
    rfl
  · split at hlook <;> cases hlook <;> rfl

theorem look_of_lstatOrNull (hlook : lstatOrNull host run path = (.ok false, looked)) :
    run.tree.look path = none := by
  simp only [lstatOrNull] at hlook
  split at hlook
  · cases hlook
  · rename_i code hfails
    split at hlook
    · rename_i henoent
      simp only [lstatSync] at hfails
      split at hfails
      · rename_i reason hreason
        cases hfails
        exact absurd henoent reason.property
      · unfold Tree.lstat at hfails
        split at hfails
        · cases hfails
        · assumption
    · cases hlook

theorem missingDirs_cases {answer : Except String (List FilePath)}
    (hmissing : missingDirs host path run = (answer, looked)) :
    (∃ lstats, looked = { run with lstats := lstats }) /\
      ∀ dirs, answer = .ok dirs -> ∀ dir ∈ dirs, dir <:+ path := by
  induction path generalizing run answer looked with
  | nil =>
    cases hlook : lstatOrNull host run [] with
    | mk found middle =>
      obtain rfl := lstatOrNull_looked hlook
      simp only [missingDirs, hlook] at hmissing
      cases hmissing
      refine ⟨⟨_, rfl⟩, fun dirs hok dir hdir => ?_⟩
      cases found with
      | error code => cases hok
      | ok found =>
        obtain rfl : [] = dirs := Except.ok.inj hok
        exact absurd hdir not_mem_nil
  | cons name parent ih =>
    rw [missingDirs] at hmissing
    split at hmissing
    · rename_i code middle hlook
      cases hmissing
      exact ⟨⟨_, lstatOrNull_looked hlook⟩, fun dirs hok => (by cases hok)⟩
    · rename_i middle hlook
      cases hmissing
      refine ⟨⟨_, lstatOrNull_looked hlook⟩, fun dirs hok dir hdir => ?_⟩
      cases hok
      exact absurd hdir not_mem_nil
    · rename_i middle hlook
      obtain rfl := lstatOrNull_looked hlook
      cases hmissing
      obtain ⟨⟨lstats, hrun⟩, habove⟩ := ih rfl
      refine ⟨⟨lstats, hrun⟩, fun dirs hok dir hdir => ?_⟩
      cases hdirs : (missingDirs host parent { run with lstats := run.lstats + 1 }).1 with
      | error code => simp [hdirs, Except.map] at hok
      | ok above =>
        obtain rfl : above ++ [name :: parent] = dirs := by simpa [hdirs, Except.map] using hok
        rcases mem_append.mp hdir with hold | hnew
        · exact (habove above hdirs dir hold).trans (suffix_cons name parent)
        · obtain rfl := mem_singleton.mp hnew
          exact suffix_refl _

variable {answer : Option String}

section

variable (hjournaled : Journaled host before entries done run)
include hjournaled

section

variable (htemp : run.journal.temp = none)
include htemp

theorem Journaled.makeDirs {dirs : List FilePath} {made : Run Text Bytes} (hentry : entry ∈ entries)
    (hdirs : ∀ dir ∈ dirs, dir <:+ entry.absPath)
    (hmake : makeDirs host dirs run = (answer, made)) :
    Journaled host before entries done made /\ made.journal.temp = none /\
      made.draws = run.draws := by
  induction dirs generalizing run with
  | nil =>
    cases hmake
    exact ⟨hjournaled, htemp, rfl⟩
  | cons dir rest ih =>
    rw [FileTransaction.makeDirs] at hmake
    split at hmake
    · cases hmake
      exact ⟨hjournaled, htemp, rfl⟩
    · rename_i tree hmkdir
      have hrest : ∀ other ∈ rest, other <:+ entry.absPath :=
        fun other hother => hdirs other (mem_cons_of_mem _ hother)
      have hstep := hjournaled.mkdir htemp hentry (hdirs dir mem_cons_self) hmkdir
      obtain ⟨hmade, hnone, hdraws⟩ := ih hstep htemp hrest hmake
      exact ⟨hmade, hnone, hdraws⟩

theorem Journaled.ensureDirs {ready : Run Text Bytes} (hentry : entry ∈ entries)
    (hensure : ensureDirs host entry.absPath.tail run = (answer, ready)) :
    Journaled host before entries done ready /\ ready.journal.temp = none /\
      ready.draws = run.draws := by
  unfold FileTransaction.ensureDirs at hensure
  split at hensure
  · rename_i code looked hmissing
    obtain ⟨⟨lstats, rfl⟩, -⟩ := missingDirs_cases hmissing
    cases hensure
    exact ⟨{ hjournaled with }, htemp, rfl⟩
  · rename_i missing looked hmissing
    obtain ⟨⟨lstats, rfl⟩, hsuffix⟩ := missingDirs_cases hmissing
    have hlooked : Journaled host before entries done { run with lstats := lstats } :=
      { hjournaled with }
    exact hlooked.makeDirs htemp hentry
      (fun dir hdir => (hsuffix missing rfl dir hdir).trans (tail_suffix _)) hensure

/-- A temporary name is drawn. -/
theorem Journaled.draw (hentry : entry ∈ entries) :
    Journaled host before entries done
      { run with
        draws := run.draws + 1
        journal := { run.journal with
          temp := some (tempPathFor host run.draws entry.absPath) } } := by
  refine { hjournaled with temp := ?_, same := ?_ }
  · intro temp hsome
    cases hsome
    exact ⟨run.draws, entry, Nat.lt_succ_self _, hentry, rfl⟩
  · intro path hfiles hreplaced hdirs _
    refine hjournaled.same path hfiles hreplaced hdirs ?_
    rw [htemp]
    exact nofun

end

variable {temp : FilePath}

section

variable (hfresh : FreshNames host entries before)
include hfresh

theorem Journaled.temp_apart (hdraws : run.draws ≤ 2 * entries.length)
    (htemp : run.journal.temp = some temp) :
    before.look temp = none /\ (∀ old ∈ entries, old.absPath ≠ temp) /\
      ∀ path ∈ run.journal.dirs, path ≠ temp := by
  obtain ⟨draw, entry, hdraw, hentry, rfl⟩ := hjournaled.temp temp htemp
  have hbound : draw < 2 * entries.length := by omega
  refine ⟨hfresh.unused draw entry hbound hentry, fun old hold heq => ?_, fun path hpath heq => ?_⟩
  · exact hfresh.apart draw entry old hbound hentry hold (heq ▸ suffix_refl _)
  · obtain ⟨-, -, other, hother, hsuffix⟩ := hjournaled.dirs path hpath
    exact hfresh.apart draw entry other hbound hentry hother (heq ▸ hsuffix)

/-- A file is written at the temporary path. -/
theorem Journaled.write {node : Node Bytes} (hdone : ∀ old ∈ done, old ∈ entries)
    (hdraws : run.draws ≤ 2 * entries.length) (htemp : run.journal.temp = some temp)
    (hlook : tree.look = update run.tree.look temp (some node)) :
    Journaled host before entries done { run with tree := tree } := by
  obtain ⟨-, hentries, hdirs⟩ := hjournaled.temp_apart hfresh hdraws htemp
  have hkeeps : ∀ path, path ≠ temp -> tree.look path = run.tree.look path := by
    intro path hne
    rw [hlook, update_of_ne hne]
  refine { hjournaled with dirs := ?_, inPlace := ?_, same := ?_ }
  · intro path hpath
    obtain ⟨hnone, hdir, habove⟩ := hjournaled.dirs path hpath
    refine ⟨hnone, ?_, habove⟩
    change (tree.look path).any Node.isDir = true
    rwa [hkeeps path (hdirs path hpath)]
  · intro old hold
    change tree.look old.absPath = _
    rw [hkeeps _ (hentries old (hdone old hold))]
    exact hjournaled.inPlace old hold
  · intro path hfiles hreplaced hdirs' htemp'
    change tree.look path = before.look path
    rw [hkeeps path fun heq => htemp' (heq ▸ htemp)]
    exact hjournaled.same path hfiles hreplaced hdirs' htemp'

theorem Journaled.rename (hdone : ∀ old ∈ done, old ∈ entries) (hentry : entry ∈ entries)
    (hnew : ∀ old ∈ done, old.absPath ≠ entry.absPath) (hdraws : run.draws ≤ 2 * entries.length)
    (htemp : run.journal.temp = some temp)
    (hwritten : run.tree.look temp = some (written host entry.content))
    (hrename : renameSync host run.tree temp entry.absPath = .ok tree) :
    Journaled host before entries (done ++ [entry])
      { run with tree := tree, journal := run.journal.record entry } := by
  obtain ⟨hunused, hentries, hdirs⟩ := hjournaled.temp_apart hfresh hdraws htemp
  obtain ⟨htarget, content, mode, hsource, hlook⟩ := renameSync_ok hrename
  rw [hwritten] at hsource
  have hkeeps : ∀ path, path ≠ temp -> path ≠ entry.absPath ->
      tree.look path = run.tree.look path := by
    intro path htemp hpath
    rw [hlook, update_of_ne hpath, update_of_ne htemp]
  have hplaced : tree.look entry.absPath = some (written host entry.content) := by
    rw [hlook, update_self, hsource]
  have hgone : tree.look temp = none := by
    rw [hlook, update_of_ne (hentries entry hentry).symm, update_self]
  have hinPlace : ∀ old ∈ done ++ [entry],
      tree.look old.absPath = some (written host old.content) := by
    intro old hold
    rcases mem_append.mp hold with hbefore | hlast
    · rw [hkeeps _ (hentries old (hdone old hbefore)) (hnew old hbefore)]
      exact hjournaled.inPlace old hbefore
    · obtain rfl := mem_singleton.mp hlast
      exact hplaced
  have hstill : ∀ path ∈ run.journal.dirs, tree.isDir path = true := by
    intro path hpath
    have hdir := (hjournaled.dirs path hpath).2.1
    rw [Tree.isDir, hkeeps path (hdirs path hpath)]
    · exact hdir
    · rintro rfl
      rw [htarget] at hdir
      cases hdir
  have hsame : ∀ path, path ∉ run.journal.files ->
      path ∉ run.journal.replaced.map Prod.fst -> path ∉ run.journal.dirs ->
        path ≠ entry.absPath -> tree.look path = before.look path := by
    intro path hfiles hreplaced hnodir hpath
    rcases eq_or_ne path temp with rfl | hne
    · rw [hgone, hunused]
    · rw [hkeeps path hne hpath]
      exact hjournaled.same path hfiles hreplaced hnodir fun heq =>
        hne (Option.some.inj (heq.symm.trans htemp))
  have hwas : ∀ path, (∃ old ∈ done, old.absPath = path /\ old.status = .create) ->
      ∃ old ∈ done ++ [entry], old.absPath = path /\ old.status = .create := by
    rintro path ⟨old, hold, hrest⟩
    exact ⟨old, mem_append_left _ hold, hrest⟩
  have hwas' : ∀ path,
      (∃ old ∈ done, old.absPath = path /\ old.status = .conflict) ->
        ∃ old ∈ done ++ [entry], old.absPath = path /\ old.status = .conflict := by
    rintro path ⟨old, hold, hrest⟩
    exact ⟨old, mem_append_left _ hold, hrest⟩
  cases hstatus : entry.status with
  | create =>
    simp only [Journal.record, hstatus]
    refine
      { files := ?_
        replaced := fun item hitem => hwas' _ (hjournaled.replaced item hitem)
        replacedOnce := hjournaled.replacedOnce
        dirs := fun path hpath => ?_
        inPlace := hinPlace
        temp := fun _ hnone => (by cases hnone)
        same := ?_ }
    · intro path hpath
      rcases mem_append.mp hpath with hold | hlast
      · exact hwas path (hjournaled.files path hold)
      · obtain rfl := mem_singleton.mp hlast
        exact ⟨entry, mem_append_right _ mem_cons_self, rfl, hstatus⟩
    · obtain ⟨hnone, -, habove⟩ := hjournaled.dirs path hpath
      exact ⟨hnone, hstill path hpath, habove⟩
    · intro path hfiles hreplaced hnodir _
      refine hsame path (fun hmem => hfiles (mem_append_left _ hmem)) hreplaced hnodir ?_
      rintro rfl
      exact hfiles (mem_append_right _ mem_cons_self)
  | conflict =>
    simp only [Journal.record, hstatus]
    refine
      { files := fun path hpath => hwas path (hjournaled.files path hpath)
        replaced := ?_
        replacedOnce := ?_
        dirs := fun path hpath => ?_
        inPlace := hinPlace
        temp := fun _ hnone => (by cases hnone)
        same := ?_ }
    · intro item hitem
      rcases mem_append.mp hitem with hold | hlast
      · exact hwas' _ (hjournaled.replaced item hold)
      · obtain rfl := mem_singleton.mp hlast
        exact ⟨entry, mem_append_right _ mem_cons_self, rfl, hstatus⟩
    · rw [map_append, nodup_append]
      refine ⟨hjournaled.replacedOnce, by simp, ?_⟩
      intro path hpath other hother
      obtain ⟨item, hitem, rfl⟩ := mem_map.mp hpath
      obtain rfl := mem_singleton.mp hother
      obtain ⟨old, hold, hpath', -⟩ := hjournaled.replaced item hitem
      rw [<- hpath']
      exact hnew old hold
    · obtain ⟨hnone, -, habove⟩ := hjournaled.dirs path hpath
      exact ⟨hnone, hstill path hpath, habove⟩
    · intro path hfiles hreplaced hnodir _
      rw [map_append, mem_append, not_or] at hreplaced
      refine hsame path hfiles hreplaced.1 hnodir ?_
      rintro rfl
      exact hreplaced.2 mem_cons_self

end

variable {last : Run Text Bytes}

theorem Journaled.writeOne (htemp : run.journal.temp = none)
    (hfresh : FreshNames host entries before) (hdone : ∀ old ∈ done, old ∈ entries)
    (hentry : entry ∈ entries) (hnew : ∀ old ∈ done, old.absPath ≠ entry.absPath)
    (hdraws : run.draws < 2 * entries.length) (hwrite : writeOne host entry run = (answer, last)) :
    last.draws ≤ run.draws + 1 /\
      match answer with
      | none => Journaled host before entries (done ++ [entry]) last /\ last.journal.temp = none
      | some _ => Journaled host before entries done last := by
  unfold FileTransaction.writeOne at hwrite
  split at hwrite
  · rename_i code ready hensure
    obtain ⟨hready, -, hsame⟩ := hjournaled.ensureDirs htemp hentry hensure
    cases hwrite
    exact ⟨by omega, hready⟩
  · rename_i ready hensure
    obtain ⟨hready, hnone, hsame⟩ := hjournaled.ensureDirs htemp hentry hensure
    have hdrawn := hready.draw hnone hentry
    have hbound : ready.draws + 1 ≤ 2 * entries.length := by omega
    simp only at hwrite
    split at hwrite
    · rename_i code tree hfile
      cases hwrite
      refine ⟨by simp only; omega, ?_⟩
      rcases writeFileSync_cases hfile with ⟨rfl, -⟩ | ⟨-, content, mode, hlook, -⟩
      · exact hdrawn
      · exact hdrawn.write hfresh hdone hbound rfl hlook
    · rename_i tree hfile
      rcases writeFileSync_cases hfile with ⟨-, hsome⟩ | ⟨-, content, mode, hlook, hnode⟩
      · cases hsome
      · have hwritten := hdrawn.write hfresh hdone hbound rfl hlook
        split at hwrite
        · cases hwrite
          exact ⟨by simp only; omega, hwritten⟩
        · rename_i renamed hrename
          cases hwrite
          refine ⟨by simp only; omega, ?_, by cases hstatus : entry.status <;>
            simp [Journal.record, hstatus]⟩
          refine hwritten.rename hfresh hdone hentry hnew hbound rfl ?_ hrename
          change tree.look _ = _
          rw [hlook, update_self, hnode rfl]

omit hjournaled in
theorem Journaled.begin : Journaled host before entries [] (beginRun before) where
  files _ hpath := absurd hpath not_mem_nil
  replaced _ hitem := absurd hitem not_mem_nil
  replacedOnce := nodup_nil
  dirs _ hpath := absurd hpath not_mem_nil
  inPlace _ hentry := absurd hentry not_mem_nil
  temp _ htemp := by cases htemp
  same _ _ _ _ _ := rfl

theorem Journaled.writeEntries {rest : List (Entry Text)} {answer : Option (FilePath × String)}
    (htemp : run.journal.temp = none) (hfresh : FreshNames host entries before)
    (hdistinct : (entries.map Entry.absPath).Nodup) (hall : done ++ rest = entries)
    (hdraws : run.draws ≤ done.length) (hwrite : writeEntries host rest run = (answer, last)) :
    match answer with
    | none => Journaled host before entries entries last /\ last.journal.temp = none
    | some _ =>
      exists written, Journaled host before entries written last /\
        (∀ old ∈ written, old ∈ entries) /\ last.draws ≤ written.length + 1 /\
          written.length < entries.length := by
  induction rest generalizing done run with
  | nil =>
    obtain rfl : done = entries := by simpa using hall
    cases hwrite
    exact ⟨hjournaled, htemp⟩
  | cons entry rest ih =>
    have hlength : done.length < entries.length := by
      rw [<- hall]
      simp
    have hdone : ∀ old ∈ done, old ∈ entries :=
      fun old hold => hall ▸ mem_append_left _ hold
    have hentry : entry ∈ entries := hall ▸ mem_append_right _ mem_cons_self
    have hnew : ∀ old ∈ done, old.absPath ≠ entry.absPath := by
      intro old hold
      rw [<- hall, map_append, nodup_append] at hdistinct
      exact hdistinct.2.2 _ (mem_map_of_mem hold) _ mem_cons_self
    rw [FileTransaction.writeEntries] at hwrite
    split at hwrite
    · rename_i code failed hone
      obtain ⟨hdraws', hfailed⟩ :=
        hjournaled.writeOne htemp hfresh hdone hentry hnew (by omega) hone
      cases hwrite
      exact ⟨done, hfailed, hdone, by omega, hlength⟩
    · rename_i next hone
      obtain ⟨hdraws', hnext, hnone⟩ :=
        hjournaled.writeOne htemp hfresh hdone hentry hnew (by omega) hone
      have hall' : (done ++ [entry]) ++ rest = entries := by
        rw [<- hall, append_assoc, singleton_append]
      have hcount : next.draws ≤ (done ++ [entry]).length := by
        rw [length_append, length_singleton]
        omega
      have hlast := ih hnext hnone hall' hcount hwrite
      cases answer with
      | none => exact hlast
      | some failure => exact hlast

end

/-- With every entry in its place nothing else has changed but directories made on the
way. -/
theorem Journaled.allWritten (hjournaled : Journaled host before entries entries run)
    (htemp : run.journal.temp = none) : AllWritten host entries before run.tree where
  inPlace := hjournaled.inPlace
  elsewhere path hpath := by
    by_cases hdir : path ∈ run.journal.dirs
    · exact .inr (hjournaled.dirs path hdir)
    · refine .inl (hjournaled.same path ?_ ?_ hdir ?_)
      · intro hfile
        obtain ⟨entry, hentry, heq, -⟩ := hjournaled.files path hfile
        exact hpath entry hentry heq
      · intro hreplaced
        obtain ⟨item, hitem, rfl⟩ := mem_map.mp hreplaced
        obtain ⟨entry, hentry, heq, -⟩ := hjournaled.replaced item hitem
        exact hpath entry hentry heq
      · rw [htemp]
        exact nofun

end

end AnchorMind.Cli.FileTransaction
