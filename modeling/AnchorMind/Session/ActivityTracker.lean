import AnchorMind.Kernel.SharedState
import Mathlib.Data.List.Nodup

/-!
# The activity log of a session

`record` reads the log of a session from Redis, adds what a tool call did, and writes the
log back; `markReflected` is a record of its own, and so is what an automatic reflection
ends with.  The calls are not waited for.  The log does not expire while calls are made: each
write renews its time to live.
-/

namespace AnchorMind.Session.ActivityTracker

open Kernel.ReadModifyWrite Kernel.Transition List

structure Log where
  lastActivity : Option Int
  startedAt : Option Int
  keyId : Option (Option String)
  workspace : Option (Option String)
  workspaces : List String
  toolCalls : String -> Nat
  keywords : List String
  searchPaths : List String
  fragments : List String
  reflected : Bool

def Log.empty : Log where
  lastActivity := none
  startedAt := none
  keyId := none
  workspace := none
  workspaces := []
  toolCalls := fun _ => 0
  keywords := []
  searchPaths := []
  fragments := []
  reflected := false

/-- What a call of `record` is given. -/
structure Data where
  tool : Option String
  keywords : Option (List String)
  searchPath : Option String
  fragmentId : Option String
  action : Option String
  keyId : Option (Option String)
  workspace : Option (Option String)
  requestWorkspace : Option String

def truthy (text : Option String) : Option String := text.filter (· ≠ "")

/-- `slice(-cap)` -/
def lastOf (cap : Nat) (items : List String) : List String := items.drop (items.length - cap)

def push (items : List String) (item : String) : List String :=
  if item ∈ items then items else items ++ [item]

def workspaceCap : Nat := 20

def keywordCap : Nat := 50

def searchPathCap : Nat := 50

def fragmentCap : Nat := 100

def collect (cap : Nat) (items : List String) (item : Option String) : List String :=
  match truthy item with
  | none => items
  | some text => lastOf cap (push items text)

def recordOwner (log : Log) (data : Data) : Log :=
  { log with keyId := data.keyId.or log.keyId, workspace := data.workspace.or log.workspace }

def recordRequestWorkspace (log : Log) (workspace : Option String) : Log :=
  { log with workspaces := collect workspaceCap log.workspaces workspace }

def countTool (toolCalls : String -> Nat) (tool : Option String) : String -> Nat :=
  match truthy tool with
  | none => toolCalls
  | some name => fun other => if other = name then toolCalls other + 1 else toolCalls other

def recordKeywords (log : Log) (keywords : Option (List String)) : Log :=
  match keywords with
  | none => log
  | some words => { log with keywords := lastOf keywordCap (words.foldl push log.keywords) }

def recordSearchPath (log : Log) (searchPath : Option String) : Log :=
  match truthy searchPath with
  | none => log
  | some path => { log with searchPaths := lastOf searchPathCap (log.searchPaths ++ [path]) }

def marksReflected (data : Data) : Bool := data.action == some "reflected"

/-- What `record` makes of the log it has read. -/
def Log.record (log : Log) (data : Data) (now : Int) : Log :=
  let started := { log with lastActivity := some now, startedAt := log.startedAt.or (some now) }
  let requested := recordRequestWorkspace (recordOwner started data) data.requestWorkspace
  let counted := { requested with toolCalls := countTool requested.toolCalls data.tool }
  let searched := recordSearchPath (recordKeywords counted data.keywords) data.searchPath
  { searched with
    fragments := collect fragmentCap searched.fragments data.fragmentId
    reflected := searched.reflected || marksReflected data }

/-- `markReflected` -/
def reflectedData : Data where
  tool := none
  keywords := none
  searchPath := none
  fragmentId := none
  action := some "reflected"
  keyId := none
  workspace := none
  requestWorkspace := none

structure Kept where
  toolCalls : String -> Nat
  fragments : List String
  workspaces : List String
  reflected : Bool

def Log.kept (log : Log) : Kept where
  toolCalls := log.toolCalls
  fragments := log.fragments
  workspaces := log.workspaces
  reflected := log.reflected

def Kept.record (kept : Kept) (data : Data) : Kept where
  toolCalls := countTool kept.toolCalls data.tool
  fragments := collect fragmentCap kept.fragments data.fragmentId
  workspaces := collect workspaceCap kept.workspaces data.requestWorkspace
  reflected := kept.reflected || marksReflected data

theorem kept_record (log : Log) (data : Data) (now : Int) :
    (log.record data now).kept = log.kept.record data := by
  have hkeywords : ∀ (log : Log) (words : Option (List String)),
      (recordKeywords log words).kept = log.kept := by
    intro log words
    cases words with
    | none => rfl
    | some words => rfl
  have hpath : ∀ (log : Log) (path : Option String),
      (recordSearchPath log path).kept = log.kept := by
    intro log path
    unfold recordSearchPath
    split <;> rfl
  have hsearched : ∀ (log : Log),
      (recordSearchPath (recordKeywords log data.keywords) data.searchPath).kept = log.kept :=
    fun log => (hpath _ _).trans (hkeywords _ _)
  unfold Log.record
  simp only [Log.kept, Kept.mk.injEq] at hsearched ⊢
  simp only [hsearched]
  rfl

def logOf (stored : Option Log) : Log := stored.getD Log.empty

def recordUpdate : Update (Option Log) Data Int Kept where
  apply data now stored := some ((logOf stored).record data now)
  view stored := (logOf stored).kept
  act := Kept.record
  view_apply data now stored := kept_record (logOf stored) data now

def tracker : System (Shared (Option Log) Data) (Event Data Int) := system recordUpdate none

def AddsNothing (snapshot : Log) (own overtaken : Data) : Prop :=
  truthy overtaken.tool = none /\
    (∀ id, truthy overtaken.fragmentId = some id -> id ∈ snapshot.fragments) /\
      (∀ workspace, truthy overtaken.requestWorkspace = some workspace ->
        workspace ∈ snapshot.workspaces) /\
        (marksReflected overtaken = true ->
          snapshot.reflected = true \/ marksReflected own = true)

def Unhurried (before : Shared (Option Log) Data) : Event Data Int -> Prop
  | .write place _ => ∀ call, before.calls[place]? = some call ->
      ∀ overtaken ∈ before.written.drop call.since,
        AddsNothing (logOf call.snapshot) call.input overtaken
  | _ => True

instance (snapshot : Log) (own overtaken : Data) :
    Decidable (AddsNothing snapshot own overtaken) := by
  unfold AddsNothing
  infer_instance

instance (before : Shared (Option Log) Data) (event : Event Data Int) :
    Decidable (Unhurried before event) := by
  cases event <;> simp only [Unhurried] <;> infer_instance

end AnchorMind.Session.ActivityTracker

/-!
# Nothing recorded is lost

In a run of unhurried writes the tool calls, fragments, workspaces and the mark of the stored
log are those of the records made one after another.  A write over a record it has not read
loses what that record added.
-/

namespace AnchorMind.Session.ActivityTracker

open Kernel.ReadModifyWrite Kernel.Transition List

theorem length_lastOf (cap : Nat) (items : List String) :
    (lastOf cap items).length = min cap items.length := by
  rw [lastOf, length_drop]
  omega

variable {cap : Nat} {items : List String}

theorem lastOf_of_le (hle : items.length ≤ cap) : lastOf cap items = items := by
  rw [lastOf, Nat.sub_eq_zero_of_le hle, drop_zero]

variable {item : String}

theorem push_of_mem (hmem : item ∈ items) : push items item = items := if_pos hmem

theorem push_of_not_mem (hnot : item ∉ items) : push items item = items ++ [item] := if_neg hnot

theorem length_le_push (items : List String) (item : String) :
    items.length ≤ (push items item).length := by
  unfold push
  split
  · exact Nat.le_refl _
  · rw [length_append]
    exact Nat.le_add_right _ _

theorem mem_push_of_mem {other : String} (hmem : other ∈ items) : other ∈ push items item := by
  unfold push
  split
  · exact hmem
  · exact mem_append_left _ hmem

theorem nodup_push (hnodup : items.Nodup) (item : String) : (push items item).Nodup := by
  unfold push
  split
  · exact hnodup
  · rename_i hnot
    refine nodup_append.mpr ⟨hnodup, nodup_singleton item, ?_⟩
    intro one hone other hother heq
    obtain rfl := mem_singleton.mp hother
    exact hnot (heq ▸ hone)

variable {item : Option String}

theorem collect_of_mem (hle : items.length ≤ cap)
    (hmem : ∀ text, truthy item = some text -> text ∈ items) : collect cap items item = items := by
  unfold collect
  split
  · rfl
  · rename_i text htext
    rw [push_of_mem (hmem text htext), lastOf_of_le hle]

theorem length_collect_le (hle : items.length ≤ cap) (item : Option String) :
    (collect cap items item).length ≤ cap := by
  unfold collect
  split
  · exact hle
  · rw [length_lastOf]
    exact Nat.min_le_left _ _

theorem nodup_collect (hnodup : items.Nodup) (item : Option String) :
    (collect cap items item).Nodup := by
  unfold collect
  split
  · exact hnodup
  · exact (nodup_push hnodup _).sublist (drop_sublist _ _)

theorem mem_collect_of_mem {text : String} (hmem : text ∈ items) (item : Option String) :
    text ∈ collect cap items item \/ (collect cap items item).length = cap := by
  unfold collect
  split
  · exact .inl hmem
  · rename_i added _
    rcases Nat.lt_or_ge (push items added).length cap with hshort | hlong
    · rw [lastOf_of_le (Nat.le_of_lt hshort)]
      exact .inl (mem_push_of_mem hmem)
    · right
      rw [length_lastOf]
      exact Nat.min_eq_left hlong

theorem length_collect_of_full (hfull : items.length = cap) (item : Option String) :
    (collect cap items item).length = cap := by
  unfold collect
  split
  · exact hfull
  · rename_i added _
    have hle := length_le_push items added
    rw [length_lastOf]
    omega

theorem mem_collect_self (hcap : 0 < cap) (hle : items.length ≤ cap) {text : String}
    (htext : truthy item = some text) : text ∈ collect cap items item := by
  unfold collect
  rw [htext]
  dsimp only
  rcases Decidable.em (text ∈ items) with hmem | hnot
  · rw [push_of_mem hmem, lastOf_of_le hle]
    exact hmem
  · rw [push_of_not_mem hnot, lastOf, drop_append_of_le_length]
    · exact mem_append_right _ mem_cons_self
    · rw [length_append, length_singleton]
      omega

def collectAll (cap : Nat) (items : List String) (texts : List (Option String)) : List String :=
  texts.foldl (collect cap) items

variable {texts : List (Option String)}

theorem length_collectAll_le :
    ∀ {items : List String}, items.length ≤ cap ->
      (collectAll cap items texts).length ≤ cap := by
  induction texts with
  | nil => exact fun hle => hle
  | cons text rest ih => exact fun hle => ih (length_collect_le hle text)

theorem nodup_collectAll :
    ∀ {items : List String}, items.Nodup -> (collectAll cap items texts).Nodup := by
  induction texts with
  | nil => exact fun hnodup => hnodup
  | cons text rest ih => exact fun hnodup => ih (nodup_collect hnodup text)

theorem length_collectAll_of_full :
    ∀ {items : List String}, items.length = cap ->
      (collectAll cap items texts).length = cap := by
  induction texts with
  | nil => exact fun hfull => hfull
  | cons text rest ih => exact fun hfull => ih (length_collect_of_full hfull text)

theorem mem_collectAll_of_mem {wanted : String} :
    ∀ {items : List String}, wanted ∈ items ->
      wanted ∈ collectAll cap items texts \/ (collectAll cap items texts).length = cap := by
  induction texts with
  | nil => exact fun hmem => .inl hmem
  | cons text rest ih =>
    intro items hmem
    rcases mem_collect_of_mem hmem text with hthere | hfull
    · exact ih hthere
    · have hrest : (collectAll cap (collect cap items text) rest).length = cap :=
        length_collectAll_of_full hfull
      exact .inr hrest

theorem mem_collectAll (hcap : 0 < cap) {wanted : String} (hwanted : truthy item = some wanted)
    (hmem : item ∈ texts) :
    ∀ {items : List String}, items.length ≤ cap ->
      wanted ∈ collectAll cap items texts \/ (collectAll cap items texts).length = cap := by
  induction texts with
  | nil => cases hmem
  | cons text rest ih =>
    intro items hle
    rcases mem_cons.mp hmem with rfl | hlater
    · have hthere := mem_collect_self hcap hle hwanted
      have hrest : wanted ∈ collectAll cap (collect cap items item) rest \/
          (collectAll cap (collect cap items item) rest).length = cap :=
        mem_collectAll_of_mem hthere
      exact hrest
    · exact ih hlater (length_collect_le hle text)

theorem fragments_replay (written : List Data) : ∀ (kept : Kept),
    (replay recordUpdate kept written).fragments =
      collectAll fragmentCap kept.fragments (written.map Data.fragmentId) := by
  induction written with
  | nil => exact fun _ => rfl
  | cons data rest ih => exact fun kept => ih (kept.record data)

theorem workspaces_replay (written : List Data) : ∀ (kept : Kept),
    (replay recordUpdate kept written).workspaces =
      collectAll workspaceCap kept.workspaces (written.map Data.requestWorkspace) := by
  induction written with
  | nil => exact fun _ => rfl
  | cons data rest ih => exact fun kept => ih (kept.record data)

theorem reflected_replay (written : List Data) : ∀ (kept : Kept),
    (replay recordUpdate kept written).reflected =
      (kept.reflected || written.any marksReflected) := by
  induction written with
  | nil =>
    intro kept
    exact (Bool.or_false kept.reflected).symm
  | cons data rest ih =>
    intro kept
    have hrest := ih (kept.record data)
    rw [any_cons, ← Bool.or_assoc]
    exact hrest

theorem countTool_apply (toolCalls : String -> Nat) (tool : Option String) (name : String) :
    countTool toolCalls tool name =
      toolCalls name + if truthy tool = some name then 1 else 0 := by
  unfold countTool
  cases truthy tool with
  | none => rfl
  | some called =>
    dsimp only
    rcases eq_or_ne name called with rfl | hne
    · rw [if_pos rfl, if_pos rfl]
    · rw [if_neg hne, if_neg fun heq => hne (Option.some.inj heq).symm, Nat.add_zero]

theorem toolCalls_replay (written : List Data) (name : String) : ∀ (kept : Kept),
    (replay recordUpdate kept written).toolCalls name =
      kept.toolCalls name + written.countP fun data => truthy data.tool = some name := by
  induction written with
  | nil => exact fun _ => rfl
  | cons data rest ih =>
    intro kept
    have hrest := ih (kept.record data)
    have hfirst : (kept.record data).toolCalls name =
        kept.toolCalls name + if truthy data.tool = some name then 1 else 0 :=
      countTool_apply kept.toolCalls data.tool name
    rw [hfirst] at hrest
    rw [countP_cons]
    simp only [decide_eq_true_eq]
    calc (replay recordUpdate kept (data :: rest)).toolCalls name
        = kept.toolCalls name + (if truthy data.tool = some name then 1 else 0) +
            rest.countP (fun data => truthy data.tool = some name) := hrest
      _ = _ := by omega

theorem replay_addsNothing {snapshot : Log} {own : Data} {overtaken : List Data}
    (hadds : ∀ data ∈ overtaken, AddsNothing snapshot own data)
    (hfragments : snapshot.fragments.length ≤ fragmentCap)
    (hworkspaces : snapshot.workspaces.length ≤ workspaceCap) : ∀ (reflected : Bool),
    replay recordUpdate { snapshot.kept with reflected := reflected } overtaken =
      { snapshot.kept with reflected := reflected || overtaken.any marksReflected } := by
  induction overtaken with
  | nil =>
    intro reflected
    rw [any_nil, Bool.or_false]
    rfl
  | cons data rest ih =>
    intro reflected
    obtain ⟨htool, hfragment, hworkspace, -⟩ := hadds data mem_cons_self
    have hone : Kept.record { snapshot.kept with reflected := reflected } data =
        { snapshot.kept with reflected := reflected || marksReflected data } := by
      have hcount : countTool snapshot.kept.toolCalls data.tool = snapshot.kept.toolCalls := by
        rw [countTool, htool]
      have hids := collect_of_mem hfragments hfragment
      have hnames := collect_of_mem hworkspaces hworkspace
      exact congr (congr (congr (congrArg Kept.mk hcount) hids) hnames) rfl
    have hrest := ih (fun later hlater => hadds later (mem_cons_of_mem _ hlater))
      (reflected || marksReflected data)
    rw [any_cons, ← Bool.or_assoc]
    exact (congrArg (fun kept => replay recordUpdate kept rest) hone).trans hrest

theorem bounded_of_replayed {shared : Shared (Option Log) Data} {place : Nat}
    (hreplayed : Replayed recordUpdate none shared) {call : Call (Option Log) Data}
    (hcall : shared.calls[place]? = some call) :
    (logOf call.snapshot).fragments.length ≤ fragmentCap /\
      (logOf call.snapshot).workspaces.length ≤ workspaceCap := by
  have hsnapshot := hreplayed.snapshot hcall
  constructor
  · have hfragments : (logOf call.snapshot).fragments = _ := congrArg Kept.fragments hsnapshot
    rw [hfragments, fragments_replay]
    exact length_collectAll_le (Nat.zero_le _)
  · have hworkspaces : (logOf call.snapshot).workspaces = _ := congrArg Kept.workspaces hsnapshot
    rw [hworkspaces, workspaces_replay]
    exact length_collectAll_le (Nat.zero_le _)

theorem harmless_of_unhurried {before : Shared (Option Log) Data} {event : Event Data Int}
    (hreplayed : Replayed recordUpdate none before) (hunhurried : Unhurried before event) :
    Harmless recordUpdate before event := by
  cases event with
  | read data => trivial
  | fail place => trivial
  | write place now =>
    intro call hcall
    have hadds := hunhurried call hcall
    obtain ⟨hfragments, hworkspaces⟩ := bounded_of_replayed hreplayed hcall
    have hkept := replay_addsNothing hadds hfragments hworkspaces
      (logOf call.snapshot).reflected
    have hmark : ((logOf call.snapshot).reflected ||
        (before.written.drop call.since).any marksReflected || marksReflected call.input) =
          ((logOf call.snapshot).reflected || marksReflected call.input) := by
      rcases hany : (before.written.drop call.since).any marksReflected with _ | _
      · rw [Bool.or_false]
      · obtain ⟨data, hmem, hmarks⟩ := any_eq_true.mp hany
        rcases (hadds data hmem).2.2.2 hmarks with hsnapshot | hown
        · rw [hsnapshot]
          rfl
        · rw [hown, Bool.or_true, Bool.or_true]
    have hact := congrArg (fun kept => Kept.record kept call.input) hkept
    refine hact.trans ?_
    exact congrArg (Kept.mk _ _ _) hmark

structure KeepsRecords (shared : Shared (Option Log) Data) : Prop where
  reflected : ∀ data ∈ shared.written, data.action = some "reflected" ->
    ∃ log, shared.value = some log /\ log.reflected = true
  toolCalls : ∀ tool, (logOf shared.value).toolCalls tool =
    shared.written.countP fun data => truthy data.tool = some tool
  fragments : ∀ data ∈ shared.written, ∀ id, truthy data.fragmentId = some id ->
    id ∈ (logOf shared.value).fragments \/
      ((logOf shared.value).fragments.Nodup /\
        (logOf shared.value).fragments.length = fragmentCap)
  workspaces : ∀ data ∈ shared.written,
    ∀ workspace, truthy data.requestWorkspace = some workspace ->
      workspace ∈ (logOf shared.value).workspaces \/
        ((logOf shared.value).workspaces.Nodup /\
          (logOf shared.value).workspaces.length = workspaceCap)

/-- Nothing recorded is missing after a run of unhurried writes. -/
theorem records_are_kept {shared : Shared (Option Log) Data}
    (hreach : (tracker.restrict Unhurried).Reachable shared) : KeepsRecords shared := by
  have hreplayed : Replayed recordUpdate none shared :=
    replayed_of_reachable (fun _ _ hbefore hunhurried => harmless_of_unhurried hbefore hunhurried)
      hreach
  have hcurrent := hreplayed.current
  constructor
  · intro data hmem haction
    have hmark : (logOf shared.value).reflected = true := by
      have hreflected : (logOf shared.value).reflected = _ := congrArg Kept.reflected hcurrent
      rw [hreflected, reflected_replay, Bool.or_eq_true]
      exact .inr (any_eq_true.mpr ⟨data, hmem, beq_iff_eq.mpr haction⟩)
    cases hvalue : shared.value with
    | none =>
      rw [hvalue] at hmark
      cases hmark
    | some log =>
      rw [hvalue] at hmark
      exact ⟨log, rfl, hmark⟩
  · intro tool
    have htool : (logOf shared.value).toolCalls tool = _ :=
      congrFun (congrArg Kept.toolCalls hcurrent) tool
    rw [htool, toolCalls_replay]
    exact Nat.zero_add _
  · intro data hmem id hid
    have hfragments : (logOf shared.value).fragments = _ := congrArg Kept.fragments hcurrent
    rw [hfragments, fragments_replay]
    refine (mem_collectAll (by decide) hid (mem_map_of_mem hmem) (Nat.zero_le _)).imp_right ?_
    exact fun hfull => ⟨nodup_collectAll nodup_nil, hfull⟩
  · intro data hmem workspace hworkspace
    have hworkspaces : (logOf shared.value).workspaces = _ := congrArg Kept.workspaces hcurrent
    rw [hworkspaces, workspaces_replay]
    refine (mem_collectAll (by decide) hworkspace (mem_map_of_mem hmem)
      (Nat.zero_le _)).imp_right ?_
    exact fun hfull => ⟨nodup_collectAll nodup_nil, hfull⟩

def reflectCall : Data := { reflectedData with tool := some "reflect", action := none }

def overlappingMarks : List (Event Data Int) :=
  [.read reflectCall, .write 0 1000, .read reflectedData, .read reflectedData, .write 1 2000,
    .write 2 3000]

theorem overlapping_marks_are_harmless : ∃ shared,
    (tracker.restrict Unhurried).Reachable shared /\ shared.written.length = 3 /\
      KeepsRecords shared := by
  have hrun : (System.follow (fun before event => if Unhurried before event then
      step recordUpdate before event else none) (initial none) overlappingMarks).map
        (fun shared => shared.written.length) = some 3 := by decide +kernel
  obtain ⟨shared, hfollow, hlength⟩ := Option.map_eq_some_iff.mp hrun
  have hreach : (tracker.restrict Unhurried).Reachable shared :=
    ⟨initial none, overlappingMarks, rfl,
      .of_follow_restrict (fun _ _ _ hstep => hstep) hfollow⟩
  exact ⟨shared, hreach, hlength, records_are_kept hreach⟩

def overwrittenMark : List (Event Data Int) :=
  [.read reflectCall, .read reflectedData, .write 1 1000, .write 0 2000]

theorem overwritten_mark_is_lost : ∃ shared, tracker.Reachable shared /\
    ¬ KeepsRecords shared := by
  have hrun : (System.follow (step recordUpdate) (initial none) overwrittenMark).map
      (fun shared => (shared.written.map Data.action, shared.value.map Log.reflected)) =
        some ([some "reflected", none], some false) := by decide +kernel
  obtain ⟨shared, hfollow, hdata⟩ := Option.map_eq_some_iff.mp hrun
  obtain ⟨hwritten, hvalue⟩ := Prod.mk.inj hdata
  refine ⟨shared, ⟨initial none, overwrittenMark, rfl,
    .of_follow (fun _ _ _ hstep => hstep) hfollow⟩, fun hkeeps => ?_⟩
  have hmarked : some "reflected" ∈ shared.written.map Data.action :=
    hwritten ▸ mem_cons_self
  obtain ⟨data, hmem, haction⟩ := mem_map.mp hmarked
  obtain ⟨log, hlog, hreflected⟩ := hkeeps.reflected data hmem haction
  rw [hlog, Option.map_some, hreflected] at hvalue
  cases hvalue

end AnchorMind.Session.ActivityTracker
