import AnchorMind.Index.FragmentIndex

/-!
# Amends of one fragment at the same time

An amend reads the row, updates it under a lock, takes what it had read out of the index,
and puts what it wrote into it.  The update works on the row as it is under the lock; the
index is left by the row as it was read before.
-/

namespace AnchorMind.Index.Amendments

open Kernel.Transition Kernel.NamedSets Index.FragmentIndex Index.DeletePaths

/-- How far an amend has come.  What the gate lets through of a request may depend on the
row it is shown. -/
inductive Session where
  | waiting (request : Row -> Changes)
  | read (request : Row -> Changes) (existing : Row)
  | updated (existing result : Row)
  | deindexed (existing result : Row)
  | finished

def Session.Pending : Session -> Prop
  | .updated _ _ => True
  | .deindexed _ _ => True
  | _ => False

structure State (Client : Type) where
  row : Row
  sets : IndexSets
  session : Client -> Session

inductive Label (Client : Type) where
  | preflight (client : Client)
  /-- Another fragment may have the new content, and then nothing is changed. -/
  | update (client : Client) (duplicate : Bool)
  | deindex (client : Client)
  | index (client : Client)

section

variable {Client : Type} [DecidableEq Client]

def State.put (state : State Client) (client : Client) (session : Session) : State Client :=
  { state with session := Function.update state.session client session }

def step (lower : String -> String) (state : State Client) : Label Client -> Option (State Client)
  | .preflight client =>
    match state.session client with
    | .waiting request => some (state.put client (.read request state.row))
    | _ => none
  | .update client duplicate =>
    match state.session client with
    | .read request existing =>
      if duplicate then some (state.put client .finished)
      else
        let result := (request existing).apply state.row
        some { state.put client (.updated existing result) with row := result }
    | _ => none
  | .deindex client =>
    match state.session client with
    | .updated existing result =>
      some { state.put client (.deindexed existing result) with
        sets := deindex lower state.sets existing.deindexColumns }
    | _ => none
  | .index client =>
    match state.session client with
    | .deindexed existing result =>
      some { state.put client .finished with
        sets := index lower state.sets { result with keyId := existing.keyId } }
    | _ => none

def Indexed (lower : String -> String) (state : State Client) : Prop :=
  Exactly state.sets state.row.id (indexSets lower state.row)

def system (lower : String -> String) : System (State Client) (Label Client) where
  start state := Indexed lower state /\
    ∀ client, ∃ request, state.session client = .waiting request
  step before label after := step lower before label = some after

/-- No update changes the sets of the fragment while another amend is about to write the
index, and of the sets it leaves every one is found by the row that was read before or is
entered again. -/
def KeepsSets (lower : String -> String) (state : State Client) : Label Client -> Prop
  | .update client false => ∀ request existing, state.session client = .read request existing ->
      let result := (request existing).apply state.row
      (∀ name ∈ indexSets lower state.row,
        name ∈ deindexSets lower existing.deindexColumns \/ name ∈ indexSets lower result) /\
      ((∃ other, (state.session other).Pending) ->
        ∀ name, name ∈ indexSets lower result <-> name ∈ indexSets lower state.row)
  | _ => True

end

variable {lower : String -> String} {Client : Type} [DecidableEq Client]
variable {state after : State Client} {client other : Client} {session : Session}

/-- An amend works on the fragment, and what it wrote has the sets of the fragment. -/
def Agrees (lower : String -> String) (row : Row) : Session -> Prop
  | .read _ existing => existing.id = row.id /\ existing.keyId = row.keyId
  | .updated existing result | .deindexed existing result =>
    existing.id = row.id /\ result.id = row.id /\ existing.keyId = result.keyId /\
      ∀ name, name ∈ indexSets lower result <-> name ∈ indexSets lower row
  | _ => True

/-- An amend that is about to take the fragment out of the set. -/
def Leaves (lower : String -> String) (name : String) : Session -> Prop
  | .updated existing _ => name ∈ deindexSets lower existing.deindexColumns
  | _ => False

structure Sound (lower : String -> String) (state : State Client) : Prop where
  agrees : ∀ client, Agrees lower state.row (state.session client)
  bound : ∀ name, state.row.id ∈ state.sets name ->
    name ∈ indexSets lower state.row \/ ∃ client, Leaves lower name (state.session client)
  present : (∀ name ∈ indexSets lower state.row, state.row.id ∈ state.sets name) \/
    ∃ client, (state.session client).Pending

theorem session_put_self : (state.put client session).session client = session := by
  simp [State.put]

theorem session_put_other (hne : other ≠ client) :
    (state.put client session).session other = state.session other := by
  simp [State.put, Function.update_of_ne hne]

omit [DecidableEq Client] in
theorem Leaves.pending {name : String} (hleaves : Leaves lower name session) : session.Pending := by
  cases session <;> trivial

variable {property : Session -> Prop}

theorem forall_put (hself : property session)
    (hothers : ∀ other, other ≠ client -> property (state.session other)) :
    ∀ other, property ((state.put client session).session other) := by
  intro other
  rcases Classical.em (other = client) with rfl | hne
  · rwa [session_put_self]
  · rw [session_put_other hne]
    exact hothers other hne

theorem exists_put (hold : ∃ other, property (state.session other))
    (hself : property (state.session client) -> property session) :
    ∃ other, property ((state.put client session).session other) := by
  obtain ⟨other, hother⟩ := hold
  rcases Classical.em (other = client) with rfl | hne
  · refine ⟨other, ?_⟩
    rw [session_put_self]
    exact hself hother
  · refine ⟨other, ?_⟩
    rwa [session_put_other hne]

section

variable (hsound : Sound lower state)
include hsound

theorem Sound.put (hcalm : Not (state.session client).Pending)
    (hagrees : Agrees lower state.row session) : Sound lower (state.put client session) := by
  constructor
  · exact forall_put hagrees fun other _ => hsound.agrees other
  · intro name hmem
    rcases hsound.bound name hmem with hname | hleaves
    · exact .inl hname
    · exact .inr (exists_put hleaves fun hself => absurd hself.pending hcalm)
  · rcases hsound.present with hall | hpending
    · exact .inl hall
    · exact .inr (exists_put hpending fun hself => absurd hself hcalm)

theorem preflight_sound (hstep : step lower state (.preflight client) = some after) :
    Sound lower after := by
  simp only [step] at hstep
  split at hstep
  · rename_i request hsession
    cases hstep
    apply hsound.put
    · rw [hsession]
      exact fun hpending => hpending
    · exact ⟨rfl, rfl⟩
  · cases hstep

theorem update_sound {duplicate : Bool} (hkeeps : KeepsSets lower state (.update client duplicate))
    (hstep : step lower state (.update client duplicate) = some after) : Sound lower after := by
  simp only [step] at hstep
  split at hstep
  · rename_i request existing hsession
    have hcalm : Not (state.session client).Pending := by
      rw [hsession]
      exact fun hpending => hpending
    split at hstep
    · cases hstep
      exact hsound.put hcalm trivial
    · rename_i hdistinct
      cases hstep
      rw [Bool.not_eq_true] at hdistinct
      subst hdistinct
      obtain ⟨hcovers, hundisturbed⟩ := hkeeps request existing hsession
      have hself := hsound.agrees client
      rw [hsession] at hself
      constructor
      · apply forall_put
        · exact ⟨hself.1, rfl, hself.2, fun _ => Iff.rfl⟩
        · intro other _
          have hother := hsound.agrees other
          have hpending := fun h => hundisturbed ⟨other, h⟩
          cases hstate : state.session other with
          | waiting request => trivial
          | read request existing =>
            rw [hstate] at hother
            exact hother
          | updated existing result =>
            rw [hstate] at hother hpending
            obtain ⟨hid, hresult, hkey, hsets⟩ := hother
            exact ⟨hid, hresult, hkey, fun name => (hsets name).trans (hpending trivial name).symm⟩
          | deindexed existing result =>
            rw [hstate] at hother hpending
            obtain ⟨hid, hresult, hkey, hsets⟩ := hother
            exact ⟨hid, hresult, hkey, fun name => (hsets name).trans (hpending trivial name).symm⟩
          | finished => trivial
      · intro name hmem
        rcases hsound.bound name hmem with hname | hleaves
        · rcases hcovers name hname with hleft | hkept
          · right
            refine ⟨client, ?_⟩
            change Leaves lower name ((state.put client _).session client)
            rw [session_put_self]
            exact hleft
          · exact .inl hkept
        · exact .inr (exists_put hleaves fun hself => absurd hself.pending hcalm)
      · right
        refine ⟨client, ?_⟩
        change ((state.put client _).session client).Pending
        rw [session_put_self]
        trivial
  · cases hstep

theorem deindex_sound (hstep : step lower state (.deindex client) = some after) :
    Sound lower after := by
  simp only [step] at hstep
  split at hstep
  · rename_i existing result hsession
    cases hstep
    have hself := hsound.agrees client
    rw [hsession] at hself
    constructor
    · exact forall_put hself fun other _ => hsound.agrees other
    · intro name hmem
      obtain ⟨hnot, hbefore⟩ := mem_remove.mp hmem
      rcases hsound.bound name hbefore with hname | hleaves
      · exact .inl hname
      · right
        apply exists_put hleaves
        rw [hsession]
        intro hleft
        exact absurd ⟨hself.1.symm, hleft⟩ hnot
    · right
      refine ⟨client, ?_⟩
      change ((state.put client _).session client).Pending
      rw [session_put_self]
      trivial
  · cases hstep

theorem index_sound (hstep : step lower state (.index client) = some after) :
    Sound lower after := by
  simp only [step] at hstep
  split at hstep
  · rename_i existing result hsession
    have hself := hsound.agrees client
    rw [hsession] at hself
    obtain ⟨-, hid, hkey, hsets⟩ := hself
    have hresult : { result with keyId := existing.keyId } = result := by rw [hkey]
    rw [hresult] at hstep
    cases hstep
    constructor
    · exact forall_put trivial fun other _ => hsound.agrees other
    · intro name hmem
      rcases mem_add.mp hmem with ⟨-, hname⟩ | hbefore
      · exact .inl ((hsets name).mp hname)
      · rcases hsound.bound name hbefore with hname | hleaves
        · exact .inl hname
        · right
          apply exists_put hleaves
          rw [hsession]
          exact fun hleft => hleft
    · left
      intro name hname
      exact mem_add.mpr (Or.inl ⟨hid.symm, (hsets name).mpr hname⟩)
  · cases hstep

theorem step_sound {label : Label Client} (hkeeps : KeepsSets lower state label)
    (hstep : step lower state label = some after) : Sound lower after := by
  cases label with
  | preflight client => exact preflight_sound hsound hstep
  | update client duplicate => exact update_sound hsound hkeeps hstep
  | deindex client => exact deindex_sound hsound hstep
  | index client => exact index_sound hsound hstep

end

theorem sound_of_reachable (hreach : ((system lower).restrict (KeepsSets lower)).Reachable state) :
    Sound lower state := by
  apply hreach.invariant
  · rintro state ⟨hindexed, hwaiting⟩
    constructor
    · intro client
      obtain ⟨request, hrequest⟩ := hwaiting client
      rw [hrequest]
      trivial
    · exact fun name hmem => .inl ((hindexed name).mp hmem)
    · exact .inl fun name hname => (hindexed name).mpr hname
  · rintro before label after - hsound ⟨hstep, hkeeps⟩
    exact step_sound hsound hkeeps hstep

/-- Once all amends have finished, the index holds the fragment under the sets of its row
and under no other. -/
theorem indexed_of_finished (hreach : ((system lower).restrict (KeepsSets lower)).Reachable state)
    (hfinished : ∀ client, state.session client = .finished) : Indexed lower state := by
  have hsound := sound_of_reachable hreach
  intro name
  constructor
  · intro hmem
    rcases hsound.bound name hmem with hname | ⟨client, hleaves⟩
    · exact hname
    · rw [hfinished client] at hleaves
      exact hleaves.elim
  · rcases hsound.present with hall | ⟨client, hpending⟩
    · exact hall name
    · rw [hfinished client] at hpending
      exact hpending.elim

section

variable (lower) (row : Row) (first second : String)

def amendTopic (topic : String) : Changes := ⟨none, some topic, none, none⟩

def topicStart : State Bool where
  row := row
  sets := add (fun _ => ∅) (indexSets lower row) row.id
  session client := .waiting fun _ => amendTopic (if client then first else second)

theorem topicStart_starts : (system lower).start (topicStart lower row first second) := by
  constructor
  · have hempty : Exactly (fun _ => (∅ : Finset String)) row.id ([] : List String) :=
      fun name => by simp
    exact hempty.add
  · exact fun client => ⟨_, rfl⟩

def staleRun : List (Label Bool) :=
  [.preflight true, .preflight false, .update true false, .deindex true, .index true,
    .update false false, .deindex false, .index false]

/-- The second reads the fragment after the first has finished. -/
def serialRun : List (Label Bool) :=
  [.preflight true, .update true false, .deindex true, .index true,
    .preflight false, .update false false, .deindex false, .index false]

theorem stale_of_overlap (hfirst : row.topic ≠ first) (hsecond : second ≠ first) :
    ∃ state, (system lower).Run (topicStart lower row first second) staleRun state /\
      (∀ client, state.session client = .finished) /\ Not (Indexed lower state) := by
  refine ⟨_, .cons rfl (.cons rfl (.cons rfl (.cons rfl (.cons rfl (.cons rfl (.cons rfl
    (.cons rfl (.nil _)))))))), ?_, ?_⟩
  · intro client
    cases client <;> rfl
  · intro hindexed
    have hleft : topicSet row.keyId first ∉ deindexSets lower row.deindexColumns :=
      fun hmem => hfirst (topicSet_mem_indexSets.mp (deindexSets_subset hmem)).symm
    have hentered : topicSet row.keyId first ∈ indexSets lower ((amendTopic first).apply row) :=
      topicSet_mem_indexSets.mpr rfl
    have hname : topicSet row.keyId first ∈
        indexSets lower ((amendTopic second).apply ((amendTopic first).apply row)) := by
      apply (hindexed _).mp
      refine mem_add.mpr (.inr (mem_remove.mpr ⟨fun hboth => hleft hboth.2, ?_⟩))
      exact mem_add.mpr (Or.inl ⟨rfl, hentered⟩)
    exact hsecond (topicSet_mem_indexSets.mp hname).symm

theorem serial_run (hfirst : first ≠ "") (hrow : row.topic ≠ "") :
    ∃ state, ((system lower).restrict (KeepsSets lower)).Run
        (topicStart lower row first second) serialRun state /\
      state.row.topic = second /\ ∀ client, state.session client = .finished := by
  refine ⟨_, .cons ⟨rfl, trivial⟩ (.cons ⟨rfl, ?_⟩ (.cons ⟨rfl, trivial⟩ (.cons ⟨rfl, trivial⟩
    (.cons ⟨rfl, trivial⟩ (.cons ⟨rfl, ?_⟩ (.cons ⟨rfl, trivial⟩ (.cons ⟨rfl, trivial⟩
      (.nil _)))))))), rfl, fun client => ?_⟩
  · intro request existing hread
    cases hread
    refine ⟨fun name hname => Or.inl ?_, ?_⟩
    · exact mem_deindexSets_of_indexSets hrow hname
    · rintro ⟨other, hpending⟩
      cases other <;> exact hpending.elim
  · intro request existing hread
    cases hread
    refine ⟨fun name hname => Or.inl ?_, ?_⟩
    · exact mem_deindexSets_of_indexSets hfirst hname
    · rintro ⟨other, hpending⟩
      cases other <;> exact hpending.elim
  · cases client <;> rfl

end

def sampleRow : Row where
  id := "frag-1"
  keyId := some "key-a"
  topic := "draft"
  type := .fact
  keywords := ["links"]
  content := "The batch upserts every row once per pair."
  linkedTo := []

theorem amends_leave_stale_topic :
    ∃ state, (system String.toLower).start
        (topicStart String.toLower sampleRow "links" "batches") /\
      (system String.toLower).Run (topicStart String.toLower sampleRow "links" "batches")
        staleRun state /\
      (∀ client, state.session client = .finished) /\ Not (Indexed String.toLower state) := by
  obtain ⟨state, hrun, hfinished, hstale⟩ := stale_of_overlap String.toLower sampleRow
    "links" "batches" (by decide) (by decide)
  exact ⟨state, topicStart_starts _ _ _ _, hrun, hfinished, hstale⟩

theorem indexed_of_finished_serial :
    ∃ state, ((system String.toLower).restrict (KeepsSets String.toLower)).Run
        (topicStart String.toLower sampleRow "links" "batches") serialRun state /\
      Indexed String.toLower state := by
  obtain ⟨state, hrun, -, hfinished⟩ := serial_run String.toLower sampleRow "links" "batches"
    (by decide) (by decide)
  exact ⟨state, hrun,
    indexed_of_finished (.run (.ofStart (topicStart_starts _ _ _ _)) hrun) hfinished⟩

end AnchorMind.Index.Amendments
