import AnchorMind.Outbox.Worker

/-!
# Every claimed event is accounted for

A worker goes through its batch in one lane: it starts a handler, or hands an event without
one back on its own, until something stops it, and hands back the rest.  Whatever its clock,
its switch, its handlers, and its statements answer, each event of the batch is started once,
handed back once, or left to its lease by the one statement that failed to hand it back.
-/

namespace AnchorMind.Outbox.DeliverAll

open Outbox.Store Outbox.Worker List

structure Turn where
  event : OutboxEvent
  clock : Int
  running : Bool
  /-- Whether its topic has a handler then. -/
  registered : Bool
  /-- Whether the release of an event without a handler goes through. -/
  released : Bool
  /-- What the handler throws, a timeout included. -/
  thrown : Option Thrown
  random : Rat
  /-- What the statement that records the outcome answers; without an answer it throws. -/
  recorded : Option Bool

/-- What a handler receives. -/
structure Delivered where
  id : Nat
  topic : String
  aggregateId : Option String
  payload : String
  attempts : Nat
  createdAt : Int
  idempotencyKey : String

def idempotencyKey (event : OutboxEvent) : String := event.topic ++ ":" ++ toString event.id

def delivered (event : OutboxEvent) : Delivered where
  id := event.id
  topic := event.topic
  aggregateId := event.aggregateId
  payload := event.payload
  attempts := event.attempts
  createdAt := event.createdAt
  idempotencyKey := idempotencyKey event

inductive Effect where
  | start (event : Delivered)
  | complete (id : Nat) (token : Token) (dueAt : Int) (reply : Option Bool)
  | fail (id : Nat) (token : Token) (outcome : FailOutcome) (reply : Option Bool)
  | release (ids : List Nat) (token : Token) (done : Bool)

structure Left where
  effects : List Effect
  rest : List Turn
  handled : Nat
  returned : Bool

structure Delivery where
  effects : List Effect
  /-- What `_deliverAll` returns, if it does. -/
  handled : Option Nat

variable (config : Config) (token : Token) (leaseDeadline : Int)

def Turn.record (turn : Turn) : Effect :=
  match turn.thrown with
  | none => .complete turn.event.id token turn.event.dueAt turn.recorded
  | some thrown =>
    .fail turn.event.id token (failureOutcome config turn.event thrown turn.random) turn.recorded

def deliver (turn : Turn) : List Effect := [.start (delivered turn.event), turn.record config token]

def Turn.goesOn (turn : Turn) : Bool :=
  turn.running && canStartNext turn.clock leaseDeadline config.settings.handlerTimeoutMs
    config.settings.settleMarginMs

def Left.after (left : Left) (effects : List Effect) (handled : Nat) : Left :=
  { left with effects := effects ++ left.effects, handled := handled + left.handled }

def loop : List Turn -> Left
  | [] => ⟨[], [], 0, true⟩
  | turn :: rest =>
    if turn.goesOn config leaseDeadline then
      if turn.registered then
        if turn.recorded.isSome then (loop rest).after (deliver config token turn) 1
        else ⟨deliver config token turn, rest, 0, false⟩
      else
        let effect := .release [turn.event.id] token turn.released
        if turn.released then (loop rest).after [effect] 0 else ⟨[effect], rest, 0, false⟩
    else ⟨[], turn :: rest, 0, true⟩

def releaseRest (rest : List Turn) (done : Bool) : List Effect :=
  if rest = [] then [] else [.release (rest.map (·.event.id)) token done]

def deliverAll (batch : List Turn) (restReleased : Bool) : Delivery :=
  let left := loop config token leaseDeadline batch
  { effects := left.effects ++ releaseRest token left.rest restReleased
    handled := if left.returned then some left.handled else none }

def Effect.started : Effect -> List Nat
  | .start event => [event.id]
  | _ => []

def Effect.released (done : Bool) : Effect -> List Nat
  | .release ids _ completed => if completed = done then ids else []
  | _ => []

def started (effects : List Effect) : List Nat := effects.flatMap Effect.started

/-- The events handed back, or not handed back by a release that failed. -/
def released (done : Bool) (effects : List Effect) : List Nat :=
  effects.flatMap (Effect.released done)

structure Accounted (batch : List Turn) (effects : List Effect) : Prop where
  once : (started effects ++ (released true effects ++ released false effects)).Perm
    (batch.map (·.event.id))
  inOrder : ∃ front rest, batch = front ++ rest /\
    started effects = (front.filter Turn.registered).map (·.event.id)

variable {config token leaseDeadline}

@[simp]
theorem started_append (front back : List Effect) :
    started (front ++ back) = started front ++ started back := flatMap_append

@[simp]
theorem released_append (done : Bool) (front back : List Effect) :
    released done (front ++ back) = released done front ++ released done back :=
  flatMap_append

@[simp]
theorem started_deliver (turn : Turn) : started (deliver config token turn) = [turn.event.id] := by
  unfold deliver Turn.record
  cases turn.thrown <;> rfl

@[simp]
theorem released_deliver (done : Bool) (turn : Turn) :
    released done (deliver config token turn) = [] := by
  unfold deliver Turn.record
  cases turn.thrown <;> rfl

@[simp]
theorem started_release (ids : List Nat) (done : Bool) :
    started [.release ids token done] = [] := rfl

@[simp]
theorem released_release (ids : List Nat) (done completed : Bool) :
    released done [.release ids token completed] = if completed = done then ids else [] := by
  simp [released, Effect.released]

def mentions (id : Nat) (effects : List Effect) : Nat :=
  (started effects).count id + (released true effects).count id +
    (released false effects).count id

theorem mentions_append (id : Nat) (front back : List Effect) :
    mentions id (front ++ back) = mentions id front + mentions id back := by
  simp only [mentions, started_append, released_append, count_append]
  omega

theorem mentions_deliver (config : Config) (token : Token) (id : Nat) (turn : Turn) :
    mentions id (deliver config token turn) = [turn.event.id].count id := by
  simp [mentions]

theorem mentions_release (token : Token) (id : Nat) (ids : List Nat) (done : Bool) :
    mentions id [.release ids token done] = ids.count id := by
  cases done <;> simp [mentions]

theorem mentions_releaseRest (token : Token) (id : Nat) (rest : List Turn) (done : Bool) :
    mentions id (releaseRest token rest done) = (rest.map (·.event.id)).count id := by
  unfold releaseRest
  split
  · rename_i hempty
    rw [hempty]
    rfl
  · exact mentions_release token id _ done

theorem mentions_loop (config : Config) (token : Token) (leaseDeadline : Int) (id : Nat)
    (batch : List Turn) :
    mentions id (loop config token leaseDeadline batch).effects +
        ((loop config token leaseDeadline batch).rest.map (·.event.id)).count id =
      (batch.map (·.event.id)).count id := by
  induction batch with
  | nil => rfl
  | cons turn rest ih =>
    have hcons : ((turn :: rest).map (·.event.id)).count id =
        [turn.event.id].count id + (rest.map (·.event.id)).count id := by
      rw [← count_append]
      rfl
    have hstart := mentions_deliver config token id turn
    have hrelease := mentions_release token id [turn.event.id] turn.released
    rw [loop]
    split
    · split
      · split
        · rw [hcons, ← ih, ← hstart, ← Nat.add_assoc, ← mentions_append]
          rfl
        · rw [hstart, hcons]
      · split
        · rw [hcons, ← ih, ← hrelease, ← Nat.add_assoc, ← mentions_append]
          rfl
        · rw [hrelease, hcons]
    · exact Nat.zero_add _

theorem started_loop (config : Config) (token : Token) (leaseDeadline : Int) (batch : List Turn) :
    ∃ front, batch = front ++ (loop config token leaseDeadline batch).rest /\
      started (loop config token leaseDeadline batch).effects =
        (front.filter Turn.registered).map (·.event.id) := by
  induction batch with
  | nil => exact ⟨[], rfl, rfl⟩
  | cons turn rest ih =>
    obtain ⟨front, hfront, hstarted⟩ := ih
    have hrest : turn :: rest = [turn] ++ rest := rfl
    rw [loop]
    split
    · split
      · rename_i hregistered
        split
        · refine ⟨turn :: front, congrArg (turn :: ·) hfront, ?_⟩
          rw [Left.after, started_append, started_deliver, hstarted,
            filter_cons_of_pos hregistered]
          rfl
        · refine ⟨[turn], hrest, ?_⟩
          rw [started_deliver, filter_cons_of_pos hregistered]
          rfl
      · rename_i hregistered
        split
        · refine ⟨turn :: front, congrArg (turn :: ·) hfront, ?_⟩
          rw [Left.after, started_append, started_release, hstarted,
            filter_cons_of_neg hregistered]
          rfl
        · refine ⟨[turn], hrest, ?_⟩
          rw [started_release, filter_cons_of_neg hregistered]
          rfl
    · exact ⟨[], rfl, rfl⟩

theorem started_releaseRest (token : Token) (rest : List Turn) (done : Bool) :
    started (releaseRest token rest done) = [] := by
  unfold releaseRest
  split <;> rfl

/-- Every event of a batch is started once, handed back once, or left to its lease by a
release that failed. -/
theorem deliverAll_accounted (config : Config) (token : Token) (leaseDeadline : Int)
    (batch : List Turn) (restReleased : Bool) :
    Accounted batch (deliverAll config token leaseDeadline batch restReleased).effects where
  once := by
    rw [perm_iff_count]
    intro id
    have hloop := mentions_loop config token leaseDeadline id batch
    rw [← mentions_releaseRest token id _ restReleased, ← mentions_append] at hloop
    rw [← hloop, count_append, count_append, ← Nat.add_assoc]
    rfl
  inOrder := by
    obtain ⟨front, hfront, hstarted⟩ := started_loop config token leaseDeadline batch
    refine ⟨front, _, hfront, ?_⟩
    rw [deliverAll, started_append, started_releaseRest, append_nil, hstarted]

/-- A handler was unregistered before its event's turn: the event is handed back and the one
behind it is started. -/
def skippingBatch : List Turn :=
  let turn : Turn :=
    { event := reflectClaimed 1 0, clock := 0, running := true, registered := false,
      released := true, thrown := none, random := 0, recorded := some true }
  [turn, { turn with event := { turn.event with id := 1, topic := "audit.record" },
                     registered := true }]

theorem deliverAll_skips :
    ¬ started (deliverAll singleAttempt 0 60000 skippingBatch true).effects <+:
      skippingBatch.map (·.event.id) := by
  decide +kernel

end AnchorMind.Outbox.DeliverAll
