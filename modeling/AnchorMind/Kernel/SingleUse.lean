import Mathlib.Data.List.Nodup

/-!
# Tickets that may be used once

Holders read a valid ticket and claim it, spend it so that it is no longer valid, and
redeem it.  A ticket is redeemed at most once as long as nobody claims a ticket another
holder has claimed, every redeemed ticket has been spent, and every ticket made valid is
a new one.
-/

namespace AnchorMind.Kernel.SingleUse

open Function

structure Office (Holder Ticket : Type*) where
  valid : Ticket -> Prop
  known : Ticket -> Prop
  claim : Holder -> Option (Ticket × Bool)
  redeemed : List Ticket

structure Sound {Holder Ticket : Type*} (office : Office Holder Ticket) : Prop where
  valid_known : ∀ ticket, office.valid ticket -> office.known ticket
  claimed_known : ∀ holder ticket spent,
    office.claim holder = some (ticket, spent) -> office.known ticket
  redeemed_known : ∀ ticket ∈ office.redeemed, office.known ticket
  exclusive : ∀ left right ticket first second,
    office.claim left = some (ticket, first) -> office.claim right = some (ticket, second) ->
      left = right
  spent_invalid : ∀ holder ticket,
    office.claim holder = some (ticket, true) -> Not (office.valid ticket)
  redeemed_invalid : ∀ ticket ∈ office.redeemed, Not (office.valid ticket)
  redeemed_unclaimed : ∀ ticket ∈ office.redeemed,
    ∀ holder spent, office.claim holder ≠ some (ticket, spent)
  once : office.redeemed.Nodup

structure Extends {Holder Ticket : Type*} (before after : Office Holder Ticket) : Prop where
  valid : ∀ ticket, after.valid ticket -> before.valid ticket \/ Not (before.known ticket)
  valid_known : ∀ ticket, after.valid ticket -> after.known ticket
  known : ∀ ticket, before.known ticket -> after.known ticket

section

variable {Holder Ticket : Type*} {before after : Office Holder Ticket}

theorem Extends.refl {office : Office Holder Ticket} (hsound : Sound office) :
    Extends office office where
  valid _ hvalid := .inl hvalid
  valid_known := hsound.valid_known
  known _ hknown := hknown

theorem Extends.trans {middle : Office Holder Ticket} (hfirst : Extends before middle)
    (hsecond : Extends middle after) : Extends before after where
  valid ticket hvalid := by
    rcases hsecond.valid ticket hvalid with hmiddle | hnew
    · exact hfirst.valid ticket hmiddle
    · exact .inr fun hknown => hnew (hfirst.known ticket hknown)
  valid_known := hsecond.valid_known
  known ticket hknown := hsecond.known ticket (hfirst.known ticket hknown)

theorem Extends.invalid (hextends : Extends before after) {ticket : Ticket}
    (hknown : before.known ticket) (hinvalid : Not (before.valid ticket)) :
    Not (after.valid ticket) := by
  intro hvalid
  rcases hextends.valid ticket hvalid with hold | hnew
  · exact hinvalid hold
  · exact hnew hknown

variable [DecidableEq Holder]

theorem Sound.claim (hsound : Sound before) (hextends : Extends before after) (holder : Holder)
    (ticket : Ticket) (spent : Bool)
    (hclaim : after.claim = update before.claim holder (some (ticket, spent)))
    (hredeemed : after.redeemed = before.redeemed) (hknown : before.known ticket)
    (hnobody : ∀ other own, before.claim other = some (ticket, own) -> other = holder)
    (hunredeemed : ticket ∉ before.redeemed) (hspent : spent = true -> Not (after.valid ticket)) :
    Sound after := by
  have hcases : ∀ other found, after.claim other = some found ->
      other = holder /\ found = (ticket, spent) \/
        other ≠ holder /\ before.claim other = some found := by
    intro other found hfound
    rw [hclaim] at hfound
    rcases Classical.em (other = holder) with rfl | hne
    · rw [update_self] at hfound
      exact .inl ⟨rfl, (Option.some.inj hfound).symm⟩
    · rw [update_of_ne hne] at hfound
      exact .inr ⟨hne, hfound⟩
  constructor
  · exact hextends.valid_known
  · intro other found own hfound
    rcases hcases other (found, own) hfound with ⟨_, hnew⟩ | ⟨_, hold⟩
    · cases hnew
      exact hextends.known _ hknown
    · exact hextends.known _ (hsound.claimed_known other found own hold)
  · intro found hfound
    rw [hredeemed] at hfound
    exact hextends.known found (hsound.redeemed_known found hfound)
  · intro left right found first second hleft hright
    rcases hcases left _ hleft with ⟨rfl, hnew⟩ | ⟨hne, hold⟩
    · rcases hcases right _ hright with ⟨rfl, _⟩ | ⟨_, hother⟩
      · rfl
      · cases hnew
        exact (hnobody right second hother).symm
    · rcases hcases right _ hright with ⟨rfl, hnew⟩ | ⟨_, hother⟩
      · cases hnew
        exact absurd (hnobody left first hold) hne
      · exact hsound.exclusive left right found first second hold hother
  · intro other found hfound
    rcases hcases other (found, true) hfound with ⟨_, hnew⟩ | ⟨_, hold⟩
    · cases hnew
      exact hspent rfl
    · exact hextends.invalid (hsound.claimed_known other found true hold)
        (hsound.spent_invalid other found hold)
  · intro found hfound
    rw [hredeemed] at hfound
    exact hextends.invalid (hsound.redeemed_known found hfound)
      (hsound.redeemed_invalid found hfound)
  · intro found hfound other own hown
    rw [hredeemed] at hfound
    rcases hcases other (found, own) hown with ⟨_, hnew⟩ | ⟨_, hold⟩
    · cases hnew
      exact hunredeemed hfound
    · exact hsound.redeemed_unclaimed found hfound other own hold
  · rw [hredeemed]
    exact hsound.once

theorem Sound.take (hsound : Sound before) (hextends : Extends before after) (holder : Holder)
    (ticket : Ticket) (spent : Bool)
    (hclaim : after.claim = update before.claim holder (some (ticket, spent)))
    (hredeemed : after.redeemed = before.redeemed) (hvalid : before.valid ticket)
    (hnobody : ∀ other own, before.claim other ≠ some (ticket, own))
    (hspent : spent = true -> Not (after.valid ticket)) : Sound after := by
  refine hsound.claim hextends holder ticket spent hclaim hredeemed
    (hsound.valid_known ticket hvalid) ?_ ?_ hspent
  · intro other own hown
    exact absurd hown (hnobody other own)
  · intro hmem
    exact hsound.redeemed_invalid ticket hmem hvalid

theorem Sound.hold (hsound : Sound before) (hextends : Extends before after) (holder : Holder)
    (ticket : Ticket) (own spent : Bool) (hold : before.claim holder = some (ticket, own))
    (hclaim : after.claim = update before.claim holder (some (ticket, spent)))
    (hredeemed : after.redeemed = before.redeemed)
    (hspent : spent = true -> own = true \/ Not (after.valid ticket)) : Sound after := by
  refine hsound.claim hextends holder ticket spent hclaim hredeemed
    (hsound.claimed_known holder ticket own hold) ?_ ?_ ?_
  · intro other second hother
    exact hsound.exclusive other holder ticket second own hother hold
  · intro hmem
    exact hsound.redeemed_unclaimed ticket hmem holder own hold
  · intro htrue
    rcases hspent htrue with rfl | hinvalid
    · exact hextends.invalid (hsound.claimed_known holder ticket true hold)
        (hsound.spent_invalid holder ticket hold)
    · exact hinvalid

omit [DecidableEq Holder] in
/-- Claims are only given up, and the tickets change as they may. -/
theorem Sound.shrink (hsound : Sound before) (hextends : Extends before after)
    (hkept : ∀ other found, after.claim other = some found -> before.claim other = some found)
    (hredeemed : after.redeemed = before.redeemed) : Sound after := by
  constructor
  · exact hextends.valid_known
  · intro other found own hfound
    exact hextends.known _ (hsound.claimed_known other found own (hkept _ _ hfound))
  · intro found hfound
    rw [hredeemed] at hfound
    exact hextends.known found (hsound.redeemed_known found hfound)
  · intro left right found first second hleft hright
    exact hsound.exclusive left right found first second (hkept _ _ hleft) (hkept _ _ hright)
  · intro other found hfound
    have hold := hkept _ _ hfound
    exact hextends.invalid (hsound.claimed_known other found true hold)
      (hsound.spent_invalid other found hold)
  · intro found hfound
    rw [hredeemed] at hfound
    exact hextends.invalid (hsound.redeemed_known found hfound)
      (hsound.redeemed_invalid found hfound)
  · intro found hfound other own hown
    rw [hredeemed] at hfound
    exact hsound.redeemed_unclaimed found hfound other own (hkept _ _ hown)
  · rw [hredeemed]
    exact hsound.once

theorem Sound.release (hsound : Sound before) (hextends : Extends before after) (holder : Holder)
    (hclaim : after.claim = update before.claim holder none)
    (hredeemed : after.redeemed = before.redeemed) : Sound after := by
  refine hsound.shrink hextends ?_ hredeemed
  intro other found hfound
  rw [hclaim] at hfound
  rcases Classical.em (other = holder) with rfl | hne
  · rw [update_self] at hfound
    cases hfound
  · rwa [update_of_ne hne] at hfound

theorem Sound.redeem (hsound : Sound before) (hextends : Extends before after) (holder : Holder)
    (ticket : Ticket) (own : Bool) (hold : before.claim holder = some (ticket, own))
    (hclaim : after.claim = update before.claim holder none)
    (hredeemed : after.redeemed = before.redeemed ++ [ticket])
    (hinvalid : Not (after.valid ticket)) : Sound after := by
  have hreleased : Sound { after with redeemed := before.redeemed } :=
    hsound.release ⟨hextends.valid, hextends.valid_known, hextends.known⟩ holder hclaim rfl
  have hunclaimed : ∀ other second, after.claim other ≠ some (ticket, second) := by
    intro other second hother
    rw [hclaim] at hother
    rcases Classical.em (other = holder) with rfl | hne
    · rw [update_self] at hother
      cases hother
    · rw [update_of_ne hne] at hother
      exact hne (hsound.exclusive other holder ticket second own hother hold)
  have hmem : ∀ found ∈ after.redeemed,
      found ∈ before.redeemed \/ found = ticket := by
    intro found hfound
    rw [hredeemed] at hfound
    simpa using hfound
  constructor
  · exact hreleased.valid_known
  · exact hreleased.claimed_known
  · intro found hfound
    rcases hmem found hfound with hold' | rfl
    · exact hreleased.redeemed_known found hold'
    · exact hextends.known found (hsound.claimed_known holder found own hold)
  · exact hreleased.exclusive
  · exact hreleased.spent_invalid
  · intro found hfound
    rcases hmem found hfound with hold' | rfl
    · exact hreleased.redeemed_invalid found hold'
    · exact hinvalid
  · intro found hfound other second
    rcases hmem found hfound with hold' | rfl
    · exact hreleased.redeemed_unclaimed found hold' other second
    · exact hunclaimed other second
  · rw [hredeemed]
    refine List.nodup_append.mpr ⟨hsound.once, List.nodup_singleton ticket, ?_⟩
    rintro found hfound last hlast rfl
    rw [List.mem_singleton.mp hlast] at hfound
    exact hsound.redeemed_unclaimed ticket hfound holder own hold

omit [DecidableEq Holder] in
theorem Sound.extend (hsound : Sound before) (hextends : Extends before after)
    (hclaim : after.claim = before.claim) (hredeemed : after.redeemed = before.redeemed) :
    Sound after :=
  hsound.shrink hextends (fun other found hfound => by rwa [hclaim] at hfound) hredeemed

end

end AnchorMind.Kernel.SingleUse

/-!
# Fenced slots

A fenced slot is a unit of work that holders take, settle, or hand back under
an identifying token.  A settling or a hand-back only fires for the holder of
the current take; a take-over silently fences the previous holder.  The module
fixes the slot's transitions and proves what every history of one slot obeys:
the holder is the latest taker, and a slot settles at most once until it is
discarded.
-/

namespace AnchorMind.Kernel.FencedSlot

inductive Slot (Holder : Type*) where
  | free
  | held (holder : Holder)
  | settled
  | retired

/-- What can happen to a slot.  `retry` frees it and keeps the attempt, `undo`
frees it and takes the attempt back, `close` settles it without a holder. -/
inductive Act (Holder : Type*) where
  | take (holder : Holder)
  | settle (holder : Holder)
  | retry (holder : Holder)
  | undo (holder : Holder)
  | close
  | retire
  | discard

variable {Holder : Type*}

inductive Fires : Slot Holder -> Act Holder -> Slot Holder -> Prop where
  | takeFree (holder : Holder) : Fires .free (.take holder) (.held holder)
  | takeOver (previous holder : Holder) :
      Fires (.held previous) (.take holder) (.held holder)
  | settle (holder : Holder) : Fires (.held holder) (.settle holder) .settled
  | retry (holder : Holder) : Fires (.held holder) (.retry holder) .free
  | undo (holder : Holder) : Fires (.held holder) (.undo holder) .free
  | close : Fires .free .close .settled
  | retire : Fires .settled .retire .retired
  | discard (slot : Slot Holder) : Fires slot .discard .free

inductive Path : Slot Holder -> List (Act Holder) -> Slot Holder -> Prop where
  | nil (slot : Slot Holder) : Path slot [] slot
  | cons {first middle last : Slot Holder} {act : Act Holder} {past : List (Act Holder)} :
      Path first past middle -> Fires middle act last -> Path first (act :: past) last

def latest : List (Act Holder) -> Option Holder
  | [] => none
  | .take holder :: _ => some holder
  | _ :: past => latest past

/-- The takes that were not taken back, newest first. -/
def standing : List (Act Holder) -> List Holder
  | [] => []
  | .take holder :: past => holder :: standing past
  | .undo _ :: past => (standing past).tail
  | _ :: past => standing past

def Act.settles : Act Holder -> Bool
  | .settle _ => true
  | .close => true
  | _ => false

def Act.takes : Act Holder -> Bool
  | .take _ => true
  | _ => false

/-- How often a history brings the slot to its end. -/
def settlements (acts : List (Act Holder)) : Nat :=
  acts.countP Act.settles

def Slot.Closed : Slot Holder -> Prop
  | .settled => True
  | .retired => True
  | _ => False

@[simp]
theorem settlements_nil : settlements ([] : List (Act Holder)) = 0 := rfl

theorem settlements_cons (act : Act Holder) (past : List (Act Holder)) :
    settlements (act :: past) = settlements past + if act.settles then 1 else 0 :=
  List.countP_cons

namespace Path

variable {first last : Slot Holder}

theorem snocInv {act : Act Holder} {past : List (Act Holder)}
    (hpath : Path first (act :: past) last) :
    ∃ middle, Path first past middle /\ Fires middle act last := by
  cases hpath with
  | cons hpast hfires => exact ⟨_, hpast, hfires⟩

theorem trans {first middle last : Slot Holder} {past recent : List (Act Holder)}
    (hpast : Path first past middle) (hrecent : Path middle recent last) :
    Path first (recent ++ past) last := by
  induction hrecent with
  | nil => exact hpast
  | cons _ hfires ih => exact .cons ih hfires

variable {acts : List (Act Holder)}

theorem latest_eq_of_held {slot : Slot Holder} (hpath : Path .free acts slot) {holder : Holder}
    (hslot : slot = .held holder) : latest acts = some holder := by
  cases hpath with
  | nil => cases hslot
  | cons hpast hfires =>
    cases hslot
    cases hfires with
    | takeFree => rfl
    | takeOver => rfl

theorem standing_eq_of_held {slot : Slot Holder} (hpath : Path .free acts slot) {holder : Holder}
    (hslot : slot = .held holder) : ∃ older, standing acts = holder :: older := by
  cases hpath with
  | nil => cases hslot
  | cons hpast hfires =>
    cases hslot
    cases hfires with
    | takeFree => exact ⟨_, rfl⟩
    | takeOver => exact ⟨_, rfl⟩

theorem closed_of_closed (hpath : Path first acts last) (hdiscard : Act.discard ∉ acts)
    (hclosed : first.Closed) :
    last.Closed /\ settlements acts = 0 /\ ∀ act ∈ acts, act.takes = false := by
  induction hpath with
  | nil => exact ⟨hclosed, rfl, nofun⟩
  | @cons middle last act past hpast hfires ih =>
    have hpastDiscard : Act.discard ∉ past := fun hmem => hdiscard (List.mem_cons_of_mem _ hmem)
    obtain ⟨hmiddle, hcount, htakes⟩ := ih hpastDiscard
    cases hfires with
    | retire =>
      refine ⟨trivial, by rw [settlements_cons, hcount]; rfl, ?_⟩
      intro act hact
      rcases List.mem_cons.mp hact with rfl | hold
      · rfl
      · exact htakes act hold
    | discard => exact absurd (List.mem_cons_self) hdiscard
    | takeFree => exact hmiddle.elim
    | takeOver => exact hmiddle.elim
    | settle => exact hmiddle.elim
    | retry => exact hmiddle.elim
    | undo => exact hmiddle.elim
    | close => exact hmiddle.elim

/-- Without a discard a slot settles at most once; a slot that is still open
afterwards did not settle at all. -/
theorem settlements_le_one (hpath : Path first acts last) (hdiscard : Act.discard ∉ acts) :
    settlements acts ≤ 1 /\ (¬ last.Closed -> settlements acts = 0) := by
  induction hpath with
  | nil => exact ⟨Nat.zero_le _, fun _ => rfl⟩
  | @cons middle last act past hpast hfires ih =>
    have hpastDiscard : Act.discard ∉ past := fun hmem => hdiscard (List.mem_cons_of_mem _ hmem)
    obtain ⟨hle, hopen⟩ := ih hpastDiscard
    rw [settlements_cons]
    cases hfires with
    | takeFree => exact ⟨hle, fun _ => hopen id⟩
    | takeOver => exact ⟨hle, fun _ => hopen id⟩
    | settle => exact ⟨by simp [hopen id, Act.settles], fun hnot => absurd trivial hnot⟩
    | retry => exact ⟨hle, fun _ => hopen id⟩
    | undo => exact ⟨hle, fun _ => hopen id⟩
    | close => exact ⟨by simp [hopen id, Act.settles], fun hnot => absurd trivial hnot⟩
    | retire => exact ⟨hle, fun hnot => absurd trivial hnot⟩
    | discard => exact absurd (List.mem_cons_self) hdiscard

theorem settlements_pos_of_closed (hpath : Path first acts last) (hfirst : ¬ first.Closed)
    (hlast : last.Closed) : 0 < settlements acts := by
  induction hpath with
  | nil => exact absurd hlast hfirst
  | cons hpast hfires ih =>
    rw [settlements_cons]
    cases hfires with
    | takeFree => exact hlast.elim
    | takeOver => exact hlast.elim
    | settle => exact Nat.succ_pos _
    | retry => exact hlast.elim
    | undo => exact hlast.elim
    | close => exact Nat.succ_pos _
    | retire => exact Nat.lt_of_lt_of_le (ih trivial) (Nat.le_add_right _ _)
    | discard => exact hlast.elim

variable {recent past : List (Act Holder)}

theorem split (hpath : Path first (recent ++ past) last) :
    ∃ middle, Path first past middle /\ Path middle recent last := by
  induction recent generalizing last with
  | nil => exact ⟨last, hpath, .nil last⟩
  | cons act recent ih =>
    obtain ⟨before, hbefore, hfires⟩ := hpath.snocInv
    obtain ⟨middle, hpast, hrecent⟩ := ih hbefore
    exact ⟨middle, hpast, .cons hrecent hfires⟩

theorem no_take_after_settlement {act : Act Holder}
    (hpath : Path first (recent ++ act :: past) last) (hsettles : act.settles = true)
    (hdiscard : Act.discard ∉ recent) : ∀ later ∈ recent, later.takes = false := by
  obtain ⟨closed, hpast, hrecent⟩ := hpath.split
  obtain ⟨before, _, hfires⟩ := hpast.snocInv
  have hclosed : closed.Closed := by cases hfires <;> first | exact trivial | cases hsettles
  exact (hrecent.closed_of_closed hdiscard hclosed).2.2

end Path

end AnchorMind.Kernel.FencedSlot
