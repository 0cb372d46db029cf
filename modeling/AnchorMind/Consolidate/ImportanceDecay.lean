import AnchorMind.Consolidate.IdOrderedUpdate
import AnchorMind.Index.FragmentIndex
import AnchorMind.Kernel.Elapsing
import Mathlib.Analysis.SpecialFunctions.Pow.Real

/-!
# The decay of the importance

`decayImportance` lowers the importance of every fragment that may decay by a half-life of
its type, from the time of its last decay on, and moves that time.  A run may pass over a
fragment whose change would be small.  Numbers are of an ordered field, times are seconds,
and `power` stands for the powers of two.
-/

namespace AnchorMind.Consolidate.ImportanceDecay

open Consolidate.IdOrderedUpdate List
open Index.FragmentIndex (FragmentType)
open Kernel.FlooredDecay Kernel.KeyedTable

structure FragmentRow (Id Number : Type) where
  id : Id
  type : FragmentType
  importance : Number
  emaActivation : Option Number
  lastDecayAt : Option Number
  accessedAt : Option Number
  createdAt : Option Number
  ttlTier : Option String
  isAnchor : Option Bool

structure Settings (Number : Type) where
  batchSize : Nat
  minDelta : Number

local instance two_atLeastTwo : Nat.AtLeastTwo 2 := ⟨by decide⟩
local instance four_atLeastTwo : Nat.AtLeastTwo 4 := ⟨by decide⟩
local instance five_atLeastTwo : Nat.AtLeastTwo 5 := ⟨by decide⟩
local instance thirty_atLeastTwo : Nat.AtLeastTwo 30 := ⟨by decide⟩
local instance hundred_atLeastTwo : Nat.AtLeastTwo 100 := ⟨by decide⟩

section

variable {Id Number : Type} [Field Number] [LinearOrder Number] (power : Number -> Number)

def halfLifeSeconds : FragmentType -> Number
  | .procedure => 2592000
  | .fact => 5184000
  | .decision => 7776000
  | .error => 3888000
  | .preference => 10368000
  | .relation => 7776000
  | .episode => 5184000

/-- An active fragment keeps up to twice as long. -/
def halfLife (row : FragmentRow Id Number) : Number :=
  halfLifeSeconds row.type * min 2 (max 1 (1 + row.emaActivation.getD 0 * (1 / 2)))

def reference (row : FragmentRow Id Number) : Option Number :=
  (row.lastDecayAt.or row.accessedAt).or row.createdAt

def decayedImportance (row : FragmentRow Id Number) (now : Number) : Number :=
  max (1 / 20) (row.importance * power (-(now - (reference row).getD now) / halfLife row))

/-- `ttl_tier != 'permanent' AND is_anchor = FALSE` -/
def mayDecay (row : FragmentRow Id Number) : Bool :=
  (match row.ttlTier with
    | some tier => tier ≠ "permanent"
    | none => false) && row.isAnchor == some false

/-- The rows a run updates.  A positive least change passes over a row whose change is below
it, unless the row never decayed or did so more than a day ago. -/
def decayWhere (minDelta now : Number) (row : FragmentRow Id Number) : Bool :=
  if 0 < minDelta then
    mayDecay row && (decide (minDelta ≤ |decayedImportance power row now - row.importance|) ||
      match row.lastDecayAt with
      | none => true
      | some last => decide (last < now - 86400))
  else mayDecay row

def decaySet (now : Number) (row : FragmentRow Id Number) : FragmentRow Id Number :=
  { row with importance := decayedImportance power row now, lastDecayAt := some now }

/-- `decayUpdateSpec` -/
def decayUpdateSpec (settings : Settings Number) :
    Spec Id (FragmentRow Id Number) Number Number where
  id := FragmentRow.id
  selects params now row :=
    match params with
    | minDelta :: _ => decayWhere power minDelta now row
    | [] => decayWhere power 0 now row
  sets _ now row := decaySet power now row
  keepsId _ _ _ := rfl
  params := if 0 < settings.minDelta then [some settings.minDelta] else []
  batchSize := settings.batchSize

abbrev Rows (Id Number : Type) [LinearOrder Id] [OrderBot Id] :=
  Table (FragmentRow.id : FragmentRow Id Number -> Id) fun row => row.id ≠ ⊥

structure DecayRun (Number : Type) where
  settings : Settings Number
  now : Number

variable [LinearOrder Id] [OrderBot Id]

/-- The single statement of a run without batches. -/
def decayAll (now : Number) :
    Table.Update (FragmentRow.id : FragmentRow Id Number -> Id) fun row => row.id ≠ ⊥ where
  select := mayDecay
  image := decaySet power now
  keepsKey _ := rfl
  keepsCheck _ _ hcheck := hcheck

/-- `decayImportance`, with nobody else writing.  The batches cannot be more than the rows. -/
def decayImportance (rows : Rows Id Number) (run : DecayRun Number) : Rows Id Number :=
  if run.settings.batchSize = 0 then rows.apply (decayAll power run.now)
  else
    match updateInIdOrder (decayUpdateSpec power run.settings) run.now (fun _ rows => rows)
        (rows.rows.length + 1) rows with
    | .ok (some finished) => finished.rows
    | _ => rows

/-- What the reference implementation in JavaScript computes, from milliseconds and days. -/
def halfLifeDays : FragmentType -> Number
  | .procedure => 30
  | .fact => 60
  | .decision => 90
  | .error => 45
  | .preference => 120
  | .relation => 90
  | .episode => 60

end

section

variable {Id Number : Type} [Field Number] [LinearOrder Number] {power : Number -> Number}

def updates (power : Number -> Number) (run : DecayRun Number) (row : FragmentRow Id Number) :
    Bool :=
  if run.settings.batchSize = 0 then mayDecay row
  else decayWhere power run.settings.minDelta run.now row

def decayRow (power : Number -> Number) (row : FragmentRow Id Number) (run : DecayRun Number) :
    FragmentRow Id Number :=
  if updates power run row then decaySet power run.now row else row

theorem params_accepted (settings : Settings Number) :
    assertBatchParams 4 (decayUpdateSpec power settings : Spec Id _ _ _).params =
      .ok (if 0 < settings.minDelta then [settings.minDelta] else []) := by
  unfold decayUpdateSpec
  split <;> rfl

variable [LinearOrder Id] [OrderBot Id]

theorem rows_decayImportance (rows : Rows Id Number) (run : DecayRun Number) :
    (decayImportance power rows run).rows =
      rows.rows.map fun row => decayRow power row run := by
  unfold decayImportance
  by_cases hbatch : run.settings.batchSize = 0
  · rw [if_pos hbatch]
    exact map_congr_left fun row _ => by
      rw [decayRow, updates, if_pos hbatch]
      rfl
  · rw [if_neg hbatch]
    obtain ⟨finished, hfinished, hrows⟩ := updateInIdOrder_alone (params_accepted run.settings)
      (Nat.one_le_iff_ne_zero.mpr hbatch) run.now rows
    rw [hfinished _ (Nat.lt_succ_self _)]
    refine hrows.trans (map_congr_left fun row _ => ?_)
    have hselects : (decayUpdateSpec power run.settings).selects
        (if 0 < run.settings.minDelta then [run.settings.minDelta] else []) run.now row =
          updates power run row := by
      rw [updates, if_neg hbatch]
      by_cases hdelta : 0 < run.settings.minDelta
      · rw [if_pos hdelta]
        rfl
      · rw [if_neg hdelta, decayWhere, if_neg hdelta]
        simp [decayUpdateSpec, decayWhere]
    rw [hselects]
    rfl

theorem mem_schedule (runs : List (DecayRun Number)) {rows : Rows Id Number}
    {row : FragmentRow Id Number} (hrow : row ∈ rows) :
    runs.foldl (decayRow power) row ∈ runs.foldl (decayImportance power) rows := by
  induction runs generalizing rows row with
  | nil => exact hrow
  | cons run rest ih =>
    refine ih ?_
    rw [Table.mem_def, rows_decayImportance]
    exact mem_map_of_mem hrow

end

structure Powers (Number : Type) [Field Number] [LinearOrder Number] where
  power : Number -> Number
  power_add : ∀ x y, power (x + y) = power x * power y
  power_nonneg : ∀ x, 0 ≤ power x
  power_le_one : ∀ x, x ≤ 0 -> power x ≤ 1

section

variable {Id Number : Type} [Field Number] [LinearOrder Number] [IsStrictOrderedRing Number]
  (powers : Powers Number) {row : FragmentRow Id Number} {since : Number}

theorem halfLife_pos (row : FragmentRow Id Number) : 0 < halfLife row := by
  have hbase : (0 : Number) < halfLifeSeconds row.type := by
    cases row.type <;> norm_num [halfLifeSeconds]
  have hfactor : (0 : Number) < min 2 (max 1 (1 + row.emaActivation.getD 0 * (1 / 2))) :=
    lt_min two_pos (lt_max_of_lt_left one_pos)
  exact mul_pos hbase hfactor

def factorsOf (row : FragmentRow Id Number) : Factors Number where
  factor elapsed := powers.power (-elapsed / halfLife row)
  factor_add first second := by rw [neg_add, add_div, powers.power_add]
  factor_nonneg elapsed := powers.power_nonneg _
  factor_le_one elapsed helapsed :=
    powers.power_le_one _ (div_nonpos_of_nonpos_of_nonneg (neg_nonpos.mpr helapsed)
      (halfLife_pos row).le)

theorem decayedImportance_eq (hreference : reference row = some since) (now : Number) :
    decayedImportance powers.power row now =
      reading (factorsOf powers row) (1 / 20) ⟨row.importance, since⟩ now := by
  rw [decayedImportance, hreference]
  rfl

structure Stands (origin : FragmentRow Id Number) (start now : Number)
    (row : FragmentRow Id Number) : Prop where
  id_eq : row.id = origin.id
  halfLife_eq : halfLife row = halfLife origin
  reads : ∃ since, reference row = some since /\ ∀ later, now ≤ later ->
    reading (factorsOf powers origin) (1 / 20) ⟨row.importance, since⟩ later =
      reading (factorsOf powers origin) (1 / 20) ⟨origin.importance, start⟩ later

variable {powers} {origin : FragmentRow Id Number} {start now : Number}

theorem factorsOf_congr (hhalf : halfLife row = halfLife origin) :
    factorsOf powers row = factorsOf powers origin := by
  simp only [factorsOf, hhalf]

theorem Stands.refl (hreference : reference origin = some start) (now : Number) :
    Stands powers origin start now origin :=
  ⟨rfl, rfl, start, hreference, fun _ _ => rfl⟩

theorem Stands.decayed (hstands : Stands powers origin start now row) {later : Number}
    (hlater : now ≤ later) :
    decayedImportance powers.power row later =
      reading (factorsOf powers origin) (1 / 20) ⟨origin.importance, start⟩ later := by
  obtain ⟨since, hreference, hreads⟩ := hstands.reads
  rw [decayedImportance_eq powers hreference, factorsOf_congr hstands.halfLife_eq]
  exact hreads later hlater

theorem Stands.decayRow (hstands : Stands powers origin start now row) {run : DecayRun Number}
    (hnow : now ≤ run.now) :
    Stands powers origin start run.now (decayRow powers.power row run) := by
  have hwritten := hstands.decayed hnow
  obtain ⟨since, hreference, hreads⟩ := hstands.reads
  unfold ImportanceDecay.decayRow
  split
  · refine ⟨hstands.id_eq, hstands.halfLife_eq, run.now, rfl, fun later hlater => ?_⟩
    have hstored : reading (factorsOf powers origin) (1 / 20)
        (store (factorsOf powers origin) (1 / 20) ⟨origin.importance, start⟩ run.now) later =
          reading (factorsOf powers origin) (1 / 20) ⟨origin.importance, start⟩ later :=
      reading_store _ (by norm_num) hlater
    rw [← hstored]
    exact congrArg (fun value => reading (factorsOf powers origin) (1 / 20) ⟨value, run.now⟩ later)
      hwritten
  · exact ⟨hstands.id_eq, hstands.halfLife_eq, since, hreference,
      fun later hlater => hreads later (hnow.trans hlater)⟩

theorem Stands.schedule (runs : List (DecayRun Number)) {row : FragmentRow Id Number}
    (hstands : Stands powers origin start now row) {last : Number}
    (hafter : ∀ run ∈ runs, now ≤ run.now)
    (hincreasing : runs.Pairwise fun first second => first.now ≤ second.now) (hlast : now ≤ last)
    (hbefore : ∀ run ∈ runs, run.now ≤ last) :
    Stands powers origin start last (runs.foldl (ImportanceDecay.decayRow powers.power) row) := by
  induction runs generalizing now row with
  | nil =>
    obtain ⟨since, hreference, hreads⟩ := hstands.reads
    exact ⟨hstands.id_eq, hstands.halfLife_eq, since, hreference,
      fun later hlater => hreads later (hlast.trans hlater)⟩
  | cons run rest ih =>
    obtain ⟨hrest, hsorted⟩ := pairwise_cons.mp hincreasing
    exact ih (hstands.decayRow (hafter run mem_cons_self)) hrest hsorted
      (hbefore run mem_cons_self) fun later hlater =>
        hbefore later (mem_cons_of_mem _ hlater)

end

theorem two_rpow_add (x y : ℝ) : (2 : ℝ) ^ (x + y) = 2 ^ x * 2 ^ y := Real.rpow_add two_pos x y

theorem two_rpow_nonneg (x : ℝ) : 0 ≤ (2 : ℝ) ^ x := (Real.rpow_pos_of_pos two_pos x).le

theorem two_rpow_le_one (x : ℝ) (hx : x ≤ 0) : (2 : ℝ) ^ x ≤ 1 :=
  Real.rpow_le_one_of_one_le_of_nonpos one_le_two hx

noncomputable def realPowers : Powers ℝ where
  power x := 2 ^ x
  power_add := two_rpow_add
  power_nonneg := two_rpow_nonneg
  power_le_one := two_rpow_le_one

/-- However many runs there were, and whichever of them passed the row over, a run that
updates the row writes the importance of the start, decayed over the whole time. -/
theorem importance_of_schedule {Id : Type} [LinearOrder Id] [OrderBot Id] {rows : Rows Id ℝ}
    {row : FragmentRow Id ℝ} (hrow : row ∈ rows) {start : ℝ}
    (hreference : reference row = some start) (runs : List (DecayRun ℝ)) (last : DecayRun ℝ)
    (hpast : ∀ run ∈ runs ++ [last], start ≤ run.now)
    (hincreasing : (runs ++ [last]).Pairwise fun first second => first.now < second.now) :
    ∃ before ∈ runs.foldl (decayImportance realPowers.power) rows,
      before.id = row.id /\
      (updates realPowers.power last before = true ->
        ∃ after ∈ (runs ++ [last]).foldl (decayImportance realPowers.power) rows,
          after.id = row.id /\
          after.importance =
            max (1 / 20) (row.importance * 2 ^ (-(last.now - start) / halfLife row))) := by
  obtain ⟨hruns, -, hlast⟩ := pairwise_append.mp hincreasing
  have hstands : Stands realPowers row start last.now
      (runs.foldl (decayRow realPowers.power) row) :=
    (Stands.refl hreference start).schedule runs
      (fun run hrun => hpast run (mem_append_left _ hrun))
      (hruns.imp fun hlt => hlt.le) (hpast last (mem_append_right _ mem_cons_self))
      fun run hrun => (hlast run hrun last mem_cons_self).le
  refine ⟨_, mem_schedule runs hrow, hstands.id_eq, fun hupdates => ?_⟩
  refine ⟨_, mem_schedule (runs ++ [last]) hrow, ?_⟩
  rw [foldl_concat, decayRow, if_pos hupdates]
  exact ⟨hstands.id_eq, hstands.decayed le_rfl⟩

noncomputable def sampleFact : FragmentRow Nat ℝ where
  id := 1
  type := .fact
  importance := 4 / 5
  emaActivation := none
  lastDecayAt := some 0
  accessedAt := none
  createdAt := none
  ttlTier := some "warm"
  isAnchor := some false

noncomputable def sampleRows : Rows Nat ℝ where
  rows := [sampleFact]
  keysNodup := nodup_singleton _
  checked row hrow := by
    rw [mem_singleton.mp hrow]
    exact Nat.one_ne_zero

noncomputable def earlyRun : DecayRun ℝ where
  settings := ⟨500, 1 / 100⟩
  now := 60

noncomputable def lateRun : DecayRun ℝ where
  settings := ⟨0, 0⟩
  now := 5184000

theorem importance_of_schedule_half_life :
    ∃ before ∈ [earlyRun].foldl (decayImportance realPowers.power) sampleRows,
      before.id = sampleFact.id /\
      (updates realPowers.power lateRun before = true ->
        ∃ after ∈ ([earlyRun] ++ [lateRun]).foldl (decayImportance realPowers.power) sampleRows,
          after.id = sampleFact.id /\
          after.importance = max (1 / 20) (sampleFact.importance *
            2 ^ (-(lateRun.now - 0) / halfLife sampleFact))) :=
  importance_of_schedule mem_cons_self rfl [earlyRun] lateRun
    (by norm_num [earlyRun, lateRun]) (by norm_num [earlyRun, lateRun])

end AnchorMind.Consolidate.ImportanceDecay
