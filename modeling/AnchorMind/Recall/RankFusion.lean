import Mathlib.Data.Fintype.Order
import Mathlib.Order.CompletePartialOrder
import AnchorMind.Kernel.InsertionMap
import AnchorMind.Kernel.RestartedJoin
import AnchorMind.Recall.SelectionRule

/-!
# Fusing the ranks of several layers

Each layer gives ids or objects in its own order.  An id scores by its ranks, and its entry
gathers the channels, the values and the flags of the hits.  An entry without a content is
replaced by the first object that has one.
-/

namespace AnchorMind.Recall.RankFusion

open Kernel.Comparators Kernel.InsertionMap RankingOrder Rows List
open Text.JsonText (JsString ofString)

structure Item where
  fields : Row
  channels : List JsString := []

inductive Hit where
  | id (text : JsString)
  | object (item : Item)

def Hit.key : Hit -> Input
  | .id text => .string text
  | .object item => item.fields.id

structure Layer where
  name : JsString
  results : List Hit
  weightFactor : Rat := 1
  unranked : Bool := false

structure Entry where
  fields : Row
  rrfScore : Rat
  channels : List JsString := []

/-- The values that a merge keeps the largest of. -/
inductive RankField where
  | similarity
  | lexicalScore
  | rerankerScore
  deriving DecidableEq

def RankField.name : RankField -> String
  | .similarity => "similarity"
  | .lexicalScore => "_lexicalScore"
  | .rerankerScore => "rerankerScore"

inductive KeywordFlag where
  | exact
  | supplement
  deriving DecidableEq

def KeywordFlag.name : KeywordFlag -> String
  | .exact => "_kwExact"
  | .supplement => "_kwSupplement"

section

variable (convert : Conversions)

/-- `Number(row[field])` where it is finite. -/
def numeric (row : Row) (field : RankField) : Option Rat :=
  (toNumber convert (RankingOrder.read (some row) field.name)).finite?

def flagged (row : Row) (flag : KeywordFlag) : Bool :=
  RankingOrder.read (some row) flag.name == .boolean true

def mergeField (source target : Row) (field : RankField) : Row :=
  match numeric convert source field, numeric convert target field with
  | none, _ => target
  | some incoming, none => assign target [(field.name, .number (.finite incoming))]
  | some incoming, some current =>
    if current < incoming then assign target [(field.name, .number (.finite incoming))]
    else target

def mergeFlag (source target : Row) (flag : KeywordFlag) : Row :=
  if flagged source flag then assign target [(flag.name, .boolean true)] else target

def addChannel (channels : List JsString) (channel : JsString) : List JsString :=
  sortBy compare ((if channel = [] then channels else channels ++ [channel]).dedup)

def mergeRankEvidence (target : Entry) (source : Option Item) (channel : JsString) : Entry :=
  let channels := addChannel target.channels channel
  match source with
  | none => { target with channels := channels }
  | some item =>
    let valued := [RankField.similarity, .lexicalScore, .rerankerScore].foldl
      (mergeField convert item.fields) target.fields
    let flagged := [KeywordFlag.exact, .supplement].foldl (mergeFlag item.fields) valued
    { target with fields := flagged, channels := channels }

def content (row : Row) : Input := RankingOrder.read (some row) "content"

structure Contribution where
  name : JsString
  score : Rat
  hit : Hit

def addHit (contribution : Contribution) : Option Entry -> Entry
  | some existing =>
    let existing := { existing with rrfScore := existing.rrfScore + contribution.score }
    match contribution.hit with
    | .id _ => existing
    | .object item =>
      if content existing.fields = .undefined ∧ content item.fields ≠ .undefined then
        mergeRankEvidence convert
          { fields := item.fields, rrfScore := existing.rrfScore,
            channels := existing.channels } (some item) contribution.name
      else mergeRankEvidence convert existing (some item) contribution.name
  | none =>
    match contribution.hit with
    | .id text =>
      mergeRankEvidence convert
        { fields := [("id", .string text)], rrfScore := contribution.score } none
        contribution.name
    | .object item =>
      mergeRankEvidence convert
        { fields := item.fields, rrfScore := contribution.score, channels := item.channels }
        (some item) contribution.name

def Layer.contributions (k : Nat) (layer : Layer) : List Contribution :=
  layer.results.zipIdx.map fun ranked =>
    { name := layer.name
      score := layer.weightFactor / (k + if layer.unranked then 1 else (ranked.2 : Rat) + 1)
      hit := ranked.1 }

def contributions (k : Nat) (layers : List Layer) : List Contribution :=
  layers.flatMap (Layer.contributions k)

def scoreMap (hits : List Contribution) (map : Map Input Entry) : Map Input Entry :=
  hits.foldl (fun map contribution =>
    map.set contribution.hit.key (addHit convert contribution (map.get contribution.hit.key))) map

def Entry.object (entry : Entry) : Fragment :=
  some (assign entry.fields [("_rrfScore", .number (.finite entry.rrfScore))])

def mergeRRF (layers : List Layer) (k : Nat) : List Entry :=
  sortBy (byDescendingScore convert Entry.object fun f => RankingOrder.read f "_rrfScore")
    ((scoreMap convert (contributions k layers) Map.empty).entries.map Prod.snd)

end

section

variable (convert : Conversions)

/-- A value that cannot be read as a number is below all numbers. -/
def level : Option Rat -> WithBot Rat
  | some value => (value : WithBot Rat)
  | none => ⊥

/-- The values that can be read as numbers, and the flags that are set. -/
abbrev Evidence := (RankField -> WithBot Rat) × (KeywordFlag -> Bool)

def evidence (row : Row) : Evidence :=
  (fun field => level (numeric convert row field), flagged row)

theorem name_injective {field other : RankField} (hname : field.name = other.name) :
    field = other := by
  cases field <;> cases other <;> first | rfl | exact absurd hname (by decide)

theorem flag_name_injective {flag other : KeywordFlag} (hname : flag.name = other.name) :
    flag = other := by
  cases flag <;> cases other <;> first | rfl | exact absurd hname (by decide)

theorem field_name_ne_flag_name (field : RankField) (flag : KeywordFlag) :
    field.name ≠ flag.name := by
  cases field <;> cases flag <;> decide

theorem read_assign_one (row : Row) (name other : String) (value : Input) :
    RankingOrder.read (some (assign row [(name, value)])) other =
      if other = name then value else RankingOrder.read (some row) other := by
  rw [read_assign]
  by_cases hname : other = name
  · subst hname
    have hwritten : other ∈ [(other, value)].map Prod.fst := mem_cons_self
    rw [if_pos hwritten, if_pos rfl]
    simp [RankingOrder.read]
  · rw [if_neg (by simpa using hname), if_neg hname]

variable {name : String}

theorem read_mergeField (source target : Row) (field : RankField) (hname : name ≠ field.name) :
    RankingOrder.read (some (mergeField convert source target field)) name =
      RankingOrder.read (some target) name := by
  unfold mergeField
  split
  · rfl
  · rw [read_assign_one, if_neg hname]
  · split
    · rw [read_assign_one, if_neg hname]
    · rfl

theorem numeric_assign (row : Row) (field : RankField) (value : Rat) :
    numeric convert (assign row [(field.name, .number (.finite value))]) field = some value := by
  unfold numeric
  rw [read_assign_one, if_pos rfl]
  rfl

/-- The larger of two values is kept. -/
theorem level_mergeField (source target : Row) (field : RankField) :
    level (numeric convert (mergeField convert source target field) field) =
      level (numeric convert target field) ⊔ level (numeric convert source field) := by
  unfold mergeField
  cases hsource : numeric convert source field with
  | none => exact (sup_bot_eq _).symm
  | some incoming =>
    cases htarget : numeric convert target field with
    | none =>
      rw [numeric_assign]
      exact (bot_sup_eq _).symm
    | some current =>
      by_cases hlt : current < incoming
      · simp only [if_pos hlt, numeric_assign]
        exact (sup_eq_right.mpr (WithBot.coe_le_coe.mpr hlt.le)).symm
      · simp only [if_neg hlt, htarget]
        exact (sup_eq_left.mpr (WithBot.coe_le_coe.mpr (not_lt.mp hlt))).symm

theorem level_mergeFields (source target : Row) (fields : List RankField) (field : RankField) :
    level (numeric convert (fields.foldl (mergeField convert source) target) field) =
      if field ∈ fields then
        level (numeric convert target field) ⊔ level (numeric convert source field)
      else level (numeric convert target field) := by
  induction fields generalizing target with
  | nil => rfl
  | cons first rest ih =>
    rw [foldl_cons, ih]
    by_cases hfirst : field = first
    · subst hfirst
      rw [if_pos mem_cons_self, level_mergeField, sup_assoc, sup_idem, ite_self]
    · have hother : numeric convert (mergeField convert source target first) field =
          numeric convert target field := by
        unfold numeric
        rw [read_mergeField convert source target first fun hname =>
          hfirst (name_injective hname)]
      simp only [hother, mem_cons, hfirst, false_or]

theorem read_mergeFields (source target : Row) (fields : List RankField)
    (hname : ∀ field : RankField, name ≠ field.name) :
    RankingOrder.read (some (fields.foldl (mergeField convert source) target)) name =
      RankingOrder.read (some target) name := by
  induction fields generalizing target with
  | nil => rfl
  | cons first rest ih =>
    rw [foldl_cons, ih, read_mergeField convert source target first (hname first)]

theorem read_mergeFlag (source target : Row) (flag : KeywordFlag) (hname : name ≠ flag.name) :
    RankingOrder.read (some (mergeFlag source target flag)) name =
      RankingOrder.read (some target) name := by
  unfold mergeFlag
  split
  · rw [read_assign_one, if_neg hname]
  · rfl

theorem read_mergeFlags (source target : Row) (flags : List KeywordFlag)
    (hname : ∀ flag : KeywordFlag, name ≠ flag.name) :
    RankingOrder.read (some (flags.foldl (mergeFlag source) target)) name =
      RankingOrder.read (some target) name := by
  induction flags generalizing target with
  | nil => rfl
  | cons first rest ih => rw [foldl_cons, ih, read_mergeFlag source target first (hname first)]

theorem flagged_mergeFlag (source target : Row) (flag : KeywordFlag) :
    flagged (mergeFlag source target flag) flag = (flagged target flag ⊔ flagged source flag) := by
  unfold mergeFlag
  cases hsource : flagged source flag with
  | true =>
    rw [if_pos rfl]
    unfold flagged
    rw [read_assign_one, if_pos rfl]
    exact (Bool.or_true _).symm
  | false => exact (Bool.or_false _).symm

theorem flagged_mergeFlags (source target : Row) (flags : List KeywordFlag) (flag : KeywordFlag) :
    flagged (flags.foldl (mergeFlag source) target) flag =
      if flag ∈ flags then (flagged target flag ⊔ flagged source flag)
      else flagged target flag := by
  induction flags generalizing target with
  | nil => rfl
  | cons first rest ih =>
    rw [foldl_cons, ih]
    by_cases hfirst : flag = first
    · subst hfirst
      rw [if_pos mem_cons_self, flagged_mergeFlag, sup_assoc, sup_idem, ite_self]
    · have hother : flagged (mergeFlag source target first) flag = flagged target flag := by
        unfold flagged
        rw [read_mergeFlag source target first fun hname =>
          hfirst (flag_name_injective hname)]
      simp only [hother, mem_cons, hfirst, false_or]

variable (target : Entry) (item : Item) (channel : JsString)

theorem evidence_mergeRankEvidence :
    evidence convert (mergeRankEvidence convert target (some item) channel).fields =
      evidence convert target.fields ⊔ evidence convert item.fields := by
  refine Prod.ext ?_ ?_
  · funext field
    have hvalued := level_mergeFields convert item.fields target.fields
      [.similarity, .lexicalScore, .rerankerScore] field
    rw [if_pos (by cases field <;> decide)] at hvalued
    refine Eq.trans ?_ hvalued
    simp only [evidence, numeric, mergeRankEvidence]
    rw [read_mergeFlags item.fields _ _ fun flag => field_name_ne_flag_name field flag]
  · funext flag
    have hflags := flagged_mergeFlags item.fields
      ([RankField.similarity, .lexicalScore, .rerankerScore].foldl
        (mergeField convert item.fields) target.fields) [.exact, .supplement] flag
    rw [if_pos (by cases flag <;> decide)] at hflags
    refine hflags.trans ?_
    simp only [flagged, evidence]
    rw [read_mergeFields convert item.fields target.fields _ fun field hname =>
      field_name_ne_flag_name field flag hname.symm]
    rfl

theorem read_mergeRankEvidence (hfields : ∀ field : RankField, name ≠ field.name)
    (hflags : ∀ flag : KeywordFlag, name ≠ flag.name) :
    RankingOrder.read (some (mergeRankEvidence convert target (some item) channel).fields) name =
      RankingOrder.read (some target.fields) name := by
  simp only [mergeRankEvidence]
  rw [read_mergeFlags _ _ _ hflags, read_mergeFields convert _ _ _ hfields]

theorem content_mergeRankEvidence :
    content (mergeRankEvidence convert target (some item) channel).fields =
      content target.fields := by
  refine read_mergeRankEvidence convert target item channel ?_ ?_
  · intro field
    cases field <;> decide
  · intro flag
    cases flag <;> decide

theorem id_mergeRankEvidence :
    (mergeRankEvidence convert target (some item) channel).fields.id = target.fields.id := by
  refine read_mergeRankEvidence convert target item channel ?_ ?_
  · intro field
    cases field <;> decide
  · intro flag
    cases flag <;> decide

end

/-- Sorted without repetition. -/
def Canonical (channels : List JsString) : Prop :=
  channels.Nodup /\ channels.Pairwise fun a b => (compare a b).isLE = true

theorem mem_addChannel {channels : List JsString} {channel other : JsString} :
    other ∈ addChannel channels channel <->
      other ∈ channels \/ other = channel /\ channel ≠ [] := by
  unfold addChannel
  rw [(sortBy_perm compare _).mem_iff, mem_dedup]
  by_cases hempty : channel = []
  · rw [if_pos hempty]
    exact ⟨.inl, fun hor => hor.resolve_right fun hboth => hboth.2 hempty⟩
  · rw [if_neg hempty, mem_append, mem_singleton]
    exact or_congr_right ⟨fun heq => ⟨heq, hempty⟩, And.left⟩

theorem canonical_addChannel (channels : List JsString) (channel : JsString) :
    Canonical (addChannel channels channel) :=
  ⟨(sortBy_perm compare _).nodup_iff.mpr (nodup_dedup _), sortBy_pairwise _⟩

theorem eq_of_canonical {left right : List JsString} (hleft : Canonical left)
    (hright : Canonical right) (hmem : ∀ channel, channel ∈ left <-> channel ∈ right) :
    left = right := by
  have hperm := (perm_ext_iff_of_nodup hleft.1 hright.1).mpr hmem
  refine hperm.eq_of_pairwise ?_ hleft.2 hright.2
  intro a b _ _ hle hge
  exact Std.LawfulEqCmp.eq_of_compare (Std.OrientedCmp.isLE_antisymm hle hge)

section

open Kernel.RestartedJoin

variable (convert : Conversions)

def Contribution.complete (contribution : Contribution) : Bool :=
  match contribution.hit with
  | .id _ => false
  | .object item => decide (content item.fields ≠ .undefined)

def Contribution.evidence (contribution : Contribution) : Evidence :=
  match contribution.hit with
  | .id _ => ⊥
  | .object item => RankFusion.evidence convert item.fields

def Contribution.brought (contribution : Contribution) : List JsString :=
  match contribution.hit with
  | .id _ => if contribution.name = [] then [] else [contribution.name]
  | .object item => item.channels

def Contribution.named (contribution : Contribution) (channel : JsString) : Prop :=
  match contribution.hit with
  | .id _ => False
  | .object _ => channel = contribution.name /\ contribution.name ≠ []

noncomputable def gathered (hits : List Contribution) : State Evidence :=
  run Contribution.complete (Contribution.evidence convert) { complete := false, value := ⊥ } hits

/-- What the entry of an id holds after its hits, `first` being the first one. -/
structure Gathers (first : Contribution) (hits : List Contribution) (entry : Entry) : Prop where
  score : entry.rrfScore = (hits.map Contribution.score).sum
  content : content entry.fields ≠ .undefined <-> (gathered convert hits).complete = true
  evidence : RankFusion.evidence convert entry.fields = (gathered convert hits).value
  canonical : Canonical entry.channels
  channels : ∀ channel, channel ∈ entry.channels <->
    channel ∈ first.brought \/ ∃ hit ∈ hits, hit.named channel

theorem gathered_append (hits : List Contribution) (contribution : Contribution) :
    gathered convert (hits ++ [contribution]) =
      step Contribution.complete (Contribution.evidence convert) (gathered convert hits)
        contribution := by
  unfold gathered run
  rw [foldl_append]
  rfl

theorem evidence_id (text : JsString) : evidence convert [("id", .string text)] = ⊥ := by
  refine Prod.ext ?_ ?_
  · funext field
    cases field <;> rfl
  · funext flag
    cases flag <;> rfl

theorem gathers_first (contribution : Contribution) :
    Gathers convert contribution [contribution] (addHit convert contribution none) := by
  obtain ⟨name, score, hit⟩ := contribution
  have hstep : gathered convert [{ name := name, score := score, hit := hit }] =
      step Contribution.complete (Contribution.evidence convert)
        { complete := false, value := ⊥ } { name := name, score := score, hit := hit } := rfl
  cases hit with
  | id text =>
    refine ⟨(add_zero score).symm, ?_, ?_, canonical_addChannel _ _, ?_⟩
    · exact iff_of_false (not_not_intro rfl) Bool.false_ne_true
    · refine (evidence_id convert text).trans ?_
      exact (sup_bot_eq _).symm
    · intro channel
      refine mem_addChannel.trans ?_
      simp only [Contribution.brought, Contribution.named, not_mem_nil, false_or,
        mem_singleton, exists_eq_left, or_false]
      by_cases hempty : name = [] <;> simp [hempty]
  | object item =>
    have hevidence : evidence convert
        (addHit convert { name := name, score := score, hit := .object item } none).fields =
          evidence convert item.fields := by
      refine (evidence_mergeRankEvidence convert _ item name).trans ?_
      exact sup_idem _
    refine ⟨(add_zero score).symm, ?_, ?_, canonical_addChannel _ _, ?_⟩
    · have hcontent : content
          (addHit convert { name := name, score := score, hit := .object item } none).fields =
            content item.fields := content_mergeRankEvidence convert _ item name
      rw [hcontent, hstep, step]
      by_cases hundefined : content item.fields = .undefined
      · rw [if_neg (by simp [Contribution.complete, hundefined])]
        exact iff_of_false (not_not_intro hundefined) Bool.false_ne_true
      · rw [if_pos ⟨rfl, by simp [Contribution.complete, hundefined]⟩]
        exact iff_of_true hundefined rfl
    · rw [hevidence, hstep, step]
      split
      · rfl
      · exact (bot_sup_eq _).symm
    · intro channel
      refine mem_addChannel.trans ?_
      simp only [Contribution.brought, Contribution.named, mem_singleton, exists_eq_left]

variable {convert} {first : Contribution} {hits : List Contribution} {entry : Entry}

section

variable (hgathers : Gathers convert first hits entry)
include hgathers

theorem Gathers.score_add (contribution : Contribution) :
    entry.rrfScore + contribution.score =
      ((hits ++ [contribution]).map Contribution.score).sum := by
  rw [hgathers.score, map_append, sum_append, map_singleton, sum_singleton]

theorem Gathers.mem_addChannel (name : JsString) (score : Rat) (item : Item) (channel : JsString) :
    channel ∈ addChannel entry.channels name <->
      channel ∈ first.brought \/
        ∃ hit ∈ hits ++ [{ name := name, score := score, hit := .object item }],
          hit.named channel := by
  refine RankFusion.mem_addChannel.trans ?_
  rw [hgathers.channels, or_assoc]
  refine or_congr_right ?_
  simp only [mem_append, mem_singleton, or_and_right, exists_or, exists_eq_left]
  rfl

theorem Gathers.addHit (contribution : Contribution) :
    Gathers convert first (hits ++ [contribution])
      (RankFusion.addHit convert contribution (some entry)) := by
  obtain ⟨name, score, hit⟩ := contribution
  have hscore := hgathers.score_add { name := name, score := score, hit := hit }
  have hincomplete : RankFusion.content entry.fields = .undefined <->
      (gathered convert hits).complete = false := by
    rw [← Bool.not_eq_true, ← hgathers.content, not_not]
  cases hit with
  | id text =>
    have hgathered : gathered convert
        (hits ++ [{ name := name, score := score, hit := .id text }]) =
          gathered convert hits := by
      rw [gathered_append, step, if_neg (by simp [Contribution.complete])]
      simp only [Contribution.evidence, sup_bot_eq]
    refine ⟨hscore, ?_, ?_, hgathers.canonical, ?_⟩
    · rw [hgathered]
      exact hgathers.content
    · rw [hgathered]
      exact hgathers.evidence
    · intro channel
      refine (hgathers.channels channel).trans (or_congr_right ?_)
      simp only [mem_append, mem_singleton, or_and_right, exists_or, exists_eq_left,
        Contribution.named, or_false]
  | object item =>
    by_cases hpromoted : RankFusion.content entry.fields = .undefined ∧
        RankFusion.content item.fields ≠ .undefined
    · -- The object takes the place of the entry.
      have hentry : RankFusion.addHit convert
          { name := name, score := score, hit := .object item } (some entry) =
            mergeRankEvidence convert
              { fields := item.fields, rrfScore := entry.rrfScore + score,
                channels := entry.channels } (some item) name := if_pos hpromoted
      have hgathered : gathered convert
          (hits ++ [{ name := name, score := score, hit := .object item }]) =
            { complete := true, value := RankFusion.evidence convert item.fields } := by
        rw [gathered_append, step,
          if_pos ⟨hincomplete.mp hpromoted.1, decide_eq_true hpromoted.2⟩]
        rfl
      rw [hentry]
      refine ⟨hscore, ?_, ?_, canonical_addChannel _ _, ?_⟩
      · rw [content_mergeRankEvidence, hgathered]
        exact iff_of_true hpromoted.2 rfl
      · rw [evidence_mergeRankEvidence, hgathered]
        exact sup_idem _
      · exact hgathers.mem_addChannel name score item
    · have hentry : RankFusion.addHit convert
          { name := name, score := score, hit := .object item } (some entry) =
            mergeRankEvidence convert
              { entry with rrfScore := entry.rrfScore + score } (some item) name :=
        if_neg hpromoted
      have hgathered : gathered convert
          (hits ++ [{ name := name, score := score, hit := .object item }]) =
            { gathered convert hits with
              value := (gathered convert hits).value ⊔
                RankFusion.evidence convert item.fields } := by
        rw [gathered_append, step, if_neg]
        · rfl
        · rintro ⟨hstate, hcomplete⟩
          exact hpromoted ⟨hincomplete.mpr hstate, of_decide_eq_true hcomplete⟩
      rw [hentry]
      refine ⟨hscore, ?_, ?_, canonical_addChannel _ _, ?_⟩
      · rw [content_mergeRankEvidence, hgathered]
        exact hgathers.content
      · rw [evidence_mergeRankEvidence, hgathered, ← hgathers.evidence]
      · exact hgathers.mem_addChannel name score item

def entryOf (convert : Conversions) (hits : List Contribution) : Option Entry :=
  hits.foldl (fun entry hit => some (addHit convert hit entry)) none

theorem Gathers.run (rest : List Contribution) :
    ∃ last, rest.foldl (fun entry hit => some (RankFusion.addHit convert hit entry))
        (some entry) = some last /\ Gathers convert first (hits ++ rest) last := by
  induction rest generalizing hits entry with
  | nil => exact ⟨entry, rfl, (append_nil hits).symm ▸ hgathers⟩
  | cons hit rest ih =>
    obtain ⟨last, hlast, hall⟩ := ih (hgathers.addHit hit)
    refine ⟨last, hlast, ?_⟩
    rw [append_assoc] at hall
    exact hall

end

theorem entryOf_cons (first : Contribution) (rest : List Contribution) :
    ∃ entry, entryOf convert (first :: rest) = some entry /\
      Gathers convert first (first :: rest) entry :=
  (gathers_first convert first).run rest

end

section

open Kernel.RestartedJoin

variable (convert : Conversions)

def hitsOf (k : Nat) (layers : List Layer) (id : Input) : List Contribution :=
  (contributions k layers).filter fun contribution => contribution.hit.key = id

theorem get_scoreMap (hits : List Contribution) (map : Map Input Entry) (id : Input) :
    (scoreMap convert hits map).get id =
      (hits.filter fun contribution => contribution.hit.key = id).foldl
        (fun entry hit => some (addHit convert hit entry)) (map.get id) := by
  induction hits generalizing map with
  | nil => rfl
  | cons hit rest ih =>
    refine (ih _).trans ?_
    rw [Map.get_set]
    by_cases hkey : hit.hit.key = id
    · rw [filter_cons_of_pos (by simpa using hkey), foldl_cons, if_pos hkey.symm,
        hkey]
    · rw [filter_cons_of_neg (by simpa using hkey), if_neg (Ne.symm hkey)]

theorem id_addHit {contribution : Contribution} {existing : Option Entry}
    (hexisting : ∀ entry, existing = some entry -> entry.fields.id = contribution.hit.key) :
    (addHit convert contribution existing).fields.id = contribution.hit.key := by
  obtain ⟨name, score, hit⟩ := contribution
  cases existing with
  | none => cases hit with
    | id text => rfl
    | object item => exact id_mergeRankEvidence convert _ item name
  | some entry => cases hit with
    | id text => exact hexisting entry rfl
    | object item =>
      simp only [addHit]
      split
      · exact id_mergeRankEvidence convert _ item name
      · exact (id_mergeRankEvidence convert _ item name).trans (hexisting entry rfl)

variable {hits : List Contribution} {entry : Entry} {id : Input}

theorem id_scoreMap {map : Map Input Entry}
    (hmap : ∀ id entry, (id, entry) ∈ map.entries -> entry.fields.id = id)
    (hentry : (id, entry) ∈ (scoreMap convert hits map).entries) : entry.fields.id = id := by
  induction hits generalizing map with
  | nil => exact hmap id entry hentry
  | cons hit rest ih =>
    refine ih (fun other written hwritten => ?_) hentry
    rcases Map.mem_entries_set hwritten with hnew | hold
    · cases hnew
      refine id_addHit convert ?_
      intro existing hexisting
      exact hmap _ _ (Map.get_eq_some_iff.mp hexisting)
    · exact hmap other written hold

/-- What an entry tells about its id. -/
structure Fused where
  rrfScore : Rat
  channels : List JsString
  evidence : Evidence

def Entry.fused (entry : Entry) : Fused where
  rrfScore := entry.rrfScore
  channels := entry.channels
  evidence := evidence convert entry.fields

def Produces (k : Nat) (layers : List Layer) (id : Input) (fused : Fused) : Prop :=
  ∃ entry ∈ mergeRRF convert layers k, entry.fields.id = id /\
    entry.fused convert = fused

variable {fused : Fused} {layers : List Layer} {k : Nat}

theorem produces_iff :
    Produces convert k layers id fused <->
      ∃ entry, entryOf convert (hitsOf k layers id) = some entry /\
        entry.fused convert = fused := by
  have hget : (scoreMap convert (contributions k layers) Map.empty).get id =
      entryOf convert (hitsOf k layers id) := get_scoreMap convert _ _ id
  have hids : ∀ key entry,
      (key, entry) ∈ (scoreMap convert (contributions k layers) Map.empty).entries ->
        entry.fields.id = key := fun key entry =>
    id_scoreMap convert fun _ _ hempty => absurd hempty not_mem_nil
  constructor
  · rintro ⟨entry, hentry, hid, hfused⟩
    refine ⟨entry, ?_, hfused⟩
    obtain ⟨⟨key, value⟩, hmem, rfl⟩ := mem_map.mp ((sortBy_perm _ _).subset hentry)
    obtain rfl := (hids key value hmem).symm.trans hid
    rw [← hget]
    exact Map.get_eq_some_iff.mpr hmem
  · rintro ⟨entry, hentry, hfused⟩
    rw [← hget] at hentry
    have hmem := Map.get_eq_some_iff.mp hentry
    refine ⟨entry, (sortBy_perm _ _).mem_iff.mpr ?_, hids id entry hmem, hfused⟩
    exact mem_map_of_mem hmem

def DistinctIds (layers : List Layer) : Prop :=
  ∀ layer ∈ layers, (layer.results.map Hit.key).Nodup

def OrderIndependent (k : Nat) (layers : List Layer) : Prop :=
  ∀ other, layers.Perm other -> ∀ id fused,
    Produces convert k layers id fused <-> Produces convert k other id fused

structure Settled (hits : List Contribution) : Prop where
  evidence : Held Contribution.complete (Contribution.evidence convert) hits
  channels : ∀ hit ∈ hits, ∀ first ∈ hits, ∀ channel ∈ hit.brought,
      channel ∈ first.brought \/ ∃ object ∈ hits, object.named channel

theorem hitsOf_perm {layers other : List Layer} (hperm : layers.Perm other) (id : Input) :
    (hitsOf k layers id).Perm (hitsOf k other id) :=
  (Perm.flatMap_right _ hperm).filter _

variable {other : List Contribution}

theorem Settled.perm (hsettled : Settled convert hits) (hperm : hits.Perm other) :
    Settled convert other where
  evidence := hsettled.evidence.perm hperm
  channels hit hhit first hfirst channel hchannel := by
    have hold := hsettled.channels hit (hperm.mem_iff.mpr hhit) first (hperm.mem_iff.mpr hfirst)
      channel hchannel
    refine hold.imp_right ?_
    rintro ⟨object, hobject, hnamed⟩
    exact ⟨object, hperm.mem_iff.mp hobject, hnamed⟩

variable {first otherFirst : Contribution}

theorem Gathers.channels_subset {convert : Conversions} {same : Entry}
    (hgathers : Gathers convert first hits entry) (hothers : Gathers convert otherFirst other same)
    (hfirst : first ∈ hits) (hotherFirst : otherFirst ∈ other) (hperm : hits.Perm other)
    (hsettled : Settled convert hits) {channel : JsString} (hchannel : channel ∈ entry.channels) :
    channel ∈ same.channels := by
  have hmove : (∃ hit ∈ hits, hit.named channel) ->
      ∃ hit ∈ other, hit.named channel := by
    rintro ⟨hit, hhit, hnamed⟩
    exact ⟨hit, hperm.mem_iff.mp hhit, hnamed⟩
  refine (hothers.channels channel).mpr ?_
  rcases (hgathers.channels channel).mp hchannel with hbrought | hnamed
  · refine (hsettled.channels first hfirst otherFirst (hperm.mem_iff.mpr hotherFirst) channel
      hbrought).imp_right hmove
  · exact .inr (hmove hnamed)

theorem Gathers.fused_eq {convert : Conversions} {same : Entry}
    (hgathers : Gathers convert first hits entry) (hothers : Gathers convert otherFirst other same)
    (hfirst : first ∈ hits) (hotherFirst : otherFirst ∈ other) (hperm : hits.Perm other)
    (hsettled : Settled convert hits) : entry.fused convert = same.fused convert := by
  have hotherSettled := hsettled.perm convert hperm
  have hscore : entry.rrfScore = same.rrfScore := by
    rw [hgathers.score, hothers.score]
    exact (hperm.map _).sum_eq
  have hchannels : entry.channels = same.channels := by
    refine eq_of_canonical hgathers.canonical hothers.canonical fun channel => ⟨?_, ?_⟩
    · exact hgathers.channels_subset hothers hfirst hotherFirst hperm hsettled
    · exact hothers.channels_subset hgathers hotherFirst hfirst hperm.symm hotherSettled
  have hevidence : RankFusion.evidence convert entry.fields =
      RankFusion.evidence convert same.fields := by
    rw [hgathers.evidence, hothers.evidence]
    refine (run_eq_joined hsettled.evidence).trans ?_
    exact (joined_perm hperm).trans (run_eq_joined hotherSettled.evidence).symm
  rw [Entry.fused, Entry.fused, hscore, hchannels, hevidence]

theorem produces_gathers (hproduces : Produces convert k layers id fused) :
    ∃ first rest entry, hitsOf k layers id = first :: rest /\
      Gathers convert first (first :: rest) entry /\ entry.fused convert = fused := by
  obtain ⟨entry, hentry, hfused⟩ := (produces_iff convert).mp hproduces
  cases hhits : hitsOf k layers id with
  | nil =>
    rw [hhits] at hentry
    cases hentry
  | cons first rest =>
    obtain ⟨same, hsame, hgathers⟩ := @entryOf_cons convert first rest
    rw [← hhits, hentry] at hsame
    cases hsame
    exact ⟨first, rest, entry, rfl, hgathers, hfused⟩

theorem gathers_produces {rest : List Contribution} (hhits : hitsOf k layers id = first :: rest) :
    ∃ entry, Gathers convert first (first :: rest) entry /\
      Produces convert k layers id (entry.fused convert) := by
  obtain ⟨entry, hentry, hgathers⟩ := @entryOf_cons convert first rest
  rw [← hhits] at hentry
  exact ⟨entry, hgathers, (produces_iff convert).mpr ⟨entry, hentry, rfl⟩⟩

theorem produces_of_settled {layers other : List Layer} (hperm : layers.Perm other)
    (hsettled : Settled convert (hitsOf k layers id))
    (hproduces : Produces convert k layers id fused) : Produces convert k other id fused := by
  obtain ⟨first, rest, entry, hhits, hgathers, rfl⟩ := produces_gathers convert hproduces
  have hmove := hitsOf_perm (k := k) hperm id
  rw [hhits] at hmove hsettled
  cases hother : hitsOf k other id with
  | nil =>
    rw [hother] at hmove
    exact absurd hmove.length_eq (Nat.succ_ne_zero _)
  | cons otherFirst otherRest =>
    rw [hother] at hmove
    obtain ⟨same, hothers, hsame⟩ := gathers_produces convert hother
    rwa [← hgathers.fused_eq hothers mem_cons_self mem_cons_self hmove hsettled]
      at hsame

theorem fused_unique {other : Fused} (hfused : Produces convert k layers id fused)
    (hother : Produces convert k layers id other) : fused = other := by
  obtain ⟨entry, hentry, rfl⟩ := (produces_iff convert).mp hfused
  obtain ⟨same, hsame, rfl⟩ := (produces_iff convert).mp hother
  rw [hentry] at hsame
  rw [Option.some.inj hsame]

variable {convert} {k : Nat} {layers : List Layer} {id : Input}

theorem OrderIndependent.fused_eq (hindependent : OrderIndependent convert k layers)
    {left right : List Layer} (hleft : layers.Perm left) (hright : layers.Perm right)
    {rest otherRest : List Contribution} (hhits : hitsOf k left id = first :: rest)
    (hothers : hitsOf k right id = otherFirst :: otherRest) :
    ∃ entry same, Gathers convert first (first :: rest) entry /\
      Gathers convert otherFirst (otherFirst :: otherRest) same /\
      entry.fused convert = same.fused convert := by
  obtain ⟨entry, hgathers, hproduces⟩ := gathers_produces convert hhits
  obtain ⟨same, hsameGathers, hsame⟩ := gathers_produces convert hothers
  have hmiddle := (hindependent left hleft id _).mpr hproduces
  have hmoved := (hindependent right hright id _).mp hmiddle
  exact ⟨entry, same, hgathers, hsameGathers, fused_unique convert hmoved hsame⟩

def layerHits (k : Nat) (id : Input) (layer : Layer) : List Contribution :=
  (layer.contributions k).filter fun contribution => contribution.hit.key = id

theorem hitsOf_eq_flatMap (k : Nat) (layers : List Layer) (id : Input) :
    hitsOf k layers id = layers.flatMap (layerHits k id) := by
  rw [hitsOf, contributions, filter_flatMap]
  rfl

theorem hitsOf_append (front back : List Layer) :
    hitsOf k (front ++ back) id = hitsOf k front id ++ hitsOf k back id := by
  simp only [hitsOf_eq_flatMap, flatMap_append]

theorem keys_contributions (k : Nat) (layer : Layer) :
    (layer.contributions k).map (fun contribution => contribution.hit.key) =
      layer.results.map Hit.key := by
  rw [Layer.contributions, map_map]
  refine Eq.trans ?_ (congrArg (map Hit.key) (zipIdx_map_fst 0 layer.results))
  rw [map_map]
  rfl

variable {hit : Contribution}

theorem layerHits_eq_singleton {layer : Layer} (hids : (layer.results.map Hit.key).Nodup)
    (hhit : hit ∈ layerHits k id layer) : layerHits k id layer = [hit] := by
  have hkeys : ((layerHits k id layer).map fun contribution => contribution.hit.key) =
      replicate (layerHits k id layer).length id := by
    refine eq_replicate_iff.mpr ⟨length_map _, ?_⟩
    intro key hkey
    obtain ⟨contribution, hcontribution, rfl⟩ := mem_map.mp hkey
    exact of_decide_eq_true (mem_filter.mp hcontribution).2
  have hnodup : (replicate (layerHits k id layer).length id).Nodup := by
    rw [← hkeys]
    rw [← keys_contributions k layer] at hids
    exact hids.sublist (Sublist.map _ filter_sublist)
  have hlength := nodup_replicate.mp hnodup
  obtain ⟨rest, hrest⟩ : ∃ rest, layerHits k id layer = rest := ⟨_, rfl⟩
  match rest, hrest with
  | [], hrest =>
    rw [hrest] at hhit
    exact absurd hhit not_mem_nil
  | [only], hrest =>
    rw [hrest] at hhit
    rw [hrest, mem_singleton.mp hhit]
  | first :: second :: rest, hrest =>
    rw [hrest] at hlength
    exact absurd hlength (by simp)

theorem mem_hitsOf :
    hit ∈ hitsOf k layers id <->
      ∃ layer ∈ layers, hit ∈ layerHits k id layer := by
  rw [hitsOf_eq_flatMap, mem_flatMap]

theorem exists_first (hdistinct : DistinctIds layers) (hhit : hit ∈ hitsOf k layers id) :
    ∃ other rest, layers.Perm other /\ hitsOf k other id = hit :: rest := by
  obtain ⟨layer, hlayer, hmem⟩ := mem_hitsOf.mp hhit
  have honly := layerHits_eq_singleton (hdistinct layer hlayer) hmem
  obtain ⟨front, back, rfl⟩ := append_of_mem hlayer
  refine ⟨layer :: (front ++ back), hitsOf k (front ++ back) id, perm_middle, ?_⟩
  rw [hitsOf_eq_flatMap, flatMap_cons, honly, hitsOf_eq_flatMap]
  rfl

theorem channels_settled (hdistinct : DistinctIds layers)
    (hindependent : OrderIndependent convert k layers) (hhit : hit ∈ hitsOf k layers id)
    (hfirst : first ∈ hitsOf k layers id) {channel : JsString} (hchannel : channel ∈ hit.brought) :
    channel ∈ first.brought \/
      ∃ object ∈ hitsOf k layers id, object.named channel := by
  obtain ⟨left, rest, hleft, hhits⟩ := exists_first hdistinct hhit
  obtain ⟨right, otherRest, hright, hothers⟩ := exists_first hdistinct hfirst
  obtain ⟨entry, same, hgathers, hsame, hfused⟩ :=
    hindependent.fused_eq hleft hright hhits hothers
  have hchannels : entry.channels = same.channels := congrArg Fused.channels hfused
  have hin : channel ∈ same.channels := by
    rw [← hchannels]
    exact (hgathers.channels channel).mpr (.inl hchannel)
  refine ((hsame.channels channel).mp hin).imp_right ?_
  rintro ⟨object, hobject, hnamed⟩
  rw [← hothers] at hobject
  exact ⟨object, (hitsOf_perm hright id).mem_iff.mpr hobject, hnamed⟩

theorem evidence_settled (hdistinct : DistinctIds layers)
    (hindependent : OrderIndependent convert k layers) :
    Held Contribution.complete (Contribution.evidence convert) (hitsOf k layers id) := by
  rintro ⟨hit, hhit, hcomplete⟩
  have hcompleteLayer : ∀ layer ∈ layers,
      (layerHits k id layer).any Contribution.complete = true ->
        ∀ other ∈ layerHits k id layer, other.complete = true := by
    intro layer hlayer hany other hother
    rwa [layerHits_eq_singleton (hdistinct layer hlayer) hother, any_cons, any_nil,
      Bool.or_false] at hany
  generalize hfrontLayers : layers.filter (fun layer =>
    !(layerHits k id layer).any Contribution.complete) = frontLayers
  generalize hbackLayers : layers.filter (fun layer =>
    (layerHits k id layer).any Contribution.complete) = backLayers
  have hright : layers.Perm (backLayers ++ frontLayers) := by
    rw [← hfrontLayers, ← hbackLayers]
    exact (filter_append_perm _ layers).symm
  have hleft : layers.Perm (frontLayers ++ backLayers) := hright.trans perm_append_comm
  have hfront : ∀ other ∈ hitsOf k frontLayers id, other.complete = false := by
    intro other hother
    obtain ⟨layer, hlayer, hmem⟩ := mem_hitsOf.mp hother
    rw [← hfrontLayers] at hlayer
    have hnone := (mem_filter.mp hlayer).2
    rw [Bool.not_eq_true', any_eq_false] at hnone
    exact Bool.eq_false_iff.mpr (hnone other hmem)
  have hback : ∀ other ∈ hitsOf k backLayers id, other.complete = true := by
    intro other hother
    obtain ⟨layer, hlayer, hmem⟩ := mem_hitsOf.mp hother
    rw [← hbackLayers] at hlayer
    obtain ⟨hin, hany⟩ := mem_filter.mp hlayer
    exact hcompleteLayer layer hin hany other hmem
  have hne : hitsOf k backLayers id ≠ [] := by
    obtain ⟨layer, hlayer, hmem⟩ := mem_hitsOf.mp hhit
    refine ne_nil_of_mem (mem_hitsOf.mpr ⟨layer, ?_, hmem⟩)
    rw [← hbackLayers]
    exact mem_filter.mpr ⟨hlayer, any_eq_true.mpr ⟨hit, hmem, hcomplete⟩⟩
  have hsame : (gathered convert (hitsOf k (frontLayers ++ backLayers) id)).value =
      (gathered convert (hitsOf k (backLayers ++ frontLayers) id)).value := by
    cases hhits : hitsOf k (frontLayers ++ backLayers) id with
    | nil =>
      rw [hitsOf_append] at hhits
      exact absurd (append_eq_nil_iff.mp hhits).2 hne
    | cons first rest => cases hothers : hitsOf k (backLayers ++ frontLayers) id with
      | nil =>
        rw [hitsOf_append] at hothers
        exact absurd (append_eq_nil_iff.mp hothers).1 hne
      | cons otherFirst otherRest =>
        obtain ⟨entry, same, hgathers, hothersGather, hfused⟩ :=
          hindependent.fused_eq hleft hright hhits hothers
        rw [← hgathers.evidence, ← hothersGather.evidence]
        exact congrArg Fused.evidence hfused
  -- Layers of objects without a content first, then last.
  rw [hitsOf_append, hitsOf_append] at hsame
  have hheld := held_of_run_eq hfront hback hne hsame
  rw [← hitsOf_append] at hheld
  exact hheld.perm (hitsOf_perm hleft id).symm ⟨hit, hhit, hcomplete⟩

/-- The fusion is independent of the order of its layers exactly when the hits of every id are
settled. -/
theorem mergeRRF_orderIndependent_iff (convert : Conversions) (k : Nat) (layers : List Layer)
    (hdistinct : DistinctIds layers) :
    OrderIndependent convert k layers <->
      ∀ id, Settled convert (hitsOf k layers id) := by
  constructor
  · intro hindependent id
    refine ⟨evidence_settled hdistinct hindependent, ?_⟩
    intro hit hhit first hfirst channel hchannel
    exact channels_settled hdistinct hindependent hhit hfirst hchannel
  · intro hsettled other hperm id fused
    constructor
    · exact produces_of_settled convert hperm (hsettled id)
    · refine produces_of_settled convert hperm.symm ?_
      exact (hsettled id).perm convert (hitsOf_perm hperm id)

theorem settled_of_complete (hhits : ∀ hit ∈ hits, hit.complete = true /\ hit.brought = []) :
    Settled convert hits where
  evidence _ := by
    have hnone : (hits.filter fun hit => !hit.complete) = [] :=
      filter_eq_nil_iff.mpr fun hit hhit => by
        rw [(hhits hit hhit).1]
        exact Bool.false_ne_true
    rw [hnone]
    exact bot_le
  channels hit hhit first _ channel hchannel := by
    rw [(hhits hit hhit).2] at hchannel
    exact absurd hchannel not_mem_nil

end

def layerOf (name : String) (fields : Row) : Layer :=
  { name := ofString name, results := [.object { fields := fields }] }

def twoLayers : List Layer :=
  [layerOf "semantic" [("id", .string (ofString "a")), ("content", .string (ofString "A")),
      ("similarity", .number (.finite (19 / 20)))],
    layerOf "lexical" [("id", .string (ofString "a")), ("content", .string (ofString "A")),
      ("_lexicalScore", .number (.finite (4 / 5)))]]

theorem mergeRRF_orderIndependent_iff_twoLayers : OrderIndependent unreadable 60 twoLayers := by
  refine (mergeRRF_orderIndependent_iff unreadable 60 twoLayers ?_).mpr fun id => ?_
  · intro layer hlayer
    rcases mem_pair.mp hlayer with rfl | rfl <;> exact nodup_singleton _
  · refine settled_of_complete fun hit hhit => ?_
    have hall : (contributions 60 twoLayers).all (fun hit =>
        hit.complete && decide (hit.brought = [])) = true := by decide +kernel
    have htrue := all_eq_true.mp hall hit (mem_filter.mp hhit).1
    rw [Bool.and_eq_true, decide_eq_true_eq] at htrue
    exact htrue

def barelyKnown : List Layer :=
  [layerOf "semantic" [("id", .string (ofString "a")),
      ("similarity", .number (.finite (19 / 20)))],
    layerOf "lexical" [("id", .string (ofString "a")), ("content", .string (ofString "A")),
      ("_lexicalScore", .number (.finite (4 / 5)))]]

/-- The object with a content takes the place of one that has a similarity. -/
theorem mergeRRF_not_orderIndependent :
    DistinctIds barelyKnown /\ ¬ OrderIndependent unreadable 60 barelyKnown := by
  have hdistinct : DistinctIds barelyKnown := by
    intro layer hlayer
    rcases mem_pair.mp hlayer with rfl | rfl <;> exact nodup_singleton _
  refine ⟨hdistinct, fun hindependent => ?_⟩
  have hheld := @evidence_settled unreadable 60 barelyKnown (.string (ofString "a")) hdistinct
    hindependent
  have hsome : (hitsOf 60 barelyKnown (.string (ofString "a"))).any Contribution.complete =
      true := by decide +kernel
  have hle := (hheld (any_eq_true.mp hsome)).1 RankField.similarity
  exact absurd hle (by decide +kernel)

end AnchorMind.Recall.RankFusion
