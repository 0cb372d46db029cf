import Mathlib.Data.Prod.Lex
import Mathlib.Data.String.Basic
import AnchorMind.Admin.ReviewDecisions
import AnchorMind.Audit.DateReading
import AnchorMind.Kernel.KeyedTable
import AnchorMind.Kernel.KeysetPaging
import AnchorMind.Kernel.SortedRows
import AnchorMind.Text.Characters

/-!
# Paging through the review queue

The queue is listed from the oldest pending fragment on, and a full page ends with a cursor
for the next one.  A column keeps microseconds, a `Date` of the driver milliseconds: the
cursor of a fragment made between two milliseconds stands before it, and the next page brings
it again.
-/

namespace AnchorMind.Admin.ReviewListing

open List Function

open Audit (toISOString dateParse dateOfDays)
open Kernel.KeyedTable (Table)
open Kernel.RoundedSum (sortByKey sortByKey_perm sortByKey_pairwise)
open Text.Utf16 (utf16Length)
open ReviewDecisions (ReviewState)

/-- Times are microseconds. -/
structure Fragment where
  id : String
  keyId : Option String
  agentId : String
  workspace : Option String
  type : String
  topic : String
  content : String
  reviewState : Option ReviewState
  reviewReason : Option String
  origin : Option String
  trustTier : Option String
  isAnchor : Bool
  validTo : Option Int
  createdAt : Int

/-- `keyName` is the join with the key table. -/
structure Store where
  fragments : Table Fragment.id fun _ => True
  keyName : String -> Option String

/-- How the database orders texts; distinct ids stand apart. -/
structure Collation (Weight : Type*) where
  weight : String -> Weight
  injective : Injective weight

def reviewExpiryDays : Int := 30

def reviewListMax : Nat := 200

def previewChars : Nat := 500

/-- The selected columns. -/
structure Listed where
  id : String
  keyId : Option String
  keyName : Option String
  agentId : String
  workspace : Option String
  type : String
  topic : String
  contentPreview : String
  reviewReason : Option String
  origin : Option String
  trustTier : Option String
  isAnchor : Bool
  createdAt : Int
  autoRejectAt : Int

structure Item where
  row : Listed
  reviewReasons : List String

structure Cursor where
  createdAt : String
  id : String
  deriving DecidableEq

structure Filter where
  keyId : Option String
  master : Bool

structure Page where
  items : List Item
  nextCursor : Option String

def driverDate (microseconds : Int) : Int := microseconds / 1000

/-- `::timestamptz` reads the years of four digits. -/
def timestamptz (text : String) : Option Int :=
  match dateParse text with
  | none => none
  | some instant =>
    let year := (dateOfDays (instant / 86400000)).year
    if 1 ≤ year ∧ year ≤ 9999 then some (instant * 1000) else none

def parseReviewCursor (cursor : String) : Option Cursor :=
  let createdAt := String.ofList (cursor.toList.takeWhile (· ≠ '|'))
  match cursor.toList.dropWhile (· ≠ '|') with
  | [] => none
  | _ :: rest =>
    let id := String.ofList rest
    match dateParse createdAt with
    | none => none
    | some instant =>
      if id = "" ∨ 128 < utf16Length id then none else some ⟨toISOString instant, id⟩

def cursorText (row : Listed) : String := toISOString (driverDate row.createdAt) ++ "|" ++ row.id

def Filter.admits (filter : Filter) (fragment : Fragment) : Bool :=
  fragment.reviewState = some .pending && fragment.validTo.isNone &&
    if filter.master then fragment.keyId.isNone
    else match filter.keyId with
      | none => true
      | some keyId => fragment.keyId = some keyId

def Store.select (store : Store) (fragment : Fragment) : Listed where
  id := fragment.id
  keyId := fragment.keyId
  keyName := fragment.keyId.bind store.keyName
  agentId := fragment.agentId
  workspace := fragment.workspace
  type := fragment.type
  topic := fragment.topic
  contentPreview := String.ofList (fragment.content.toList.take previewChars)
  reviewReason := fragment.reviewReason
  origin := fragment.origin
  trustTier := fragment.trustTier
  isAnchor := fragment.isAnchor
  createdAt := fragment.createdAt
  autoRejectAt := fragment.createdAt + reviewExpiryDays * 86400000000

def item (row : Listed) : Item where
  row := row
  reviewReasons := ((row.reviewReason.getD "").splitOn ",").filter (· ≠ "")

variable {Weight : Type*} [LinearOrder Weight] (collation : Collation Weight) (store : Store)
  (filter : Filter) (limit : Nat)

def key (row : Listed) : Int ×ₗ Weight := toLex (row.createdAt, collation.weight row.id)

def cursorCondition : Option Cursor -> Option (Listed -> Bool)
  | none => some fun _ => true
  | some cursor => (timestamptz cursor.createdAt).map fun createdAt row =>
    decide (toLex (createdAt, collation.weight cursor.id) < key collation row)

def pageSize : Nat := min (max 1 limit) reviewListMax

def listReviewQueue (cursor : Option Cursor) : Option Page :=
  match cursorCondition collation cursor with
  | none => none
  | some condition =>
    let rows := ((store.fragments.rows.filter filter.admits).map store.select).filter condition
    let rows := (sortByKey (key collation) rows).take (pageSize limit)
    let last := if rows.length = pageSize limit then rows.getLast? else none
    some { items := rows.map item, nextCursor := last.map cursorText }

def followCursors : Nat -> Option Cursor -> Option (List Item)
  | 0, _ => none
  | fuel + 1, cursor =>
    match listReviewQueue collation store filter limit cursor with
    | none => none
    | some page =>
      match page.nextCursor with
      | none => some page.items
      | some text =>
        match parseReviewCursor text with
        | none => none
        | some next => (followCursors fuel (some next)).map (page.items ++ ·)

def queue : List Listed :=
  sortByKey (key collation) ((store.fragments.rows.filter filter.admits).map store.select)

def ListedOnce : Prop :=
  ∃ fuel, followCursors collation store filter limit fuel none =
    some ((queue collation store filter).map item)

def Resumable (row : Listed) : Prop :=
  row.createdAt % 1000 = 0 /\ row.id ≠ "" /\ utf16Length row.id ≤ 128 /\
    1 ≤ (dateOfDays (driverDate row.createdAt / 86400000)).year /\
    (dateOfDays (driverDate row.createdAt / 86400000)).year ≤ 9999

theorem timestamptz_toISOString (instant : Int) : timestamptz (toISOString instant) =
    if 1 ≤ (dateOfDays (instant / 86400000)).year ∧ (dateOfDays (instant / 86400000)).year ≤ 9999
      then some (instant * 1000) else none := by
  simp only [timestamptz, Audit.dateParse_toISOString]

theorem parseReviewCursor_cursorText (row : Listed) : parseReviewCursor (cursorText row) =
    if row.id = "" ∨ 128 < utf16Length row.id then none
    else some ⟨toISOString (driverDate row.createdAt), row.id⟩ := by
  have hbar : "|".toList = ['|'] := rfl
  have htext : (cursorText row).toList =
      (toISOString (driverDate row.createdAt)).toList ++ '|' :: row.id.toList := by
    rw [cursorText, String.toList_append, String.toList_append, hbar, append_assoc]
    rfl
  have hplain : ∀ char ∈ (toISOString (driverDate row.createdAt)).toList,
      decide (char ≠ '|') = true := by
    intro char hchar
    refine decide_eq_true fun heq => ?_
    exact Audit.bar_not_mem_toISOString _ (heq ▸ hchar)
  have hbefore : (('|' :: row.id.toList).takeWhile fun char => decide (char ≠ '|')) = [] :=
    takeWhile_cons_of_neg (by decide)
  have hbehind : (('|' :: row.id.toList).dropWhile fun char => decide (char ≠ '|')) =
      '|' :: row.id.toList := dropWhile_cons_of_neg (by decide)
  simp only [parseReviewCursor, htext, takeWhile_append_of_pos hplain,
    dropWhile_append_of_pos hplain, hbefore, hbehind, append_nil, String.ofList_toList,
    Audit.dateParse_toISOString]

def cursorMark (cursor : Cursor) : Option (Int ×ₗ Weight) :=
  (timestamptz cursor.createdAt).map fun createdAt =>
    toLex (createdAt, collation.weight cursor.id)

def markOf (row : Listed) : Option (Int ×ₗ Weight) :=
  (parseReviewCursor (cursorText row)).bind (cursorMark collation)

variable {collation store filter limit}

omit [LinearOrder Weight] in
theorem markOf_eq (row : Listed) : markOf collation row =
    if row.id ≠ "" ∧ utf16Length row.id ≤ 128 ∧
        1 ≤ (dateOfDays (driverDate row.createdAt / 86400000)).year ∧
        (dateOfDays (driverDate row.createdAt / 86400000)).year ≤ 9999
      then some (toLex (driverDate row.createdAt * 1000, collation.weight row.id)) else none := by
  rw [markOf, parseReviewCursor_cursorText]
  by_cases hid : row.id = "" ∨ 128 < utf16Length row.id
  · rw [if_pos hid, if_neg fun hall => hid.elim hall.1 (Nat.not_lt.mpr hall.2.1)]
    rfl
  · rw [not_or, Nat.not_lt] at hid
    rw [if_neg (not_or.mpr ⟨hid.1, Nat.not_lt.mpr hid.2⟩), Option.bind_some, cursorMark,
      timestamptz_toISOString]
    simp only [ne_eq, hid.1, not_false_eq_true, hid.2, true_and]
    split <;> rfl

theorem markOf_le {row : Listed} {mark : Int ×ₗ Weight} (hmark : markOf collation row = some mark) :
    mark ≤ key collation row := by
  rw [markOf_eq] at hmark
  split at hmark
  · cases hmark
    have htime : driverDate row.createdAt * 1000 ≤ row.createdAt := by
      rw [driverDate]
      omega
    rw [key, Prod.Lex.toLex_le_toLex]
    rcases lt_or_eq_of_le htime with hless | hequal
    · exact .inl hless
    · exact .inr ⟨hequal, le_refl _⟩
  · cases hmark

omit [LinearOrder Weight] in
theorem markOf_eq_key_iff (row : Listed) :
    markOf collation row = some (key collation row) <-> Resumable row := by
  have htime : driverDate row.createdAt * 1000 = row.createdAt <-> row.createdAt % 1000 = 0 := by
    rw [driverDate]
    omega
  rw [markOf_eq, Resumable, ← htime]
  constructor
  · intro hmark
    split at hmark
    · rename_i hreadable
      have hkey : (driverDate row.createdAt * 1000, collation.weight row.id) =
          (row.createdAt, collation.weight row.id) := toLex.injective (Option.some.inj hmark)
      exact ⟨(Prod.mk.inj hkey).1, hreadable⟩
    · cases hmark
  · rintro ⟨hsame, hreadable⟩
    rw [if_pos hreadable, hsame, key]

omit [LinearOrder Weight] in
theorem queue_keys_nodup :
    (((store.fragments.rows.filter filter.admits).map store.select).map
      (key collation)).Nodup := by
  rw [map_map]
  refine Nodup.of_map (fun key => (ofLex key).2) ?_
  rw [map_map]
  have hids : ((store.fragments.rows.filter filter.admits).map Fragment.id).Nodup :=
    store.fragments.keysNodup.sublist (filter_sublist.map _)
  have hweights := hids.map collation.injective
  rw [map_map] at hweights
  exact hweights

theorem queue_sorted (collation : Collation Weight) (store : Store) (filter : Filter) :
    (queue collation store filter).Pairwise fun a b => key collation a < key collation b := by
  have hle := sortByKey_pairwise (key collation)
    ((store.fragments.rows.filter filter.admits).map store.select)
  have hnodup : ((queue collation store filter).map (key collation)).Nodup :=
    ((sortByKey_perm _ _).map _).nodup_iff.mpr queue_keys_nodup
  exact (hle.and (pairwise_map.mp hnodup)).imp fun hboth => lt_of_le_of_ne hboth.1 hboth.2

open Kernel.KeysetPaging

variable {mark : Option (Int ×ₗ Weight)} {cursor : Option Cursor}

theorem listReviewQueue_eq
    (hcursor : cursorCondition collation cursor = some (behind (key collation) mark)) :
    listReviewQueue collation store filter limit cursor =
      some ⟨(page (key collation) (pageSize limit) (queue collation store filter) mark).map item,
        (pageEnd (pageSize limit) (page (key collation) (pageSize limit)
          (queue collation store filter) mark)).map cursorText⟩ := by
  simp only [listReviewQueue, hcursor, page, queue, pageEnd,
    Kernel.RoundedSum.filter_sortByKey _ queue_keys_nodup]

theorem cursorCondition_some (collation : Collation Weight) (cursor : Cursor) :
    cursorCondition collation (some cursor) =
      (cursorMark collation cursor).map fun mark => behind (key collation) (some mark) := by
  rw [cursorCondition, cursorMark, Option.map_map]
  rfl

theorem followCursors_eq {fuel : Nat}
    (hcursor : cursorCondition collation cursor = some (behind (key collation) mark)) :
    followCursors collation store filter limit fuel cursor =
      (follow (key collation) (markOf collation) (pageSize limit)
        (queue collation store filter) fuel mark).map (map item) := by
  induction fuel generalizing cursor mark with
  | zero => rfl
  | succ fuel ih =>
    rw [followCursors, listReviewQueue_eq hcursor, follow]
    cases pageEnd (pageSize limit) (page (key collation) (pageSize limit)
        (queue collation store filter) mark) with
    | none => rfl
    | some last =>
      simp only [Option.map_some, markOf]
      cases parseReviewCursor (cursorText last) with
      | none => rfl
      | some next =>
        simp only [Option.bind_some]
        have hnext := cursorCondition_some collation next
        cases hread : cursorMark collation next with
        | none =>
          rw [hread] at hnext
          cases fuel with
          | zero => rfl
          | succ fuel => simp [followCursors, listReviewQueue, hnext]
        | some mark =>
          rw [hread] at hnext
          simp only [ih hnext, Option.map_map]
          congr 1
          funext later
          simp only [comp_apply, map_append]

theorem item_injective : Injective item := fun _ _ heq => congrArg Item.row heq

theorem listedOnce_iff_exact : ListedOnce collation store filter limit <->
    Exact (key collation) (markOf collation) (pageSize limit)
      (queue collation store filter) := by
  have hlimit : 1 ≤ pageSize limit := by
    rw [pageSize, reviewListMax]
    omega
  have hfollow := follow_iff hlimit (queue_sorted collation store filter)
    fun row mark hmark => markOf_le hmark
  rw [← hfollow, ListedOnce]
  refine exists_congr fun fuel => ?_
  have hstart : cursorCondition collation none = some (behind (key collation) none) := rfl
  rw [followCursors_eq hstart, Option.map_eq_some_iff]
  constructor
  · rintro ⟨rows, hrows, hitems⟩
    rw [map_injective_iff.mpr item_injective hitems] at hrows
    exact hrows
  · exact fun hrows => ⟨_, hrows, rfl⟩

/-- The queue is listed once just when the last row of every full page can be resumed. -/
theorem listedOnce_iff : ListedOnce collation store filter limit <->
    ∀ n row, (queue collation store filter)[n]? = some row ->
      (n + 1) % pageSize limit = 0 -> Resumable row := by
  rw [listedOnce_iff_exact]
  exact forall₄_congr fun _ row _ _ => markOf_eq_key_iff row

def oddStore : Store where
  fragments := Table.empty.insert
    { id := "frag-1", keyId := none, agentId := "default", workspace := none, type := "fact",
      topic := "build", content := "The build needs Node 20.", reviewState := some .pending,
      reviewReason := some "low_trust_directive", origin := none, trustTier := none,
      isAnchor := false, validTo := none, createdAt := 1785542400000001 } (by simp) trivial
  keyName := fun _ => none

theorem listReviewQueue_repeats_odd :
    ¬ ListedOnce (⟨id, injective_id⟩ : Collation String) oddStore ⟨none, false⟩ 1 := by
  intro hlisted
  rw [listedOnce_iff_exact] at hlisted
  have hmark := hlisted 0 _ rfl rfl
  exact absurd ((markOf_eq_key_iff _).mp hmark).1 (by decide)

end AnchorMind.Admin.ReviewListing
