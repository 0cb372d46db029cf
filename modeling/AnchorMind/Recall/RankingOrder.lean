import AnchorMind.Kernel.Comparators
import AnchorMind.Recall.BudgetSelector
import AnchorMind.Text.JsonText

/-!
# Ranking order and cursors

Every ranking surface sorts by score, then by age, then by id.  A cursor names
the fragments already returned by fixed-length keys, so that the next page can
leave them out whatever the search returns.  The cursor is taken as the JSON
value its text stands for; a text that is no such value is no cursor.
-/

namespace AnchorMind.Recall.RankingCursor

open Recall.Tokens Recall.BudgetSelector List

section

variable {Value : Type*} [LinearOrder Value]

def compareScoresDescending : Option Value -> Option Value -> Ordering
  | some a, some b => compare b a
  | some _, none => .lt
  | none, some _ => .gt
  | none, none => .eq

/-- Missing timestamps first, then the younger one. -/
def compareCreatedAtDescending : Option Int -> Option Int -> Ordering
  | some a, some b => compare b a
  | some _, none => .gt
  | none, some _ => .lt
  | none, none => .eq

variable {Id : Type*} [LinearOrder Id]

def compareDeterministicTies (a b : Fragment Id) : Ordering :=
  (compareCreatedAtDescending a.createdAt b.createdAt).then (compare a.id b.id)

def compareRankedFragments (scoreOf : Fragment Id -> Option Value) (a b : Fragment Id) :
    Ordering :=
  (compareScoresDescending (scoreOf a) (scoreOf b)).then (compareDeterministicTies a b)

def sortByRank (scoreOf : Fragment Id -> Option Value) (fragments : List (Fragment Id)) :
    List (Fragment Id) :=
  fragments.insertionSort fun a b => compareRankedFragments scoreOf a b ≠ .gt

theorem sortByRank_perm (scoreOf : Fragment Id -> Option Value) (fragments : List (Fragment Id)) :
    (sortByRank scoreOf fragments).Perm fragments :=
  perm_insertionSort _ fragments

end

def lexicalOnlyTier : Nat := 1000000

/-- Candidates of the lexical channel alone rank behind all others. -/
def lexicalOnlyLast {Id Value : Type*} [Score Value] (scoreOf : Fragment Id -> Option Value)
    (isLexicalOnly : Fragment Id -> Bool) (f : Fragment Id) : Option Value :=
  if isLexicalOnly f then (scoreOf f).map fun score => score - (lexicalOnlyTier : Value)
  else scoreOf f

def seenKeyLength : Nat := 8

/-- The characters `[A-Za-z0-9_-]`. -/
def isSeenChar (c : Char) : Bool := c.isAlphanum || c == '_' || c == '-'

/-- The marks of returned fragments: the first eight characters of the id's
SHA-256 in base64url. -/
structure SeenKeys (Id : Type*) where
  rankingSeenKey : Id -> String
  length_eq : ∀ id, (rankingSeenKey id).toList.length = seenKeyLength
  alphabet : ∀ id c, c ∈ (rankingSeenKey id).toList -> isSeenChar c = true

structure Cursor where
  offset : Option Int := none
  anchorTime : Option Int := none
  seen : Option String := none
  deriving DecidableEq

structure DecodedCursor where
  offset : Nat
  anchorTime : Option Int
  seen : List String
  deriving DecidableEq

def sliceKeys : List Char -> List String
  | a :: b :: c :: d :: e :: f :: g :: h :: rest =>
    String.ofList [a, b, c, d, e, f, g, h] :: sliceKeys rest
  | _ => []

def addToSet (set : List String) (key : String) : List String :=
  if key ∈ set then set else set ++ [key]

def validOffset (cursor : Cursor) : Option Nat :=
  match cursor.offset with
  | some (.ofNat offset) => some offset
  | _ => none

def validSeen (cursor : Cursor) : Option (List String) :=
  match cursor.seen with
  | some text =>
    if text.toList.length % seenKeyLength = 0 ∧ text.toList.all isSeenChar then
      some ((sliceKeys text.toList).foldl addToSet [])
    else none
  | none => none

def decodeRankingCursor (cursor : Option Cursor) : Option DecodedCursor :=
  match cursor with
  | none => none
  | some cursor =>
    match validOffset cursor, validSeen cursor with
    | none, none => none
    | offset, seen =>
      some { offset := offset.getD 0, anchorTime := cursor.anchorTime, seen := seen.getD [] }

def encodeSeenCursor (seenKeys : List String) (anchorTime : Int) : Cursor :=
  { anchorTime := some anchorTime, seen := some (String.join seenKeys) }

theorem toList_join (keys : List String) :
    (String.join keys).toList = keys.flatMap String.toList := by
  induction keys with
  | nil => rfl
  | cons key rest ih => simp [String.join_cons, ih]

theorem sliceKeys_append {key rest : List Char} (hlength : key.length = seenKeyLength) :
    sliceKeys (key ++ rest) = String.ofList key :: sliceKeys rest := by
  match key, hlength with
  | [a, b, c, d, e, f, g, h], _ => rfl

variable {keys : List String}

theorem sliceKeys_join (hlength : ∀ key ∈ keys, key.toList.length = seenKeyLength) :
    sliceKeys (keys.flatMap String.toList) = keys := by
  induction keys with
  | nil => rfl
  | cons key rest ih =>
    rw [flatMap_cons, sliceKeys_append (hlength key mem_cons_self),
      String.ofList_toList, ih fun other hother => hlength other (mem_cons_of_mem _ hother)]

theorem join_length_mod (hlength : ∀ key ∈ keys, key.toList.length = seenKeyLength) :
    (keys.flatMap String.toList).length % seenKeyLength = 0 := by
  induction keys with
  | nil => rfl
  | cons key rest ih =>
    have hrest := ih fun other hother => hlength other (mem_cons_of_mem _ hother)
    rw [flatMap_cons, length_append, hlength key mem_cons_self,
      Nat.add_mod_left, hrest]

theorem foldl_addToSet {set : List String} (hnodup : (set ++ keys).Nodup) :
    keys.foldl addToSet set = set ++ keys := by
  induction keys generalizing set with
  | nil => simp
  | cons key rest ih =>
    have hfresh : key ∉ set := by
      intro hin
      exact (nodup_append'.mp hnodup).2.2 hin mem_cons_self
    have hadd : addToSet set key = set ++ [key] := by simp [addToSet, hfresh]
    rw [foldl_cons, hadd, ih (by simpa using hnodup)]
    simp

theorem decode_encodeSeenCursor {Id : Type*} (seenKeys : SeenKeys Id) {ids : List Id}
    (hnodup : (ids.map seenKeys.rankingSeenKey).Nodup) (anchorTime : Int) :
    decodeRankingCursor
        (some (encodeSeenCursor (ids.map seenKeys.rankingSeenKey) anchorTime))
      = some { offset := 0, anchorTime := some anchorTime
               seen := ids.map seenKeys.rankingSeenKey } := by
  have hlength : ∀ key ∈ ids.map seenKeys.rankingSeenKey,
      key.toList.length = seenKeyLength := by
    simp only [mem_map]
    rintro key ⟨id, -, rfl⟩
    exact seenKeys.length_eq id
  have halphabet : ((ids.map seenKeys.rankingSeenKey).flatMap String.toList).all isSeenChar
      = true := by
    simp only [all_eq_true, mem_flatMap, mem_map]
    rintro c ⟨key, ⟨id, -, rfl⟩, hc⟩
    exact seenKeys.alphabet id c hc
  have hseen : validSeen (encodeSeenCursor (ids.map seenKeys.rankingSeenKey) anchorTime)
      = some (ids.map seenKeys.rankingSeenKey) := by
    simp only [validSeen, encodeSeenCursor, toList_join]
    rw [if_pos ⟨join_length_mod hlength, halphabet⟩, sliceKeys_join hlength,
      foldl_addToSet (by simpa using hnodup), nil_append]
  rw [decodeRankingCursor, hseen]
  rfl

end AnchorMind.Recall.RankingCursor

/-!
# The ranking order on any input

Scores, timestamps and ids reach the comparisons as they come from the database or from a
caller: numbers, dates, texts, or nothing.  What cannot be read counts as missing, missing
values have their place, and everything else is an order of numbers or of texts.
-/

namespace AnchorMind.Recall.RankingOrder

open Std Kernel.Comparators List
open Text.JsonText (JsString ofString)

inductive Number where
  | nan
  | infinite (negative : Bool)
  | finite (value : Rat)
  deriving DecidableEq

def Number.ofTime : Option Int -> Number
  | some time => .finite time
  | none => .nan

/-- `Number.isFinite` -/
def Number.finite? : Number -> Option Rat
  | .finite value => some value
  | .infinite _ => none
  | .nan => none

inductive Input where
  | undefined
  | null
  | boolean (value : Bool)
  | number (value : Number)
  | string (text : JsString)
  | date (time : Option Int)
  deriving DecidableEq

structure Conversions where
  /-- `Date.parse` -/
  dateParse : JsString -> Option Int
  /-- `Number` of a text -/
  toNumber : JsString -> Number
  /-- `String` of a number -/
  numberText : Number -> JsString
  /-- `String` of a date -/
  dateText : Option Int -> JsString

def booleanText (value : Bool) : JsString := if value then ofString "true" else ofString "false"

/-- Fragments as the comparisons see them; `none` stands for null. -/
abbrev Fragment := Option (List (String × Input))

/-- `fragment?.[name]` -/
def read (fragment : Fragment) (name : String) : Input :=
  ((fragment.getD []).lookup name).getD .undefined

section

variable (convert : Conversions)

def normalizeCreatedAt : Input -> Option Rat
  | .undefined => none
  | .null => none
  | .string [] => none
  | .date time => (Number.ofTime time).finite?
  | .number value => value.finite?
  | .string text => (Number.ofTime (convert.dateParse text)).finite?
  | .boolean value => (Number.ofTime (convert.dateParse (booleanText value))).finite?

def normalizeRankingScore : Input -> Option Rat
  | .undefined => none
  | .null => none
  | .string [] => none
  | .boolean value => some (if value then 1 else 0)
  | .number value => value.finite?
  | .string text => (convert.toNumber text).finite?
  | .date time => (Number.ofTime time).finite?

/-- `id == null ? null : String(id)` -/
def idText (fragment : Fragment) : Option JsString :=
  match read fragment "id" with
  | .undefined => none
  | .null => none
  | .boolean value => some (booleanText value)
  | .number value => some (convert.numberText value)
  | .string text => some text
  | .date time => some (convert.dateText time)

/-- The sign of `b - a`. -/
def descending (a b : Rat) : Ordering := compare b a

/-- The sign of what the source returns.  Texts are compared by their units. -/
def compareTimestampDescThenId (timestampField : String) (nulls : Nulls) (a b : Fragment) :
    Ordering :=
  let aCreatedAt := normalizeCreatedAt convert (read a timestampField)
  let bCreatedAt := normalizeCreatedAt convert (read b timestampField)
  if aCreatedAt ≠ bCreatedAt then
    match aCreatedAt, bCreatedAt with
    | none, _ => if nulls = .first then .lt else .gt
    | some _, none => if nulls = .first then .gt else .lt
    | some aTime, some bTime => descending aTime bTime
  else
    match idText convert a, idText convert b with
    | none, none => .eq
    | none, some _ => .gt
    | some _, none => .lt
    | some aId, some bId => compare aId bId

def compareDeterministicTies (a b : Fragment) : Ordering :=
  compareTimestampDescThenId convert "created_at" .first a b

def compareScoresDescending (a b : Input) : Ordering :=
  RankingCursor.compareScoresDescending (normalizeRankingScore convert a)
    (normalizeRankingScore convert b)

def compareRankedFragments (scoreOf : Fragment -> Input) (a b : Fragment) : Ordering :=
  let scoreOrder := compareScoresDescending convert (scoreOf a) (scoreOf b)
  if scoreOrder ≠ .eq then scoreOrder else compareDeterministicTies convert a b

instance descending_transCmp : TransCmp descending :=
  inferInstanceAs (TransCmp fun a b : Rat => compare b a)

instance descending_lawful : LawfulEqCmp descending :=
  inferInstanceAs (LawfulEqCmp fun a b : Rat => compare b a)

def compareIds : Option JsString -> Option JsString -> Ordering := withNulls .last compare

def compareTimes (nulls : Nulls) : Option Rat -> Option Rat -> Ordering :=
  withNulls nulls descending

instance compareIds_transCmp : TransCmp compareIds :=
  inferInstanceAs (TransCmp (withNulls .last compare))

instance compareTimes_transCmp (nulls : Nulls) : TransCmp (compareTimes nulls) :=
  inferInstanceAs (TransCmp (withNulls nulls descending))

theorem compareTimestampDescThenId_eq (timestampField : String) (nulls : Nulls) :
    compareTimestampDescThenId convert timestampField nulls =
      compareLex
        (byKey (fun fragment => normalizeCreatedAt convert (read fragment timestampField))
          (compareTimes nulls))
        (byKey (idText convert) compareIds) := by
  funext a b
  have hids : (match idText convert a, idText convert b with
      | none, none => Ordering.eq
      | none, some _ => .gt
      | some _, none => .lt
      | some aId, some bId => compare aId bId) =
        compareIds (idText convert a) (idText convert b) := by
    cases idText convert a <;> cases idText convert b <;> rfl
  simp only [compareTimestampDescThenId, hids, compareLex, byKey, compareTimes]
  generalize normalizeCreatedAt convert (read a timestampField) = aTime
  generalize normalizeCreatedAt convert (read b timestampField) = bTime
  by_cases htimes : aTime = bTime
  · rw [if_neg (not_not_intro htimes), htimes,
      @ReflCmp.compare_self _ (withNulls nulls descending)]
    rfl
  · rw [if_pos htimes]
    cases aTime with
    | none => cases bTime with
      | none => exact absurd rfl htimes
      | some bValue => cases nulls <;> rfl
    | some aValue => cases bTime with
      | none => cases nulls <;> rfl
      | some bValue =>
        -- Different times are not tied, so the ids are not looked at.
        have hne : descending aValue bValue ≠ .eq := fun htie =>
          htimes (congrArg some (LawfulEqCmp.eq_of_compare htie))
        simp only [withNulls]
        cases hside : descending aValue bValue with
        | eq => exact absurd hside hne
        | lt => rfl
        | gt => rfl

instance compareTimestampDescThenId_transCmp (timestampField : String) (nulls : Nulls) :
    TransCmp (compareTimestampDescThenId convert timestampField nulls) := by
  rw [compareTimestampDescThenId_eq]
  infer_instance

theorem compareScoresDescending_eq :
    compareScoresDescending convert =
      byKey (normalizeRankingScore convert) (withNulls .last descending) := by
  funext a b
  simp only [compareScoresDescending, byKey]
  cases normalizeRankingScore convert a <;> cases normalizeRankingScore convert b <;> rfl

instance compareScoresDescending_transCmp : TransCmp (compareScoresDescending convert) := by
  rw [compareScoresDescending_eq]
  infer_instance

theorem compareRankedFragments_eq (scoreOf : Fragment -> Input) :
    compareRankedFragments convert scoreOf =
      compareLex (byKey scoreOf (compareScoresDescending convert))
        (compareTimestampDescThenId convert "created_at" .first) := by
  funext a b
  simp only [compareRankedFragments, compareLex, byKey]
  rcases compareScoresDescending convert (scoreOf a) (scoreOf b) with _ | _ | _ <;> rfl

instance compareRankedFragments_transCmp (scoreOf : Fragment -> Input) :
    TransCmp (compareRankedFragments convert scoreOf) := by
  rw [compareRankedFragments_eq]
  infer_instance

theorem idText_eq_of_tie {timestampField : String} {nulls : Nulls} {a b : Fragment}
    (htie : compareTimestampDescThenId convert timestampField nulls a b = .eq) :
    idText convert a = idText convert b := by
  rw [compareTimestampDescThenId_eq, compareLex, Ordering.then_eq_eq] at htie
  exact eq_of_withNulls htie.2

theorem tie_of_ranked_tie {scoreOf : Fragment -> Input} {a b : Fragment}
    (htie : compareRankedFragments convert scoreOf a b = .eq) :
    compareTimestampDescThenId convert "created_at" .first a b = .eq := by
  rw [compareRankedFragments_eq, compareLex, Ordering.then_eq_eq] at htie
  exact htie.2

end

def unreadable : Conversions :=
  { dateParse := fun _ => none, toNumber := fun _ => .nan, numberText := fun _ => [],
    dateText := fun _ => [] }

/-- A fragment with an age that no one can read, and two of one age. -/
def mixedFragments : List Fragment :=
  [some [("id", .string (ofString "b")), ("created_at", .string (ofString "soon"))],
    some [("id", .string (ofString "c")), ("created_at", .date (some 7))],
    some [("id", .string (ofString "a")), ("created_at", .number (.finite 7))]]

end AnchorMind.Recall.RankingOrder
