import AnchorMind.Text.JsonText

/-!
# The audit hash chain

A row's hash covers the hash of the row before it and the canonical JSON of its columns.
Verification follows the rows in the order of their sequence numbers and stops at the
first that does not fit.
-/

namespace AnchorMind.Audit

open Text.JsonText List Function
open Text.Numbers (Number)
open Kernel.Delimited (joined)

/-- A value of the source; some of them have no canonical JSON. -/
inductive Value where
  | null
  | bool (value : Bool)
  | number (value : Number)
  | nonFinite
  | string (units : JsString)
  | array (items : List Value)
  | object (fields : List (JsString × Value))
  | unsupported (type : String)

def sortByKey {Result : Type} (fields : List (JsString × Result)) : List (JsString × Result) :=
  fields.insertionSort fun left right => left.1 ≤ right.1

def inOrder {Result : Type} : List (Except String Result) -> Except String (List Result)
  | [] => .ok []
  | .error error :: _ => .error error
  | .ok result :: rest => (inOrder rest).map (result :: ·)

def fieldText (field : JsString × Except String (List Char)) : Except String (List Char) :=
  field.2.map fun text => quote field.1 ++ ':' :: text

mutual

def canonicalJson : Value -> Except String (List Char)
  | .null => .ok "null".toList
  | .bool true => .ok "true".toList
  | .bool false => .ok "false".toList
  | .number value => .ok (Text.Numbers.numberText value)
  | .nonFinite => .error "유한한 수만 체인에 넣을 수 있다"
  | .string units => .ok (quote units)
  | .array items =>
    (inOrder (canonicalItems items)).map fun texts => '[' :: (joined ',' texts ++ [']'])
  | .object fields =>
    (inOrder ((sortByKey (canonicalFields fields)).map fieldText)).map fun texts =>
      '{' :: (joined ',' texts ++ ['}'])
  | .unsupported type => .error ("체인에 넣을 수 없는 값의 형태: " ++ type)
termination_by structural value => value

def canonicalItems : List Value -> List (Except String (List Char))
  | [] => []
  | item :: rest => canonicalJson item :: canonicalItems rest
termination_by structural items => items

def canonicalFields : List (JsString × Value) -> List (JsString × Except String (List Char))
  | [] => []
  | (key, value) :: rest => (key, canonicalJson value) :: canonicalFields rest
termination_by structural fields => fields

end

/-- `digits` to the given width. -/
def padded (width value : Nat) : String :=
  let digits := Nat.toDigits 10 value
  String.ofList (replicate (width - digits.length) '0' ++ digits)

structure Date where
  year : Int
  month : Nat
  day : Nat

def dateOfDays (days : Int) : Date :=
  let shifted := days + 719468
  let era := shifted / 146097
  let dayOfEra := (shifted % 146097).toNat
  let yearOfEra := (dayOfEra - dayOfEra / 1460 + dayOfEra / 36524 - dayOfEra / 146096) / 365
  let dayOfYear := dayOfEra - (365 * yearOfEra + yearOfEra / 4 - yearOfEra / 100)
  let march := (5 * dayOfYear + 2) / 153
  { year := yearOfEra + era * 400 + if march < 10 then 0 else 1
    month := if march < 10 then march + 3 else march - 9
    day := dayOfYear - (153 * march + 2) / 5 + 1 }

def yearText (year : Int) : String :=
  if 0 ≤ year ∧ year ≤ 9999 then padded 4 year.toNat
  else (if 0 ≤ year then "+" else "-") ++ padded 6 year.natAbs

/-- `Date.prototype.toISOString` -/
def toISOString (milliseconds : Int) : String :=
  let date := dateOfDays (milliseconds / 86400000)
  let time := (milliseconds % 86400000).toNat
  yearText date.year ++ "-" ++ padded 2 date.month ++ "-" ++ padded 2 date.day ++ "T" ++
    padded 2 (time / 3600000) ++ ":" ++ padded 2 (time / 60000 % 60) ++ ":" ++
    padded 2 (time / 1000 % 60) ++ "." ++ padded 3 (time % 1000) ++ "Z"

/-- A time that cannot be read is `none`. -/
def isoTime : Option Int -> Except String JsString
  | none => .error "시각 값을 읽을 수 없다"
  | some milliseconds => .ok (ofString (toISOString milliseconds))

def genesisHash : String := String.ofList (replicate 64 '0')

/-- `seq` is the text of the sequence number; columns that may be missing are `none`. -/
structure ChainRow where
  seq : JsString
  sourceEvent : JsString
  occurredAt : Option Int
  recordedAt : Option Int
  action : JsString
  outcome : JsString
  actorKind : JsString
  actorKeyId : Option JsString
  actorSession : Option JsString
  actorIp : Option JsString
  targetType : Option JsString
  targetId : Option JsString
  workspace : Option JsString
  detail : Option Value
  prevHash : String
  rowHash : String

def orNull : Option JsString -> Value
  | none => .null
  | some units => .string units

/-- The columns that the hash covers. -/
def chainRecord (row : ChainRow) : Except String Value := do
  let occurredAt <- isoTime row.occurredAt
  let recordedAt <- isoTime row.recordedAt
  .ok (.object
    [(ofString "seq", .string row.seq),
      (ofString "sourceEvent", .string row.sourceEvent),
      (ofString "occurredAt", .string occurredAt),
      (ofString "recordedAt", .string recordedAt),
      (ofString "action", .string row.action),
      (ofString "outcome", .string row.outcome),
      (ofString "actorKind", .string row.actorKind),
      (ofString "actorKeyId", orNull row.actorKeyId),
      (ofString "actorSession", orNull row.actorSession),
      (ofString "actorIp", orNull row.actorIp),
      (ofString "targetType", orNull row.targetType),
      (ofString "targetId", orNull row.targetId),
      (ofString "workspace", orNull row.workspace),
      (ofString "detail", row.detail.getD (.object []))])

/-- `hash` is SHA-256 of the UTF-8 bytes, in hexadecimal. -/
def computeRowHash (hash : String -> String) (prevHash : String) (row : ChainRow) :
    Except String String := do
  let record <- chainRecord row
  let text <- canonicalJson record
  .ok (hash (prevHash ++ "\n" ++ String.ofList text))

inductive ChainBreak where
  | seqGap
  | prevMismatch
  | hashMismatch
  | prefixMismatch
  deriving DecidableEq

structure SeqNumbers (Num : Type) where
  ofText : JsString -> Option Num
  next : Num -> Num

/-- Whole numbers, written and read in decimal digits. -/
def seqText (seq : Nat) : JsString := (Nat.toDigits 10 seq).map fun char => UInt16.ofNat char.toNat

def wholeNumbers : SeqNumbers Nat where
  ofText := fun units =>
    let chars := units.map fun unit => Char.ofNat unit.toNat
    if chars ≠ [] ∧ chars.all Char.isDigit = true then some (Nat.ofDigitChars 10 chars 0) else none
  next := Nat.succ

theorem ofText_seqText (seq : Nat) : wholeNumbers.ofText (seqText seq) = some seq := by
  have hdigits : ∀ char ∈ Nat.toDigits 10 seq, char.isDigit = true :=
    fun char hmem => Nat.isDigit_of_mem_toDigits (by decide) (Nat.le_refl 10) hmem
  have hsame : ((Nat.toDigits 10 seq).map fun char => UInt16.ofNat char.toNat).map
      (fun unit => Char.ofNat unit.toNat) = Nat.toDigits 10 seq := by
    rw [map_map]
    refine (map_congr_left fun char hmem => ?_).trans (map_id _)
    have hdigit := hdigits char hmem
    simp only [Char.isDigit, Bool.and_eq_true, decide_eq_true_eq, UInt32.le_iff_toNat_le] at hdigit
    have hhigh : char.toNat ≤ 57 := hdigit.2
    have hsmall : char.toNat % 65536 = char.toNat := by omega
    rw [comp_apply, UInt16.toNat_ofNat', hsmall, Char.ofNat_toNat]
    rfl
  have hsome : Nat.toDigits 10 seq ≠ [] := Nat.toDigits_ne_nil
  simp only [wholeNumbers, seqText, hsame]
  rw [if_pos ⟨hsome, all_eq_true.mpr hdigits⟩,
    Nat.ofDigitChars_toDigits (by decide) (Nat.le_refl 10)]

theorem seqText_injective {left right : Nat} (hequal : seqText left = seqText right) :
    left = right := by
  have hread := congrArg wholeNumbers.ofText hequal
  rw [ofText_seqText, ofText_seqText] at hread
  exact Option.some.inj hread

/-- A number is `none` where it is NaN; what is not yet known is `none` outside. -/
structure ChainState (Num : Type) where
  prevHash : Option String
  expectedSeq : Option (Option Num)
  checked : Nat
  firstSeq : Option (Option Num)
  lastSeq : Option (Option Num)
  anchorHash : Option String
  broken : Option (Option Num × ChainBreak)
  deriving DecidableEq

variable {Num : Type}

def startChainVerification (prevHash : Option String) (expectedSeq : Option (Option Num)) :
    ChainState Num where
  prevHash := prevHash
  expectedSeq := expectedSeq
  checked := 0
  firstSeq := none
  lastSeq := none
  anchorHash := none
  broken := none

def ChainState.begin (state : ChainState Num) (row : ChainRow) (seq : Option Num) :
    ChainState Num :=
  match state.firstSeq with
  | some _ => state
  | none =>
    { state with
      firstSeq := some seq
      anchorHash := state.prevHash.or (some row.prevHash)
      prevHash := state.prevHash.or (some row.prevHash)
      expectedSeq := state.expectedSeq.or (some seq) }

variable [DecidableEq Num]

/-- `seq !== expectedSeq`; NaN differs from everything. -/
def differs (seq : Option Num) (expected : Option (Option Num)) : Bool :=
  seq.isNone || decide (expected ≠ some seq)

def verifyRow (hash : String -> String) (numbers : SeqNumbers Num) (state : ChainState Num)
    (row : ChainRow) : Except String (ChainState Num) :=
  let seq := numbers.ofText row.seq
  let next := state.begin row seq
  if differs seq next.expectedSeq then .ok { next with broken := some (seq, .seqGap) }
  else if some row.prevHash ≠ next.prevHash then
    .ok { next with broken := some (seq, .prevMismatch) }
  else do
    let rowHash <- computeRowHash hash row.prevHash row
    if rowHash ≠ row.rowHash then .ok { next with broken := some (seq, .hashMismatch) }
    else
      .ok
        { next with
          prevHash := some row.rowHash
          expectedSeq := some (seq.map numbers.next)
          checked := next.checked + 1
          lastSeq := some seq }

def verifyChainRows (hash : String -> String) (numbers : SeqNumbers Num) :
    ChainState Num -> List ChainRow -> Except String (ChainState Num)
  | state, [] => .ok state
  | state, row :: rest =>
    if state.broken.isSome then .ok state
    else do
      let next <- verifyRow hash numbers state row
      verifyChainRows hash numbers next rest

end AnchorMind.Audit

/-!
# What the head hash binds

Values are told apart by their canonical JSON up to the order of keys, and canonical JSON
has no line break, so that a hashed text gives back both the hash before it and the
columns.  From the head hash backwards, the rows agree.
-/

namespace AnchorMind.Audit

open Text.JsonText List Function
open Kernel.Delimited (joined)

/-! ## The value that canonical JSON denotes -/

def normalField (field : JsString × Except String Json) : Except String (JsString × Json) :=
  field.2.map fun value => (field.1, value)

mutual

def normal : Value -> Except String Json
  | .null => .ok .null
  | .bool value => .ok (.bool value)
  | .number value => .ok (.number value)
  | .nonFinite => .error "유한한 수만 체인에 넣을 수 있다"
  | .string units => .ok (.string units)
  | .array items => (inOrder (normalItems items)).map .array
  | .object fields => (inOrder ((sortByKey (normalFields fields)).map normalField)).map .object
  | .unsupported type => .error ("체인에 넣을 수 없는 값의 형태: " ++ type)
termination_by structural value => value

def normalItems : List Value -> List (Except String Json)
  | [] => []
  | item :: rest => normal item :: normalItems rest
termination_by structural items => items

def normalFields : List (JsString × Value) -> List (JsString × Except String Json)
  | [] => []
  | (key, value) :: rest => (key, normal value) :: normalFields rest
termination_by structural fields => fields

end

def printedField (field : JsString × Except String Json) : JsString × Except String (List Char) :=
  (field.1, field.2.map Json.print)

theorem inOrder_map {First Second : Type} (change : First -> Second)
    (results : List (Except String First)) :
    inOrder (results.map (Except.map change)) = (inOrder results).map (map change) := by
  induction results with
  | nil => rfl
  | cons result rest ih =>
    cases result with
    | error error => rfl
    | ok value =>
      simp only [map_cons, inOrder, Except.map, ih]
      cases inOrder rest <;> rfl

theorem sortByKey_printed (fields : List (JsString × Except String Json)) :
    sortByKey (fields.map printedField) = (sortByKey fields).map printedField := by
  refine (map_insertionSort _ _ printedField fields ?_).symm
  intro left _ right _
  exact Iff.rfl

theorem fieldText_printed (field : JsString × Except String Json) :
    fieldText (printedField field) = (normalField field).map Json.printField := by
  obtain ⟨key, value⟩ := field
  cases value <;> rfl

mutual

theorem canonicalJson_eq : ∀ value : Value, canonicalJson value = (normal value).map Json.print
  | .null => rfl
  | .bool true => rfl
  | .bool false => rfl
  | .number _ => rfl
  | .nonFinite => rfl
  | .string _ => rfl
  | .array items => by
      rw [canonicalJson, canonicalItems_eq items, inOrder_map, normal]
      cases inOrder (normalItems items) with
      | error error => rfl
      | ok values => simp only [Except.map, Json.print, Json.printItems_eq]
  | .object fields => by
      have hfields : (sortByKey (canonicalFields fields)).map fieldText =
          ((sortByKey (normalFields fields)).map normalField).map (Except.map Json.printField) := by
        rw [canonicalFields_eq fields, sortByKey_printed, map_map, map_map]
        exact map_congr_left fun field _ => fieldText_printed field
      rw [canonicalJson, hfields, inOrder_map, normal]
      cases inOrder ((sortByKey (normalFields fields)).map normalField) with
      | error error => rfl
      | ok values => simp only [Except.map, Json.print, Json.printFields_eq]
  | .unsupported _ => rfl

theorem canonicalItems_eq : ∀ items : List Value,
    canonicalItems items = (normalItems items).map (Except.map Json.print)
  | [] => rfl
  | item :: rest => by
      rw [canonicalItems, normalItems, map_cons, canonicalJson_eq item,
        canonicalItems_eq rest]

theorem canonicalFields_eq : ∀ fields : List (JsString × Value),
    canonicalFields fields = (normalFields fields).map printedField
  | [] => rfl
  | (key, value) :: rest => by
      rw [canonicalFields, normalFields, map_cons, canonicalJson_eq value,
        canonicalFields_eq rest]
      rfl

end

theorem canonicalJson_injective {left right : Value} {text : List Char}
    (hleft : canonicalJson left = .ok text) (hright : canonicalJson right = .ok text) :
    ∃ value, normal left = .ok value /\ normal right = .ok value /\ text = value.print := by
  rw [canonicalJson_eq] at hleft hright
  cases hfirst : normal left with
  | error error =>
    rw [hfirst] at hleft
    cases hleft
  | ok value =>
    cases hsecond : normal right with
    | error error =>
      rw [hsecond] at hright
      cases hright
    | ok other =>
      rw [hfirst] at hleft
      rw [hsecond] at hright
      have hprint : value.print = text := Except.ok.inj hleft
      have hother : other.print = text := Except.ok.inj hright
      obtain rfl := Json.print_injective (hprint.trans hother.symm)
      exact ⟨value, rfl, rfl, hprint.symm⟩

/-! ## The columns of a record -/

theorem eq_of_inOrder {fields : List (JsString × Except String Json)}
    {values : List (JsString × Json)} (hok : inOrder (fields.map normalField) = .ok values) :
    fields = values.map fun field => (field.1, .ok field.2) := by
  induction fields generalizing values with
  | nil =>
    cases hok
    rfl
  | cons field rest ih =>
    obtain ⟨key, result⟩ := field
    cases result with
    | error error => cases hok
    | ok value =>
      cases hrest : inOrder (rest.map normalField) with
      | error error =>
        simp only [map_cons, normalField, Except.map, inOrder, hrest] at hok
        cases hok
      | ok others =>
        simp only [map_cons, normalField, Except.map, inOrder, hrest] at hok
        cases hok
        rw [map_cons, <- ih hrest]

theorem eq_of_perm_of_keys {Result : Type} {left right : List (JsString × Result)}
    (hperm : left.Perm right) (hkeys : left.map Prod.fst = right.map Prod.fst)
    (hnodup : (left.map Prod.fst).Nodup) : left = right := by
  induction left generalizing right with
  | nil => exact hperm.nil_eq
  | cons first rest ih =>
    cases right with
    | nil => cases hkeys
    | cons second others =>
      obtain ⟨hkey, hothers⟩ := cons.inj hkeys
      have hfirst : first = second := by
        rcases mem_cons.mp (hperm.subset mem_cons_self) with hsame | hlater
        · exact hsame
        · refine absurd ?_ (nodup_cons.mp hnodup).1
          rw [hothers]
          exact mem_map_of_mem hlater
      subst hfirst
      exact congrArg (first :: ·) (ih hperm.cons_inv hothers (nodup_cons.mp hnodup).2)

theorem normalFields_keys (fields : List (JsString × Value)) :
    (normalFields fields).map Prod.fst = fields.map Prod.fst := by
  induction fields with
  | nil => rfl
  | cons field rest ih => rw [normalFields, map_cons, map_cons, ih]

theorem normalFields_eq {left right : List (JsString × Value)} {value : Json}
    (hleft : normal (.object left) = .ok value) (hright : normal (.object right) = .ok value)
    (hkeys : left.map Prod.fst = right.map Prod.fst) (hnodup : (left.map Prod.fst).Nodup) :
    normalFields left = normalFields right := by
  have hsorted : ∀ fields, normal (.object fields) = .ok value ->
      ∃ values, value = .object values /\
        sortByKey (normalFields fields) = values.map fun field => (field.1, .ok field.2) := by
    intro fields hok
    rw [normal] at hok
    cases hvalues : inOrder ((sortByKey (normalFields fields)).map normalField) with
    | error error =>
      rw [hvalues] at hok
      cases hok
    | ok values =>
      rw [hvalues] at hok
      exact ⟨values, (Except.ok.inj hok).symm, eq_of_inOrder hvalues⟩
  obtain ⟨values, rfl, hfirst⟩ := hsorted left hleft
  obtain ⟨others, hsame, hsecond⟩ := hsorted right hright
  cases hsame
  have hperm : (normalFields left).Perm (normalFields right) := by
    have hboth : sortByKey (normalFields left) = sortByKey (normalFields right) :=
      hfirst.trans hsecond.symm
    have hmiddle := (perm_insertionSort (fun left right : JsString × Except String Json =>
      left.1 ≤ right.1) (normalFields left)).symm
    refine hmiddle.trans ?_
    rw [show insertionSort _ (normalFields left) = sortByKey (normalFields left) from rfl,
      hboth]
    exact perm_insertionSort _ _
  refine eq_of_perm_of_keys hperm ?_ ?_
  · rw [normalFields_keys, normalFields_keys, hkeys]
  · rwa [normalFields_keys]

/-- The hashed columns of two rows are the same, as `chainRecord` makes them. -/
structure SameColumns (left right : ChainRow) : Prop where
  seq : left.seq = right.seq
  sourceEvent : left.sourceEvent = right.sourceEvent
  occurredAt : isoTime left.occurredAt = isoTime right.occurredAt
  recordedAt : isoTime left.recordedAt = isoTime right.recordedAt
  action : left.action = right.action
  outcome : left.outcome = right.outcome
  actorKind : left.actorKind = right.actorKind
  actorKeyId : left.actorKeyId = right.actorKeyId
  actorSession : left.actorSession = right.actorSession
  actorIp : left.actorIp = right.actorIp
  targetType : left.targetType = right.targetType
  targetId : left.targetId = right.targetId
  workspace : left.workspace = right.workspace
  detail : normal (left.detail.getD (.object [])) = normal (right.detail.getD (.object []))

theorem string_eq_of_normal {left right : JsString}
    (hequal : normal (.string left) = normal (.string right)) : left = right := by
  cases hequal
  rfl

theorem orNull_eq_of_normal {left right : Option JsString}
    (hequal : normal (orNull left) = normal (orNull right)) : left = right := by
  cases left <;> cases right <;> cases hequal <;> rfl

theorem chainRecord_ok {row : ChainRow} {record : Value} (hok : chainRecord row = .ok record) :
    ∃ occurredAt recordedAt, isoTime row.occurredAt = .ok occurredAt /\
      isoTime row.recordedAt = .ok recordedAt := by
  cases hoccurred : isoTime row.occurredAt with
  | error error =>
    simp only [chainRecord, hoccurred] at hok
    cases hok
  | ok occurredAt =>
    cases hrecorded : isoTime row.recordedAt with
    | error error =>
      simp only [chainRecord, hoccurred, hrecorded] at hok
      cases hok
    | ok recordedAt => exact ⟨occurredAt, recordedAt, rfl, rfl⟩

variable {left right : ChainRow}

theorem sameColumns_of_records {leftRecord rightRecord : Value} {value : Json}
    (hleft : chainRecord left = .ok leftRecord) (hright : chainRecord right = .ok rightRecord)
    (hfirst : normal leftRecord = .ok value) (hsecond : normal rightRecord = .ok value) :
    SameColumns left right := by
  obtain ⟨occurredAt, recordedAt, hoccurred, hrecorded⟩ := chainRecord_ok hleft
  obtain ⟨otherOccurred, otherRecorded, hoccurred', hrecorded'⟩ := chainRecord_ok hright
  simp only [chainRecord, hoccurred, hrecorded] at hleft
  simp only [chainRecord, hoccurred', hrecorded'] at hright
  cases hleft
  cases hright
  have hfields := normalFields_eq hfirst hsecond rfl (by
    simp only [map_cons, map_nil]
    decide)
  simp only [normalFields, cons.injEq, Prod.mk.injEq, true_and, and_true] at hfields
  obtain ⟨hseq, hsource, hoccurredText, hrecordedText, haction, houtcome, hkind, hkey, hsession,
    hip, htype, hid, hworkspace, hdetail⟩ := hfields
  constructor
  · exact string_eq_of_normal hseq
  · exact string_eq_of_normal hsource
  · rw [hoccurred, hoccurred', string_eq_of_normal hoccurredText]
  · rw [hrecorded, hrecorded', string_eq_of_normal hrecordedText]
  · exact string_eq_of_normal haction
  · exact string_eq_of_normal houtcome
  · exact string_eq_of_normal hkind
  · exact orNull_eq_of_normal hkey
  · exact orNull_eq_of_normal hsession
  · exact orNull_eq_of_normal hip
  · exact orNull_eq_of_normal htype
  · exact orNull_eq_of_normal hid
  · exact orNull_eq_of_normal hworkspace
  · exact hdetail

section

variable {Num : Type} {hash : String -> String} {numbers : SeqNumbers Num}

def Linked (hash : String -> String) (numbers : SeqNumbers Num) :
    String -> Option Num -> List ChainRow -> String -> Prop
  | start, _, [], head => start = head
  | start, seq, row :: rest, head =>
    row.prevHash = start /\ (∃ number, seq = some number /\
      numbers.ofText row.seq = some number) /\
      computeRowHash hash row.prevHash row = .ok row.rowHash /\
        Linked hash numbers row.rowHash (seq.map numbers.next) rest head

theorem sameColumns_of_hash (hhash : Injective hash) {leftPrev rightPrev rowHash : String}
    (hleft : computeRowHash hash leftPrev left = .ok rowHash)
    (hright : computeRowHash hash rightPrev right = .ok rowHash) :
    leftPrev = rightPrev /\ SameColumns left right := by
  have hparts : ∀ {prev : String} {row : ChainRow},
      computeRowHash hash prev row = .ok rowHash ->
      ∃ record text, chainRecord row = .ok record /\ canonicalJson record = .ok text /\
        hash (prev ++ "\n" ++ String.ofList text) = rowHash := by
    intro prev row hok
    unfold computeRowHash at hok
    cases hrecord : chainRecord row with
    | error error =>
      rw [hrecord] at hok
      cases hok
    | ok record =>
      cases htext : canonicalJson record with
      | error error =>
        simp only [hrecord, htext, bind, Except.bind] at hok
        cases hok
      | ok text =>
        simp only [hrecord, htext, bind, Except.bind] at hok
        exact ⟨record, text, rfl, htext, Except.ok.inj hok⟩
  obtain ⟨leftRecord, leftText, hleftRecord, hleftText, hleftHash⟩ := hparts hleft
  obtain ⟨rightRecord, rightText, hrightRecord, hrightText, hrightHash⟩ := hparts hright
  have htexts := congrArg String.toList (hhash (hleftHash.trans hrightHash.symm))
  simp only [String.toList_append, String.toList_ofList, append_assoc] at htexts
  have honeLine : ∀ {value : Value} {text : List Char},
      canonicalJson value = .ok text -> '\n' ∉ text := by
    intro value text hok
    obtain ⟨printed, _, _, rfl⟩ := canonicalJson_injective hok hok
    exact printed.print_oneLine
  obtain ⟨hprev, rfl⟩ := Kernel.Delimited.append_mark_inj (honeLine hleftText)
    (honeLine hrightText) htexts
  obtain ⟨value, hfirst, hsecond, _⟩ := canonicalJson_injective hleftText hrightText
  exact ⟨String.toList_inj.mp hprev,
    sameColumns_of_records hleftRecord hrightRecord hfirst hsecond⟩

variable {head : String} {left right : List ChainRow}

theorem linked_agree (hhash : Injective hash) {leftStart rightStart : String}
    {leftSeq rightSeq : Option Num} (hleft : Linked hash numbers leftStart leftSeq left head)
    (hright : Linked hash numbers rightStart rightSeq right head)
    (hlength : left.length = right.length) :
    leftStart = rightStart /\
      Forall₂ (fun left right => SameColumns left right /\ left.prevHash = right.prevHash /\
        left.rowHash = right.rowHash) left right := by
  induction left generalizing right leftStart rightStart leftSeq rightSeq with
  | nil =>
    obtain rfl := length_eq_zero_iff.mp hlength.symm
    exact ⟨Eq.trans hleft (Eq.symm hright), .nil⟩
  | cons row rest ih =>
    cases right with
    | nil => cases hlength
    | cons other others =>
      obtain ⟨hstart, _, hhashed, hrest⟩ := hleft
      obtain ⟨hother, _, hrehashed, hothers⟩ := hright
      obtain ⟨hrowHash, hagree⟩ := ih hrest hothers (Nat.succ.inj hlength)
      rw [<- hrowHash] at hrehashed
      obtain ⟨hprev, hcolumns⟩ := sameColumns_of_hash hhash hhashed hrehashed
      refine ⟨?_, .cons ⟨hcolumns, hprev, hrowHash⟩ hagree⟩
      rw [<- hstart, <- hother, hprev]

variable {start : String} {seq : Option Num}

theorem linked_append {front back : List ChainRow}
    (hlinked : Linked hash numbers start seq (front ++ back) head) :
    ∃ middle, Linked hash numbers start seq front middle /\
      Linked hash numbers middle ((Option.map numbers.next)^[front.length] seq) back head := by
  induction front generalizing start seq with
  | nil => exact ⟨start, rfl, hlinked⟩
  | cons row rest ih =>
    obtain ⟨hstart, hseq, hhashed, hrest⟩ := hlinked
    obtain ⟨middle, hfront, hback⟩ := ih hrest
    exact ⟨middle, ⟨hstart, hseq, hhashed, hfront⟩, hback⟩

theorem iterate_map_next (seq : Num) (count : Nat) :
    (Option.map numbers.next)^[count] (some seq) = some (numbers.next^[count] seq) := by
  induction count generalizing seq with
  | zero => rfl
  | succ count ih => rw [iterate_succ_apply, Option.map_some, ih]; rfl

theorem length_le_of_linked (hhash : Injective hash) {seq : Num}
    (hleft : Linked hash numbers start (some seq) left head)
    (hright : Linked hash numbers start (some seq) right head) (hsome : left ≠ [])
    (hnew : ∀ steps, 0 < steps -> numbers.next^[steps] seq ≠ seq) : right.length ≤ left.length := by
  by_contra hshort
  let extra := right.length - left.length
  have hextra : 0 < extra := by omega
  obtain ⟨middle, _, hback⟩ := linked_append
    (show Linked hash numbers start (some seq) (right.take extra ++ right.drop extra) head by
      rwa [take_append_drop])
  have htaken : (right.take extra).length = extra := by
    rw [length_take]
    omega
  rw [htaken, iterate_map_next] at hback
  have hlength : left.length = (right.drop extra).length := by
    rw [length_drop]
    omega
  obtain ⟨_, hagree⟩ := linked_agree hhash hleft hback hlength
  cases hrows : left with
  | nil => exact hsome hrows
  | cons row rest =>
    rw [hrows] at hleft hagree
    obtain ⟨other, others, hsame, _, hdrop⟩ := forall₂_cons_left_iff.mp hagree
    rw [hdrop] at hback
    obtain ⟨_, ⟨number, hnumber, hread⟩, _, _⟩ := hleft
    obtain ⟨_, ⟨later, hlater, hreread⟩, _, _⟩ := hback
    rw [hsame.1.seq, hreread] at hread
    refine hnew extra hextra ?_
    rw [Option.some.inj hlater, Option.some.inj hread, <- Option.some.inj hnumber]

/-! ## What verification accepts -/

variable [DecidableEq Num] {state next final : ChainState Num} {row : ChainRow}
  {rows : List ChainRow}

theorem broken_stays (hbroken : state.broken ≠ none)
    (hok : verifyChainRows hash numbers state rows = .ok final) : final = state := by
  cases rows with
  | nil => exact (Except.ok.inj hok).symm
  | cons row rest =>
    rw [verifyChainRows, if_pos (Option.isSome_iff_ne_none.mpr hbroken)] at hok
    exact (Except.ok.inj hok).symm

theorem verifyRow_fits (hprev : state.prevHash = some start) (hseq : state.expectedSeq = some seq)
    (hok : verifyRow hash numbers state row = .ok next) (hsound : next.broken = none) :
    row.prevHash = start /\ (∃ number, seq = some number /\
      numbers.ofText row.seq = some number) /\
      computeRowHash hash row.prevHash row = .ok row.rowHash /\
        next.prevHash = some row.rowHash /\ next.expectedSeq = some (seq.map numbers.next) /\
          next.checked = state.checked + 1 := by
  have hbegin : (state.begin row (numbers.ofText row.seq)).prevHash = some start /\
      (state.begin row (numbers.ofText row.seq)).expectedSeq = some seq /\
        (state.begin row (numbers.ofText row.seq)).checked = state.checked := by
    unfold ChainState.begin
    split
    · exact ⟨hprev, hseq, rfl⟩
    · simp only [hprev, hseq, Option.some_or, and_self]
  obtain ⟨hprev', hseq', hchecked⟩ := hbegin
  unfold verifyRow at hok
  simp only [hprev', hseq'] at hok
  split at hok
  · cases hok
    cases hsound
  · rename_i hsame
    split at hok
    · cases hok
      cases hsound
    · rename_i hlink
      cases hhash : computeRowHash hash row.prevHash row with
      | error error =>
        rw [hhash] at hok
        cases hok
      | ok rowHash =>
        simp only [hhash, bind, Except.bind] at hok
        split at hok
        · cases hok
          cases hsound
        · rename_i hrow
          obtain rfl : rowHash = row.rowHash := not_not.mp hrow
          cases hok
          simp only [differs, Bool.or_eq_true, Option.isNone_iff_eq_none, decide_eq_true_eq,
            not_or, not_not] at hsame
          obtain ⟨number, hnumber⟩ := Option.ne_none_iff_exists'.mp hsame.1
          refine ⟨Option.some.inj (not_not.mp hlink), ⟨number, ?_, hnumber⟩, rfl, rfl, ?_, ?_⟩
          · rw [Option.some.inj hsame.2, hnumber]
          · rw [<- Option.some.inj hsame.2]
          · exact congrArg (· + 1) hchecked

theorem linked_of_accepted (hprev : state.prevHash = some start)
    (hseq : state.expectedSeq = some seq)
    (hok : verifyChainRows hash numbers state rows = .ok final) (hsound : final.broken = none) :
    ∃ head, final.prevHash = some head /\ Linked hash numbers start seq rows head := by
  induction rows generalizing state start seq with
  | nil =>
    obtain rfl := Except.ok.inj hok
    exact ⟨start, hprev, rfl⟩
  | cons row rest ih =>
    rw [verifyChainRows] at hok
    split at hok
    · rename_i hbroken
      obtain rfl := Except.ok.inj hok
      rw [hsound] at hbroken
      cases hbroken
    · cases hrow : verifyRow hash numbers state row with
      | error error =>
        rw [hrow] at hok
        cases hok
      | ok next =>
        rw [hrow] at hok
        have hnext : next.broken = none := by
          by_contra hbroken
          rw [broken_stays hbroken hok] at hsound
          exact hbroken hsound
        obtain ⟨hstart, hnumber, hhashed, hprev', hseq', _⟩ :=
          verifyRow_fits hprev hseq hrow hnext
        obtain ⟨head, hhead, hlinked⟩ := ih hprev' hseq' hok
        exact ⟨head, hhead, hstart, hnumber, hhashed, hlinked⟩

/--
If no two texts have the same hash, then two sequences of rows that are accepted from the
same hash and number and lead to the same head agree in every column, provided they have
the same length; and unless the numbers repeat, non-empty ones have.
-/
theorem accepted_rows_agree (hhash : Injective hash) (numbers : SeqNumbers Num) {startHash : String}
    {startSeq : Num} {left right : List ChainRow} {leftEnd rightEnd : ChainState Num}
    (hleft : verifyChainRows hash numbers
      (startChainVerification (some startHash) (some (some startSeq))) left = .ok leftEnd)
    (hright : verifyChainRows hash numbers
      (startChainVerification (some startHash) (some (some startSeq))) right = .ok rightEnd)
    (hleftSound : leftEnd.broken = none) (hrightSound : rightEnd.broken = none)
    (hhead : leftEnd.prevHash = rightEnd.prevHash) :
    (left.length = right.length ->
        Forall₂ (fun left right => SameColumns left right /\
          left.prevHash = right.prevHash /\ left.rowHash = right.rowHash) left right) /\
      (left ≠ [] -> right ≠ [] ->
        (∀ steps, 0 < steps -> numbers.next^[steps] startSeq ≠ startSeq) ->
          left.length = right.length) := by
  obtain ⟨head, hleftHead, hleftLinked⟩ := linked_of_accepted rfl rfl hleft hleftSound
  obtain ⟨other, hrightHead, hrightLinked⟩ := linked_of_accepted rfl rfl hright hrightSound
  obtain rfl : head = other := Option.some.inj (hleftHead.symm.trans (hhead.trans hrightHead))
  constructor
  · intro hlength
    exact (linked_agree hhash hleftLinked hrightLinked hlength).2
  · intro hleftSome hrightSome hnew
    refine le_antisymm ?_ ?_
    · exact length_le_of_linked hhash hrightLinked hleftLinked hrightSome hnew
    · exact length_le_of_linked hhash hleftLinked hrightLinked hleftSome hnew

end

local instance ten_neZero : NeZero 10 := ⟨by decide⟩

theorem one_nonzero :
    [(1 : Text.Numbers.Digit)].head?.any (fun digit => decide (digit ≠ 0)) = true := rfl

def sampleRow : ChainRow where
  seq := seqText 1
  sourceEvent := ofString "audit.record:100"
  occurredAt := some 1790985600000
  recordedAt := some 1790985600005
  action := ofString "memory.remember"
  outcome := ofString "success"
  actorKind := ofString "master"
  actorKeyId := none
  actorSession := none
  actorIp := none
  targetType := some (ofString "fragment")
  targetId := some (ofString "frag-0")
  workspace := none
  detail := some (.object
    [(ofString "contentLength", .number (.nonzero ⟨false, [1], 2, one_nonzero, one_nonzero⟩)),
      (ofString "changed", .array [.string (ofString "x"), .string (ofString "y")])])
  prevHash := genesisHash
  rowHash := "5e5a909b524cdf61a68494337549d7faa71e975d3cf0f7ce1c2cc027d499c09f"

def storedRow : ChainRow :=
  { sampleRow with
    detail := some (.object
      [(ofString "changed", .array [.string (ofString "x"), .string (ofString "y")]),
        (ofString "contentLength", .number (.nonzero ⟨false, [1], 2, one_nonzero, one_nonzero⟩))]) }

def canonicalRecord (row : ChainRow) : Except String (List Char) := do
  canonicalJson (<- chainRecord row)

def sampleText : String :=
  match canonicalRecord sampleRow with
  | .ok text => genesisHash ++ "\n" ++ String.ofList text
  | .error _ => genesisHash

def sampleHash : String -> String := Equiv.swap sampleText sampleRow.rowHash

theorem computeRowHash_sample {row : ChainRow}
    (hrecord : canonicalRecord row = canonicalRecord sampleRow) :
    computeRowHash sampleHash genesisHash row = .ok sampleRow.rowHash := by
  have hhash : computeRowHash sampleHash genesisHash row =
      (canonicalRecord row).map fun text =>
        sampleHash (genesisHash ++ "\n" ++ String.ofList text) := by
    unfold computeRowHash canonicalRecord
    cases chainRecord row with
    | error error => rfl
    | ok record =>
      cases hjson : canonicalJson record <;> simp [bind, Except.bind, Except.map, hjson]
  rw [hhash, hrecord]
  cases htext : canonicalRecord sampleRow with
  | error error =>
    have hok : (canonicalRecord sampleRow).isOk = true := by decide +kernel
    rw [htext] at hok
    cases hok
  | ok text =>
    have hsample : sampleText = genesisHash ++ "\n" ++ String.ofList text := by
      rw [sampleText, htext]
    rw [Except.map, <- hsample, sampleHash, Equiv.swap_apply_left]

def sampleEnd : ChainState Nat where
  prevHash := some sampleRow.rowHash
  expectedSeq := some (some 2)
  checked := 1
  firstSeq := some (some 1)
  lastSeq := some (some 1)
  anchorHash := some genesisHash
  broken := none

theorem accepted_rows_agree_sample :
    Forall₂ (fun left right => SameColumns left right /\ left.prevHash = right.prevHash /\
      left.rowHash = right.rowHash) [sampleRow] [storedRow] := by
  have haccepted : ∀ row, row.seq = seqText 1 -> row.prevHash = genesisHash ->
      row.rowHash = sampleRow.rowHash -> canonicalRecord row = canonicalRecord sampleRow ->
        verifyChainRows sampleHash wholeNumbers
          (startChainVerification (some genesisHash) (some (some 1))) [row] = .ok sampleEnd := by
    intro row hseq hprev hrowHash hrecord
    have hnumber : wholeNumbers.ofText (seqText 1) = some 1 := by decide
    simp only [verifyChainRows, verifyRow, startChainVerification, ChainState.begin, hseq, hprev,
      hnumber, differs, Option.isNone_some, Option.isSome_none, Option.some_or, ne_eq,
      not_true_eq_false, decide_false, Bool.or_false, Bool.false_eq_true, if_false, bind,
      Except.bind, computeRowHash_sample hrecord, hrowHash]
    rfl
  have hleft := haccepted sampleRow rfl rfl rfl rfl
  have hright := haccepted storedRow rfl rfl rfl (by decide +kernel)
  exact (accepted_rows_agree (Equiv.injective _) wholeNumbers hleft hright rfl rfl rfl).1 rfl

end AnchorMind.Audit
