import AnchorMind.Recall.RankingOrder
import AnchorMind.Text.Base64url
import AnchorMind.Text.JsonParse

/-!
# Cursors as texts

A cursor is a JSON object in base64url.  It comes back from the caller, who may send
anything; a text that is no cursor is the first page, and no text raises an error.
-/

namespace AnchorMind.Recall.SeenCursors

open Recall.RankingCursor (SeenKeys seenKeyLength isSeenChar addToSet)
open Text
open Text.Numbers (Number)
open Text.JsonText

structure Platform where
  /-- The double a decimal rounds to, unless it is too large. -/
  nearest : Number -> Option Number
  /-- `Buffer.from` of a text that does not keep to the alphabet. -/
  looseBytes : JsString -> List UInt8
  /-- `toString` of bytes that are not UTF-8. -/
  replacedText : List UInt8 -> List Char

structure Double (platform : Platform) where
  number : Number
  exact : platform.nearest number = some number

def rankingSeenKey (sha256 : JsString -> Vector UInt8 32) (id : JsString) : String :=
  String.ofList ((Base64url.encode (sha256 id).toList).take seenKeyLength)

theorem toList_rankingSeenKey (sha256 : JsString -> Vector UInt8 32) (id : JsString) :
    (rankingSeenKey sha256 id).toList =
      (Base64url.encode (sha256 id).toList).take seenKeyLength :=
  String.toList_ofList

theorem isSeenChar_of_mem_alphabet {char : Char} (hmem : char ∈ Base64url.alphabet) :
    isSeenChar char = true := by
  have hall : Base64url.alphabet.all isSeenChar = true := by decide
  exact List.all_eq_true.mp hall char hmem

def seenKeys (sha256 : JsString -> Vector UInt8 32) : SeenKeys JsString where
  rankingSeenKey := rankingSeenKey sha256
  length_eq := by
    intro id
    have hbytes := Base64url.length_le_encode (sha256 id).toList
    rw [Vector.length_toList] at hbytes
    rw [toList_rankingSeenKey, List.length_take, Nat.min_eq_left]
    exact Nat.le_trans (by decide) hbytes
  alphabet := by
    intro id char hmem
    rw [toList_rankingSeenKey] at hmem
    exact isSeenChar_of_mem_alphabet
      (Base64url.mem_alphabet_of_mem_encode (List.mem_of_mem_take hmem))

def asciiChars (text : JsString) : Option (List Char) :=
  if text.all fun unit => decide (unit.toNat < 128) then
    some (text.map fun unit => Char.ofNat unit.toNat)
  else none

def utf8Bytes (text : List Char) : List UInt8 := (String.ofList text).toUTF8.data.toList

/-- `Buffer.from(text).toString("base64url")` -/
def toCursor (text : List Char) : JsString :=
  (Base64url.encode (utf8Bytes text)).flatMap charUnits

def seenObject (seen : List String) (anchorTime : Number) : Json :=
  .object [(ofString "seen", .string (ofString (String.join seen))),
    (ofString "anchorTime", .number anchorTime)]

/-- `JSON.stringify` of the object, in base64url. -/
def encodeSeenCursor (seen : List String) (anchorTime : Number) : JsString :=
  toCursor (seenObject seen anchorTime).print

section

variable (platform : Platform)

/-- `Buffer.from(cursor, "base64url")` -/
def cursorBytes (cursor : JsString) : List UInt8 :=
  ((asciiChars cursor).bind Base64url.decode).getD (platform.looseBytes cursor)

/-- `toString()` -/
def bytesText (bytes : List UInt8) : List Char :=
  match (ByteArray.mk bytes.toArray).utf8Decode? with
  | some chars => chars.toList
  | none => platform.replacedText bytes

inductive Failure where
  | syntaxError
  deriving DecidableEq

def parseCursor (cursor : JsString) : Except Failure Json :=
  match JsonParse.parse (bytesText platform (cursorBytes platform cursor)) with
  | some value => .ok value
  | none => .error .syntaxError

def property (value : Json) (name : String) : Option Json :=
  match value with
  | .object fields => fields.reverse.lookup (ofString name)
  | _ => none

def finiteNumber (value : Option Json) : Option Number :=
  match value with
  | some (.number number) => platform.nearest number
  | _ => none

def integerOf : Number -> Option Int
  | .zero => some 0
  | .nonzero decimal =>
    if decimal.digits.length ≤ decimal.point then
      let size : Int := ((decimal.digits.foldl (fun value digit => 10 * value + digit.val) 0) *
        10 ^ (decimal.point - decimal.digits.length).toNat : Nat)
      some (if decimal.negative then -size else size)
    else none

def keyText (value : Option Json) : Option String :=
  match value with
  | some (.string units) => (asciiChars units).map String.ofList
  | _ => none

def isObject : Json -> Bool
  | .object _ => true
  | .array _ => true
  | _ => false

def cursorFields (value : Json) : Option RankingCursor.Cursor :=
  if isObject value then
    some
      { offset := (finiteNumber platform (property value "offset")).bind integerOf
        seen := keyText (property value "seen") }
  else none

structure DecodedCursor where
  offset : Nat
  anchorTime : Option Number
  seen : List String
  deriving DecidableEq

def readCursor (value : Json) : Option DecodedCursor :=
  (RankingCursor.decodeRankingCursor (cursorFields platform value)).map fun decoded =>
    { offset := decoded.offset
      anchorTime := finiteNumber platform (property value "anchorTime")
      seen := decoded.seen }

def decodeRankingCursor (cursor : Option JsString) : Except Failure (Option DecodedCursor) :=
  match cursor with
  | none => .ok none
  | some [] => .ok none
  | some (first :: rest) =>
    tryCatch (do
      let decoded <- parseCursor platform (first :: rest)
      return readCursor platform decoded)
      fun _ => .ok none

theorem asciiChars_units {chars : List Char} (hascii : ∀ c ∈ chars, c.toNat < 128) :
    asciiChars (chars.flatMap charUnits) = some chars := by
  have hunits : ∀ c ∈ chars, charUnits c = [UInt16.ofNat c.toNat] := by
    intro c hc
    have hsmall := hascii c hc
    rw [charUnits, if_pos (by omega)]
  have hflat : chars.flatMap charUnits = chars.map fun c => UInt16.ofNat c.toNat := by
    induction chars with
    | nil => rfl
    | cons c rest ih =>
      rw [List.flatMap_cons, hunits c List.mem_cons_self,
        ih (fun d hd => hascii d (List.mem_cons_of_mem _ hd))
          fun d hd => hunits d (List.mem_cons_of_mem _ hd)]
      rfl
  have hback : ∀ c ∈ chars, (UInt16.ofNat c.toNat).toNat = c.toNat := by
    intro c hc
    have hsmall := hascii c hc
    rw [UInt16.toNat_ofNat', Nat.mod_eq_of_lt (by omega)]
  have hall : (chars.map fun c => UInt16.ofNat c.toNat).all
      (fun unit => decide (unit.toNat < 128)) = true := by
    simp only [List.all_map, List.all_eq_true, Function.comp_apply, decide_eq_true_eq]
    intro c hc
    rw [hback c hc]
    exact hascii c hc
  rw [hflat, asciiChars, if_pos hall, List.map_map]
  congr 1
  refine (List.map_congr_left ?_).trans (List.map_id chars)
  intro c hc
  rw [Function.comp_apply, hback c hc, Char.ofNat_toNat, id]

theorem ascii_of_seenChar {c : Char} (hseen : isSeenChar c = true) : c.toNat < 128 := by
  unfold isSeenChar Char.isAlphanum at hseen
  delta Char.isAlpha Char.isUpper Char.isLower at hseen
  simp only [Char.isDigit, Bool.or_eq_true, Bool.and_eq_true, decide_eq_true_eq, beq_iff_eq,
    UInt32.le_iff_toNat_le, ge_iff_le] at hseen
  have hvalue : c.toNat = c.val.toNat := rfl
  rcases hseen with ((((hupper | hlower) | hdigit) | rfl) | rfl)
  · have hlast : c.val.toNat ≤ 90 := hupper.2
    omega
  · have hlast : c.val.toNat ≤ 122 := hlower.2
    omega
  · have hlast : c.val.toNat ≤ 57 := hdigit.2
    omega
  · decide
  · decide

theorem bytesText_utf8Bytes (text : List Char) : bytesText platform (utf8Bytes text) = text := by
  have hbytes : ByteArray.mk (utf8Bytes text).toArray = text.utf8Encode := by
    rw [utf8Bytes, String.toUTF8_eq_toByteArray, String.toByteArray_ofList]
  rw [bytesText, hbytes, List.utf8Decode?_utf8Encode]

theorem cursorBytes_toCursor (text : List Char) :
    cursorBytes platform (toCursor text) = utf8Bytes text := by
  have hascii : asciiChars (toCursor text) = some (Base64url.encode (utf8Bytes text)) := by
    refine asciiChars_units ?_
    intro c hc
    exact ascii_of_seenChar (isSeenChar_of_mem_alphabet (Base64url.mem_alphabet_of_mem_encode hc))
  rw [cursorBytes, hascii, Option.bind_some, Base64url.decode_encode, Option.getD_some]

theorem parseCursor_toCursor (value : Json) :
    parseCursor platform (toCursor value.print) = .ok value := by
  rw [parseCursor, cursorBytes_toCursor, bytesText_utf8Bytes, JsonParse.parse_print]

include platform in
theorem toCursor_injective {text other : List Char} (hequal : toCursor text = toCursor other) :
    text = other := by
  rw [<- bytesText_utf8Bytes platform text, <- bytesText_utf8Bytes platform other,
    <- cursorBytes_toCursor platform text, <- cursorBytes_toCursor platform other, hequal]

theorem decodeRankingCursor_toCursor (value : Json) :
    decodeRankingCursor platform (some (toCursor value.print)) =
      .ok (readCursor platform value) := by
  cases hcursor : toCursor value.print with
  | nil =>
    obtain ⟨symbol, rest, hprint, -⟩ := value.print_starts
    rw [toCursor_injective platform (hcursor.trans rfl : _ = toCursor [])] at hprint
    cases hprint
  | cons first rest =>
    have hparse := parseCursor_toCursor platform value
    rw [hcursor] at hparse
    rw [decodeRankingCursor, hparse]
    rfl

variable {keys set : List String}

theorem mem_foldl_addToSet {key : String} :
    key ∈ keys.foldl addToSet set <-> key ∈ set \/ key ∈ keys := by
  induction keys generalizing set with
  | nil => simp
  | cons first rest ih =>
    rw [List.foldl_cons, ih, addToSet]
    split
    · rename_i hin
      have hsame : key = first -> key ∈ set := fun heq => heq ▸ hin
      grind
    · grind

theorem foldl_addToSet_nodup (hset : set.Nodup) : (keys.foldl addToSet set).Nodup := by
  induction keys generalizing set with
  | nil => exact hset
  | cons first rest ih =>
    rw [List.foldl_cons]
    refine ih ?_
    rw [addToSet]
    split
    · exact hset
    · rename_i hfresh
      exact hset.append (List.nodup_singleton first) (by simpa using hfresh)

theorem validSeen_join (sha256 : JsString -> Vector UInt8 32) (ids : List JsString)
    (cursor : RankingCursor.Cursor)
    (hseen : cursor.seen = some (String.join (ids.map (rankingSeenKey sha256)))) :
    RankingCursor.validSeen cursor =
      some ((ids.map (rankingSeenKey sha256)).foldl addToSet []) := by
  have hlength : ∀ key ∈ ids.map (rankingSeenKey sha256),
      key.toList.length = seenKeyLength := by
    intro key hkey
    obtain ⟨id, -, rfl⟩ := List.mem_map.mp hkey
    exact (seenKeys sha256).length_eq id
  have halphabet : ((ids.map (rankingSeenKey sha256)).flatMap String.toList).all isSeenChar
      = true := by
    simp only [List.all_eq_true, List.mem_flatMap, List.mem_map]
    rintro c ⟨key, ⟨id, -, rfl⟩, hc⟩
    exact (seenKeys sha256).alphabet id c hc
  simp only [RankingCursor.validSeen, hseen, RankingCursor.toList_join]
  rw [if_pos ⟨RankingCursor.join_length_mod hlength, halphabet⟩,
    RankingCursor.sliceKeys_join hlength]

theorem keyText_join (sha256 : JsString -> Vector UInt8 32) (ids : List JsString) :
    keyText (some (.string (ofString (String.join (ids.map (rankingSeenKey sha256)))))) =
      some (String.join (ids.map (rankingSeenKey sha256))) := by
  have hascii : ∀ c ∈ (String.join (ids.map (rankingSeenKey sha256))).toList,
      c.toNat < 128 := by
    intro c hc
    rw [RankingCursor.toList_join] at hc
    obtain ⟨key, hkey, hc⟩ := List.mem_flatMap.mp hc
    obtain ⟨id, -, rfl⟩ := List.mem_map.mp hkey
    exact ascii_of_seenChar ((seenKeys sha256).alphabet id c hc)
  rw [keyText, ofString, asciiChars_units hascii, Option.map_some, String.ofList_toList]

theorem property_seenObject (seen : List String) (anchorTime : Number) :
    property (seenObject seen anchorTime) "offset" = none /\
      property (seenObject seen anchorTime) "seen" =
        some (.string (ofString (String.join seen))) /\
      property (seenObject seen anchorTime) "anchorTime" = some (.number anchorTime) := by
  have hnames : (ofString "offset" == ofString "anchorTime") = false /\
      (ofString "offset" == ofString "seen") = false /\
      (ofString "seen" == ofString "anchorTime") = false := by decide
  simp [property, seenObject, List.lookup_cons, hnames]

theorem readCursor_seenObject (sha256 : JsString -> Vector UInt8 32) (ids : List JsString)
    (anchorTime : Double platform) :
    readCursor platform (seenObject (ids.map (rankingSeenKey sha256)) anchorTime.number) =
      some
        { offset := 0, anchorTime := some anchorTime.number
          seen := (ids.map (rankingSeenKey sha256)).foldl addToSet [] } := by
  obtain ⟨hoffset, hseen, htime⟩ :=
    property_seenObject (ids.map (rankingSeenKey sha256)) anchorTime.number
  have hvalid := validSeen_join sha256 ids
    { seen := some (String.join (ids.map (rankingSeenKey sha256))) } rfl
  have hposition : RankingCursor.validOffset
      { seen := some (String.join (ids.map (rankingSeenKey sha256))) } = none := rfl
  have hfinite : finiteNumber platform (some (.number anchorTime.number)) =
      some anchorTime.number := anchorTime.exact
  have hobject : isObject (seenObject (ids.map (rankingSeenKey sha256)) anchorTime.number) =
      true := rfl
  have hnothing : finiteNumber platform none = none := rfl
  rw [readCursor, cursorFields, if_pos hobject, hoffset, hseen, htime, keyText_join, hfinite,
    hnothing, Option.bind_none]
  simp only [RankingCursor.decodeRankingCursor, hvalid, hposition, Option.map_some,
    Option.getD_none, Option.getD_some]

/-- A cursor of seen keys reads back as its keys, each once, and its time.  No cursor at
all raises an error. -/
theorem decode_encodeSeenCursor_text (sha256 : JsString -> Vector UInt8 32) :
    (∀ (ids : List JsString) (anchorTime : Double platform), ∃ decoded,
      decodeRankingCursor platform (some (encodeSeenCursor (ids.map (rankingSeenKey sha256))
          anchorTime.number)) = .ok (some decoded) /\
        decoded.anchorTime = some anchorTime.number /\
        decoded.seen.Nodup /\
        ∀ key, key ∈ decoded.seen <-> key ∈ ids.map (rankingSeenKey sha256)) /\
      ∀ cursor, ∃ result, decodeRankingCursor platform cursor = .ok result := by
  refine ⟨?_, ?_⟩
  · intro ids anchorTime
    refine ⟨_, (decodeRankingCursor_toCursor platform _).trans
      (congrArg Except.ok (readCursor_seenObject platform sha256 ids anchorTime)), rfl,
      foldl_addToSet_nodup List.nodup_nil, ?_⟩
    intro key
    simp [mem_foldl_addToSet]
  · intro cursor
    match cursor with
    | none => exact ⟨none, rfl⟩
    | some [] => exact ⟨none, rfl⟩
    | some (first :: rest) =>
      rw [decodeRankingCursor]
      cases parseCursor platform (first :: rest) with
      | ok value => exact ⟨_, rfl⟩
      | error failure => exact ⟨none, rfl⟩

end

end AnchorMind.Recall.SeenCursors
