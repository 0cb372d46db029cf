import Mathlib.Data.List.DropRight
import Mathlib.Data.Nat.Digits.Lemmas

/-!
# UTF-16 units

The source measures and cuts strings in UTF-16 code units.  A character outside
the basic plane takes two of them.
-/

namespace AnchorMind.Text.Utf16

open List

def utf16Units (c : Char) : Nat := if c.val < 0x10000 then 1 else 2

/-- The `length` of a string. -/
def utf16Length (text : String) : Nat := (text.toList.map utf16Units).sum

theorem utf16Units_le_utf8Size (c : Char) : utf16Units c ≤ c.utf8Size := by
  unfold utf16Units
  split
  · exact Char.utf8Size_pos c
  · rename_i hlarge
    have hbig : 0xffff < c.val := by
      rw [UInt32.lt_iff_toNat_lt] at hlarge ⊢
      exact Nat.lt_of_succ_le (Nat.le_of_not_lt hlarge)
    rw [Char.utf8Size_eq_four_iff.mpr hbig]
    exact Nat.le_add_left 2 2

theorem utf16Length_le_utf8ByteSize (text : String) : utf16Length text ≤ text.utf8ByteSize := by
  rw [utf16Length, ← String.ofList_toList (s := text), String.toList_ofList]
  induction text.toList with
  | nil => exact Nat.zero_le _
  | cons c rest ih =>
    rw [map_cons, sum_cons, String.ofList_cons, String.utf8ByteSize_append,
      String.utf8ByteSize_singleton]
    exact Nat.add_le_add (utf16Units_le_utf8Size c) ih

/-- `slice(0, n)` counts UTF-16 units; a surrogate pair cut in half reaches the
database as the replacement character. -/
def sliceUtf16 : Nat -> List Char -> List Char
  | 0, _ => []
  | _ + 1, [] => []
  | 1, c :: _ => if utf16Units c = 1 then [c] else [Char.ofNat 0xFFFD]
  | n + 2, c :: rest =>
    if utf16Units c = 1 then c :: sliceUtf16 (n + 1) rest else c :: sliceUtf16 n rest

end AnchorMind.Text.Utf16

/-!
# Whitespace as the source's `trim` sees it

`String.prototype.trim` strips the Unicode space separators, the line
terminators, and the byte order mark.  The model works on the characters of a
text, so a blank text and a trimmed text have the meaning they have at the
source.
-/

namespace AnchorMind.Text.Whitespace

open List

/-- The characters `trim` strips. -/
def isTrimmed (c : Char) : Bool :=
  let n := c.toNat
  (9 ≤ n && n ≤ 13) || n == 32 || n == 160 || n == 0x1680 || (0x2000 ≤ n && n ≤ 0x200A) ||
    n == 0x2028 || n == 0x2029 || n == 0x202F || n == 0x205F || n == 0x3000 || n == 0xFEFF

def trimList (text : List Char) : List Char := (text.dropWhile isTrimmed).rdropWhile isTrimmed

def trim (text : String) : String := String.ofList (trimList text.toList)

/-- A text of which `trim` leaves nothing. -/
def blank (text : String) : Bool := text.toList.all isTrimmed

theorem trimList_eq_nil {text : List Char} :
    trimList text = [] <-> ∀ c ∈ text, isTrimmed c = true := by
  rw [trimList, rdropWhile_eq_nil_iff]
  constructor
  · intro hrest
    refine dropWhile_eq_nil_iff.mp ?_
    cases hstart : text.dropWhile isTrimmed with
    | nil => rfl
    | cons first rest =>
      have hhead := head?_dropWhile_not isTrimmed text
      rw [hstart] at hhead hrest
      have hfirst : isTrimmed first = true := hrest first mem_cons_self
      simp [hfirst] at hhead
  · intro hall c hc
    exact hall c ((dropWhile_suffix isTrimmed).subset hc)

theorem blank_iff_trim_eq_empty {text : String} : blank text = true <-> trim text = "" := by
  rw [trim, String.ofList_eq_empty_iff, trimList_eq_nil, blank, all_eq_true]

end AnchorMind.Text.Whitespace

/-!
# Texts as code points

A JavaScript string taken code point by code point, where a surrogate without its partner is
a code point of its own; the characters that are shown as escapes, and their hexadecimal
numbers.
-/

namespace AnchorMind.Text.CodePoints

open List

def codes (text : String) : List Nat := text.toList.map Char.toNat

@[simp]
theorem codes_append (front back : String) : codes (front ++ back) = codes front ++ codes back := by
  simp [codes]

theorem of_mem_codes {P : Nat -> Prop} [DecidablePred P] (chars : List Char)
    (hchars : (chars.all fun char => decide (P char.toNat)) = true) {code : Nat}
    (hmem : code ∈ codes (String.ofList chars)) : P code := by
  rw [codes, String.toList_ofList] at hmem
  obtain ⟨char, hchar, rfl⟩ := mem_map.mp hmem
  exact of_decide_eq_true (all_eq_true.mp hchars char hchar)

def unsafeCategoryRanges : List (Nat × Nat) :=
  [(0x0000, 0x001f), (0x007f, 0x009f), (0x00ad, 0x00ad), (0x0600, 0x0605), (0x061c, 0x061c),
    (0x06dd, 0x06dd), (0x070f, 0x070f), (0x0890, 0x0891), (0x08e2, 0x08e2), (0x180e, 0x180e),
    (0x200b, 0x200f), (0x2028, 0x2029), (0x202a, 0x202e), (0x2060, 0x2064), (0x2066, 0x206f),
    (0xd800, 0xdfff), (0xfeff, 0xfeff), (0xfff9, 0xfffb), (0x110bd, 0x110bd), (0x110cd, 0x110cd),
    (0x13430, 0x1343f), (0x1bca0, 0x1bca3), (0x1d173, 0x1d17a), (0xe0001, 0xe0001),
    (0xe0020, 0xe007f)]

def inRange (code : Nat) (range : Nat × Nat) : Bool :=
  range.1 ≤ code && code ≤ range.2

/-- A control, format, surrogate or separator character, or one of the block of tags. -/
def isUnsafeChar (code : Nat) : Bool :=
  unsafeCategoryRanges.any (inRange code) || inRange code (0xe0000, 0xe007f)

def hexDigit (digit : Nat) : Nat := if digit < 10 then 48 + digit else 87 + digit

/-- `toString(16)` -/
def hex (code : Nat) : List Nat :=
  if code = 0 then [48] else (Nat.digits 16 code).reverse.map hexDigit

def padStart (width : Nat) (digits : List Nat) : List Nat :=
  replicate (width - digits.length) 48 ++ digits

def hexValue (digit : Nat) : Nat := if digit < 58 then digit - 48 else digit - 87

def readHex (digits : List Nat) : Nat :=
  digits.foldl (fun value digit => 16 * value + hexValue digit) 0

def isHexDigit (code : Nat) : Prop := 48 ≤ code /\ code ≤ 57 \/ 97 ≤ code /\ code ≤ 102

variable {digit : Nat}

theorem hexValue_hexDigit : hexValue (hexDigit digit) = digit := by
  unfold hexValue hexDigit
  split <;> split <;> omega

theorem isHexDigit_hexDigit (hdigit : digit < 16) : isHexDigit (hexDigit digit) := by
  unfold isHexDigit hexDigit
  split <;> omega

theorem isHexDigit_of_mem_hex {code digit : Nat} (hmem : digit ∈ hex code) : isHexDigit digit := by
  unfold hex at hmem
  split at hmem
  · rw [mem_singleton] at hmem
    exact .inl (by omega)
  · obtain ⟨value, hvalue, rfl⟩ := mem_map.mp hmem
    exact isHexDigit_hexDigit (Nat.digits_lt_base (by omega) (mem_reverse.mp hvalue))

theorem readHex_hex (code : Nat) : readHex (hex code) = code := by
  unfold hex
  split
  · rename_i hzero
    rw [hzero]
    rfl
  · rw [readHex, foldl_map, foldl_reverse]
    simp only [hexValue_hexDigit]
    have hdigits := Nat.ofDigits_digits 16 code
    rw [Nat.ofDigits_eq_foldr] at hdigits
    simpa [Nat.add_comm] using hdigits

theorem readHex_padStart (width : Nat) (digits : List Nat) :
    readHex (padStart width digits) = readHex digits := by
  unfold padStart
  induction width - digits.length with
  | zero => rfl
  | succ count ih =>
    rw [replicate_succ, cons_append]
    exact ih

variable {width : Nat}

theorem isHexDigit_of_mem_padStart {digits : List Nat}
    (hdigits : ∀ digit ∈ digits, isHexDigit digit) (hmem : digit ∈ padStart width digits) :
    isHexDigit digit := by
  rcases mem_append.mp hmem with hpad | hold
  · rw [eq_of_mem_replicate hpad]
    exact .inl (by omega)
  · exact hdigits digit hold

theorem length_hex_le {code : Nat} (hwidth : 0 < width) (hcode : code < 16 ^ width) :
    (hex code).length ≤ width := by
  unfold hex
  split
  · exact hwidth
  · rw [length_map, length_reverse]
    exact (Nat.digits_length_le_iff (by omega) code).mpr hcode

theorem length_padStart {digits : List Nat} (hle : digits.length ≤ width) :
    (padStart width digits).length = width := by
  rw [padStart, length_append, length_replicate]
  omega

end AnchorMind.Text.CodePoints
