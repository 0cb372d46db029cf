
/-!
# Base64url

Three bytes are written as four characters of an alphabet of 64, without padding.
-/

namespace AnchorMind.Text.Base64url

open List

abbrev Sextet := Fin 64

def alphabet : List Char :=
  "ABCDEFGHIJKLMNOPQRSTUVWXYZabcdefghijklmnopqrstuvwxyz0123456789-_".toList

def sextetChar (sextet : Sextet) : Char := alphabet.getD sextet.val 'A'

def sextetOf (char : Char) : Option Sextet :=
  if h : alphabet.idxOf char < 64 then some ⟨alphabet.idxOf char, h⟩ else none

def high (byte : UInt8) (shift : Nat) : Sextet := Fin.ofNat 64 (byte.toNat / shift)

/-- The low bits of a byte before the high bits of the next. -/
def across (first : UInt8) (scale : Nat) (second : Nat) : Sextet :=
  Fin.ofNat 64 (first.toNat * scale + second)

def sextets : List UInt8 -> List Sextet
  | [] => []
  | [a] => [high a 4, across a 16 0]
  | [a, b] => [high a 4, across a 16 (b.toNat / 16), across b 4 0]
  | a :: b :: c :: rest =>
    high a 4 :: across a 16 (b.toNat / 16) :: across b 4 (c.toNat / 64) :: across c 1 0 ::
      sextets rest

def joinBits (first second : Sextet) (scale shift : Nat) : UInt8 :=
  UInt8.ofNat (first.val * scale + second.val / shift)

def bytes : List Sextet -> List UInt8
  | a :: b :: c :: d :: rest =>
    joinBits a b 4 16 :: joinBits b c 16 4 :: joinBits c d 64 1 :: bytes rest
  | [a, b, c] => [joinBits a b 4 16, joinBits b c 16 4]
  | [a, b] => [joinBits a b 4 16]
  | _ => []

/-- `Buffer.toString("base64url")` -/
def encode (data : List UInt8) : List Char := (sextets data).map sextetChar

def decode (text : List Char) : Option (List UInt8) := (text.mapM sextetOf).map bytes

theorem length_alphabet : alphabet.length = 64 := rfl

theorem alphabet_nodup : alphabet.Nodup := by decide +kernel

theorem sextetChar_eq (sextet : Sextet) :
    ∃ h, sextetChar sextet = alphabet.get ⟨sextet.val, h⟩ := by
  have hlt : sextet.val < alphabet.length := by
    rw [length_alphabet]
    exact sextet.isLt
  refine ⟨hlt, ?_⟩
  rw [sextetChar, getD_eq_getElem?_getD, getElem?_eq_getElem hlt, Option.getD_some,
    get_eq_getElem]

theorem sextetOf_sextetChar (sextet : Sextet) : sextetOf (sextetChar sextet) = some sextet := by
  obtain ⟨hlt, hchar⟩ := sextetChar_eq sextet
  have hplace : alphabet.idxOf (sextetChar sextet) = sextet.val := by
    rw [hchar]
    exact alphabet_nodup.idxOf_getElem sextet.val hlt
  have hbound : alphabet.idxOf (sextetChar sextet) < 64 := by
    rw [hplace]
    exact sextet.isLt
  rw [sextetOf, dif_pos hbound]
  exact congrArg some (Fin.ext hplace)

theorem mapM_sextetOf (sextets : List Sextet) :
    (sextets.map sextetChar).mapM sextetOf = some sextets := by
  induction sextets with
  | nil => rfl
  | cons sextet rest ih => simp [mapM_cons, sextetOf_sextetChar, ih]

theorem joinBits_first (a : UInt8) (second : Nat) (hsecond : second < 16) :
    joinBits (high a 4) (across a 16 second) 4 16 = a := by
  have hbound := a.toNat_lt
  refine UInt8.toNat_inj.mp ?_
  simp only [joinBits, high, across, Fin.ofNat, UInt8.toNat_ofNat']
  omega

theorem joinBits_second (a b : UInt8) (third : Nat) (hthird : third < 4) :
    joinBits (across a 16 (b.toNat / 16)) (across b 4 third) 16 4 = b := by
  have hbound := b.toNat_lt
  refine UInt8.toNat_inj.mp ?_
  simp only [joinBits, across, Fin.ofNat, UInt8.toNat_ofNat']
  omega

theorem joinBits_third (b c : UInt8) :
    joinBits (across b 4 (c.toNat / 64)) (across c 1 0) 64 1 = c := by
  have hbound := c.toNat_lt
  refine UInt8.toNat_inj.mp ?_
  simp only [joinBits, across, Fin.ofNat, UInt8.toNat_ofNat']
  omega

theorem bytes_sextets (data : List UInt8) : bytes (sextets data) = data := by
  fun_induction sextets data with
  | case1 => rfl
  | case2 a => simp only [bytes, joinBits_first a 0 (by decide)]
  | case3 a b =>
    have hbound := b.toNat_lt
    simp only [bytes, joinBits_first a (b.toNat / 16) (by omega),
      joinBits_second a b 0 (by decide)]
  | case4 a b c rest ih =>
    have hsecond := b.toNat_lt
    have hthird := c.toNat_lt
    simp only [bytes, joinBits_first a (b.toNat / 16) (by omega),
      joinBits_second a b (c.toNat / 64) (by omega), joinBits_third, ih]

theorem decode_encode (data : List UInt8) : decode (encode data) = some data := by
  rw [decode, encode, mapM_sextetOf, Option.map_some, bytes_sextets]

/-- Every two characters hold at least one byte, so `n` bytes take at least `n` of them. -/
theorem length_le_encode (data : List UInt8) : data.length ≤ (encode data).length := by
  rw [encode, length_map]
  fun_induction sextets data with
  | case1 => exact Nat.le_refl _
  | case2 a => exact Nat.le_succ _
  | case3 a b => exact Nat.le_succ _
  | case4 a b c rest ih =>
    simp only [length_cons]
    omega

theorem mem_alphabet_of_mem_encode {data : List UInt8} {char : Char} (hmem : char ∈ encode data) :
    char ∈ alphabet := by
  obtain ⟨sextet, -, rfl⟩ := mem_map.mp hmem
  obtain ⟨hlt, hchar⟩ := sextetChar_eq sextet
  rw [hchar]
  exact getElem_mem _

end AnchorMind.Text.Base64url
