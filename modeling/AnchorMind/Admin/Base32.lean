import AnchorMind.Text.Characters

/-!
# Base32 secrets

Five bits are written as one character.  Both directions carry bits in a 32-bit number: the
writer never clears what it has written, the reader keeps sixteen bits.
-/

namespace AnchorMind.Admin.Base32

open List Text.Whitespace

def BASE32_ALPHABET : List Char := "ABCDEFGHIJKLMNOPQRSTUVWXYZ234567".toList

def symbol (value : BitVec 32) : Char := BASE32_ALPHABET.getD (value &&& 31).toNat 'A'

def drain (bits : Nat) (value : BitVec 32) : List Char × Nat :=
  if 5 ≤ bits then
    let (out, left) := drain (bits - 5) value
    (symbol (value >>> (bits - 5)) :: out, left)
  else ([], bits)

def encodeFrom (bits : Nat) (value : BitVec 32) : List (BitVec 8) -> List Char
  | [] => if 0 < bits then [symbol (value <<< (5 - bits))] else []
  | byte :: rest =>
    let value := value <<< 8 ||| byte.setWidth 32
    let (out, left) := drain (bits + 8) value
    out ++ encodeFrom left value rest

def base32Encode (buf : List (BitVec 8)) : List Char := encodeFrom 0 0 buf

/-- `toUpperCase`, where `upperOther` is its way with the characters outside ASCII. -/
def toUpperCase (upperOther : Char -> List Char) (text : List Char) : List Char :=
  text.flatMap fun c => if c.toNat < 128 then [c.toUpper] else upperOther c

/-- `\s` and `=` -/
def skipped (c : Char) : Bool := isTrimmed c || c = '='

def decodeFrom (bits : Nat) (value : BitVec 32) : List Char -> Except String (List (BitVec 8))
  | [] => .ok []
  | ch :: rest =>
    match BASE32_ALPHABET.idxOf? ch with
    | none => .error "base32 알파벳 밖의 문자가 있다"
    | some idx =>
      let value := (value <<< 5 ||| BitVec.ofNat 32 idx) &&& 0xffff
      if 8 ≤ bits + 5 then
        (decodeFrom (bits + 5 - 8) value rest).map fun bytes =>
          (value >>> (bits + 5 - 8)).setWidth 8 :: bytes
      else decodeFrom (bits + 5) value rest

def base32Decode (upperOther : Char -> List Char) (text : List Char) :
    Except String (List (BitVec 8)) :=
  decodeFrom 0 0 ((toUpperCase upperOther text).filter fun c => !skipped c)

theorem idxOf?_alphabet {n : Nat} (hn : n < 32) :
    BASE32_ALPHABET.idxOf? (BASE32_ALPHABET.getD n 'A') = some n := by
  have hall : ∀ n : Fin 32, BASE32_ALPHABET.idxOf? (BASE32_ALPHABET.getD n 'A') = some n.val := by
    decide
  exact hall ⟨n, hn⟩

theorem or_toNat (value low : BitVec 32) (shift : Nat) (hlow : low.toNat < 2 ^ shift)
    (hshift : shift ≤ 32) :
    (value <<< shift ||| low).toNat = value.toNat * 2 ^ shift % 2 ^ 32 + low.toNat := by
  have hsplit : value.toNat * 2 ^ shift % 2 ^ 32 = (value.toNat % 2 ^ (32 - shift)) <<< shift := by
    rw [Nat.shiftLeft_eq, ← Nat.mul_mod_mul_right, ← Nat.pow_add, Nat.sub_add_cancel hshift]
  rw [BitVec.toNat_or, BitVec.toNat_shiftLeft, Nat.shiftLeft_eq, hsplit,
    Nat.shiftLeft_add_eq_or_of_lt hlow]

theorem and_toNat (value : BitVec 32) : (value &&& 31).toNat = value.toNat % 32 := by
  rw [BitVec.toNat_and]
  exact Nat.and_two_pow_sub_one_eq_mod value.toNat 5

/-- Reading a written character takes its five bits in. -/
theorem decodeFrom_symbol (bits : Nat) (value code : BitVec 32) (rest : List Char) :
    ∃ next : BitVec 32, next.toNat = (value.toNat * 32 + code.toNat % 32) % 65536 /\
      decodeFrom bits value (symbol code :: rest) =
        if 8 ≤ bits + 5 then
          (decodeFrom (bits + 5 - 8) next rest).map fun bytes =>
            (next >>> (bits + 5 - 8)).setWidth 8 :: bytes
        else decodeFrom (bits + 5) next rest := by
  refine ⟨(value <<< 5 ||| BitVec.ofNat 32 (code.toNat % 32)) &&& 0xffff, ?_, ?_⟩
  · have hlow : (BitVec.ofNat 32 (code.toNat % 32)).toNat = code.toNat % 32 := by
      rw [BitVec.toNat_ofNat]
      omega
    have hmask : ∀ v : BitVec 32, (v &&& 0xffff).toNat = v.toNat % 65536 := by
      intro v
      rw [BitVec.toNat_and]
      exact Nat.and_two_pow_sub_one_eq_mod v.toNat 16
    rw [hmask, or_toNat _ _ 5 (by omega) (by decide), hlow]
    omega
  · rw [decodeFrom, symbol, and_toNat, idxOf?_alphabet (Nat.mod_lt _ (by decide))]

theorem drain_once {bits : Nat} (value : BitVec 32) (hmany : 5 ≤ bits) (hfew : bits < 10) :
    drain bits value = ([symbol (value >>> (bits - 5))], bits - 5) := by
  rw [drain, if_pos hmany, drain, if_neg (by omega)]

theorem drain_twice {bits : Nat} (value : BitVec 32) (hmany : 10 ≤ bits) (hfew : bits < 15) :
    drain bits value =
      ([symbol (value >>> (bits - 5)), symbol (value >>> (bits - 5 - 5))], bits - 5 - 5) := by
  rw [drain, if_pos (by omega), drain_once value (by omega) (by omega)]

theorem setWidth_shift (next : BitVec 32) (shift : Nat) (last : BitVec 8)
    (hlast : next.toNat / 2 ^ shift % 256 = last.toNat) : (next >>> shift).setWidth 8 = last := by
  apply BitVec.eq_of_toNat_eq
  rw [BitVec.toNat_setWidth, BitVec.toNat_ushiftRight, Nat.shiftRight_eq_div_pow]
  exact hlast

/-- What the writer has left of the last byte, the reader lacks of it: the low bits of the one
number and those of the other make up the byte. -/
theorem decodeFrom_encodeFrom (bytes : List (BitVec 8)) :
    (∀ value read, decodeFrom 0 read (encodeFrom 0 value bytes) = .ok bytes) /\
      ∀ bits value read, 0 < bits -> bits < 5 -> ∀ last : BitVec 8,
        value.toNat % 2 ^ bits = last.toNat % 2 ^ bits ->
        read.toNat % 2 ^ (8 - bits) = last.toNat / 2 ^ bits ->
          decodeFrom (8 - bits) read (encodeFrom bits value bytes) = .ok (last :: bytes) := by
  induction bytes with
  | nil =>
    refine ⟨fun _ _ => rfl, fun bits value read hpos hlt last hvalue hread => ?_⟩
    rw [encodeFrom, if_pos hpos]
    obtain ⟨next, hnext, hdecode⟩ := decodeFrom_symbol (8 - bits) read (value <<< (5 - bits)) []
    rw [hdecode, if_pos (by omega)]
    have hlast : (next >>> (8 - bits + 5 - 8)).setWidth 8 = last := by
      refine setWidth_shift _ _ _ ?_
      rw [BitVec.toNat_shiftLeft, Nat.shiftLeft_eq] at hnext
      have hbyte := last.isLt
      obtain rfl | rfl | rfl | rfl : bits = 1 \/ bits = 2 \/ bits = 3 \/ bits = 4 := by omega
      all_goals omega
    rw [hlast]
    rfl
  | cons byte rest ih =>
    obtain ⟨hwhole, hpart⟩ := ih
    have hbyte := byte.isLt
    have hwide : (byte.setWidth 32).toNat = byte.toNat := by
      rw [BitVec.toNat_setWidth]
      omega
    have hcode : ∀ (v : BitVec 32) shift, (v >>> shift).toNat = v.toNat / 2 ^ shift := by
      simp [Nat.shiftRight_eq_div_pow]
    refine ⟨fun value read => ?_, fun bits value read hpos hlt last hvalue hread => ?_⟩
    · have htaken := or_toNat value (byte.setWidth 32) 8 (by omega) (by decide)
      rw [encodeFrom]
      generalize value <<< 8 ||| byte.setWidth 32 = taken at htaken
      obtain ⟨next, hnext, hread⟩ :=
        decodeFrom_symbol 0 read (taken >>> 3) (encodeFrom 3 taken rest)
      rw [hcode] at hnext
      rw [drain_once taken (by decide) (by decide)]
      exact hread.trans (hpart 3 taken next (by decide) (by decide) byte (by omega) (by omega))
    · have hlast := last.isLt
      have htaken := or_toNat value (byte.setWidth 32) 8 (by omega) (by decide)
      rw [encodeFrom]
      generalize value <<< 8 ||| byte.setWidth 32 = taken at htaken
      -- The first character completes the last byte, a second begins the next one.
      obtain rfl | hmany : bits = 1 \/ 2 ≤ bits := by omega
      · obtain ⟨next, hnext, hread⟩ :=
          decodeFrom_symbol 7 read (taken >>> 4) (encodeFrom 4 taken rest)
        rw [hcode] at hnext
        rw [drain_once taken (by decide) (by decide)]
        refine hread.trans ?_
        rw [if_pos (by decide), setWidth_shift next 4 last (by omega),
          hpart 4 taken next (by decide) (by decide) byte (by omega) (by omega)]
        rfl
      · rw [drain_twice taken (by omega) (by omega)]
        obtain ⟨next, hnext, hfirst⟩ := decodeFrom_symbol (8 - bits) read
          (taken >>> (bits + 8 - 5)) (symbol (taken >>> (bits + 8 - 5 - 5)) ::
            encodeFrom (bits + 8 - 5 - 5) taken rest)
        obtain ⟨last', hlast', hsecond⟩ := decodeFrom_symbol (8 - bits + 5 - 8) next
          (taken >>> (bits + 8 - 5 - 5)) (encodeFrom (bits + 8 - 5 - 5) taken rest)
        rw [hcode] at hnext hlast'
        refine hfirst.trans ?_
        rw [if_pos (by omega), hsecond]
        obtain rfl | rfl | rfl : bits = 2 \/ bits = 3 \/ bits = 4 := by omega
        · rw [if_pos (by decide), setWidth_shift next 3 last (by omega),
            setWidth_shift last' 0 byte (by omega), hwhole]
          rfl
        · rw [if_neg (by decide), setWidth_shift next 2 last (by omega),
            hpart 1 taken last' (by decide) (by decide) byte (by omega) (by omega)]
          rfl
        · rw [if_neg (by decide), setWidth_shift next 1 last (by omega),
            hpart 2 taken last' (by decide) (by decide) byte (by omega) (by omega)]
          rfl

def Spells (text code : List Char) : Prop :=
  (text.filter fun c => !skipped c).map Char.toUpper = code

theorem symbol_mem (value : BitVec 32) : symbol value ∈ BASE32_ALPHABET := by
  have hall : ∀ n : Fin 32, BASE32_ALPHABET.getD n 'A' ∈ BASE32_ALPHABET := by decide
  rw [symbol, and_toNat]
  exact hall ⟨value.toNat % 32, Nat.mod_lt _ (by decide)⟩

variable {c : Char}

theorem mem_drain (value : BitVec 32) :
    ∀ bits, c ∈ (drain bits value).1 -> c ∈ BASE32_ALPHABET := by
  intro bits
  induction bits using Nat.strong_induction_on with
  | _ bits ih =>
    rw [drain]
    split
    · intro hc
      obtain rfl | hlater := mem_cons.mp hc
      · exact symbol_mem _
      · exact ih (bits - 5) (by omega) hlater
    · exact fun hc => absurd hc not_mem_nil

theorem mem_encodeFrom (bytes : List (BitVec 8)) :
    ∀ bits value, c ∈ encodeFrom bits value bytes -> c ∈ BASE32_ALPHABET := by
  induction bytes with
  | nil =>
    intro bits value hc
    rw [encodeFrom] at hc
    split at hc
    · exact mem_singleton.mp hc ▸ symbol_mem _
    · exact absurd hc not_mem_nil
  | cons byte rest ih =>
    intro bits value hc
    obtain hout | hlater := mem_append.mp hc
    · exact mem_drain _ _ hout
    · exact ih _ _ hlater

theorem toUpper_other (hother : ¬ c.toNat < 128) : c.toUpper = c := by
  refine dif_neg ?_
  exact fun hc => hother (Nat.lt_of_le_of_lt hc.2 (by decide))

theorem skipped_toUpper (c : Char) : skipped c.toUpper = skipped c := by
  by_cases hsmall : c.toNat < 128
  · have hall : ∀ n : Fin 128, skipped (Char.ofNat n).toUpper = skipped (Char.ofNat n) := by
      decide +kernel
    simpa using hall ⟨c.toNat, hsmall⟩
  · rw [toUpper_other hsmall]

theorem ascii_of_toUpper (hc : c.toUpper ∈ BASE32_ALPHABET) : c.toNat < 128 := by
  have hall : BASE32_ALPHABET.all (fun c => decide (c.toNat < 128)) = true := by decide
  by_contra hother
  exact hother (of_decide_eq_true (all_eq_true.mp hall c (toUpper_other hother ▸ hc)))

theorem clean_eq {upperOther : Char -> List Char}
    (hblanks : ∀ c, isTrimmed c = true -> upperOther c = [c]) {text code : List Char}
    (hcode : ∀ c ∈ code, c ∈ BASE32_ALPHABET) (hspells : Spells text code) :
    (toUpperCase upperOther text).filter (fun c => !skipped c) = code := by
  subst hspells
  induction text with
  | nil => rfl
  | cons c rest ih =>
    rw [toUpperCase, flatMap_cons, filter_append]
    change _ ++ filter _ (toUpperCase upperOther rest) = _
    by_cases hskip : skipped c = true
    · have hkept : (c :: rest).filter (fun c => !skipped c) = rest.filter fun c => !skipped c := by
        rw [filter_cons, hskip]
        rfl
      rw [hkept] at hcode ⊢
      rw [ih hcode]
      split
      · rw [filter_singleton, skipped_toUpper, hskip]
        rfl
      · have hblank : isTrimmed c = true := by
          rw [skipped, Bool.or_eq_true] at hskip
          refine hskip.resolve_right fun heq => ?_
          simp_all
        rw [hblanks c hblank, filter_singleton, hskip]
        rfl
    · have hkept : (c :: rest).filter (fun c => !skipped c) =
          c :: rest.filter fun c => !skipped c := by
        rw [filter_cons, Bool.eq_false_iff.mpr hskip]
        rfl
      rw [hkept, map_cons] at hcode ⊢
      obtain ⟨hfirst, hlater⟩ := forall_mem_cons.mp hcode
      rw [ih hlater, if_pos (ascii_of_toUpper hfirst), filter_singleton, skipped_toUpper,
        Bool.eq_false_iff.mpr hskip]
      rfl

/-- Whatever is written is read back, in any of its spellings. -/
theorem base32Decode_spelled {upperOther : Char -> List Char}
    (hblanks : ∀ c, isTrimmed c = true -> upperOther c = [c]) {buf : List (BitVec 8)}
    {text : List Char} (hspells : Spells text (base32Encode buf)) :
    base32Decode upperOther text = .ok buf := by
  rw [base32Decode, clean_eq hblanks (fun _ => mem_encodeFrom buf 0 0) hspells]
  exact (decodeFrom_encodeFrom buf).1 0 0

theorem base32Decode_spelled_small :
    base32Encode [0x66, 0x6f] = ['M', 'Z', 'X', 'Q'] /\
      base32Decode (fun c => [c]) ['m', 'z', ' ', 'X', 'q', '='] = .ok [0x66, 0x6f] :=
  ⟨by decide +kernel, base32Decode_spelled (fun _ _ => rfl) (by unfold Spells; decide +kernel)⟩

end AnchorMind.Admin.Base32
