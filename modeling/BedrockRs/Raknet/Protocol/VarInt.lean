/-
Variable-length integers (`protocol/types/varint.rs`). A number goes out in groups of seven bits, the
lowest first, and the high bit of a byte says that another follows; signed numbers are folded into
unsigned ones first (zig-zag).

Both codecs round trip. The decoder is exact on everything else it reads except for the tenth byte: it
has room for one bit of it and drops the others (`varInt_exact`).
-/
import BedrockRs.Raknet.Protocol.Wire
import BedrockRs.Lib.Codec

namespace BedrockRs.Raknet

open Lib.Codec

/-- Unsigned variable-length integer encoding used by RakNet. -/
structure VarUInt where
  val : UInt64
deriving DecidableEq, Repr

/-- Signed variable-length integer encoding (zig-zag over `VarUInt`). -/
structure VarInt where
  val : Int64
deriving DecidableEq, Repr

namespace VarUInt

theorem toNat_shiftRight_seven (v : UInt64) : (v >>> 7).toNat = v.toNat / 128 := by
  rw [UInt64.toNat_shiftRight]
  exact Nat.shiftRight_eq_div_pow v.toNat 7

/-- The loop of `encode_raknet`. -/
def encodeLoop (v : UInt64) : Bytes :=
  if 0x80 ≤ v then ((v &&& 0x7f) ||| 0x80).toUInt8 :: encodeLoop (v >>> 7) else [(v &&& 0x7f).toUInt8]
termination_by v.toNat
decreasing_by
  rename_i h
  rw [toNat_shiftRight_seven]
  have hle : 128 ≤ v.toNat := UInt64.le_iff_toNat_le.1 h
  omega

def encode (v : VarUInt) : Bytes := encodeLoop v.val

/-- The loop of `decode_raknet`, on the rest of the buffer. -/
def decodeLoop (result : UInt64) (shift : Nat) (src : Bytes) : Except DecodeError (UInt64 × Bytes) :=
  if 64 ≤ shift then .error .varIntExceedsLimit
  else match src with
    | [] => .error .unexpectedEof
    | v :: src =>
      let result := result ||| ((v &&& 0x7f).toUInt64 <<< UInt64.ofNat shift)
      if v &&& 0x80 = 0 then .ok (result, src) else decodeLoop result (shift + 7) src

def decode : Get VarUInt := fun src => (decodeLoop 0 0 src).map fun (result, src) => (⟨result⟩, src)

end VarUInt

namespace VarInt

def encode (v : VarInt) : Bytes := VarUInt.encode ⟨((v.val <<< 1) ^^^ (v.val >>> 63)).toUInt64⟩

def decode : Get VarInt := do
  let ux := (← VarUInt.decode).val
  return ⟨(ux >>> 1).toInt64 ^^^ -(ux &&& 1).toInt64⟩

end VarInt

namespace VarUInt

/-! ## Groups of seven bits -/

/-- The byte says that another one follows. -/
def continues (b : UInt8) : Bool := b &&& 0x80 ≠ 0

/-- The little-endian base-128 number of the bytes. -/
def number (bs : Bytes) : Nat := Nat.ofDigits 128 (bs.map fun b => b.toNat % 128)

theorem continues_iff (b : UInt8) : continues b = true ↔ 128 ≤ b.toNat := by
  have hbits : ∀ n < 256, n &&& 128 ≠ 0 ↔ 128 ≤ n := by decide +kernel
  rw [continues, decide_eq_true_iff, ← hbits b.toNat b.toNat_lt, ne_eq, ne_eq, ← UInt8.toNat_inj, UInt8.toNat_and]
  rfl

theorem toNat_and_group (b : UInt8) : (b &&& 0x7f).toUInt64.toNat = b.toNat % 128 := by
  rw [UInt8.toNat_toUInt64, UInt8.toNat_and]
  exact Nat.and_two_pow_sub_one_eq_mod b.toNat 7

theorem number_cons (b : UInt8) (bs : Bytes) : number (b :: bs) = b.toNat % 128 + 128 * number bs := by
  rw [number, List.map_cons, Nat.ofDigits_cons]
  rfl

theorem number_singleton (b : UInt8) : number [b] = b.toNat % 128 := Nat.ofDigits_singleton

theorem number_concat (init : Bytes) (last : UInt8) :
    number (init ++ [last]) = number init + 128 ^ init.length * (last.toNat % 128) := by
  rw [number, List.map_append, Nat.ofDigits_append, List.length_map, List.map_singleton, Nat.ofDigits_singleton]
  rfl

theorem number_lt (bs : Bytes) : number bs < 128 ^ bs.length := by
  have hlt := Nat.ofDigits_lt_base_pow_length (b := 128) (l := bs.map fun b => b.toNat % 128) (by decide) (by
    intro d hd
    obtain ⟨b, -, rfl⟩ := List.mem_map.1 hd
    exact Nat.mod_lt _ (by decide))
  rwa [List.length_map] at hlt

/-! ## The loops -/

/-- The writer leaves a word of the right number. -/
theorem encodeLoop_spec : ∀ (n : Nat) {v : UInt64}, v.toNat < 128 ^ (n + 1) →
    Word continues (encodeLoop v) ∧ number (encodeLoop v) = v.toNat ∧ (encodeLoop v).length ≤ n + 1
  | n, v, hv => by
    have hlow : (v &&& 0x7f).toUInt8.toNat = v.toNat % 128 := by
      rw [UInt64.toNat_toUInt8, UInt64.toNat_and, show (0x7f : UInt64).toNat = 2 ^ 7 - 1 from rfl,
        Nat.and_two_pow_sub_one_eq_mod]
      omega
    rw [encodeLoop]
    by_cases hle : 0x80 ≤ v
    · have hle' : 128 ≤ v.toNat := UInt64.le_iff_toNat_le.1 hle
      have hhigh : ((v &&& 0x7f) ||| 0x80).toUInt8.toNat = v.toNat % 128 + 128 := by
        rw [UInt64.toUInt8_or, UInt8.toNat_or, hlow, Nat.or_comm]
        exact (Nat.two_pow_add_eq_or_of_lt (i := 7) (Nat.mod_lt _ (by decide)) 1).symm.trans (Nat.add_comm _ _)
      cases n with
      | zero => omega
      | succ n =>
        obtain ⟨hword, hnumber, hlength⟩ := encodeLoop_spec n (v := v >>> 7) (by
          rw [toNat_shiftRight_seven]
          exact Nat.div_lt_of_lt_mul (by rwa [← Nat.pow_succ']))
        rw [if_pos hle]
        refine ⟨.cons ((continues_iff _).2 (by omega)) hword, ?_, Nat.succ_le_succ hlength⟩
        rw [number_cons, hnumber, hhigh, toNat_shiftRight_seven]
        omega
    · have hlt : v.toNat < 128 := by
        by_contra h
        exact hle (UInt64.le_iff_toNat_le.2 (Nat.not_lt.1 h))
      rw [if_neg hle]
      refine ⟨.last ?_, ?_, by simp⟩
      · rw [← Bool.not_eq_true, continues_iff]
        omega
      · rw [number_singleton, hlow]
        omega

/-- One round of the reader: the group goes above the bits read so far, and what is beyond 64 bits is lost. -/
theorem toNat_or_shiftLeft {result : UInt64} {shift : Nat} (hshift : shift < 64) (hresult : result.toNat < 2 ^ shift)
    (b : UInt8) : (result ||| ((b &&& 0x7f).toUInt64 <<< UInt64.ofNat shift)).toNat =
      (result.toNat + 2 ^ shift * (b.toNat % 128)) % 2 ^ 64 := by
  have hsplit : (2 : Nat) ^ 64 = 2 ^ shift * 2 ^ (64 - shift) := by
    rw [← Nat.pow_add]
    congr 1
    omega
  generalize hg : b.toNat % 128 = g
  rw [UInt64.toNat_or, UInt64.toNat_shiftLeft, toNat_and_group, hg, UInt64.toNat_ofNat',
    Nat.mod_mod_of_dvd _ (by decide), Nat.mod_eq_of_lt hshift, Nat.shiftLeft_eq, Nat.mul_comm g, hsplit,
    Nat.mul_mod_mul_left, Nat.or_comm, ← Nat.two_pow_add_eq_or_of_lt hresult, Nat.mod_mul, Nat.add_mul_mod_self_left,
    Nat.mod_eq_of_lt hresult, Nat.add_mul_div_left _ _ (Nat.two_pow_pos shift), Nat.div_eq_of_lt hresult, Nat.zero_add,
    Nat.add_comm]

/-- While there is room for a whole group none of it is lost. -/
theorem toNat_or_shiftLeft_of_room {result : UInt64} {shift : Nat} (hshift : shift + 7 ≤ 64)
    (hresult : result.toNat < 2 ^ shift) (b : UInt8) :
    (result ||| ((b &&& 0x7f).toUInt64 <<< UInt64.ofNat shift)).toNat = result.toNat + 2 ^ shift * (b.toNat % 128) ∧
      result.toNat + 2 ^ shift * (b.toNat % 128) < 2 ^ (shift + 7) := by
  have hgroup : 2 ^ shift * (b.toNat % 128) ≤ 2 ^ shift * 127 := Nat.mul_le_mul_left _ (by omega)
  have hroom : result.toNat + 2 ^ shift * (b.toNat % 128) < 2 ^ (shift + 7) := by
    rw [Nat.pow_add]
    omega
  have hle : (2 : Nat) ^ (shift + 7) ≤ 2 ^ 64 := Nat.pow_le_pow_right (by decide) hshift
  rw [toNat_or_shiftLeft (by omega) hresult, Nat.mod_eq_of_lt (hroom.trans_le hle)]
  exact ⟨rfl, hroom⟩

theorem decodeLoop_more {b : UInt8} (hb : continues b = true) {result : UInt64} {shift : Nat} (hshift : shift < 64)
    (src : Bytes) : decodeLoop result shift (b :: src) =
      decodeLoop (result ||| ((b &&& 0x7f).toUInt64 <<< UInt64.ofNat shift)) (shift + 7) src := by
  have hmore : b &&& 0x80 ≠ 0 := by simpa [continues] using hb
  rw [decodeLoop, if_neg (by omega)]
  exact if_neg hmore

/-- The reader takes a word of at most ten bytes, and its number modulo 2^64. -/
theorem decodeLoop_word {word : Bytes} (hword : Word continues word) (rest : Bytes) : ∀ {k : Nat} {result : UInt64},
    k + word.length ≤ 10 → result.toNat < 2 ^ (7 * k) →
      decodeLoop result (7 * k) (word ++ rest) =
      .ok (UInt64.ofNat (result.toNat + 2 ^ (7 * k) * number word), rest) := by
  induction hword with
  | @last b hb =>
    intro k result hk hresult
    rw [List.length_singleton] at hk
    have hstop : b &&& 0x80 = 0 := by simpa [continues] using hb
    have hround := toNat_or_shiftLeft (by omega) hresult b
    rw [List.singleton_append, decodeLoop, if_neg (by omega), number_singleton,
      ← UInt64.toNat_inj.1 (hround.trans (UInt64.toNat_ofNat' ..).symm)]
    exact if_pos hstop
  | @cons b word hb hword ih =>
    intro k result hk hresult
    rw [List.length_cons] at hk
    have hpos := hword.length_pos
    obtain ⟨hround, hlt⟩ := toNat_or_shiftLeft_of_room (by omega) hresult b
    have hread := ih (k := k + 1) (by omega) (by rw [hround]; exact hlt)
    rw [List.cons_append, decodeLoop_more hb (by omega), show 7 * k + 7 = 7 * (k + 1) by omega, hread, hround,
      number_cons, Nat.mul_add, Nat.pow_add, Nat.mul_add, Nat.mul_assoc, Nat.add_assoc]

/-- Ten bytes that all say that another follows are refused. -/
theorem decodeLoop_limit : ∀ {src : Bytes} {k : Nat} {result : UInt64}, 10 ≤ k + src.length →
    (∀ b ∈ src.take (10 - k), continues b = true) → decodeLoop result (7 * k) src = .error .varIntExceedsLimit
  | [], k, result, hk, _ => by
    rw [List.length_nil] at hk
    rw [decodeLoop, if_pos (by omega)]
  | b :: src, k, result, hk, hall => by
    rw [List.length_cons] at hk
    by_cases hfull : 10 ≤ k
    · rw [decodeLoop, if_pos (by omega)]
    · rw [show 10 - k = 10 - (k + 1) + 1 by omega, List.take_succ_cons, List.forall_mem_cons] at hall
      rw [decodeLoop_more hall.1 (by omega), show 7 * k + 7 = 7 * (k + 1) by omega]
      exact decodeLoop_limit (by omega) hall.2

/-- Fewer than ten of them are the start of a number. -/
theorem decodeLoop_eof : ∀ {src : Bytes} {k : Nat} {result : UInt64}, k + src.length < 10 →
    (∀ b ∈ src, continues b = true) → decodeLoop result (7 * k) src = .error .unexpectedEof
  | [], k, result, hk, _ => by
    rw [List.length_nil] at hk
    rw [decodeLoop, if_neg (by omega)]
  | b :: src, k, result, hk, hall => by
    rw [List.length_cons] at hk
    obtain ⟨hb, hall⟩ := List.forall_mem_cons.1 hall
    rw [decodeLoop_more hb (by omega), show 7 * k + 7 = 7 * (k + 1) by omega]
    exact decodeLoop_eof (by omega) hall

/-! ## What the reader returns -/

theorem decode_word {word : Bytes} (hword : Word continues word) (hlength : word.length ≤ 10) (rest : Bytes) :
    decode (word ++ rest) = .ok (⟨UInt64.ofNat (number word)⟩, rest) := by
  have hzero : (0 : UInt64).toNat < 2 ^ (7 * 0) := by decide
  rw [decode, show (0 : Nat) = 7 * 0 from rfl, decodeLoop_word hword rest (by omega) hzero]
  simp [Except.map]

theorem decode_long {word : Bytes} (hword : Word continues word) (hlength : 10 < word.length) (rest : Bytes) :
    decode (word ++ rest) = .error .varIntExceedsLimit := by
  obtain ⟨init, last, rfl, hinit, -⟩ := hword.exists_concat
  rw [List.length_append, List.length_singleton] at hlength
  have hall : ∀ b ∈ (init ++ [last] ++ rest).take (10 - 0), continues b = true := by
    intro b hb
    rw [List.append_assoc, List.take_append_of_le_length (by omega)] at hb
    exact hinit b (List.mem_of_mem_take hb)
  rw [decode, show (0 : Nat) = 7 * 0 from rfl, decodeLoop_limit (by simp; omega) hall]
  rfl

theorem decode_all {src : Bytes} (hall : ∀ b ∈ src, continues b = true) : ∃ e, decode src = .error e := by
  rw [decode, show (0 : Nat) = 7 * 0 from rfl]
  by_cases hlength : 10 ≤ src.length
  · exact ⟨.varIntExceedsLimit, by
      rw [decodeLoop_limit (by omega) fun b hb => hall b (List.mem_of_mem_take hb)]
      rfl⟩
  · exact ⟨.unexpectedEof, by
      rw [decodeLoop_eof (by omega) hall]
      rfl⟩

theorem encode_spec (v : VarUInt) :
    Word continues v.encode ∧ number v.encode = v.val.toNat ∧ v.encode.length ≤ 10 :=
  encodeLoop_spec 9 (v.val.toNat_lt.trans (by decide))

theorem reads_encode (v : VarUInt) : Reads decode v.encode v := by
  intro rest
  obtain ⟨hword, hnumber, hlength⟩ := v.encode_spec
  rw [decode_word hword hlength, hnumber, UInt64.ofNat_toNat]

/-- The decoder neither returns another number than the one that the bytes it consumed form, nor takes one that does not
fit into 64 bits for anything but too long. -/
structure Exact (src : Bytes) : Prop where
  value : ∀ v rest, decode src = .ok (v, rest) → ∃ consumed, src = consumed ++ rest ∧ number consumed = v.val.toNat
  limit : ∀ word rest, src = word ++ rest → Word continues word → 2 ^ 64 ≤ number word →
    decode src = .error .varIntExceedsLimit

/-- The tenth byte of a number has bits beyond the lowest one: `shift` is 63 there. -/
def TenthOverflows (src : Bytes) : Prop := ∃ init last rest, src = init ++ last :: rest ∧ init.length = 9 ∧
  (∀ b ∈ init, 0x80 ≤ b) ∧ 0x02 ≤ last ∧ last < 0x80

/-- A number of at most ten bytes fits unless its tenth byte does not. -/
theorem le_number_iff {init : Bytes} {last : UInt8} (hlength : init.length ≤ 9) (hlast : continues last = false) :
    2 ^ 64 ≤ number (init ++ [last]) ↔ init.length = 9 ∧ 2 ≤ last.toNat := by
  have hsmall : last.toNat < 128 := by
    rw [← Nat.not_le, ← continues_iff, hlast]
    exact Bool.false_ne_true
  have hlt := number_lt init
  rw [number_concat, Nat.mod_eq_of_lt hsmall]
  rcases Nat.eq_or_lt_of_le hlength with hnine | hshort
  · rw [hnine] at hlt ⊢
    constructor
    · intro h
      exact ⟨rfl, by omega⟩
    · rintro ⟨-, h⟩
      omega
  · have hpow : 128 ^ init.length ≤ 128 ^ 8 := Nat.pow_le_pow_right (by decide) (by omega)
    have hmul : 128 ^ init.length * last.toNat ≤ 128 ^ 8 * 127 := Nat.mul_le_mul hpow (by omega)
    constructor
    · intro h
      omega
    · rintro ⟨h, -⟩
      omega

/-- A number that does not fit although it has at most ten bytes. -/
theorem tenthOverflows_iff {src : Bytes} : TenthOverflows src ↔
    ∃ word rest, src = word ++ rest ∧ Word continues word ∧ word.length ≤ 10 ∧ 2 ^ 64 ≤ number word := by
  constructor
  · rintro ⟨init, last, rest, rfl, hnine, hinit, hge, hlt⟩
    have hlast : continues last = false := by
      rw [← Bool.not_eq_true, continues_iff]
      exact Nat.not_le.2 hlt
    have hlength : (init ++ [last]).length ≤ 10 := by rw [List.length_append, hnine, List.length_singleton]
    exact ⟨init ++ [last], rest, List.append_cons .., word_concat (fun b hb => (continues_iff b).2 (hinit b hb)) hlast,
      hlength, (le_number_iff hnine.le hlast).2 ⟨hnine, hge⟩⟩
  · rintro ⟨word, rest, rfl, hword, hlength, hle⟩
    obtain ⟨init, last, rfl, hinit, hlast⟩ := hword.exists_concat
    rw [List.length_append, List.length_singleton] at hlength
    obtain ⟨hnine, htwo⟩ := (le_number_iff (by omega) hlast).1 hle
    rw [← Bool.not_eq_true, continues_iff] at hlast
    exact ⟨init, last, rest, (List.append_cons ..).symm, hnine, fun b hb => (continues_iff b).1 (hinit b hb), htwo,
      Nat.not_le.1 hlast⟩

/-- An error is exact if it is the one for a number that is too long, or there is no number. -/
theorem Exact.of_error {src : Bytes} {e : DecodeError} (hread : decode src = .error e)
    (hlimit : ∀ word rest, src = word ++ rest → Word continues word → e = .varIntExceedsLimit) : Exact src := by
  constructor
  · rintro v rest h
    rw [hread] at h
    cases h
  · intro word rest hsrc hword _
    rw [hread, hlimit word rest hsrc hword]

theorem exact_iff (src : Bytes) : Exact src ↔ ¬ TenthOverflows src := by
  rw [tenthOverflows_iff]
  constructor
  · rintro hexact ⟨word, rest, rfl, hword, hlength, hle⟩
    have hlimit := hexact.limit word rest rfl hword hle
    rw [decode_word hword hlength] at hlimit
    cases hlimit
  · intro hfits
    rcases word_or_all continues src with ⟨word, rest, rfl, hword⟩ | hall
    · by_cases hlength : word.length ≤ 10
      · have hnumber : number word < 2 ^ 64 := by
          by_contra hle
          exact hfits ⟨word, rest, rfl, hword, hlength, Nat.not_lt.1 hle⟩
        constructor
        · rintro v rest' h
          rw [decode_word hword hlength] at h
          cases h
          exact ⟨word, rfl, (UInt64.toNat_ofNat_of_lt' hnumber).symm⟩
        · -- the bytes start with one word only, and its number fits
          intro word' rest' heq hword' hle
          rw [← (hword.unique hword' heq).1] at hle
          omega
      · exact .of_error (decode_long hword (by omega) rest) fun _ _ _ _ => rfl
    · obtain ⟨e, hread⟩ := decode_all hall
      refine .of_error hread ?_
      rintro word rest rfl hword
      obtain ⟨init, last, rfl, -, hlast⟩ := hword.exists_concat
      rw [hall last (by simp)] at hlast
      cases hlast

end VarUInt

/-! ## Zig-zag -/

namespace VarInt

theorem ushiftRight_eq_zero_of_msb {x : BitVec 64} (h : x.msb = false) : x >>> 63 = 0#64 := by
  apply BitVec.eq_of_toNat_eq
  have hlt := BitVec.msb_eq_false_iff_two_mul_lt.1 h
  rw [BitVec.toNat_ushiftRight, Nat.shiftRight_eq_div_pow]
  exact Nat.div_eq_of_lt (by omega)

/-- Folding the sign into the lowest bit loses nothing, extreme values included. -/
theorem zigzag_bits (x : BitVec 64) :
    ((x <<< 1 ^^^ x.sshiftRight 63) >>> 1) ^^^ -((x <<< 1 ^^^ x.sshiftRight 63) &&& 1#64) = x := by
  have hlow : ∀ y : BitVec 64, (y &&& 1#64).toNat = y.toNat % 2 := fun y => by
    rw [BitVec.toNat_and]
    exact Nat.and_two_pow_sub_one_eq_mod y.toNat 1
  have hdouble : (x <<< 1).toNat = 2 * x.toNat % 2 ^ 64 := by
    rw [BitVec.toNat_shiftLeft, Nat.shiftLeft_eq, Nat.mul_comm]
  cases hx : x.msb with
  | false =>
    -- the arithmetic shift leaves no bit, and the lowest bit of the double is 0
    have hlt := BitVec.msb_eq_false_iff_two_mul_lt.1 hx
    have hsign : x.sshiftRight 63 = 0#64 := by
      rw [BitVec.sshiftRight_eq_of_msb_false hx, ushiftRight_eq_zero_of_msb hx]
    have heven : x <<< 1 &&& 1#64 = 0#64 := BitVec.eq_of_toNat_eq (by rw [hlow, hdouble]; simp)
    rw [hsign, BitVec.xor_zero, heven, BitVec.neg_zero, BitVec.xor_zero]
    apply BitVec.eq_of_toNat_eq
    rw [BitVec.toNat_ushiftRight, hdouble, Nat.shiftRight_eq_div_pow]
    omega
  | true =>
    -- it leaves all of them, so that every bit of the double is flipped and flipped back
    have hge := BitVec.msb_eq_true_iff_two_mul_ge.1 hx
    have hsign : x.sshiftRight 63 = BitVec.allOnes 64 := by
      rw [BitVec.sshiftRight_eq_of_msb_true hx, ushiftRight_eq_zero_of_msb (by simp [hx]), BitVec.not_zero]
    have hodd : ~~~(x <<< 1) &&& 1#64 = 1#64 :=
      BitVec.eq_of_toNat_eq (by rw [hlow, BitVec.toNat_not, hdouble]; simp; omega)
    rw [hsign, BitVec.xor_allOnes, hodd, BitVec.neg_one_eq_allOnes, BitVec.xor_allOnes]
    apply BitVec.eq_of_toNat_eq
    rw [BitVec.toNat_not, BitVec.toNat_ushiftRight, BitVec.toNat_not, hdouble, Nat.shiftRight_eq_div_pow]
    omega

theorem zigzag (x : Int64) :
    (((x <<< 1) ^^^ (x >>> 63)).toUInt64 >>> 1).toInt64 ^^^ -(((x <<< 1) ^^^ (x >>> 63)).toUInt64 &&& 1).toInt64 = x :=
  Int64.toBitVec_inj.1 (zigzag_bits x.toBitVec)

theorem reads_encode (v : VarInt) : Reads decode v.encode v := by
  have hread := (VarUInt.reads_encode ⟨((v.val <<< 1) ^^^ (v.val >>> 63)).toUInt64⟩).bind
    (f := fun ux : VarUInt => pure (⟨(ux.val >>> 1).toInt64 ^^^ -(ux.val &&& 1).toInt64⟩ : VarInt)) (Reads.pure _)
  rw [List.append_nil, zigzag] at hread
  exact hread

end VarInt

/-- Every number is read back from its encoding, which has at most ten bytes; and what the decoder makes of a
byte string is exact unless the tenth byte of the number holds more than the one bit there is room for. -/
theorem varInt_exact (u : VarUInt) (v : VarInt) (src : Bytes) :
    (Reads VarUInt.decode u.encode u ∧ u.encode.length ≤ 10) ∧
    (Reads VarInt.decode v.encode v ∧ v.encode.length ≤ 10) ∧
    (VarUInt.Exact src ↔ ¬ VarUInt.TenthOverflows src) :=
  ⟨⟨u.reads_encode, u.encode_spec.2.2⟩, ⟨v.reads_encode, (VarUInt.encode_spec _).2.2⟩, VarUInt.exact_iff src⟩

/-- 2^64 in ten bytes is read as 0. -/
theorem not_varInt_exact : ¬ VarUInt.Exact [0x80, 0x80, 0x80, 0x80, 0x80, 0x80, 0x80, 0x80, 0x80, 0x02] := by
  intro h
  obtain ⟨consumed, hsrc, hnumber⟩ := h.value ⟨0⟩ [] rfl
  rw [List.append_nil] at hsrc
  rw [← hsrc] at hnumber
  revert hnumber
  decide

end BedrockRs.Raknet
