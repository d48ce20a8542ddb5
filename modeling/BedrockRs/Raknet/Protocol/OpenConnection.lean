/-
The codec of the offline handshake. What the client and the listener write for its four packets is
what the other side reads, except for one thing: the reader of the second request tells a cookie from
an address by its first byte, so a cookie that starts with 4 or 6 would be taken for an address.
-/
import BedrockRs.Raknet.Protocol.Codec

namespace BedrockRs.Raknet

open BedrockRs.Lib.Codec

/-! ## Integers, arrays and the magic -/

/-- Bytes above position `k + 8` and the byte at position `k` make up the bytes from `k` on. -/
theorem join_byte (n k : Nat) : n / 2 ^ (k + 8) * 2 ^ (k + 8) ||| n / 2 ^ k % 256 * 2 ^ k = n / 2 ^ k * 2 ^ k := by
  have hlow : n / 2 ^ k % 256 * 2 ^ k < 2 ^ (k + 8) := by
    rw [pow_add, Nat.mul_comm (2 ^ k)]
    exact Nat.mul_lt_mul_of_pos_right (Nat.mod_lt _ (by decide)) (Nat.two_pow_pos k)
  rw [or_eq_add (k + 8) (Nat.mul_mod_left _ _) hlow, pow_add, ← Nat.div_div_eq_div_mul, Nat.mul_comm (2 ^ k) (2 ^ 8),
    ← Nat.mul_assoc, ← Nat.add_mul]
  congr 1
  exact Nat.div_add_mod' (n / 2 ^ k) 256

theorem u64_reads (v : UInt64) : Reads Get.u64 (Put.u64 v) v := by
  intro rest
  have hv : ((v >>> 56).toUInt8.toUInt64 <<< 56) ||| ((v >>> 48).toUInt8.toUInt64 <<< 48) |||
      ((v >>> 40).toUInt8.toUInt64 <<< 40) ||| ((v >>> 32).toUInt8.toUInt64 <<< 32) |||
      ((v >>> 24).toUInt8.toUInt64 <<< 24) ||| ((v >>> 16).toUInt8.toUInt64 <<< 16) |||
      ((v >>> 8).toUInt8.toUInt64 <<< 8) ||| v.toUInt8.toUInt64 = v := by
    apply UInt64.toNat_inj.1
    have := v.toNat_lt
    simp only [UInt64.toNat_or, UInt64.toNat_shiftLeft, UInt8.toNat_toUInt64, UInt64.toNat_toUInt8,
      UInt64.toNat_shiftRight, Nat.shiftRight_eq_div_pow, Nat.shiftLeft_eq, UInt64.reduceToNat, Nat.reduceMod]
    generalize v.toNat = n at *
    -- no byte is shifted out of the word
    have hfits : ∀ k, k ≤ 56 → n / 2 ^ k % 2 ^ 8 * 2 ^ k % 2 ^ 64 = n / 2 ^ k % 256 * 2 ^ k := by
      intro k hk
      refine Nat.mod_eq_of_lt ?_
      have hpow : 256 * 2 ^ k ≤ 2 ^ 64 := by
        calc 256 * 2 ^ k ≤ 256 * 2 ^ 56 := Nat.mul_le_mul_left _ (Nat.pow_le_pow_right (by decide) hk)
          _ = 2 ^ 64 := by norm_num
      exact lt_of_lt_of_le (Nat.mul_lt_mul_of_pos_right (Nat.mod_lt _ (by decide)) (Nat.two_pow_pos k)) hpow
    have htop : n / 2 ^ 56 % 256 * 2 ^ 56 = n / 2 ^ 56 * 2 ^ 56 := by
      rw [Nat.mod_eq_of_lt (by omega)]
    rw [hfits 56 (by decide), hfits 48 (by decide), hfits 40 (by decide), hfits 32 (by decide), hfits 24 (by decide),
      hfits 16 (by decide), hfits 8 (by decide), htop, join_byte n 48, join_byte n 40, join_byte n 32, join_byte n 24,
      join_byte n 16, join_byte n 8]
    have hlast := join_byte n 0
    simpa using hlast
  show Except.ok (_, rest) = _
  rw [hv]

theorem bool_reads (v : Bool) : Reads Get.bool (Put.bool v) v := by
  cases v <;> exact fun _ => rfl

theorem u16le_reads (v : UInt16) : ∃ w, Reads Get.u16le (Put.u16le v) w := ⟨_, fun _ => rfl⟩

theorem vector_u8_reads : ∀ {n : Nat} (v : List.Vector UInt8 n), Reads (Get.vector Get.u8 n) v.toList v
  | 0, v => by
    rw [List.Vector.eq_nil v]
    exact .pure _
  | n + 1, v => by
    obtain ⟨b, w, rfl⟩ := v.exists_eq_cons
    rw [List.Vector.toList_cons, ← List.append_nil (b :: w.toList)]
    exact (u8_reads b).bind ((vector_u8_reads w).bind (.pure _))

/-- A check of the remaining length that the bytes to be read pass. -/
theorem remaining_guard_reads {α : Type} {k : Nat} {e : DecodeError} {g : Get α} {bs : Bytes} {a : α}
    (hlen : k ≤ bs.length) (h : Reads g bs a) : Reads (do
      if (← Get.remaining) < k then throw e
      g) bs a := by
  intro rest
  have hle : ¬ (bs ++ rest).length < k := by
    rw [List.length_append]
    omega
  refine (congrFun (if_neg hle) (bs ++ rest)).trans ?_
  exact h rest

theorem defaultMagic_reads : Reads Get.defaultMagic defaultUnconnectedMagic.toList defaultUnconnectedMagic := by
  have hmagic : Reads Get.magic defaultUnconnectedMagic.toList defaultUnconnectedMagic :=
    remaining_guard_reads (k := 16) (by decide) (vector_u8_reads defaultUnconnectedMagic)
  rw [← List.append_nil defaultUnconnectedMagic.toList]
  refine hmagic.bind ?_
  rw [if_neg (not_not_intro rfl)]
  exact .pure _

namespace SocketAddr

theorem map_complement (ip : List.Vector UInt8 4) : ((ip.map (~~~ ·)).map (~~~ ·)) = ip := by
  apply List.Vector.eq
  rw [List.Vector.toList_map, List.Vector.toList_map, List.map_map]
  have hid : ((~~~ ·) ∘ (~~~ ·) : UInt8 → UInt8) = id := by
    funext b
    simp
  rw [hid, List.map_id]

/-- Every address is read back. -/
theorem reads (addr : SocketAddr) : Reads decode addr.encode addr := by
  cases addr with
  | v4 ip port =>
    have hfields : Reads (do
        let ip ← Get.vector Get.u8 4
        return SocketAddr.v4 (ip.map (~~~ ·)) (← Get.u16)) ((ip.map (~~~ ·)).toList ++ (Put.u16 port ++ []))
        (.v4 ip port) := by
      refine (vector_u8_reads (ip.map (~~~ ·))).bind ((u16_reads port).bind ?_)
      rw [map_complement]
      exact .pure _
    rw [List.append_nil, List.Vector.toList_map] at hfields
    have hlen : 4 + 2 ≤ (ip.toList.map (~~~ ·) ++ Put.u16 port).length := by simp [Put.u16]
    exact (u8_reads 4).bind (remaining_guard_reads hlen hfields)
  | v6 ip port flowinfo scopeId =>
    -- the family is read and dropped
    obtain ⟨family, hfamily⟩ := u16le_reads 23
    have hfields : Reads (do
        let _family ← Get.u16le
        let port ← Get.u16
        let flowinfo ← Get.u32
        let ip ← Get.vector Get.u8 16
        return SocketAddr.v6 ip port flowinfo (← Get.u32))
        (Put.u16le 23 ++ (Put.u16 port ++ (Put.u32 flowinfo ++ (ip.toList ++ (Put.u32 scopeId ++ [])))))
        (.v6 ip port flowinfo scopeId) :=
      hfamily.bind <| (u16_reads port).bind <| (u32_reads flowinfo).bind <| (vector_u8_reads ip).bind <|
        (u32_reads scopeId).bind <| .pure _
    have hbytes : encode (.v6 ip port flowinfo scopeId) =
        [6] ++ (Put.u16le 23 ++ (Put.u16 port ++ (Put.u32 flowinfo ++ (ip.toList ++ (Put.u32 scopeId ++ []))))) := by
      simp [encode]
    have hlen : 2 + 2 + 4 + 16 + 4 ≤
        (Put.u16le 23 ++ (Put.u16 port ++ (Put.u32 flowinfo ++ (ip.toList ++ (Put.u32 scopeId ++ []))))).length := by
      simp [Put.u16le, Put.u16, Put.u32]
    rw [hbytes]
    exact (u8_reads 6).bind (remaining_guard_reads hlen hfields)

end SocketAddr

/-! ## The four packets -/

theorem OpenConnectionRequest1.reads (version : UInt8) (padding : EoBPadding) :
    OpenConnectionRequest1.decode (OpenConnectionRequest1.encode ⟨defaultUnconnectedMagic, version, padding⟩) =
      .ok (⟨defaultUnconnectedMagic, version, padding⟩, []) := by
  have hpadding : Get.eobPadding (Put.eobPadding padding) = .ok (padding, []) := by
    refine bind_ok.2 ⟨_, _, rfl, pure_ok.2 ⟨?_, rfl⟩⟩
    simp [Put.eobPadding]
  unfold OpenConnectionRequest1.encode
  rw [List.append_assoc]
  exact bind_ok.2 ⟨_, _, defaultMagic_reads _, bind_ok.2 ⟨_, _, u8_reads version _, bind_ok.2 ⟨_, _, hpadding, rfl⟩⟩⟩

theorem OpenConnectionReply1.reads (guid : UInt64) (cookie : UInt32) (mtu : UInt16) :
    Reads OpenConnectionReply1.decode (OpenConnectionReply1.encode ⟨defaultUnconnectedMagic, guid, some cookie, mtu⟩)
      ⟨defaultUnconnectedMagic, guid, some cookie, mtu⟩ := by
  have hfields : Reads OpenConnectionReply1.decode (defaultUnconnectedMagic.toList ++ (Put.u64 guid ++ (Put.bool true ++
      (Put.u32 cookie ++ (Put.u16 mtu ++ []))))) ⟨defaultUnconnectedMagic, guid, some cookie, mtu⟩ :=
    defaultMagic_reads.bind <| (u64_reads guid).bind <| (bool_reads true).bind <| ((u32_reads cookie).map some).bind <|
      (u16_reads mtu).bind <| .pure _
  simpa only [OpenConnectionReply1.encode, Option.isSome_some, List.append_assoc, List.append_nil] using hfields

/-- A cookie that does not start like an address. -/
def IsUnambiguous (cookie : UInt32) : Prop := (cookie >>> 24).toUInt8 ≠ 4 ∧ (cookie >>> 24).toUInt8 ≠ 6

/-- A second request with such a cookie is read back, but for its proof flag. -/
theorem OpenConnectionRequest2.reads {cookie : UInt32} (hcookie : IsUnambiguous cookie) (proof : Bool)
    (addr : SocketAddr) (mtu : UInt16) (guid : UInt64) :
    OpenConnectionRequest2.decode
    (OpenConnectionRequest2.encode ⟨defaultUnconnectedMagic, some cookie, proof, addr, mtu, guid⟩) =
      .ok (⟨defaultUnconnectedMagic, some cookie, false, addr, mtu, guid⟩, []) := by
  have hbytes : OpenConnectionRequest2.encode ⟨defaultUnconnectedMagic, some cookie, proof, addr, mtu, guid⟩ =
      defaultUnconnectedMagic.toList ++ (Put.u32 cookie ++ (Put.bool proof ++ (addr.encode ++ (Put.u16 mtu ++
        (Put.u64 guid ++ []))))) := by
    simp only [OpenConnectionRequest2.encode, List.append_assoc, List.append_nil]
  have hfields : ((do return ⟨defaultUnconnectedMagic, some cookie, false, ← SocketAddr.decode, ← Get.u16, ← Get.u64⟩ :
      Get OpenConnectionRequest2)) (addr.encode ++ (Put.u16 mtu ++ (Put.u64 guid ++ []))) =
        .ok (⟨defaultUnconnectedMagic, some cookie, false, addr, mtu, guid⟩, []) :=
    bind_ok.2 ⟨_, _, addr.reads _, bind_ok.2 ⟨_, _, u16_reads mtu _, bind_ok.2 ⟨_, _, u64_reads guid _, rfl⟩⟩⟩
  rw [hbytes]
  -- the first byte after the magic is the cookie's, so four bytes are the cookie and the fifth is skipped
  refine bind_ok.2 ⟨_, _, defaultMagic_reads _, bind_ok.2 ⟨some cookie, _, ?_, hfields⟩⟩
  refine (if_pos (c := (cookie >>> 24).toUInt8 ≠ 4 ∧ (cookie >>> 24).toUInt8 ≠ 6) hcookie).trans ?_
  exact bind_ok.2 ⟨_, _, u32_reads cookie _, rfl⟩

namespace RaknetPacket

/-- The packet that a registered body is read as. -/
theorem decodeFrom_of_body {α : Type} {id : UInt8} {f : α → RaknetPacket} {body : Get α}
    (h : decodeBody id = some (f <$> body)) {payload rest : Bytes} {a : α} (hbody : body payload = .ok (a, rest)) :
    decodeFrom (id :: payload) = .ok (f a) := by
  have hmap : (f <$> body) payload = .ok (f a, rest) := map_ok.2 ⟨a, hbody, rfl⟩
  rw [decodeFrom_registered h, hmap]
  rfl

theorem decodeFrom_request1 (version : UInt8) (padding : EoBPadding) :
    decodeFrom (0x05 :: OpenConnectionRequest1.encode ⟨defaultUnconnectedMagic, version, padding⟩) =
      .ok (.openConnectionRequest1 ⟨defaultUnconnectedMagic, version, padding⟩) :=
  decodeFrom_of_body rfl (OpenConnectionRequest1.reads version padding)

theorem decodeFrom_reply1 (guid : UInt64) (cookie : UInt32) (mtu : UInt16) :
    decodeFrom (0x06 :: OpenConnectionReply1.encode ⟨defaultUnconnectedMagic, guid, some cookie, mtu⟩) =
      .ok (.openConnectionReply1 ⟨defaultUnconnectedMagic, guid, some cookie, mtu⟩) := by
  have h := OpenConnectionReply1.reads guid cookie mtu []
  rw [List.append_nil] at h
  exact decodeFrom_of_body rfl h

theorem decodeFrom_request2 {cookie : UInt32} (hcookie : IsUnambiguous cookie) (proof : Bool) (addr : SocketAddr)
    (mtu : UInt16) (guid : UInt64) :
    decodeFrom (0x07 :: OpenConnectionRequest2.encode ⟨defaultUnconnectedMagic, some cookie, proof, addr, mtu, guid⟩) =
      .ok (.openConnectionRequest2 ⟨defaultUnconnectedMagic, some cookie, false, addr, mtu, guid⟩) :=
  decodeFrom_of_body rfl (OpenConnectionRequest2.reads hcookie proof addr mtu guid)

end RaknetPacket

end BedrockRs.Raknet
