/-
The varint codecs of the program: the server's encoder and the WebTransport client's encoder and decoder, as
the source writes them with shifts and masks, and their agreement with the RFC 9000 codec.
-/
import Mquic.Lib.Varint

namespace Mquic.Codec

/-! ## The source's codecs -/

/-- `quic_varint_encode` (quic_server.c): the bytes written to `out`; none for `v ≥ 2^62`. -/
def quicVarintEncode (v : Nat) : List UInt8 :=
  if v < 1 <<< 6 then
    [UInt8.ofNat v]
  else if v < 1 <<< 14 then
    [(0x40 : UInt8) ||| UInt8.ofNat (v >>> 8), UInt8.ofNat v]
  else if v < 1 <<< 30 then
    [(0x80 : UInt8) ||| UInt8.ofNat (v >>> 24), UInt8.ofNat (v >>> 16), UInt8.ofNat (v >>> 8), UInt8.ofNat v]
  else if v < 1 <<< 62 then
    [(0xC0 : UInt8) ||| UInt8.ofNat (v >>> 56), UInt8.ofNat (v >>> 48), UInt8.ofNat (v >>> 40), UInt8.ofNat (v >>> 32),
      UInt8.ofNat (v >>> 24), UInt8.ofNat (v >>> 16), UInt8.ofNat (v >>> 8), UInt8.ofNat v]
  else []

/-- `wt_varint_encode` (wt_client.c): the last form also for `v ≥ 2^62`. -/
def wtVarintEncode (v : Nat) : List UInt8 :=
  if v < 1 <<< 6 then
    [UInt8.ofNat v]
  else if v < 1 <<< 14 then
    [(0x40 : UInt8) ||| UInt8.ofNat (v >>> 8), UInt8.ofNat v]
  else if v < 1 <<< 30 then
    [(0x80 : UInt8) ||| UInt8.ofNat (v >>> 24), UInt8.ofNat (v >>> 16), UInt8.ofNat (v >>> 8), UInt8.ofNat v]
  else
    [(0xC0 : UInt8) ||| UInt8.ofNat (v >>> 56), UInt8.ofNat (v >>> 48), UInt8.ofNat (v >>> 40), UInt8.ofNat (v >>> 32),
      UInt8.ofNat (v >>> 24), UInt8.ofNat (v >>> 16), UInt8.ofNat (v >>> 8), UInt8.ofNat v]

/-- `p[i]` as an integer. -/
def byteAt (p : List UInt8) (i : Nat) : Nat := (p.getD i 0).toNat

/-- `wt_varint_decode` (wt_client.c) on `len = p.length` bytes: the value and the width, `none` where
the source returns 0 and leaves `*out` alone. -/
def wtVarintDecode (p : List UInt8) : Option (Nat × Nat) :=
  if p.length = 0 then none
  else
    let b0 := p.getD 0 0
    let hi := (b0 &&& 0x3F).toNat
    if b0 &&& 0xC0 = 0x00 then
      if p.length < 1 then none else some (hi, 1)
    else if b0 &&& 0xC0 = 0x40 then
      if p.length < 2 then none else some (hi <<< 8 ||| byteAt p 1, 2)
    else if b0 &&& 0xC0 = 0x80 then
      if p.length < 4 then none
      else some (hi <<< 24 ||| byteAt p 1 <<< 16 ||| byteAt p 2 <<< 8 ||| byteAt p 3, 4)
    else
      if p.length < 8 then none
      else
        some (hi <<< 56 ||| byteAt p 1 <<< 48 ||| byteAt p 2 <<< 40 ||| byteAt p 3 <<< 32 |||
          byteAt p 4 <<< 24 ||| byteAt p 5 <<< 16 ||| byteAt p 6 <<< 8 ||| byteAt p 7, 8)

/-! ## Bytes -/

/-- Setting a tag on six free bits adds it. -/
theorem or_tag {t n : Nat} (ht : t ≤ 3) (hn : n < 64) :
    (UInt8.ofNat (t * 64) ||| UInt8.ofNat n).toNat = t * 64 + n := by
  rw [UInt8.toNat_or, UInt8.toNat_ofNat', UInt8.toNat_ofNat', Nat.mod_eq_of_lt (by omega),
    Nat.mod_eq_of_lt (by omega), Nat.mul_comm]
  exact (Nat.two_pow_add_eq_or_of_lt (i := 6) (by omega) t).symm

theorem low6 (b : UInt8) : (b &&& 0x3F).toNat = b.toNat % 64 := by
  rw [UInt8.toNat_and]
  exact Nat.and_two_pow_sub_one_eq_mod b.toNat 6

theorem and_C0 (b : UInt8) : (b &&& 0xC0).toNat = b.toNat / 64 * 64 := by
  have h : ∀ n < 256, n &&& 0xC0 = n / 64 * 64 := by
    set_option maxRecDepth 4000 in decide
  rw [UInt8.toNat_and]
  exact h b.toNat b.toNat_lt

/-- The two high bits select the case of the decoder's switch. -/
theorem and_C0_eq (b : UInt8) (k : Nat) (hk : k ≤ 3) : b &&& 0xC0 = UInt8.ofNat (k * 64) ↔ b.toNat / 64 = k := by
  rw [← UInt8.toNat_inj, and_C0, UInt8.toNat_ofNat']
  have := b.toNat_lt
  omega

theorem shl_or_byte (a : Nat) {b : Nat} (hb : b < 2 ^ 8) : a <<< 8 ||| b = a * 256 + b := by
  rw [← Nat.shiftLeft_add_eq_or_of_lt hb, Nat.shiftLeft_eq]

theorem shl_or_shl (a k : Nat) {b : Nat} (hb : b < 2 ^ 8) : a <<< (k + 8) ||| b <<< k = (a * 256 + b) <<< k := by
  rw [Nat.add_comm, Nat.shiftLeft_add, ← Nat.shiftLeft_or_distrib, shl_or_byte a hb]

/-! ## Agreement with RFC 9000 -/

/-- The first byte of a longer form: the tag over the high bits. -/
theorem tag_byte {t n m : Nat} (ht : t ≤ 3) (hn : n < 64) (hm : m = t * 64 + n) :
    UInt8.ofNat (t * 64) ||| UInt8.ofNat n = UInt8.ofNat m := by
  rw [← UInt8.toNat_inj, or_tag ht hn, UInt8.toNat_ofNat', hm]; omega

theorem ofNat_congr {m n : Nat} (h : m % 256 = n % 256) : UInt8.ofNat m = UInt8.ofNat n := by
  rw [← UInt8.toNat_inj, UInt8.toNat_ofNat', UInt8.toNat_ofNat']; exact h

theorem quicVarintEncode_eq {v : Nat} (hv : v < 2 ^ 62) : quicVarintEncode v = Varint.encode v := by
  unfold quicVarintEncode Varint.encode Varint.size Varint.tag
  simp only [Nat.shiftRight_eq_div_pow, Nat.one_shiftLeft]
  split_ifs with h1 h2 h3
  · simp only [Nat.reducePow, Nat.reduceMul, Nat.reduceSub, Varint.toBytes, List.cons.injEq, and_true]
    exact ofNat_congr (by omega)
  · simp only [Nat.reducePow, Nat.reduceMul, Nat.reduceSub, Varint.toBytes, List.cons.injEq, and_true]
    exact ⟨tag_byte (t := 1) (by omega) (by omega) (by omega), ofNat_congr (by omega)⟩
  · simp only [Nat.reducePow, Nat.reduceMul, Nat.reduceSub, Varint.toBytes, List.cons.injEq, and_true]
    refine ⟨tag_byte (t := 2) (by omega) (by omega) (by omega), ?_, ?_, ?_⟩ <;> exact ofNat_congr (by omega)
  · simp only [Nat.reducePow, Nat.reduceMul, Nat.reduceSub, Varint.toBytes, List.cons.injEq, and_true]
    refine ⟨tag_byte (t := 3) (by omega) (by omega) (by omega), ?_, ?_, ?_, ?_, ?_, ?_, ?_⟩ <;>
      exact ofNat_congr (by omega)

/-- The client's encoder is the server's without the upper range check. -/
theorem wtVarintEncode_eq {v : Nat} (hv : v < 2 ^ 62) : wtVarintEncode v = Varint.encode v := by
  have h62 : v < 1 <<< 62 := by rwa [Nat.one_shiftLeft]
  rw [← quicVarintEncode_eq hv, quicVarintEncode, wtVarintEncode, if_pos h62]

theorem wtVarintDecode_eq (p : List UInt8) : wtVarintDecode p = Varint.decode p := by
  cases p with
  | nil => rfl
  | cons b0 tl =>
    have h0 : b0 &&& 0xC0 = 0x00 ↔ b0.toNat / 64 = 0 := and_C0_eq b0 0 (by omega)
    have h1 : b0 &&& 0xC0 = 0x40 ↔ b0.toNat / 64 = 1 := and_C0_eq b0 1 (by omega)
    have h2 : b0 &&& 0xC0 = 0x80 ↔ b0.toNat / 64 = 2 := and_C0_eq b0 2 (by omega)
    have hb (b : UInt8) : b.toNat < 2 ^ 8 := b.toNat_lt
    unfold wtVarintDecode Varint.decode Varint.width
    simp only [List.length_cons, Nat.succ_ne_zero, if_false, List.getD_cons_zero, low6]
    have hk : b0.toNat / 64 < 4 := by have := b0.toNat_lt; omega
    generalize b0.toNat / 64 = k at *
    -- by the two bits of the first byte; for each the bytes that must be there
    interval_cases k
    · rw [if_pos (h0.2 rfl)]
      simp [Varint.ofBytes]
    · rw [if_neg (fun h => by simpa using h0.1 h), if_pos (h1.2 rfl)]
      rcases tl with _ | ⟨b1, r⟩
      · simp
      · simp [byteAt, shl_or_byte _ (hb b1), Varint.ofBytes]
    · rw [if_neg (fun h => by simpa using h0.1 h), if_neg (fun h => by simpa using h1.1 h), if_pos (h2.2 rfl)]
      rcases tl with _ | ⟨b1, _ | ⟨b2, _ | ⟨b3, r⟩⟩⟩
      · simp
      · simp
      · simp
      · simp [byteAt, shl_or_shl _ 16 (hb b1), shl_or_shl _ 8 (hb b2), shl_or_byte _ (hb b3), Varint.ofBytes]
        ring
    · rw [if_neg (fun h => by simpa using h0.1 h), if_neg (fun h => by simpa using h1.1 h),
        if_neg (fun h => by simpa using h2.1 h)]
      rcases tl with _ | ⟨b1, _ | ⟨b2, _ | ⟨b3, _ | ⟨b4, _ | ⟨b5, _ | ⟨b6, _ | ⟨b7, r⟩⟩⟩⟩⟩⟩⟩
      · simp
      · simp
      · simp
      · simp
      · simp
      · simp
      · simp
      · simp [byteAt, shl_or_shl _ 48 (hb b1), shl_or_shl _ 40 (hb b2), shl_or_shl _ 32 (hb b3),
          shl_or_shl _ 24 (hb b4), shl_or_shl _ 16 (hb b5), shl_or_shl _ 8 (hb b6), shl_or_byte _ (hb b7),
          Varint.ofBytes]
        ring

end Mquic.Codec
