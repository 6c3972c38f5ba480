/-
The varint codec of pico_webtransport.c beside those of quic_server.c and wt_client.c: three hand-written
encoders and two decoders, all of which compute the RFC 9000 codec.
-/
import Mquic.Codec.Varint
import Mquic.H3.Response

namespace Mquic.H3

open Mquic.Codec (byteAt)

/-! ## The decoder -/

/-- `wt_varint_decode` (pico_webtransport.c) on the bytes `p` up to `max`: the value and the width, `none` where
the source returns 0. -/
def wtVarintDecode (p : List UInt8) : Option (Nat × Nat) :=
  if p.length = 0 then none
  else
    let b0 := p.getD 0 0
    let pref := b0 >>> 6
    let len := if pref = 0 then 1 else if pref = 1 then 2 else if pref = 2 then 4 else 8
    if p.length < len then none
    else
      let hi := (b0 &&& 0x3F).toNat
      let val :=
        match len with
        | 1 => hi
        | 2 => hi <<< 8 ||| byteAt p 1
        | 4 => hi <<< 24 ||| byteAt p 1 <<< 16 ||| byteAt p 2 <<< 8 ||| byteAt p 3
        | 8 =>
          hi <<< 56 ||| byteAt p 1 <<< 48 ||| byteAt p 2 <<< 40 ||| byteAt p 3 <<< 32 |||
            byteAt p 4 <<< 24 ||| byteAt p 5 <<< 16 ||| byteAt p 6 <<< 8 ||| byteAt p 7
        | _ => 0
      some (val, len)

/-- Shifting the six low bits out and masking them select the same case. -/
theorem shr6_eq (b : UInt8) (k : Nat) (hk : k ≤ 3) : b >>> 6 = UInt8.ofNat k ↔ b &&& 0xC0 = UInt8.ofNat (k * 64) := by
  rw [Codec.and_C0_eq b k hk, ← UInt8.toNat_inj, UInt8.toNat_shiftRight, UInt8.toNat_ofNat']
  have h6 : b.toNat >>> ((6 : UInt8).toNat % 8) = b.toNat / 64 := Nat.shiftRight_eq_div_pow _ _
  rw [h6, Nat.mod_eq_of_lt (by omega)]

/-- The two decoders are one function. -/
theorem wtVarintDecode_eq_client (p : List UInt8) : wtVarintDecode p = Codec.wtVarintDecode p := by
  unfold wtVarintDecode Codec.wtVarintDecode
  by_cases h0 : p.length = 0
  · rw [if_pos h0, if_pos h0]
  rw [if_neg h0, if_neg h0]
  have h0 : p.getD 0 0 >>> 6 = 0 ↔ p.getD 0 0 &&& 0xC0 = 0x00 := shr6_eq _ 0 (by omega)
  have h1 : p.getD 0 0 >>> 6 = 1 ↔ p.getD 0 0 &&& 0xC0 = 0x40 := shr6_eq _ 1 (by omega)
  have h2 : p.getD 0 0 >>> 6 = 2 ↔ p.getD 0 0 &&& 0xC0 = 0x80 := shr6_eq _ 2 (by omega)
  by_cases c0 : p.getD 0 0 &&& 0xC0 = 0x00
  · simp only [if_pos (h0.2 c0), if_pos c0]
  by_cases c1 : p.getD 0 0 &&& 0xC0 = 0x40
  · simp only [if_neg (mt h0.1 c0), if_pos (h1.2 c1), if_neg c0, if_pos c1]
  by_cases c2 : p.getD 0 0 &&& 0xC0 = 0x80
  · simp only [if_neg (mt h0.1 c0), if_neg (mt h1.1 c1), if_pos (h2.2 c2), if_neg c0, if_neg c1, if_pos c2]
  · simp only [if_neg (mt h0.1 c0), if_neg (mt h1.1 c1), if_neg (mt h2.1 c2), if_neg c0, if_neg c1, if_neg c2]

theorem wtVarintDecode_eq (p : List UInt8) : wtVarintDecode p = Varint.decode p := by
  rw [wtVarintDecode_eq_client, Codec.wtVarintDecode_eq]

/-! ## The encoder -/

/-- Masking the high byte to six bits before the tag is set changes nothing below `2^62`. -/
theorem or_masked {t n : Nat} (hn : n < 64) :
    UInt8.ofNat (t ||| n &&& 0x3F) = UInt8.ofNat t ||| UInt8.ofNat n := by
  have hmask : n &&& 0x3F = n := (Nat.and_two_pow_sub_one_eq_mod n 6).trans (Nat.mod_eq_of_lt hn)
  rw [hmask, UInt8.ofNat_or]

/-- With room for the shortest form, the encoder writes what the server's writes. -/
theorem wtVarintEncode_eq_server {v cap : Nat} (hv : v < 2 ^ 62) (hcap : Varint.size v ≤ cap) :
    wtVarintEncode v cap = Codec.quicVarintEncode v := by
  have hs := hcap
  unfold Varint.size Varint.tag at hs
  unfold wtVarintEncode Codec.quicVarintEncode
  simp only [Nat.one_shiftLeft]
  by_cases h1 : v < 2 ^ 6
  · rw [if_pos h1] at hs
    rw [if_pos h1, if_pos (by omega), if_neg (by omega)]
  rw [if_neg h1] at hs
  rw [if_neg h1, if_neg (by omega)]
  by_cases h2 : v < 2 ^ 14
  · rw [if_pos h2] at hs
    rw [if_pos h2, if_pos (by omega), if_neg (by omega),
      or_masked (by rw [Nat.shiftRight_eq_div_pow]; omega)]
    rfl
  rw [if_neg h2] at hs
  rw [if_neg h2, if_neg (by omega)]
  by_cases h3 : v < 2 ^ 30
  · rw [if_pos h3] at hs
    rw [if_pos h3, if_pos (by omega), if_neg (by omega),
      or_masked (by rw [Nat.shiftRight_eq_div_pow]; omega)]
    rfl
  · rw [if_neg h3] at hs
    rw [if_neg h3, if_neg (by omega), if_pos hv, if_neg (by omega),
      or_masked (by rw [Nat.shiftRight_eq_div_pow]; omega)]
    rfl

theorem wtVarintEncode_eq {v cap : Nat} (hv : v < 2 ^ 62) (hcap : Varint.size v ≤ cap) :
    wtVarintEncode v cap = Varint.encode v := by
  rw [wtVarintEncode_eq_server hv hcap, Codec.quicVarintEncode_eq hv]

/-! ## Interoperation -/

/-- The three encoders produce one byte string, the shortest of the four forms able to hold the value; both
decoders read it back behind any suffix and refuse it cut short; and on every byte string the decoders agree. -/
theorem varint_codecs_interoperate {v : Nat} (hv : v < 2 ^ 62) :
    ∃ enc, Codec.quicVarintEncode v = enc ∧ Codec.wtVarintEncode v = enc ∧
      (∀ cap, enc.length ≤ cap → wtVarintEncode v cap = enc) ∧
      (∃ k ≤ 3, enc.length = 2 ^ k ∧ v < 2 ^ (8 * 2 ^ k - 2) ∧ ∀ j ≤ 3, v < 2 ^ (8 * 2 ^ j - 2) → 2 ^ k ≤ 2 ^ j) ∧
      (∀ s, Codec.wtVarintDecode (enc ++ s) = some (v, enc.length) ∧ wtVarintDecode (enc ++ s) = some (v, enc.length)) ∧
      (∀ n < enc.length, Codec.wtVarintDecode (enc.take n) = none ∧ wtVarintDecode (enc.take n) = none) ∧
      ∀ p, Codec.wtVarintDecode p = wtVarintDecode p := by
  have hlen := Varint.encode_length v
  refine ⟨Varint.encode v, Codec.quicVarintEncode_eq hv, Codec.wtVarintEncode_eq hv, fun cap hcap => ?_, ?_,
    fun s => ?_, fun n hn => ?_, fun p => (wtVarintDecode_eq_client p).symm⟩
  · exact wtVarintEncode_eq hv (hlen ▸ hcap)
  · refine ⟨Varint.tag v, Varint.tag_le v, hlen, Varint.lt_of_tag hv, fun j hj hlt => ?_⟩
    exact Varint.size_le_of_lt hj hlt
  · rw [Codec.wtVarintDecode_eq, wtVarintDecode_eq, hlen]
    exact ⟨Varint.decode_encode hv s, Varint.decode_encode hv s⟩
  · have hnone := Varint.decode_take_encode hv (hlen ▸ hn)
    rw [Codec.wtVarintDecode_eq, wtVarintDecode_eq]
    exact ⟨hnone, hnone⟩

/-- The least value that takes four bytes. -/
theorem varint_codecs_interoperate_16384 :
    Codec.quicVarintEncode 16384 = [0x80, 0x00, 0x40, 0x00] ∧
      wtVarintDecode ([0x80, 0x00, 0x40, 0x00] ++ [0xFF]) = some (16384, 4) ∧
      Codec.wtVarintDecode [0x80, 0x00, 0x40] = none := by
  obtain ⟨enc, henc, -, -, -, hdecode, hcut, -⟩ := @varint_codecs_interoperate 16384 (by decide)
  have hbytes : enc = [0x80, 0x00, 0x40, 0x00] := henc.symm.trans (by decide)
  subst hbytes
  exact ⟨henc, (hdecode [0xFF]).2, (hcut 3 (by decide)).1⟩

end Mquic.H3
