/-
Variable-length integers of RFC 9000: the two high bits of the first byte give the width (1, 2, 4
or 8 bytes), the other bits are the value in big-endian order. The encoder here writes the shortest
form; the decoder returns the value and the width, or nothing on truncated input.
-/
import Mathlib.Tactic

namespace Varint

/-! ## Big-endian numbers -/

/-- The number a big-endian byte string denotes. -/
def ofBytes (bs : List UInt8) : Nat := bs.foldl (fun a b => a * 256 + b.toNat) 0

/-- The `n` low bytes of `v`, most significant first. -/
def toBytes : Nat → Nat → List UInt8
  | 0, _ => []
  | n + 1, v => UInt8.ofNat (v / 256 ^ n) :: toBytes n v

theorem foldl_ofBytes (bs : List UInt8) :
    ∀ a : Nat, bs.foldl (fun a b => a * 256 + b.toNat) a = a * 256 ^ bs.length + ofBytes bs := by
  induction bs with
  | nil => intro a; simp [ofBytes]
  | cons b bs ih =>
    intro a
    rw [List.foldl_cons, ih]
    have : ofBytes (b :: bs) = b.toNat * 256 ^ bs.length + ofBytes bs := by
      unfold ofBytes; rw [List.foldl_cons, ih]; simp [ofBytes]
    rw [this, List.length_cons, pow_succ]
    ring

theorem ofBytes_cons (b : UInt8) (bs : List UInt8) :
    ofBytes (b :: bs) = b.toNat * 256 ^ bs.length + ofBytes bs := by
  unfold ofBytes; rw [List.foldl_cons, foldl_ofBytes]; simp [ofBytes]

theorem ofBytes_lt : ∀ bs : List UInt8, ofBytes bs < 256 ^ bs.length
  | [] => by simp [ofBytes]
  | b :: bs => by
    rw [ofBytes_cons, List.length_cons, pow_succ]
    have h1 := ofBytes_lt bs
    have h2 : b.toNat ≤ 255 := by have := b.toNat_lt; omega
    calc b.toNat * 256 ^ bs.length + ofBytes bs
        < b.toNat * 256 ^ bs.length + 256 ^ bs.length := by omega
      _ = (b.toNat + 1) * 256 ^ bs.length := by ring
      _ ≤ 256 * 256 ^ bs.length := Nat.mul_le_mul_right _ (by omega)
      _ = 256 ^ bs.length * 256 := Nat.mul_comm _ _

@[simp] theorem toBytes_length : ∀ n v : Nat, (toBytes n v).length = n
  | 0, _ => rfl
  | n + 1, v => by simp [toBytes, toBytes_length n v]

theorem ofBytes_toBytes : ∀ n v : Nat, ofBytes (toBytes n v) = v % 256 ^ n
  | 0, v => by simp [toBytes, ofBytes, Nat.mod_one]
  | n + 1, v => by
    rw [toBytes, ofBytes_cons, toBytes_length, ofBytes_toBytes n v, UInt8.toNat_ofNat', pow_succ 256 n,
      Nat.mod_mul (a := 256 ^ n), Nat.mul_comm (256 ^ n), Nat.add_comm]

/-! ## The codec -/

/-- The width the first byte announces. -/
def width (b0 : UInt8) : Nat := 2 ^ (b0.toNat / 64)

/-- The RFC 9000 decoder: the value and its width, nothing when the input ends inside the integer. -/
def decode : List UInt8 → Option (Nat × Nat)
  | [] => none
  | b0 :: tl =>
    if width b0 ≤ tl.length + 1 then
      some (b0.toNat % 64 * 256 ^ (width b0 - 1) + ofBytes (tl.take (width b0 - 1)), width b0)
    else none

/-- The two-bit tag of the shortest form of `v`. -/
def tag (v : Nat) : Nat :=
  if v < 2 ^ 6 then 0 else if v < 2 ^ 14 then 1 else if v < 2 ^ 30 then 2 else 3

/-- The width of the shortest form of `v`. -/
def size (v : Nat) : Nat := 2 ^ tag v

/-- The shortest form of `v < 2^62`. -/
def encode (v : Nat) : List UInt8 := toBytes (size v) (tag v * 2 ^ (8 * size v - 2) + v)

/-! ## Widths -/

theorem width_pos (b0 : UInt8) : 0 < width b0 := by unfold width; positivity

theorem tag_le (v : Nat) : tag v ≤ 3 := by unfold tag; split_ifs <;> omega

theorem size_pos (v : Nat) : 0 < size v := by unfold size; positivity

theorem size_le (v : Nat) : size v ≤ 8 := by
  have := tag_le v
  unfold size
  calc 2 ^ tag v ≤ 2 ^ 3 := Nat.pow_le_pow_right (by norm_num) this
    _ = 8 := by norm_num

@[simp] theorem encode_length (v : Nat) : (encode v).length = size v := by simp [encode]

theorem encode_ne_nil (v : Nat) : encode v ≠ [] := by
  have := size_pos v
  intro h
  have := congrArg List.length h
  simp at this; omega

/-- The value fits the bits its tag leaves. -/
theorem lt_of_tag {v : Nat} (hv : v < 2 ^ 62) : v < 2 ^ (8 * size v - 2) := by
  unfold size tag
  split_ifs <;> norm_num at * <;> omega

/-- A width of `n` bytes leaves `8n - 2` bits for the value: six in the first byte. -/
theorem two_pow_bits {n : Nat} (hn : 0 < n) : 2 ^ (8 * n - 2) = 64 * 256 ^ (n - 1) := by
  rw [show (256 : Nat) = 2 ^ 8 by norm_num, show (64 : Nat) = 2 ^ 6 by norm_num, ← pow_mul, ← pow_add]
  congr 1; omega

/-- A value that fits the bits of a width has its shortest form within that width. -/
theorem size_le_of_lt {v k : Nat} (hk : k ≤ 3) (hv : v < 2 ^ (8 * 2 ^ k - 2)) : size v ≤ 2 ^ k := by
  unfold size
  apply Nat.pow_le_pow_right (by norm_num)
  unfold tag
  interval_cases k <;> norm_num at hv <;> split_ifs <;> omega

/-- A larger value has no shorter form. -/
theorem size_mono {m n : Nat} (h : m ≤ n) (hn : n < 2 ^ 62) : size m ≤ size n :=
  size_le_of_lt (tag_le n) (h.trans_lt (lt_of_tag hn))

/-! ## Decoding -/

@[simp] theorem decode_nil : decode [] = none := rfl

theorem decode_cons_of_le {b0 : UInt8} {tl : List UInt8} (h : width b0 ≤ tl.length + 1) :
    decode (b0 :: tl) =
      some (b0.toNat % 64 * 256 ^ (width b0 - 1) + ofBytes (tl.take (width b0 - 1)), width b0) := by
  simp only [decode, if_pos h]

theorem decode_cons_of_lt {b0 : UInt8} {tl : List UInt8} (h : tl.length + 1 < width b0) :
    decode (b0 :: tl) = none := by
  simp only [decode, if_neg (Nat.not_le.2 h)]

theorem decode_bounds {p : List UInt8} {v c : Nat} (h : decode p = some (v, c)) : 0 < c ∧ c ≤ p.length := by
  cases p with
  | nil => simp at h
  | cons b0 tl =>
    simp only [decode] at h
    split at h
    · rename_i hw
      simp only [Option.some.injEq, Prod.mk.injEq] at h
      obtain ⟨-, rfl⟩ := h
      exact ⟨width_pos b0, by simpa using hw⟩
    · cases h

/-- More input does not change what was already decoded. -/
theorem decode_append {p : List UInt8} {r : Nat × Nat} (h : decode p = some r) (s : List UInt8) :
    decode (p ++ s) = some r := by
  cases p with
  | nil => simp at h
  | cons b0 tl =>
    simp only [decode] at h
    split at h
    · rename_i hw
      rw [List.cons_append, decode_cons_of_le (by simp; omega), List.take_append_of_le_length (by omega)]
      exact h
    · cases h

/-- What a part of a string decodes to, the string decodes to. -/
theorem decode_agree {p x : List UInt8} {r r' : Nat × Nat} (hp : p <+: x) (h : decode p = some r)
    (h' : decode x = some r') : r = r' := by
  obtain ⟨s, rfl⟩ := hp
  rw [decode_append h s] at h'
  exact Option.some.inj h'

/-- An integer takes 1, 2, 4 or 8 bytes, and two bits of them are not its value's. -/
theorem decode_width {p : List UInt8} {v c : Nat} (h : decode p = some (v, c)) :
    ∃ k ≤ 3, c = 2 ^ k ∧ v < 2 ^ (8 * 2 ^ k - 2) := by
  cases p with
  | nil => simp at h
  | cons b0 tl =>
    simp only [decode] at h
    split at h
    · rename_i hw
      simp only [Option.some.injEq, Prod.mk.injEq] at h
      obtain ⟨rfl, rfl⟩ := h
      have hk : b0.toNat / 64 ≤ 3 := by have := b0.toNat_lt; omega
      refine ⟨b0.toNat / 64, hk, rfl, ?_⟩
      have hlen : (tl.take (width b0 - 1)).length = width b0 - 1 := by
        rw [List.length_take]; omega
      have hlow := ofBytes_lt (tl.take (width b0 - 1))
      rw [hlen] at hlow
      rw [show 2 ^ (8 * 2 ^ (b0.toNat / 64) - 2) = 64 * 256 ^ (width b0 - 1) from two_pow_bits (width_pos b0)]
      have hhi : b0.toNat % 64 + 1 ≤ 64 := by omega
      calc b0.toNat % 64 * 256 ^ (width b0 - 1) + ofBytes (tl.take (width b0 - 1))
          < b0.toNat % 64 * 256 ^ (width b0 - 1) + 256 ^ (width b0 - 1) := by omega
        _ = (b0.toNat % 64 + 1) * 256 ^ (width b0 - 1) := by ring
        _ ≤ 64 * 256 ^ (width b0 - 1) := Nat.mul_le_mul_right _ hhi
    · cases h

/-- The value an integer of width `c` denotes is below `2^(8c - 2)`, so its shortest form is no longer. -/
theorem size_le_of_decode {p : List UInt8} {v c : Nat} (h : decode p = some (v, c)) : size v ≤ c := by
  obtain ⟨k, hk, rfl, hlt⟩ := decode_width h
  exact size_le_of_lt hk hlt

/-- No value has more than 62 bits. -/
theorem decode_lt {p : List UInt8} {v c : Nat} (h : decode p = some (v, c)) : v < 2 ^ 62 := by
  obtain ⟨k, hk, -, hlt⟩ := decode_width h
  have hbits : 8 * 2 ^ k - 2 ≤ 62 := by interval_cases k <;> norm_num
  exact hlt.trans_le (Nat.pow_le_pow_right Nat.two_pos hbits)

/-! ## Decoding the shortest form -/

/-- The first byte of the shortest form carries the tag and the high bits. -/
theorem encode_eq_cons {v : Nat} (hv : v < 2 ^ 62) :
    ∃ b0, encode v = b0 :: toBytes (size v - 1) (tag v * 2 ^ (8 * size v - 2) + v) ∧
      b0.toNat / 64 = tag v ∧ b0.toNat % 64 = v / 256 ^ (size v - 1) := by
  have hs := size_pos v
  have hlt := lt_of_tag hv
  have ht := tag_le v
  have hpow := two_pow_bits hs
  rw [hpow] at hlt
  have hP : 0 < 256 ^ (size v - 1) := by positivity
  have hdiv : v / 256 ^ (size v - 1) < 64 := Nat.div_lt_of_lt_mul (by rw [Nat.mul_comm]; exact hlt)
  have hval : (tag v * 2 ^ (8 * size v - 2) + v) / 256 ^ (size v - 1) = tag v * 64 + v / 256 ^ (size v - 1) := by
    rw [hpow, show tag v * (64 * 256 ^ (size v - 1)) + v = v + tag v * 64 * 256 ^ (size v - 1) by ring,
      Nat.add_mul_div_right _ _ hP, Nat.add_comm]
  refine ⟨UInt8.ofNat ((tag v * 2 ^ (8 * size v - 2) + v) / 256 ^ (size v - 1)), ?_, ?_, ?_⟩
  · unfold encode
    conv_lhs => rw [show size v = (size v - 1) + 1 by omega, toBytes]
    rw [show size v - 1 + 1 = size v by omega]
  · rw [hval, UInt8.toNat_ofNat']
    generalize v / 256 ^ (size v - 1) = q at hdiv ⊢
    omega
  · rw [hval, UInt8.toNat_ofNat']
    generalize v / 256 ^ (size v - 1) = q at hdiv ⊢
    omega

/-- The decoder undoes the encoder, whatever follows. -/
theorem decode_encode {v : Nat} (hv : v < 2 ^ 62) (s : List UInt8) :
    decode (encode v ++ s) = some (v, size v) := by
  obtain ⟨b0, he, htag, hlow⟩ := encode_eq_cons hv
  have hw : width b0 = size v := by unfold width size; rw [htag]
  have hs := size_pos v
  rw [he, List.cons_append, decode_cons_of_le (by rw [hw]; simp; omega), hw, hlow,
    List.take_append_of_le_length (by simp), List.take_of_length_le (by simp), ofBytes_toBytes]
  have hpow := two_pow_bits hs
  have hmod : (tag v * 2 ^ (8 * size v - 2) + v) % 256 ^ (size v - 1) = v % 256 ^ (size v - 1) := by
    rw [hpow, ← Nat.mul_assoc, Nat.mul_add_mod']
  rw [hmod, Nat.mul_comm, Nat.div_add_mod]

/-- No strict prefix of a shortest form decodes. -/
theorem decode_take_encode {v n : Nat} (hv : v < 2 ^ 62) (hn : n < size v) :
    decode ((encode v).take n) = none := by
  obtain ⟨b0, he, htag, -⟩ := encode_eq_cons hv
  cases n with
  | zero => simp
  | succ n =>
    rw [he, List.take_succ_cons]
    apply decode_cons_of_lt
    have hw : width b0 = size v := by unfold width size; rw [htag]
    rw [List.length_take]
    simp; omega

/-! ## Readers -/

/-- A function that reads an integer at the start of a string: the value and its width, or nothing. -/
structure Reader where
  read : List UInt8 → Option (Nat × Nat)
  bounds : ∀ {bs v c}, read bs = some (v, c) → 0 < c ∧ c ≤ bs.length

/-- It reads what RFC 9000 says. -/
def Reader.Rfc9000 (r : Reader) : Prop := ∀ bs, r.read bs = decode bs

/-- The decoder above. -/
def Reader.decoder : Reader := ⟨decode, decode_bounds⟩

theorem Reader.decoder_rfc9000 : Reader.decoder.Rfc9000 := fun _ => rfl

end Varint
