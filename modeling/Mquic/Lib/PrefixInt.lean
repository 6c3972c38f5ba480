/-
Prefixed integers: a value in the low bits of its first byte or, where those are all ones, continued in groups
of seven bits, least significant first. What is an encoding of a value, and a decoder that finds just these.
-/
import Mathlib.Tactic

namespace PrefixInt

/-! ## Encodings -/

/-- The value of groups of seven bits. -/
def ofGroups : List UInt8 → Nat
  | [] => 0
  | b :: bs => b.toNat % 128 + 128 * ofGroups bs

/-- The last group, and only it, has a clear high bit. -/
inductive Closed : List UInt8 → Prop
  | last (b : UInt8) (h : b.toNat < 128) : Closed [b]
  | more (b : UInt8) (bs : List UInt8) (h : 128 ≤ b.toNat) (hbs : Closed bs) : Closed (b :: bs)

/-- `p` encodes `v` with a prefix of `n` bits and at most `max` groups. -/
inductive Encodes (n max : Nat) : List UInt8 → Nat → Prop
  | short (b : UInt8) (h : b.toNat % 2 ^ n < 2 ^ n - 1) : Encodes n max [b] (b.toNat % 2 ^ n)
  | long (b : UInt8) (tl : List UInt8) (h : b.toNat % 2 ^ n = 2 ^ n - 1) (hclosed : Closed tl)
      (hmax : tl.length ≤ max) : Encodes n max (b :: tl) (2 ^ n - 1 + ofGroups tl)

theorem Encodes.ne_nil {n max : Nat} {p : List UInt8} {v : Nat} (h : Encodes n max p v) : p ≠ [] := by
  rintro rfl
  cases h

/-! ## Decoding -/

/-- Groups at the start of a word, and the rest. -/
def decodeGroups : Nat → List UInt8 → Option (Nat × List UInt8)
  | 0, _ => none
  | _ + 1, [] => none
  | max + 1, b :: bs =>
    if b.toNat < 128 then some (b.toNat, bs)
    else (decodeGroups max bs).map fun r => (b.toNat % 128 + 128 * r.1, r.2)

/-- A prefixed integer at the start of a word, and the rest. -/
def decode (n max : Nat) : List UInt8 → Option (Nat × List UInt8)
  | [] => none
  | b :: bs =>
    if b.toNat % 2 ^ n = 2 ^ n - 1 then (decodeGroups max bs).map fun r => (2 ^ n - 1 + r.1, r.2)
    else some (b.toNat % 2 ^ n, bs)

theorem decodeGroups_append : ∀ {max : Nat} {tl : List UInt8}, Closed tl → tl.length ≤ max → ∀ rest : List UInt8,
    decodeGroups max (tl ++ rest) = some (ofGroups tl, rest)
  | 0, _, hclosed, hmax, _ => by cases hclosed <;> simp at hmax
  | max + 1, _, .last b h, _, rest => by
    rw [List.singleton_append, decodeGroups, if_pos h, ofGroups, ofGroups, Nat.mul_zero, Nat.add_zero,
      Nat.mod_eq_of_lt h]
  | max + 1, _, .more b bs h hbs, hmax, rest => by
    have hle : bs.length ≤ max := by simpa using hmax
    rw [List.cons_append, decodeGroups, if_neg (Nat.not_lt.2 h), decodeGroups_append hbs hle rest]
    rfl

theorem decodeGroups_some : ∀ {max : Nat} {bytes rest : List UInt8} {v : Nat}, decodeGroups max bytes = some (v, rest) →
    ∃ tl, bytes = tl ++ rest ∧ Closed tl ∧ tl.length ≤ max ∧ ofGroups tl = v
  | 0, _, _, _, h => by cases h
  | _ + 1, [], _, _, h => by cases h
  | max + 1, b :: bs, rest, v, h => by
    rw [decodeGroups] at h
    split at h
    · rename_i hb
      cases h
      refine ⟨[b], rfl, .last b hb, by simp, ?_⟩
      rw [ofGroups, ofGroups, Nat.mul_zero, Nat.add_zero, Nat.mod_eq_of_lt hb]
    · rename_i hb
      obtain ⟨⟨v', rest'⟩, htail, heq⟩ := Option.map_eq_some_iff.1 h
      cases heq
      obtain ⟨tl, rfl, hclosed, hmax, rfl⟩ := decodeGroups_some htail
      exact ⟨b :: tl, rfl, .more b tl (Nat.le_of_not_lt hb) hclosed, by simpa using hmax, rfl⟩

/-- The decoder finds the encodings. -/
theorem decode_iff {n max : Nat} {bytes rest : List UInt8} {v : Nat} :
    decode n max bytes = some (v, rest) ↔ ∃ p, bytes = p ++ rest ∧ Encodes n max p v := by
  constructor
  · intro h
    cases bytes with
    | nil => cases h
    | cons b bs =>
      rw [decode] at h
      split at h
      · rename_i hb
        obtain ⟨⟨v', rest'⟩, htail, heq⟩ := Option.map_eq_some_iff.1 h
        cases heq
        obtain ⟨tl, rfl, hclosed, hmax, rfl⟩ := decodeGroups_some htail
        exact ⟨b :: tl, rfl, .long b tl hb hclosed hmax⟩
      · rename_i hb
        cases h
        have hlt := Nat.mod_lt b.toNat (Nat.two_pow_pos n)
        exact ⟨[b], rfl, .short b (by omega)⟩
  · rintro ⟨p, rfl, hp⟩
    cases hp with
    | short b h => rw [List.singleton_append, decode, if_neg (Nat.ne_of_lt h)]
    | long b tl h hclosed hmax =>
      rw [List.cons_append, decode, if_pos h, decodeGroups_append hclosed hmax]
      rfl

/-! ## The shortest encoding -/

/-- A value in as few groups as it takes. -/
def groups (v : Nat) : List UInt8 :=
  if v < 128 then [UInt8.ofNat v] else UInt8.ofNat (128 + v % 128) :: groups (v / 128)

/-- A value behind a first byte whose `n` low bits are free. -/
def encode (n : Nat) (b : UInt8) (v : Nat) : List UInt8 :=
  if v < 2 ^ n - 1 then [UInt8.ofNat (b.toNat + v)]
  else UInt8.ofNat (b.toNat + (2 ^ n - 1)) :: groups (v - (2 ^ n - 1))

theorem groups_lt {v : Nat} (h : v < 128) : groups v = [UInt8.ofNat v] := by rw [groups, if_pos h]

theorem groups_ge {v : Nat} (h : ¬ v < 128) : groups v = UInt8.ofNat (128 + v % 128) :: groups (v / 128) := by
  conv_lhs => rw [groups, if_neg h]

/-- Groups are what they are to be. -/
theorem groups_spec : ∀ (k v : Nat), v < 128 ^ (k + 1) → Closed (groups v) ∧ (groups v).length ≤ k + 1 ∧
    ofGroups (groups v) = v
  | k, v, hv => by
    by_cases h : v < 128
    · have hb : (UInt8.ofNat v).toNat = v := by rw [UInt8.toNat_ofNat', Nat.mod_eq_of_lt (by omega)]
      rw [groups_lt h]
      refine ⟨.last _ (by rw [hb]; exact h), by simp, ?_⟩
      rw [ofGroups, ofGroups, hb, Nat.mod_eq_of_lt h, Nat.mul_zero, Nat.add_zero]
    · have hb : (UInt8.ofNat (128 + v % 128)).toNat = 128 + v % 128 := by
        rw [UInt8.toNat_ofNat', Nat.mod_eq_of_lt (by omega)]
      cases k with
      | zero => omega
      | succ k =>
        obtain ⟨hclosed, hlen, hval⟩ := groups_spec k (v / 128) (by
          rw [Nat.pow_succ] at hv
          exact Nat.div_lt_of_lt_mul (by rwa [Nat.mul_comm]))
        rw [groups_ge h]
        refine ⟨.more _ _ (by omega) hclosed, by rw [List.length_cons]; omega, ?_⟩
        rw [ofGroups, hval, hb]
        omega

/-- The first byte of an encoding, and what it has in its high bits. -/
theorem encode_cons (n : Nat) (b : UInt8) (v : Nat) :
    ∃ x tl, encode n b v = UInt8.ofNat (b.toNat + x) :: tl ∧ x ≤ 2 ^ n - 1 := by
  unfold encode
  by_cases h : v < 2 ^ n - 1
  · exact ⟨v, [], by rw [if_pos h], by omega⟩
  · exact ⟨_, _, by rw [if_neg h], le_refl _⟩

/-- The shortest encoding is one. -/
theorem encode_encodes {n k v : Nat} {b : UInt8} (hn : n ≤ 8) (hb : 2 ^ n ∣ b.toNat) (hv : v < 128 ^ (k + 1)) :
    Encodes n (k + 1) (encode n b v) v := by
  obtain ⟨m, hm⟩ := hb
  have hpos := Nat.two_pow_pos n
  -- the free bits have room for what is added
  have hfree : ∀ x ≤ 2 ^ n - 1, (UInt8.ofNat (b.toNat + x)).toNat % 2 ^ n = x := by
    intro x hx
    rw [UInt8.toNat_ofNat', hm, Nat.mod_mod_of_dvd _ (pow_dvd_pow 2 hn), Nat.mul_add_mod, Nat.mod_eq_of_lt (by omega)]
  unfold encode
  by_cases h : v < 2 ^ n - 1
  · rw [if_pos h]
    have hmod := hfree v (by omega)
    have hshort := @Encodes.short n (k + 1) (UInt8.ofNat (b.toNat + v)) (by rw [hmod]; exact h)
    rwa [hmod] at hshort
  · rw [if_neg h]
    obtain ⟨hclosed, hlen, hval⟩ := groups_spec k (v - (2 ^ n - 1)) (by omega)
    have hlong := @Encodes.long n (k + 1) (UInt8.ofNat (b.toNat + (2 ^ n - 1))) _ (hfree _ (le_refl _)) hclosed hlen
    rwa [hval, Nat.add_sub_of_le (by omega)] at hlong

end PrefixInt
