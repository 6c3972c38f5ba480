/-
QPACK header blocks as a grammar: what a field line is, and what it stores. The parser of h3zero.c reads a block
just when the block is a sequence of field lines that can be stored one after the other.
-/
import Mquic.H3.Qpack
import Mquic.Lib.PrefixInt

namespace Mquic.H3

open PrefixInt (Encodes)

/-! ## Prefixed integers -/

theorem and_80_eq_zero (b : UInt8) : b &&& 0x80 = 0 ↔ b.toNat < 128 := by
  have h : ∀ n < 256, n &&& 0x80 = 0 ↔ n < 128 := by
    set_option maxRecDepth 4000 in decide
  rw [← UInt8.toNat_inj, UInt8.toNat_and]
  exact h b.toNat b.toNat_lt

/-- The loop reads groups; it gives up at shift 62, after nine of them. -/
theorem intDecodeLoop_eq : ∀ (bytes : List UInt8) {k v : Nat}, k ≤ 9 → v < 2 ^ (7 * k) →
    intDecodeLoop bytes (7 * k) v =
      (PrefixInt.decodeGroups (9 - k) bytes).map fun r => (r.2, v + 2 ^ (7 * k) * r.1)
  | [], k, v, _, _ => by
    unfold intDecodeLoop
    cases 9 - k with
    | zero => rfl
    | succ m => rfl
  | b :: bs, k, v, hk, hv => by
    rw [intDecodeLoop]
    by_cases hk9 : k = 9
    · subst hk9
      rfl
    · have hmax : 9 - k = (9 - (k + 1)) + 1 := by omega
      have hlow : (b &&& 0x7F).toNat = b.toNat % 128 := by
        rw [UInt8.toNat_and]
        exact Nat.and_two_pow_sub_one_eq_mod b.toNat 7
      -- the seven bits stand above all that was read before
      have hor : v ||| (b &&& 0x7F).toNat <<< (7 * k) = v + 2 ^ (7 * k) * (b.toNat % 128) := by
        rw [hlow, Nat.shiftLeft_eq, Nat.or_comm, Nat.mul_comm, ← Nat.two_pow_add_eq_or_of_lt hv, Nat.add_comm]
      rw [if_pos (by omega), hmax, PrefixInt.decodeGroups]
      simp only [hor, and_80_eq_zero]
      by_cases hlast : b.toNat < 128
      · rw [if_pos hlast, if_pos hlast, Nat.mod_eq_of_lt hlast]
        rfl
      · have hnext : v + 2 ^ (7 * k) * (b.toNat % 128) < 2 ^ (7 * (k + 1)) := by
          have hmod : b.toNat % 128 ≤ 127 := by omega
          have hmul := Nat.mul_le_mul_left (2 ^ (7 * k)) hmod
          rw [Nat.mul_succ, Nat.pow_add]
          omega
        have hrest := intDecodeLoop_eq bs (by omega) hnext
        rw [Nat.mul_succ] at hrest
        rw [if_neg hlast, if_neg hlast, hrest, Option.map_map]
        congr 1
        funext r
        rw [Function.comp, Nat.pow_add]
        ring_nf

/-- `h3zero_qpack_int_decode` reads what encodes an integer. -/
theorem qpackIntDecode_iff {n : Nat} {mask : UInt8} (hmask : mask.toNat = 2 ^ n - 1) {bytes rest : List UInt8}
    {v : Nat} :
    qpackIntDecode mask bytes = (some rest, v) ↔ ∃ p, bytes = p ++ rest ∧ Encodes n 9 p v := by
  rw [← PrefixInt.decode_iff]
  cases bytes with
  | nil => exact ⟨nofun, nofun⟩
  | cons b bs =>
    have hlow : (b &&& mask).toNat = b.toNat % 2 ^ n := by
      rw [UInt8.toNat_and, hmask, Nat.and_two_pow_sub_one_eq_mod]
    have hloop := @intDecodeLoop_eq bs 0 0 (Nat.zero_le 9) Nat.one_pos
    rw [Nat.mul_zero] at hloop
    unfold qpackIntDecode PrefixInt.decode
    simp only [hlow, hmask, hloop]
    by_cases hall : b.toNat % 2 ^ n = 2 ^ n - 1
    · rw [if_pos hall, if_pos hall]
      cases PrefixInt.decodeGroups 9 bs with
      | none => exact ⟨nofun, nofun⟩
      | some r =>
        simp only [Option.map_some, Prod.mk.injEq, Option.some.injEq, Nat.zero_add, Nat.pow_zero, Nat.one_mul,
          Nat.add_comm r.1]
        exact And.comm
    · rw [if_neg hall, if_neg hall]
      simp only [Prod.mk.injEq, Option.some.injEq]
      exact And.comm

/-- The same, behind a first byte. -/
theorem qpackIntDecode_cons {n : Nat} {mask : UInt8} (hmask : mask.toNat = 2 ^ n - 1) {b : UInt8}
    {bytes rest : List UInt8} {v : Nat} :
    qpackIntDecode mask (b :: bytes) = (some rest, v) ↔ ∃ tl, bytes = tl ++ rest ∧ Encodes n 9 (b :: tl) v := by
  rw [qpackIntDecode_iff hmask]
  constructor
  · rintro ⟨p, hp, henc⟩
    obtain ⟨c, tl, rfl⟩ := List.exists_cons_of_ne_nil henc.ne_nil
    cases hp
    exact ⟨tl, rfl, henc⟩
  · rintro ⟨tl, rfl, henc⟩
    exact ⟨b :: tl, rfl, henc⟩

/-! ## Field lines -/

/-- A field line: an entry of the static table, a value under an entry's name, or a value under a name of its
own; the booleans are the Huffman bits. -/
inductive FieldLine where
  | indexed (index : Nat)
  | nameRef (index : Nat) (isHuffman : Bool) (raw : List UInt8)
  | literal (nameHuffman : Bool) (name : List UInt8) (isHuffman : Bool) (raw : List UInt8)

/-- The bytes of a value: its length in seven bits, then as many bytes. -/
inductive IsValue : List UInt8 → Bool → List UInt8 → Prop
  | mk (b : UInt8) (tl raw : List UInt8) (hlen : Encodes 7 9 (b :: tl) raw.length) :
      IsValue (b :: tl ++ raw) (b.toNat.testBit 7) raw

/-- The bytes of a field line. -/
inductive IsFieldLine : List UInt8 → FieldLine → Prop
  | indexed (b : UInt8) (tl : List UInt8) (index : Nat) (hb : b &&& 0xC0 = 0xC0)
      (hindex : Encodes 6 9 (b :: tl) index) :
      IsFieldLine (b :: tl) (.indexed index)
  | nameRef (b : UInt8) (tl : List UInt8) (index : Nat) {q : List UInt8} {isHuffman : Bool} {raw : List UInt8}
      (hb : b &&& 0xD0 = 0x50) (hindex : Encodes 4 9 (b :: tl) index) (hq : IsValue q isHuffman raw) :
      IsFieldLine (b :: tl ++ q) (.nameRef index isHuffman raw)
  | literal (b : UInt8) (tl name : List UInt8) {q : List UInt8} {isHuffman : Bool} {raw : List UInt8}
      (hb : b &&& 0xE0 = 0x20) (hlen : Encodes 3 9 (b :: tl) name.length) (hq : IsValue q isHuffman raw) :
      IsFieldLine (b :: tl ++ name ++ q) (.literal (b.toNat.testBit 3) name isHuffman raw)

/-- The bytes of field lines in a row. -/
inductive IsFieldLines : List UInt8 → List FieldLine → Prop
  | nil : IsFieldLines [] []
  | cons {p bytes : List UInt8} {line : FieldLine} {lines : List FieldLine} (hp : IsFieldLine p line)
      (h : IsFieldLines bytes lines) : IsFieldLines (p ++ bytes) (line :: lines)

/-- The parts with what a field line says, unless it names no entry or says something for the second time. -/
def FieldLine.store (mem : Mem) : FieldLine → HeaderParts → Option HeaderParts
  | .indexed index, parts =>
    if index > qpackStatic.length then none else parts.storeStatic mem (staticAt mem index)
  | .nameRef index isHuffman raw, parts =>
    if index > qpackStatic.length then none
    else parts.store mem (staticAt mem index).header (deHuff isHuffman raw)
  | .literal nameHuffman name isHuffman raw, parts =>
    parts.store mem (getInterestingHeaderType name nameHuffman) (deHuff isHuffman raw)

/-- What field lines in a row make of the parts. -/
def storeLines (mem : Mem) (lines : List FieldLine) (parts : HeaderParts) : Option HeaderParts :=
  lines.foldlM (fun parts line => line.store mem parts) parts

/-! ## The parser reads the grammar -/

theorem parseQpackHeaderValue_iff {mem : Mem} {header : HttpHeader} {bytes rest : List UInt8}
    {parts parts' : HeaderParts} :
    parseQpackHeaderValue mem header bytes parts = (some rest, parts') ↔
      ∃ q isHuffman raw, bytes = q ++ rest ∧ IsValue q isHuffman raw ∧
        parts.store mem header (deHuff isHuffman raw) = some parts' := by
  constructor
  · intro h
    cases bytes with
    | nil => cases h
    | cons b bs =>
      unfold parseQpackHeaderValue at h
      cases hd : qpackIntDecode 0x7F (b :: bs) with
      | mk after vLength =>
        cases after with
        | none => simp only [hd] at h; cases h
        | some after =>
          simp only [hd] at h
          split at h
          · cases h
          · rename_i hlen
            cases hs : parts.store mem header (deHuff (b.toNat.testBit 7) (after.take vLength)) with
            | none => rw [hs] at h; cases h
            | some stored =>
              rw [hs] at h
              cases h
              obtain ⟨tl, rfl, henc⟩ := (@qpackIntDecode_cons 7 0x7F rfl _ _ _ _).1 hd
              have hraw : (after.take vLength).length = vLength := by rw [List.length_take]; omega
              refine ⟨_, _, _, ?_, .mk b tl (after.take vLength) (by rw [hraw]; exact henc), hs⟩
              rw [List.append_assoc, List.take_append_drop]
              rfl
  · rintro ⟨q, isHuffman, raw, rfl, ⟨b, tl, raw, henc⟩, hs⟩
    have hd : qpackIntDecode 0x7F (b :: (tl ++ raw ++ rest)) = (some (raw ++ rest), raw.length) :=
      (@qpackIntDecode_cons 7 0x7F rfl _ _ _ _).2 ⟨tl, List.append_assoc .., henc⟩
    have hlen : ¬ (raw ++ rest).length < raw.length := by simp
    unfold parseQpackHeaderValue
    simp only [List.cons_append, hd, if_neg hlen, List.take_left, List.drop_left, hs]

theorem nameRef_not_indexed {b : UInt8} (hb : b &&& 0xD0 = 0x50) : ¬ b &&& 0xC0 = 0xC0 := by
  have h : ∀ n < 256, n &&& 0xD0 = 0x50 → ¬ n &&& 0xC0 = 0xC0 := by
    set_option maxRecDepth 4000 in decide
  rw [← UInt8.toNat_inj, UInt8.toNat_and] at hb ⊢
  exact h b.toNat b.toNat_lt hb

theorem literal_not_indexed {b : UInt8} (hb : b &&& 0xE0 = 0x20) : ¬ b &&& 0xC0 = 0xC0 ∧ ¬ b &&& 0xD0 = 0x50 := by
  have h : ∀ n < 256, n &&& 0xE0 = 0x20 → ¬ n &&& 0xC0 = 0xC0 ∧ ¬ n &&& 0xD0 = 0x50 := by
    set_option maxRecDepth 4000 in decide
  rw [← UInt8.toNat_inj, UInt8.toNat_and] at hb
  rw [← UInt8.toNat_inj, UInt8.toNat_and, ← UInt8.toNat_inj, UInt8.toNat_and]
  exact h b.toNat b.toNat_lt hb

theorem parse_indexed {mem : Mem} {b : UInt8} {bs rest : List UInt8} {parts parts' : HeaderParts}
    (hb : b &&& 0xC0 = 0xC0) :
    parseFieldLine mem b (b :: bs) parts = (some rest, parts') ↔
      ∃ tl index, bs = tl ++ rest ∧ Encodes 6 9 (b :: tl) index ∧
        (FieldLine.indexed index).store mem parts = some parts' := by
  have hline : parseFieldLine mem b (b :: bs) parts = (some rest, parts') ↔
      ∃ index, qpackIntDecode 0x3F (b :: bs) = (some rest, index) ∧
        (FieldLine.indexed index).store mem parts = some parts' := by
    unfold parseFieldLine
    rw [if_pos hb]
    cases qpackIntDecode 0x3F (b :: bs) with
    | mk after index =>
      by_cases hindex : index > qpackStatic.length
      · simp [FieldLine.store, hindex]
      · cases hs : parts.storeStatic mem (staticAt mem index) with
        | none => simp [FieldLine.store, hindex, hs]
        | some stored => simp [FieldLine.store, hindex, hs, Nat.le_of_not_lt hindex]
  rw [hline]
  constructor
  · rintro ⟨index, hd, hs⟩
    obtain ⟨tl, rfl, henc⟩ := (@qpackIntDecode_cons 6 0x3F rfl _ _ _ _).1 hd
    exact ⟨tl, index, rfl, henc, hs⟩
  · rintro ⟨tl, index, rfl, henc, hs⟩
    exact ⟨index, (@qpackIntDecode_cons 6 0x3F rfl _ _ _ _).2 ⟨tl, rfl, henc⟩, hs⟩

theorem parse_nameRef {mem : Mem} {b : UInt8} {bs rest : List UInt8} {parts parts' : HeaderParts}
    (hb : b &&& 0xD0 = 0x50) :
    parseFieldLine mem b (b :: bs) parts = (some rest, parts') ↔
      ∃ tl index q isHuffman raw, bs = tl ++ (q ++ rest) ∧ Encodes 4 9 (b :: tl) index ∧ IsValue q isHuffman raw ∧
        (FieldLine.nameRef index isHuffman raw).store mem parts = some parts' := by
  have hline : parseFieldLine mem b (b :: bs) parts = (some rest, parts') ↔
      ∃ index after, qpackIntDecode 0x0F (b :: bs) = (some after, index) ∧ ¬ index > qpackStatic.length ∧
        parseQpackHeaderValue mem (staticAt mem index).header after parts = (some rest, parts') := by
    unfold parseFieldLine
    rw [if_neg (nameRef_not_indexed hb), if_pos hb]
    cases qpackIntDecode 0x0F (b :: bs) with
    | mk after index =>
      cases after with
      | none => simp
      | some after =>
        by_cases hindex : index > qpackStatic.length
        · simp [hindex]
        · simp [hindex, Nat.le_of_not_lt hindex]
  rw [hline]
  constructor
  · rintro ⟨index, after, hd, hindex, hvalue⟩
    obtain ⟨tl, rfl, henc⟩ := (@qpackIntDecode_cons 4 0x0F rfl _ _ _ _).1 hd
    obtain ⟨q, isHuffman, raw, rfl, hq, hs⟩ := parseQpackHeaderValue_iff.1 hvalue
    exact ⟨tl, index, q, isHuffman, raw, rfl, henc, hq, by rw [FieldLine.store, if_neg hindex, hs]⟩
  · rintro ⟨tl, index, q, isHuffman, raw, rfl, henc, hq, hs⟩
    rw [FieldLine.store] at hs
    split at hs
    · cases hs
    · rename_i hindex
      exact ⟨index, _, (@qpackIntDecode_cons 4 0x0F rfl _ _ _ _).2 ⟨tl, rfl, henc⟩, hindex,
        parseQpackHeaderValue_iff.2 ⟨q, isHuffman, raw, rfl, hq, hs⟩⟩

theorem parse_literal {mem : Mem} {b : UInt8} {bs rest : List UInt8} {parts parts' : HeaderParts}
    (hb : b &&& 0xE0 = 0x20) :
    parseFieldLine mem b (b :: bs) parts = (some rest, parts') ↔
      ∃ tl name q isHuffman raw, bs = tl ++ (name ++ (q ++ rest)) ∧ Encodes 3 9 (b :: tl) name.length ∧
        IsValue q isHuffman raw ∧
        (FieldLine.literal (b.toNat.testBit 3) name isHuffman raw).store mem parts = some parts' := by
  obtain ⟨hnotIndexed, hnotRef⟩ := literal_not_indexed hb
  have hline : parseFieldLine mem b (b :: bs) parts = (some rest, parts') ↔
      ∃ n after, qpackIntDecode 0x07 (b :: bs) = (some after, n) ∧ ¬ after.length < n ∧
        parseQpackHeaderValue mem (getInterestingHeaderType (after.take n) (b.toNat.testBit 3)) (after.drop n) parts =
          (some rest, parts') := by
    unfold parseFieldLine
    rw [if_neg hnotIndexed, if_neg hnotRef, if_pos hb]
    cases qpackIntDecode 0x07 (b :: bs) with
    | mk after n =>
      cases after with
      | none => simp
      | some after =>
        by_cases hlen : after.length < n
        · simp [hlen]
        · simp [hlen, Nat.le_of_not_lt hlen]
  rw [hline]
  constructor
  · rintro ⟨n, after, hd, hlen, hvalue⟩
    obtain ⟨tl, rfl, henc⟩ := (@qpackIntDecode_cons 3 0x07 rfl _ _ _ _).1 hd
    obtain ⟨q, isHuffman, raw, hafter, hq, hs⟩ := parseQpackHeaderValue_iff.1 hvalue
    have hname : (after.take n).length = n := by rw [List.length_take]; omega
    refine ⟨tl, after.take n, q, isHuffman, raw, ?_, by rw [hname]; exact henc, hq, hs⟩
    rw [← hafter, List.take_append_drop]
  · rintro ⟨tl, name, q, isHuffman, raw, rfl, henc, hq, hs⟩
    refine ⟨name.length, _, (@qpackIntDecode_cons 3 0x07 rfl _ _ _ _).2 ⟨tl, rfl, henc⟩, by simp, ?_⟩
    rw [List.take_left, List.drop_left]
    exact parseQpackHeaderValue_iff.2 ⟨q, isHuffman, raw, rfl, hq, hs⟩

/-- A round of the loop reads a field line. -/
theorem parseFieldLine_iff {mem : Mem} {b : UInt8} {bs rest : List UInt8} {parts parts' : HeaderParts} :
    parseFieldLine mem b (b :: bs) parts = (some rest, parts') ↔
      ∃ p line, b :: bs = p ++ rest ∧ IsFieldLine p line ∧ line.store mem parts = some parts' := by
  constructor
  · intro h
    by_cases hindexed : b &&& 0xC0 = 0xC0
    · obtain ⟨tl, index, rfl, henc, hs⟩ := (parse_indexed hindexed).1 h
      exact ⟨_, _, rfl, .indexed b tl index hindexed henc, hs⟩
    by_cases hnameRef : b &&& 0xD0 = 0x50
    · obtain ⟨tl, index, q, isHuffman, raw, rfl, henc, hq, hs⟩ := (parse_nameRef hnameRef).1 h
      refine ⟨_, _, ?_, .nameRef b tl index hnameRef henc hq, hs⟩
      rw [List.append_assoc]
      rfl
    by_cases hliteral : b &&& 0xE0 = 0x20
    · obtain ⟨tl, name, q, isHuffman, raw, rfl, henc, hq, hs⟩ := (parse_literal hliteral).1 h
      refine ⟨_, _, ?_, .literal b tl name hliteral henc hq, hs⟩
      rw [List.append_assoc, List.append_assoc]
      rfl
    · unfold parseFieldLine at h
      rw [if_neg hindexed, if_neg hnameRef, if_neg hliteral] at h
      cases h
  · rintro ⟨p, line, hp, hline, hs⟩
    cases hline with
    | indexed c tl index hb henc =>
      cases hp
      exact (parse_indexed hb).2 ⟨tl, index, rfl, henc, hs⟩
    | nameRef c tl index hb henc hq =>
      rw [List.append_assoc] at hp
      cases hp
      exact (parse_nameRef hb).2 ⟨tl, index, _, _, _, rfl, henc, hq, hs⟩
    | literal c tl name hb henc hq =>
      rw [List.append_assoc, List.append_assoc] at hp
      cases hp
      exact (parse_literal hb).2 ⟨tl, name, _, _, _, rfl, henc, hq, hs⟩

theorem IsFieldLine.ne_nil {p : List UInt8} {line : FieldLine} (h : IsFieldLine p line) : p ≠ [] := by
  rintro rfl
  cases h

/-- The loop reads field lines in a row, to the last byte. -/
theorem parseFieldLines_iff {mem : Mem} : ∀ {fuel : Nat} {bytes rest : List UInt8} {parts parts' : HeaderParts},
    bytes.length ≤ fuel → (parseFieldLines mem fuel bytes parts = (some rest, parts') ↔
      rest = [] ∧ ∃ lines, IsFieldLines bytes lines ∧ storeLines mem lines parts = some parts')
  | fuel, [], rest, parts, parts', _ => by
    rw [parseFieldLines]
    constructor
    · intro h
      cases h
      exact ⟨rfl, [], .nil, rfl⟩
    · rintro ⟨rfl, lines, hlines, hs⟩
      generalize hbytes : ([] : List UInt8) = bytes at hlines
      cases hlines with
      | nil => cases hs; rfl
      | cons hp h => exact absurd (List.append_eq_nil_iff.1 hbytes.symm).1 hp.ne_nil
  | 0, b :: bs, _, _, _, hfuel => absurd hfuel (by simp)
  | fuel + 1, b :: bs, rest, parts, parts', hfuel => by
    -- a line takes a byte at least, so that the fuel lasts
    have hshorter : ∀ {p after : List UInt8}, b :: bs = p ++ after → p ≠ [] → after.length ≤ fuel := by
      intro p after heq hne
      have hlen := congrArg List.length heq
      have hpos := List.length_pos_of_ne_nil hne
      rw [List.length_append] at hlen
      omega
    rw [parseFieldLines]
    constructor
    · intro h
      cases hd : parseFieldLine mem b (b :: bs) parts with
      | mk after stored =>
        cases after with
        | none => simp only [hd] at h; cases h
        | some after =>
          simp only [hd] at h
          obtain ⟨p, line, heq, hp, hs⟩ := parseFieldLine_iff.1 hd
          obtain ⟨hrest, lines, hlines, hss⟩ := (parseFieldLines_iff (hshorter heq hp.ne_nil)).1 h
          refine ⟨hrest, line :: lines, heq ▸ .cons hp hlines, ?_⟩
          unfold storeLines at hss ⊢
          rw [List.foldlM_cons, hs]
          exact hss
    · rintro ⟨hrest, lines, hlines, hss⟩
      generalize hbytes : b :: bs = bytes at hlines
      cases hlines with
      | nil => cases hbytes
      | @cons p after line lines hp hlines =>
        unfold storeLines at hss
        rw [List.foldlM_cons] at hss
        cases hs : line.store mem parts with
        | none => rw [hs] at hss; cases hss
        | some stored =>
          rw [hs] at hss
          rw [← hbytes, parseFieldLine_iff.2 ⟨p, line, hbytes, hp, hs⟩]
          exact (parseFieldLines_iff (hshorter hbytes hp.ne_nil)).2 ⟨hrest, lines, hlines, hss⟩

end Mquic.H3
