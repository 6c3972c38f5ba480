/-
`picowt_create_local_stream` (pico_webtransport.c): a stream of a session opened at this end, and what the other end
makes of it. The direction asked of picoquic is the opposite of the one that was asked for.
-/
import Mathlib.Data.Nat.Bitwise
import Mquic.H3.Remote
import Mquic.H3.Varints

namespace Mquic.H3

/-! ## Opening -/

/-- `picoquic_get_next_local_stream_id`, by its second argument `is_unidir`: the lowest bit of an id is that of the
server's streams, the next one that of unidirectional streams. -/
structure LocalIds where
  isClient : Bool
  next : Bool → Nat
  next_mod : ∀ isUnidir, next isUnidir % 4 = (if isClient then 0 else 1) + if isUnidir then 2 else 0

/-- The context of a local stream: its id, and the bytes written on it so far. `path_callback_ctx` is the caller's. -/
structure LocalStream where
  streamId : Nat
  written : List UInt8
deriving DecidableEq

/-- `picowt_create_local_stream`, with the outcome of `malloc` and the answer of `picoquic_add_to_stream`. -/
def picowtCreateLocalStream (ids : LocalIds) (isBidir : Bool) (controlStreamId : Nat) (allocated : Bool)
    (addRet : Int) : Option LocalStream :=
  -- the argument is `is_unidir` there
  let sid := ids.next isBidir
  if !allocated then none
  else if !isBidir then
    let hdr := wtVarintEncode 0x54 16
    if hdr = [] then none
    else
      let id := wtVarintEncode controlStreamId (16 - hdr.length)
      if id = [] then none else if addRet ≠ 0 then none else some ⟨sid, hdr ++ id⟩
  else some ⟨sid, []⟩

theorem isBidirStreamId_iff (sid : Nat) : isBidirStreamId sid = true ↔ sid / 2 % 2 = 0 := by
  have hbit := Nat.and_two_pow sid 1
  rw [Nat.testBit_eq_decide_div_mod_eq, pow_one] at hbit
  unfold isBidirStreamId
  rw [hbit, decide_eq_true_iff]
  rcases Nat.mod_two_eq_zero_or_one (sid / 2) with h | h <;> simp [h]

/-- The direction of an id is the one picoquic was asked for. -/
theorem LocalIds.direction (ids : LocalIds) (isUnidir : Bool) : isBidirStreamId (ids.next isUnidir) = !isUnidir := by
  have hmod := ids.next_mod isUnidir
  rw [Bool.eq_iff_iff, isBidirStreamId_iff]
  have hside : (if ids.isClient = true then 0 else 1) < 2 := by split_ifs <;> omega
  cases isUnidir with
  | true =>
    rw [if_pos rfl] at hmod
    simp only [Bool.not_true, Bool.false_eq_true, iff_false]
    omega
  | false =>
    rw [if_neg Bool.false_ne_true] at hmod
    simp only [Bool.not_false, iff_true]
    omega

section Create

variable {ids : LocalIds} {isBidir allocated : Bool} {controlStreamId : Nat} {addRet : Int} {sc : LocalStream}

/-- A stream that was created has the id that picoquic gave, and a header if it was to be unidirectional. -/
theorem create_cases (h : picowtCreateLocalStream ids isBidir controlStreamId allocated addRet = some sc) :
    sc.streamId = ids.next isBidir ∧
      sc.written = if isBidir then [] else wtVarintEncode 0x54 16 ++ wtVarintEncode controlStreamId 14 := by
  unfold picowtCreateLocalStream at h
  cases allocated with
  | false => cases h
  | true =>
    cases isBidir with
    | true =>
      cases h
      exact ⟨rfl, rfl⟩
    | false =>
      simp only [Bool.not_true, Bool.false_eq_true, if_false, Bool.not_false, if_true] at h
      split_ifs at h
      cases h
      exact ⟨rfl, rfl⟩

/-- The header starts with the type of a session's unidirectional streams. -/
theorem header_type (rest : List UInt8) :
    Varint.decode (wtVarintEncode 0x54 16 ++ rest) = some (h3zeroStreamTypeWebtransport, 2) := by
  rw [@wtVarintEncode_eq 0x54 16 (by decide) (by decide)]
  exact Varint.decode_encode (by decide) rest

/-- What is written for a unidirectional stream is right for one: on such a stream it is recognised in any pieces. -/
theorem created_header_recognised {κ : Type} (mem : Mem) (prefixes : Prefixes κ)
    (h : picowtCreateLocalStream ids false controlStreamId allocated addRet = some sc) (hid : controlStreamId < 2 ^ 62)
    {callback : κ} (hreg : prefixes controlStreamId = some callback) {sid : Nat} (hu : isBidirStreamId sid = false)
    {app : List UInt8} {ds : List Delivery} (hds : deliveredBytes ds = sc.written ++ app) :
    (deliver mem prefixes sid ds).Recognised callback app := by
  obtain ⟨-, hwritten⟩ := create_cases h
  have hsize := Varint.size_le controlStreamId
  refine header_recognised mem prefixes hu hid hreg ?_
  rw [hds, hwritten, if_neg Bool.false_ne_true, @wtVarintEncode_eq 0x54 16 (by decide) (by decide),
    wtVarintEncode_eq hid (by omega)]
  rfl

/-- Every stream that is created has the direction that was not asked for, and whatever is written on it, and however it
is delivered, the other end never recognises it: a bidirectional stream with the header of a unidirectional one is
refused, and a unidirectional one without a header is no stream of a session. -/
theorem create_local_stream_misdirected
    (h : picowtCreateLocalStream ids isBidir controlStreamId allocated addRet = some sc) :
    isBidirStreamId sc.streamId ≠ isBidir ∧
      ∀ {κ : Type} (mem : Mem) (prefixes : Prefixes κ) (callback : κ) (app : List UInt8) (ds : List Delivery),
        deliveredBytes ds = sc.written ++ app →
          ¬(deliver mem prefixes sc.streamId ds).Recognised callback app := by
  obtain ⟨hsid, hwritten⟩ := create_cases h
  rw [hsid, hwritten]
  have hdir := ids.direction isBidir
  refine ⟨by rw [hdir]; cases isBidir <;> decide, fun mem prefixes callback app ds hds => ?_⟩
  cases isBidir with
  | true =>
    rw [if_pos rfl, List.nil_append] at hds
    rw [← hds]
    exact not_recognised_all mem prefixes hdir callback ds
  | false =>
    rw [if_neg Bool.false_ne_true, List.append_assoc] at hds
    have hother : NotSession (deliveredBytes ds) := by
      intro c hc
      rw [hds, header_type] at hc
      cases hc
    rintro ⟨hbound, -, -⟩
    rw [bidir_unbound mem prefixes hdir hother] at hbound
    cases hbound

end Create

/-- A client whose next ids are 4 and 2. -/
def clientIds : LocalIds where
  isClient := true
  next isUnidir := if isUnidir then 2 else 4
  next_mod isUnidir := by cases isUnidir <;> rfl

/-- Asked for a unidirectional stream of session 0, it opens the bidirectional stream 4. -/
theorem clientIds_misdirected : isBidirStreamId 4 ≠ false ∧
    ∀ {κ : Type} (mem : Mem) (prefixes : Prefixes κ) (callback : κ) (app : List UInt8) (ds : List Delivery),
      deliveredBytes ds = [0x40, 0x54, 0x00] ++ app → ¬(deliver mem prefixes 4 ds).Recognised callback app :=
  @create_local_stream_misdirected clientIds false true 0 0 ⟨4, [0x40, 0x54, 0x00]⟩ (by decide)

/-- That stream, its header and one byte of data, delivered at once to an end where session 0 is registered: the stream
is not of the direction asked for, and it is not recognised. -/
theorem clientIds_unrecognised :
    picowtCreateLocalStream clientIds false 0 true 0 = some ⟨4, [0x40, 0x54, 0x00]⟩ ∧ isBidirStreamId 4 ≠ false ∧
      ¬(deliver .ample (fun id => if id = 0 then some () else none) 4
        [⟨.zero, [0x40, 0x54, 0x00] ++ [0x07], true, 0, 0⟩]).Recognised () [0x07] := by
  refine ⟨by decide, by decide, ?_⟩
  rintro ⟨hbound, -, -⟩
  cases hbound

end Mquic.H3
