/-
`wt_handle_stream_data` always ends: every round that goes on leaves fewer bytes, or has a record that
is nearer to leaving length framing. This holds for every record and every outcome of the allocator.
-/
import Mquic.Client.Wt

namespace Mquic.WtClient

open Mquic.Codec

/-- The rounds a record can take without consuming a byte: a full frame is saved, a frame that needs
nothing leaves length framing. -/
def lag (st : WtStream) : Nat :=
  if st.useLenFraming = true then
    if payloadNeed st = 0 then 1 else if st.got = payloadNeed st then 2 else 0
  else 0

theorem lag_off {st : WtStream} (h : st.useLenFraming = false) : lag st = 0 := by simp [lag, h]

theorem lag_le (st : WtStream) : lag st ≤ 2 := by unfold lag; split_ifs <;> omega

theorem lag_idle {st : WtStream} (h : payloadNeed st = 0) : lag st ≤ 1 := by
  unfold lag
  rw [if_pos h]
  split <;> omega

section Rounds

variable {os : Os} {s s1 : State} {st st1 : WtStream} {p p1 : List UInt8}

theorem accumulate_ne_next (hu : st.useLenFraming = false) : accumulate os s st hu p ≠ .next s1 st1 p1 := by
  unfold accumulate
  split
  · split <;> nofun
  · nofun

theorem readHeader_measure (h : readHeader s st p = .next s1 st1 p1) : 2 * p1.length + lag st1 < 2 * p.length := by
  unfold readHeader at h
  simp only [wtVarintDecode_eq] at h
  split at h
  · cases h
  · rename_i v c1 h1
    split at h
    · cases h
    · rename_i w c2 h2
      obtain ⟨hc1, -⟩ := Varint.decode_bounds h1
      obtain ⟨hc2, hle⟩ := Varint.decode_bounds h2
      rw [List.length_drop] at hle
      split_ifs at h
      cases h
      rw [lag_off rfl, List.length_drop]
      omega

theorem receive_measure (hu : st.useLenFraming = true) (h : receive os s st p = .next s1 st1 p1) :
    2 * p1.length + lag st1 ≤ 2 * p.length + 1 ∧ (p ≠ [] → 2 * p1.length + lag st1 < 2 * p.length + lag st) := by
  unfold receive at h
  simp only at h
  have hgot := copyPayload_got st p
  have hle := takeLen_le st p.length
  have hfits := got_le_need st hu
  by_cases hn : payloadNeed st = 0
  · rw [if_pos hn] at h
    cases h
    have hlag : lag st = 1 := by simp [lag, hu, hn]
    rw [lag_off rfl, hlag]
    exact ⟨by omega, fun _ => by omega⟩
  rw [if_neg hn] at h
  by_cases hfull : (copyPayload st p).got = payloadNeed st
  · rw [if_pos hfull] at h
    split at h
    · cases h
    · cases h
      have hidle : lag (copyPayload st p).nextFrame ≤ 1 := lag_idle rfl
      rw [List.length_drop]
      refine ⟨by omega, fun hp => ?_⟩
      have hpos : 0 < p.length := List.length_pos_of_ne_nil hp
      by_cases ht : takeLen st p.length = 0
      · -- nothing taken: the frame was full before
        have hlag : lag st = 2 := by
          rw [hgot, ht] at hfull
          simp [lag, hu, hn, show st.got = payloadNeed st by omega]
        omega
      · omega
  · rw [if_neg hfull] at h
    cases h
    have hall : takeLen st p.length = p.length := by
      rw [hgot] at hfull
      unfold takeLen at hfull ⊢
      split_ifs at hfull ⊢ <;> omega
    have hlag : lag (copyPayload st p) = 0 := by
      have hn' : ¬ payloadNeed (copyPayload st p) = 0 := hn
      have hf' : ¬ (copyPayload st p).got = payloadNeed (copyPayload st p) := hfull
      unfold lag
      rw [if_neg hn', if_neg hf', ite_self]
    rw [hall, List.drop_length, hlag]
    refine ⟨by simp, fun hp => ?_⟩
    have : 0 < p.length := List.length_pos_of_ne_nil hp
    simp only [List.length_nil]
    omega

theorem adopt_measure {n : Nat} (h : adopt os s st n p = .next s1 st1 p1) :
    2 * p1.length + lag st1 ≤ 2 * p.length + 1 := by
  have hdrop : (p.drop (ptsWidth p)).length ≤ p.length := by rw [List.length_drop]; omega
  unfold adopt at h
  simp only at h
  split at h
  · split at h
    · have := (receive_measure rfl h).1
      omega
    · cases h
  · have := (receive_measure rfl h).1
    omega

theorem detect_measure (hu : st.useLenFraming = false) (h : detect os s st hu p = .next s1 st1 p1) :
    2 * p1.length + lag st1 < 2 * p.length := by
  unfold detect at h
  simp only [wtVarintDecode_eq] at h
  split at h
  · cases h
  · split at h
    · cases h
    · rename_i n c hd
      obtain ⟨hc, hle⟩ := Varint.decode_bounds hd
      split at h
      · exact absurd h (accumulate_ne_next hu)
      · have := adopt_measure h
        rw [List.length_drop] at this
        omega

theorem round_on (hh : st.headerOk = true) (hu : st.useLenFraming = true) : round os s st p = receive os s st p := by
  unfold round
  rw [if_neg (by simp [hh])]
  split
  · rename_i h; rw [hu] at h; cases h
  · rfl

theorem round_off (hh : st.headerOk = true) (hu : st.useLenFraming = false) :
    round os s st p = if st.curLen = 0 then detect os s st hu p else accumulate os s st hu p := by
  unfold round
  rw [if_neg (by simp [hh])]
  split
  · rfl
  · rename_i h; rw [hu] at h; cases h

/-- A round that goes on leaves less to do. -/
theorem round_measure (hp : p ≠ []) (h : round os s st p = .next s1 st1 p1) :
    2 * p1.length + lag st1 < 2 * p.length + lag st := by
  cases hh : st.headerOk with
  | false =>
    rw [round, if_pos (by simp [hh])] at h
    have := readHeader_measure h
    omega
  | true =>
    cases hu : st.useLenFraming with
    | true =>
      rw [round_on hh hu] at h
      exact (receive_measure hu h).2 hp
    | false =>
      rw [round_off hh hu] at h
      split at h
      · have := detect_measure hu h
        omega
      · exact absurd h (accumulate_ne_next hu)

end Rounds

/-! ## The loop -/

/-- With two rounds a byte and the record's lag, the loop ends. -/
theorem loop_isSome (os : Os) : ∀ (fuel : Nat) (s : State) (st : WtStream) (p : List UInt8),
    2 * p.length + lag st ≤ fuel → (loop os fuel s st p).isSome
  | _, _, _, [], _ => by unfold loop; rfl
  | 0, _, _, _ :: _, h => by simp at h
  | fuel + 1, s, st, b :: p, h => by
    unfold loop
    cases hr : round os s st (b :: p) with
    | next s1 st1 p1 =>
      have := round_measure (List.cons_ne_nil b p) hr
      exact loop_isSome os fuel s1 st1 p1 (by omega)
    | brk s1 st1 => rfl
    | ret s1 st1 code => rfl

/-- The handler returns, whatever the records, the bytes and the allocator do. -/
theorem wtHandleStreamData_isSome (os : Os) (s : State) (sid : Nat) (bytes : List UInt8) :
    (wtHandleStreamData os s sid bytes).isSome := by
  unfold wtHandleStreamData
  split
  · rfl
  · rename_i st s1 _
    have hlag := lag_le st
    rw [Option.isSome_map]
    exact loop_isSome os _ s1 st bytes (by omega)

theorem call_isSome (os : Os) (s : State) (c : Nat × List UInt8) : (call os s c).isSome := by
  unfold call
  rw [Option.isSome_map]
  exact wtHandleStreamData_isSome os s c.1 c.2

theorem calls_isSome (os : Os) (cs : List (Nat × List UInt8)) (s : State) : (calls os s cs).isSome :=
  Lts.run_isSome (call_isSome os) cs s

end Mquic.WtClient
