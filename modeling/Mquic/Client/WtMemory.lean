/-
Memory safety of `wt_handle_stream_data`, for every outcome of the allocator: the copies into `st->buf`
stay below its capacity, unless bytes beyond it arrive for a frame whose buffer a failed `realloc` has
left too small.
-/
import Mquic.Client.WtCalls

namespace Mquic.WtClient

open Mquic.Codec

/-! ## The copies -/

/-- A `memcpy` into `st->buf`: the offset it starts at, its length, and the capacity of the buffer. -/
structure Write where
  start : Nat
  len : Nat
  cap : Nat
deriving DecidableEq

/-- The copy stays inside the buffer. -/
def Write.InBounds (w : Write) : Prop := w.start + w.len ≤ w.cap

instance (w : Write) : Decidable w.InBounds := inferInstanceAs (Decidable (_ ≤ _))

/-- The copy of `accumulate`. -/
def accumulateWrites (os : Os) (s : State) (st : WtStream) (p : List UInt8) : List Write :=
  if st.cap < st.got + p.length then
    if os.alloc s.allocs then [⟨st.got, p.length, st.got + p.length⟩] else []
  else [⟨st.got, p.length, st.cap⟩]

/-- The copy of `receive`, made `if (take > 0)`. -/
def receiveWrites (st : WtStream) (p : List UInt8) : List Write :=
  if payloadNeed st = 0 then []
  else if takeLen st p.length > 0 then [⟨st.got, takeLen st p.length, st.cap⟩]
  else []

/-- The copy after a length is adopted. -/
def adoptWrites (os : Os) (s : State) (st : WtStream) (fl : Nat) (p : List UInt8) : List Write :=
  let st1 := st.framed fl p
  if payloadNeed st1 > st1.cap then
    if os.alloc s.allocs then receiveWrites { st1 with cap := payloadNeed st1 } (p.drop (ptsWidth p)) else []
  else receiveWrites st1 (p.drop (ptsWidth p))

/-- The copy after the framing is guessed. -/
def detectWrites (os : Os) (s : State) (st : WtStream) (p : List UInt8) : List Write :=
  let needLen := 1 <<< ((p.getD 0 0 &&& 0xC0).toNat >>> 6)
  if p.length < needLen then []
  else
    match wtVarintDecode p with
    | none => []
    | some (fl, c) => if BadLength fl then accumulateWrites os s st p else adoptWrites os s st fl (p.drop c)

/-- The copies of one round. -/
def roundWrites (os : Os) (s : State) (st : WtStream) (p : List UInt8) : List Write :=
  if !st.headerOk then []
  else if st.useLenFraming then receiveWrites st p
  else if st.curLen = 0 then detectWrites os s st p
  else accumulateWrites os s st p

/-- The copies of the loop. -/
def loopWrites (os : Os) : Nat → State → WtStream → List UInt8 → List Write
  | _, _, _, [] => []
  | 0, _, _, _ :: _ => []
  | fuel + 1, s, st, b :: p =>
    roundWrites os s st (b :: p) ++
      match round os s st (b :: p) with
      | .next s st p => loopWrites os fuel s st p
      | .brk _ _ => []
      | .ret _ _ _ => []

/-- The copies of a call. -/
def callWrites (os : Os) (s : State) (c : Nat × List UInt8) : List Write :=
  match getStream os s c.1 with
  | (none, _) => []
  | (some st, s) => loopWrites os (2 * c.2.length + 3) s st c.2

/-! ## Bounds -/

/-- The call stays inside the buffers: every copy does, and afterwards `got ≤ cap` on every stream, and
`got ≤ payload_need` on those in length framing. -/
def Bounded (os : Os) (s : State) (c : Nat × List UInt8) : Prop :=
  (∀ w ∈ callWrites os s c, w.InBounds) ∧
    ∀ s', call os s c = some s' → ∀ st ∈ s'.app.streams,
      st.got ≤ st.cap ∧ (st.useLenFraming = true → st.got ≤ payloadNeed st)

/-- In length framing, the buffer holds the frame or at least these bytes of it. -/
def Roomy (st : WtStream) (p : List UInt8) : Prop :=
  st.useLenFraming = true → payloadNeed st ≤ st.cap ∨ st.got + p.length ≤ st.cap

/-- The call's stream has room for the frame, or for the call's bytes. -/
def Room (s : State) (c : Nat × List UInt8) : Prop := Roomy (recordOf s c.1) c.2

/-- A record between two rounds. -/
structure Kept (st : WtStream) : Prop where
  got_le : st.got ≤ st.cap
  opened : st.useLenFraming = true → st.headerOk = true

/-! ## One round -/

/-- A round whose copies `ws` are inside the buffer, and which keeps what the next one needs. -/
def RoundBounded (ws : List Write) (f : Flow) : Prop :=
  (∀ w ∈ ws, w.InBounds) ∧ f.Leads (fun _ st p => Kept st ∧ Roomy st p) (fun _ st => Kept st)

section Rounds

variable {os : Os} {s : State} {st : WtStream} {p : List UInt8}

theorem readHeader_bounded (hk : Kept st) : RoundBounded [] (readHeader s st p) := by
  refine ⟨List.forall_mem_nil _, ?_⟩
  unfold readHeader
  split
  · exact hk
  · split
    · exact hk
    · split_ifs
      · exact hk
      · exact hk
      · exact ⟨⟨Nat.zero_le _, nofun⟩, nofun⟩

theorem accumulate_bounded (hk : Kept st) (hu : st.useLenFraming = false) :
    RoundBounded (accumulateWrites os s st p) (accumulate os s st hu p) := by
  -- the scan retains no more than it is given
  have hscan : ∀ (s0 : State) (cap : Nat), st.got + p.length ≤ cap →
      (appendExtract os s0 { st with cap := cap } hu p).Leads (fun _ st p => Kept st ∧ Roomy st p)
        (fun _ st => Kept st) := by
    intro s0 cap hcap
    have hlen : (extractJpegs (st.buf ++ p)).2.length ≤ st.buf.length + p.length := by
      have := extractJpegs_length (st.buf ++ p)
      rw [List.length_append] at this
      omega
    exact ⟨le_trans hlen hcap, fun h => absurd (hu.symm.trans h) Bool.false_ne_true⟩
  unfold accumulateWrites accumulate
  by_cases hcap : st.cap < st.got + p.length
  · rw [if_pos hcap, if_pos hcap]
    by_cases ha : os.alloc s.allocs = true
    · rw [if_pos ha, if_pos ha]
      refine ⟨fun w hw => ?_, hscan _ _ le_rfl⟩
      rw [List.mem_singleton.1 hw]
      exact le_rfl
    · rw [if_neg ha, if_neg ha]
      exact ⟨List.forall_mem_nil _, hk⟩
  · rw [if_neg hcap, if_neg hcap]
    refine ⟨fun w hw => ?_, hscan s st.cap (by omega)⟩
    rw [List.mem_singleton.1 hw]
    exact Nat.le_of_not_lt hcap

/-- The payload copied ends inside the buffer. -/
theorem copyPayload_le_cap (hu : st.useLenFraming = true) (hr : Roomy st p) :
    st.got + takeLen st p.length ≤ st.cap := by
  have hgot := got_le_need st hu
  have htake := takeLen_le st p.length
  rcases hr hu with hcap | hcap
  · have hneed : takeLen st p.length ≤ payloadNeed st - st.got := by unfold takeLen; split <;> omega
    omega
  · omega

theorem receive_bounded (hu : st.useLenFraming = true) (hk : Kept st) (hr : Roomy st p) :
    RoundBounded (receiveWrites st p) (receive os s st p) := by
  unfold receiveWrites receive
  by_cases hn : payloadNeed st = 0
  · rw [if_pos hn, if_pos hn]
    exact ⟨List.forall_mem_nil _, ⟨hk.got_le, nofun⟩, nofun⟩
  have hcopy := copyPayload_le_cap hu hr
  rw [if_neg hn, if_neg hn]
  constructor
  · intro w hw
    split at hw
    · rw [List.mem_singleton.1 hw]
      exact hcopy
    · cases hw
  · have hkept : Kept (copyPayload st p) := ⟨(copyPayload_got st p).trans_le hcopy, hk.opened⟩
    simp only
    split
    · split
      · exact hkept
      · exact ⟨⟨Nat.zero_le _, hk.opened⟩, fun _ => .inl (Nat.zero_le _)⟩
    · refine ⟨hkept, fun _ => (hr hu).imp id fun hcap => ?_⟩
      have hle := takeLen_le st p.length
      rw [copyPayload_got, List.length_drop]
      show st.got + takeLen st p.length + (p.length - takeLen st p.length) ≤ st.cap
      omega

theorem adopt_bounded (hh : st.headerOk = true) (n : Nat) :
    RoundBounded (adoptWrites os s st n p) (adopt os s st n p) := by
  unfold adoptWrites adopt
  simp only
  split
  · split
    · exact receive_bounded rfl ⟨Nat.zero_le _, fun _ => hh⟩ fun _ => .inl le_rfl
    · exact ⟨List.forall_mem_nil _, ⟨Nat.zero_le _, fun _ => hh⟩⟩
  · rename_i hcap
    exact receive_bounded rfl ⟨Nat.zero_le _, fun _ => hh⟩ fun _ => .inl (Nat.le_of_not_lt hcap)

theorem detect_bounded (hk : Kept st) (hh : st.headerOk = true) (hu : st.useLenFraming = false) :
    RoundBounded (detectWrites os s st p) (detect os s st hu p) := by
  unfold detectWrites detect
  simp only
  split
  · exact ⟨List.forall_mem_nil _, hk⟩
  · cases hd : wtVarintDecode p with
    | none => exact ⟨List.forall_mem_nil _, hk⟩
    | some r =>
      by_cases hb : BadLength r.1
      · simp only [if_pos hb]
        exact accumulate_bounded hk hu
      · simp only [if_neg hb]
        exact adopt_bounded hh r.1

theorem round_bounded (hk : Kept st) (hr : Roomy st p) :
    RoundBounded (roundWrites os s st p) (round os s st p) := by
  unfold roundWrites
  cases hh : st.headerOk with
  | false =>
    rw [round, hh]
    exact readHeader_bounded hk
  | true =>
    cases hu : st.useLenFraming with
    | true =>
      rw [round_on hh hu]
      exact receive_bounded hu hk hr
    | false =>
      rw [round_off hh hu]
      by_cases hc : st.curLen = 0
      · simp only [if_pos hc]
        exact detect_bounded hk hh hu
      · simp only [if_neg hc]
        exact accumulate_bounded hk hu

end Rounds

/-! ## The loop -/

theorem loopWrites_bounded {os : Os} : ∀ (fuel : Nat) (s : State) (st : WtStream) (p : List UInt8),
    Kept st → Roomy st p → ∀ w ∈ loopWrites os fuel s st p, w.InBounds
  | fuel, _, _, [], _, _, w, hw => by cases fuel <;> cases hw
  | 0, _, _, _ :: _, _, _, w, hw => by cases hw
  | fuel + 1, s, st, b :: p, hk, hr, w, hw => by
    have hround : RoundBounded (roundWrites os s st (b :: p)) (round os s st (b :: p)) := round_bounded hk hr
    obtain ⟨hws, hlead⟩ := hround
    unfold loopWrites at hw
    rcases List.mem_append.1 hw with hw | hw
    · exact hws w hw
    · cases hround : round os s st (b :: p) with
      | next s1 st1 p1 =>
        rw [hround] at hw hlead
        exact loopWrites_bounded fuel s1 st1 p1 hlead.1 hlead.2 w hw
      | brk s1 st1 => rw [hround] at hw; cases hw
      | ret s1 st1 code => rw [hround] at hw; cases hw

theorem loop_kept {os : Os} {fuel : Nat} {s s' : State} {st st' : WtStream} {p : List UInt8} {code : Int}
    (hk : Kept st) (hr : Roomy st p) (h : loop os fuel s st p = some (s', st', code)) : Kept st' :=
  loop_rule (I := fun _ st p => Kept st ∧ Roomy st p) (Q := fun _ st => Kept st)
    (fun _ _ _ _ hI => (round_bounded hI.1 hI.2).2) (fun _ _ hI => hI.1) fuel s st p s' st' code ⟨hk, hr⟩ h

/-! ## Calls -/

/-- Every record of the list is fit for the next call. -/
def Fit (s : State) : Prop := ∀ st ∈ s.app.streams, Kept st

theorem fresh_kept (sid : Nat) : Kept (WtStream.fresh sid) := ⟨Nat.zero_le _, nofun⟩

theorem Fit.recordOf {s : State} (hf : Fit s) (sid : Nat) : Kept (recordOf s sid) := by
  unfold WtClient.recordOf
  cases h : s.record sid with
  | none => exact fresh_kept sid
  | some st => exact hf st (List.mem_of_find?_eq_some h)

/-- A call with room keeps the records fit. -/
theorem Fit.call {os : Os} {s s' : State} {c : Nat × List UInt8} (hf : Fit s) (hr : Room s c)
    (h : call os s c = some s') : Fit s' := by
  obtain ⟨sid, p⟩ := c
  intro x hx
  rcases call_cases h with ⟨s1, -, happ, -⟩ | ⟨s1, s2, st', code, hg, hl, -, happ⟩
  · exact hf x (happ ▸ hx)
  · have hk : Kept st' := loop_kept (hf.recordOf sid) hr hl
    rw [happ] at hx
    rcases mem_putStream hx with rfl | hx
    · exact hk
    · obtain ⟨-, -, -, -, -, hmem⟩ := getStream_some hg
      rw [(loop_served hl).grows.streams] at hx
      rcases hmem x hx with hx | rfl
      · exact hf x hx
      · exact fresh_kept sid

/-- Without room, the first copy of the call ends behind the buffer. -/
theorem overrun {os : Os} {s : State} {c : Nat × List UInt8} (hf : Fit s) (hr : ¬ Room s c) :
    ∃ w ∈ callWrites os s c, ¬ w.InBounds := by
  obtain ⟨sid, p⟩ := c
  have hk := hf.recordOf sid
  unfold Room Roomy at hr
  push Not at hr
  obtain ⟨hu, hneed, hcap⟩ : (recordOf s sid).useLenFraming = true ∧
    (recordOf s sid).cap < payloadNeed (recordOf s sid) ∧ (recordOf s sid).cap < (recordOf s sid).got + p.length := hr
  have hgot := hk.got_le
  -- the stream has a record, in length framing
  have hrec : s.record sid = some (recordOf s sid) := by
    unfold recordOf at hu ⊢
    cases h : s.record sid with
    | none => rw [h] at hu; cases hu
    | some st => rfl
  have hget : getStream os s sid = (some (recordOf s sid), s) := by
    unfold State.record at hrec
    unfold getStream
    rw [hrec]
  obtain ⟨b, q, rfl⟩ : ∃ b q, p = b :: q := by
    cases p with
    | nil => exact absurd hcap (Nat.not_lt.2 hgot)
    | cons b q => exact ⟨b, q, rfl⟩
  have htake : (recordOf s sid).cap < (recordOf s sid).got + takeLen (recordOf s sid) (b :: q).length := by
    unfold takeLen
    split <;> omega
  refine ⟨⟨(recordOf s sid).got, takeLen (recordOf s sid) (b :: q).length, (recordOf s sid).cap⟩, ?_,
    Nat.not_le.2 htake⟩
  unfold callWrites
  simp only [hget]
  refine List.mem_append_left _ ?_
  have hneed0 : ¬ payloadNeed (recordOf s sid) = 0 := by omega
  have htake0 : takeLen (recordOf s sid) (b :: q).length > 0 := by omega
  unfold roundWrites receiveWrites
  rw [hk.opened hu, hu]
  simp only [Bool.not_true, Bool.false_eq_true, if_false, if_true, if_neg hneed0, if_pos htake0]
  exact List.mem_singleton_self _

theorem bounded_iff_room {os : Os} {s : State} {c : Nat × List UInt8} (hf : Fit s) : Bounded os s c ↔ Room s c := by
  constructor
  · intro hb
    by_contra hr
    obtain ⟨w, hw, hout⟩ : ∃ w ∈ callWrites os s c, ¬ w.InBounds := overrun hf hr
    exact hout (hb.1 w hw)
  · intro hr
    constructor
    · intro w hw
      unfold callWrites at hw
      split at hw
      · cases hw
      · rename_i st s1 hg
        obtain ⟨rfl, -⟩ := getStream_some hg
        exact loopWrites_bounded _ s1 _ c.2 (hf.recordOf c.1) hr w hw
    · intro s' h st hst
      exact ⟨(hf.call hr h st hst).got_le, got_le_need st⟩

/-! ## Sequences of calls -/

/-- In every sequence of calls, whatever the allocator does, every call stays inside the buffers just when
none brings a frame bytes that the buffer, left too small by a failed `realloc`, has no room for. -/
theorem bounded_iff (os : Os) (outDir : String) (maxFrames : Int) (sessionCtrlId : Nat)
    (cs : List (Nat × List UInt8)) :
    Lts.Meets (call os) (Bounded os) (State.init outDir maxFrames sessionCtrlId) cs ↔
      Lts.Meets (call os) Room (State.init outDir maxFrames sessionCtrlId) cs :=
  Lts.meets_iff (I := Fit) (fun _ _ _ hf hr h => hf.call hr h) (fun _ _ hf => bounded_iff_room hf) cs _ nofun

/-- An allocator that fails from its third call on. -/
def Os.exhausted : Os := ⟨fun i => i < 2, fun _ => true⟩

/-- The stream header and a frame length of 2 MiB. -/
def bigFrame : List UInt8 := [0x40, 0x54, 0x00, 0x80, 0x20, 0x00, 0x00]

/-- The buffer of 1 MiB cannot grow for that frame, and any chunk of more than 1 MiB overruns it. -/
theorem bigFrame_overrun {q : List UInt8} (hq : 2 ^ 20 < q.length) :
    ¬ Lts.Meets (call Os.exhausted) (Bounded Os.exhausted) (State.init "" 0 0) [(3, bigFrame), (3, q)] := by
  rintro ⟨-, hrest⟩
  obtain ⟨s1, h1⟩ := Option.isSome_iff_exists.1 (call_isSome Os.exhausted (State.init "" 0 0) (3, bigFrame))
  have hst : (call Os.exhausted (State.init "" 0 0) (3, bigFrame)).map (fun s => ((recordOf s 3).useLenFraming,
      payloadNeed (recordOf s 3), (recordOf s 3).got, (recordOf s 3).cap)) = some (true, 2 ^ 21, 0, 2 ^ 20) := by decide
  rw [h1] at hst
  simp only [Option.map_some, Option.some.injEq, Prod.mk.injEq] at hst
  obtain ⟨hu, hneed, hgot, hcap⟩ := hst
  have hfit : Fit s1 := Fit.call (s := State.init "" 0 0) nofun nofun h1
  have hroom : payloadNeed (recordOf s1 3) ≤ (recordOf s1 3).cap ∨
      (recordOf s1 3).got + q.length ≤ (recordOf s1 3).cap :=
    (bounded_iff_room hfit).1 (hrest s1 h1).1 hu
  rw [hneed, hgot, hcap] at hroom
  omega

/-- One byte more than 1 MiB of payload is written all the same. -/
theorem short_buffer_overrun :
    ¬ Lts.Meets (call Os.exhausted) (Bounded Os.exhausted) (State.init "" 0 0)
      [(3, bigFrame), (3, List.replicate (2 ^ 20 + 1) 0)] :=
  bigFrame_overrun (by rw [List.length_replicate]; omega)

end Mquic.WtClient
