/-
What `wt_handle_stream_data` does with the bytes of one stream, without buffers and lists: a receiver
with four modes that takes one call's bytes at a time. The handler refines it when allocation and file
writes succeed and no frame limit is set.
-/
import Mquic.Client.WtTermination

namespace Mquic.WtClient

open Mquic.Codec

/-! ## The abstract receiver -/

/-- The header is still to come; a length or guessed JPEG data is next; payload of `need` bytes is being
received; JPEG data for good. -/
inductive Mode where
  | header
  | scan (buf : List UInt8)
  | payload (need : Nat) (acc : List UInt8)
  | raw (buf : List UInt8)

/-- What one call's bytes lead to: the mode, the frames saved, and whether the call returned -1. -/
structure Result where
  mode : Mode
  frames : List (List UInt8)
  rejected : Bool

/-- The value the call returns. -/
def Result.code (r : Result) : Int := if r.rejected then -1 else 0

/-- Frames saved before. -/
def Result.after (frames : List (List UInt8)) (r : Result) : Result := { r with frames := frames ++ r.frames }

/-- The mode after a length `n` and a PTS of `pts` bytes, which count as part of the `n`. -/
def framed (n pts : Nat) : Mode := if n ≤ pts then .raw [] else .payload (n - pts) []

/-- One call's bytes. A varint they cut short is dropped. -/
def absorb (sessionId : Nat) (m : Mode) (p : List UInt8) : Result :=
  match m with
  | .header =>
    match _h1 : Varint.decode p with
    | none => ⟨.header, [], false⟩
    | some (v, c1) =>
      match _h2 : Varint.decode (p.drop c1) with
      | none => ⟨.header, [], false⟩
      | some (w, c2) =>
        if v = 0x54 ∧ w = sessionId then absorb sessionId (.scan []) (p.drop (c1 + c2)) else ⟨.header, [], true⟩
  | .scan buf =>
    match _h : Varint.decode p with
    | none => ⟨.scan buf, [], false⟩
    | some (n, c) =>
      if BadLength n then ⟨.scan (extractJpegs (buf ++ p)).2, (extractJpegs (buf ++ p)).1, false⟩
      else absorb sessionId (framed n (ptsWidth (p.drop c))) ((p.drop c).drop (ptsWidth (p.drop c)))
  | .payload need acc =>
    if acc.length + p.length < need then ⟨.payload need (acc ++ p), [], false⟩
    else (absorb sessionId (.scan []) (p.drop (need - acc.length))).after [acc ++ p.take (need - acc.length)]
  | .raw buf =>
    if p = [] then ⟨.raw buf, [], false⟩
    else ⟨.raw (extractJpegs (buf ++ p)).2, (extractJpegs (buf ++ p)).1, false⟩
termination_by 2 * p.length + (match m with | .payload _ _ => 1 | _ => 0)
decreasing_by
  · have := Varint.decode_bounds _h1
    have := Varint.decode_bounds _h2
    simp only [List.length_drop] at *
    omega
  · have := Varint.decode_bounds _h
    simp only [List.length_drop]
    unfold framed
    split <;> simp <;> omega
  · simp only [List.length_drop]
    omega

section Equations

variable {S : Nat} {p : List UInt8}

theorem absorb_header_none (h : Varint.decode p = none) : absorb S .header p = ⟨.header, [], false⟩ := by
  rw [absorb]; split
  · rfl
  · rename_i h'; rw [h] at h'; cases h'

theorem absorb_header_cut {v c1 : Nat} (h1 : Varint.decode p = some (v, c1))
    (h2 : Varint.decode (p.drop c1) = none) : absorb S .header p = ⟨.header, [], false⟩ := by
  rw [absorb]; split
  · rfl
  · rename_i h'; rw [h1] at h'; cases h'
    split
    · rfl
    · rename_i h'; rw [h2] at h'; cases h'

theorem absorb_header_some {v c1 w c2 : Nat} (h1 : Varint.decode p = some (v, c1))
    (h2 : Varint.decode (p.drop c1) = some (w, c2)) :
    absorb S .header p =
      if v = 0x54 ∧ w = S then absorb S (.scan []) (p.drop (c1 + c2)) else ⟨.header, [], true⟩ := by
  rw [absorb]; split
  · rename_i h'; rw [h1] at h'; cases h'
  · rename_i h'; rw [h1] at h'; cases h'
    split
    · rename_i h'; rw [h2] at h'; cases h'
    · rename_i h'; rw [h2] at h'; cases h'; rfl

theorem absorb_scan_none {buf : List UInt8} (h : Varint.decode p = none) :
    absorb S (.scan buf) p = ⟨.scan buf, [], false⟩ := by
  rw [absorb]; split
  · rfl
  · rename_i h'; rw [h] at h'; cases h'

theorem absorb_scan_some (buf : List UInt8) {n c : Nat} (h : Varint.decode p = some (n, c)) :
    absorb S (.scan buf) p =
      if BadLength n then ⟨.scan (extractJpegs (buf ++ p)).2, (extractJpegs (buf ++ p)).1, false⟩
      else absorb S (framed n (ptsWidth (p.drop c))) ((p.drop c).drop (ptsWidth (p.drop c))) := by
  rw [absorb]; split
  · rename_i h'; rw [h] at h'; cases h'
  · rename_i h'; rw [h] at h'; cases h'; rfl

theorem absorb_payload_lt {need : Nat} {acc : List UInt8} (h : acc.length + p.length < need) :
    absorb S (.payload need acc) p = ⟨.payload need (acc ++ p), [], false⟩ := by
  rw [absorb, if_pos h]

theorem absorb_payload_ge {need : Nat} {acc : List UInt8} (h : need ≤ acc.length + p.length) :
    absorb S (.payload need acc) p =
      (absorb S (.scan []) (p.drop (need - acc.length))).after [acc ++ p.take (need - acc.length)] := by
  conv_lhs => rw [absorb]
  rw [if_neg (by omega)]

theorem absorb_raw {buf : List UInt8} (h : p ≠ []) :
    absorb S (.raw buf) p = ⟨.raw (extractJpegs (buf ++ p)).2, (extractJpegs (buf ++ p)).1, false⟩ := by
  rw [absorb, if_neg h]

/-- Payload that does not fill the frame may as well have come in a call of its own. -/
theorem absorb_payload_append {need : Nat} {acc : List UInt8} (h : acc.length + p.length < need) (q : List UInt8) :
    absorb S (.payload need acc) (p ++ q) = absorb S (.payload need (acc ++ p)) q := by
  by_cases hq : acc.length + (p ++ q).length < need
  · have hq' : (acc ++ p).length + q.length < need := by simp at hq ⊢; omega
    rw [absorb_payload_lt hq, absorb_payload_lt hq', List.append_assoc]
  · have hge : need ≤ acc.length + (p ++ q).length := by omega
    have hge' : need ≤ (acc ++ p).length + q.length := by simp at hq ⊢; omega
    have hsplit : need - acc.length = p.length + (need - (acc ++ p).length) := by simp; omega
    rw [absorb_payload_ge hge, absorb_payload_ge hge', hsplit, List.drop_append, List.take_append,
      List.drop_eq_nil_of_le (Nat.le_add_right ..), List.take_of_length_le (Nat.le_add_right ..),
      Nat.add_sub_cancel_left, List.nil_append, List.append_assoc]

/-- A call without bytes leaves the mode as it is, if no full frame is waiting. -/
theorem absorb_nil (S : Nat) {m : Mode} (h : ∀ need acc, m = .payload need acc → acc.length < need) :
    absorb S m [] = ⟨m, [], false⟩ := by
  cases m with
  | header => exact absorb_header_none rfl
  | scan buf => exact absorb_scan_none rfl
  | payload need acc => rw [absorb_payload_lt (by simpa using h need acc rfl), List.append_nil]
  | raw buf => rw [absorb, if_pos rfl]

end Equations

theorem ptsWidth_le (p : List UInt8) : ptsWidth p ≤ p.length := by
  unfold ptsWidth
  rw [wtVarintDecode_eq]
  cases h : Varint.decode p with
  | none => exact Nat.zero_le _
  | some r => exact (Varint.decode_bounds h).2

/-! ## What a record stands for -/

/-- The record `st` of stream `sid` is in mode `m`. -/
def Stands (sid : Nat) (st : WtStream) (m : Mode) : Prop :=
  st.streamId = sid ∧
    match m with
    | .header => st.headerOk = false
    | .scan buf => st.headerOk = true ∧ st.curLen = 0 ∧ st.buf = buf
    | .payload need acc => st.headerOk = true ∧ st.useLenFraming = true ∧ st.curLen = need + st.ptsLen ∧
        st.buf = acc ∧ acc.length < need ∧ need ≤ wtMaxFrameLen
    | .raw buf => st.headerOk = true ∧ 0 < st.curLen ∧ st.buf = buf ∧
        (st.useLenFraming = true → st.curLen ≤ st.ptsLen)

theorem Stands.absorb_nil {sid : Nat} {st : WtStream} {m : Mode} (hst : Stands sid st m) (S : Nat) :
    absorb S m [] = ⟨m, [], false⟩ := by
  apply WtClient.absorb_nil S
  rintro need acc rfl
  obtain ⟨-, -, -, -, -, hlt, -⟩ := hst
  exact hlt

/-- The stream and payload of each file. -/
def contents (s : State) : List (Nat × List UInt8) := s.files.map fun f => (f.sid, f.data)

/-- Between `s` and `s'` exactly `frames` were saved, on behalf of `sid`, and the list of streams and the
application's constants did not change. -/
structure Emits (sid : Nat) (frames : List (List UInt8)) (s s' : State) : Prop where
  contents : contents s' = contents s ++ frames.map (sid, ·)
  maxFrames : s'.app.maxFrames = s.app.maxFrames
  sessionCtrlId : s'.app.sessionCtrlId = s.app.sessionCtrlId
  streams : s'.app.streams = s.app.streams
  returned : s'.returned = s.returned

theorem Emits.refl (sid : Nat) (s : State) : Emits sid [] s s := ⟨by simp, rfl, rfl, rfl, rfl⟩

theorem Emits.trans {sid : Nat} {fs gs : List (List UInt8)} {s s' s'' : State} (h : Emits sid fs s s')
    (h' : Emits sid gs s' s'') : Emits sid (fs ++ gs) s s'' :=
  ⟨by rw [h'.contents, h.contents]; simp, h'.maxFrames.trans h.maxFrames,
    h'.sessionCtrlId.trans h.sessionCtrlId, h'.streams.trans h.streams, h'.returned.trans h.returned⟩

theorem Emits.allocs (sid : Nat) (s : State) (n : Nat) : Emits sid [] s { s with allocs := n } :=
  ⟨by simp [WtClient.contents], rfl, rfl, rfl, rfl⟩

theorem saveFrame_emits {os : Os} (ho : os.Succeeds) (sid : Nat) (s : State) (data : List UInt8) :
    Emits sid [data] s (saveFrame os sid s data) := by
  unfold saveFrame
  rw [if_pos (ho.2 _)]
  exact ⟨by simp [WtClient.contents], rfl, rfl, rfl, rfl⟩

theorem saveFrames_emits {os : Os} (ho : os.Succeeds) (sid : Nat) : ∀ (frames : List (List UInt8)) (s : State),
    Emits sid frames s (frames.foldl (saveFrame os sid) s)
  | [], s => Emits.refl sid s
  | f :: fs, s => (saveFrame_emits ho sid s f).trans (saveFrames_emits ho sid fs (saveFrame os sid s f))

theorem limitReached_unlimited {s : State} (h : s.app.maxFrames = 0) : limitReached s = false := by
  simp [limitReached, h]

/-! ## One round -/

/-- The round on `p` in mode `m` does its part of `absorb`: it breaks with the result, returns -1 where
`absorb` rejects, or leaves the rest of the result to come. -/
def RoundOk (S sid : Nat) (s : State) (m : Mode) (p : List UInt8) : Flow → Prop
  | .next s1 st1 p1 => ∃ m1 fs, Stands sid st1 m1 ∧ Emits sid fs s s1 ∧
      absorb S m p = (absorb S m1 p1).after fs
  | .brk s1 st1 => ∃ m1 fs, Stands sid st1 m1 ∧ Emits sid fs s s1 ∧ absorb S m p = ⟨m1, fs, false⟩
  | .ret s1 st1 code => ∃ m1 fs, Stands sid st1 m1 ∧ Emits sid fs s s1 ∧ code = -1 ∧ absorb S m p = ⟨m1, fs, true⟩

section Rounds

variable {os : Os} {sid : Nat} {s : State} {st : WtStream} {p : List UInt8}

theorem readHeader_ok (hst : Stands sid st .header) :
    RoundOk s.app.sessionCtrlId sid s .header p (readHeader s st p) := by
  unfold readHeader
  simp only [wtVarintDecode_eq]
  cases h1 : Varint.decode p with
  | none => exact ⟨_, [], hst, Emits.refl sid s, absorb_header_none h1⟩
  | some r1 =>
    obtain ⟨v, c1⟩ := r1
    cases h2 : Varint.decode (p.drop c1) with
    | none => simp only [h2]; exact ⟨_, [], hst, Emits.refl sid s, absorb_header_cut h1 h2⟩
    | some r2 =>
      obtain ⟨w, c2⟩ := r2
      have habs := absorb_header_some (S := s.app.sessionCtrlId) h1 h2
      simp only [h2]
      by_cases hv : v = 0x54
      · by_cases hw : w = s.app.sessionCtrlId
        · rw [if_neg (by simpa using hv), if_neg (by simpa using hw)]
          rw [if_pos ⟨hv, hw⟩] at habs
          exact ⟨.scan [], [], ⟨hst.1, rfl, rfl, rfl⟩, Emits.refl sid s, habs⟩
        · rw [if_neg (by simpa using hv), if_pos hw]
          rw [if_neg (fun h => hw h.2)] at habs
          exact ⟨_, [], hst, Emits.refl sid s, rfl, habs⟩
      · rw [if_pos hv]
        rw [if_neg (fun h => hv h.1)] at habs
        exact ⟨_, [], hst, Emits.refl sid s, rfl, habs⟩

/-- The record after accumulation of `p`. -/
def WtStream.retained (st : WtStream) (hu : st.useLenFraming = false) (p : List UInt8) : WtStream :=
  { st with cap := max st.cap (st.got + p.length), buf := (extractJpegs (st.buf ++ p)).2, fits := hu ▸ nofun }

/-- Accumulation saves the segments of the buffer and the new bytes, and retains the rest. -/
theorem accumulate_ok (ho : os.Succeeds) (hu : st.useLenFraming = false) :
    ∃ s1, accumulate os s st hu p = .brk s1 (st.retained hu p) ∧
      Emits st.streamId (extractJpegs (st.buf ++ p)).1 s s1 := by
  have happend : ∀ s0 : State, Emits st.streamId [] s s0 → ∃ s1,
      appendExtract os s0 { st with cap := max st.cap (st.got + p.length) } hu p = .brk s1 (st.retained hu p) ∧
        Emits st.streamId (extractJpegs (st.buf ++ p)).1 s s1 := by
    intro s0 h0
    have h1 := h0.trans (saveFrames_emits ho st.streamId (extractJpegs (st.buf ++ p)).1 s0)
    exact ⟨_, rfl, h1.contents, h1.maxFrames, h1.sessionCtrlId, h1.streams, h1.returned⟩
  unfold accumulate
  split
  · rename_i hcap
    rw [if_pos (ho.1 _)]
    obtain ⟨s1, h1, h2⟩ := happend { s with allocs := s.allocs + 1 } (Emits.allocs ..)
    simp only [Nat.max_eq_right (Nat.le_of_lt hcap)] at h1
    exact ⟨s1, h1, h2⟩
  · rename_i hcap
    obtain ⟨s1, h1, h2⟩ := happend s (Emits.refl _ s)
    simp only [Nat.max_eq_left (Nat.le_of_not_lt hcap)] at h1
    exact ⟨s1, h1, h2⟩

/-- In mode `payload` the step stores what there is, and saves a frame that is full. -/
theorem receive_payload (ho : os.Succeeds) (hm : s.app.maxFrames = 0) {need : Nat} {acc : List UInt8}
    (hst : Stands sid st (.payload need acc)) (S : Nat) :
    ∃ s1 st1 p1 m1 fs, receive os s st p = .next s1 st1 p1 ∧ Stands sid st1 m1 ∧ Emits sid fs s s1 ∧
      absorb S (.payload need acc) p = (absorb S m1 p1).after fs := by
  obtain ⟨hid, hh, hu, hcur, rfl, hlt, hmax⟩ := hst
  have hneed : payloadNeed st = need := by rw [payloadNeed_eq]; omega
  have hne : ¬ need = 0 := by omega
  unfold receive
  simp only [hneed, if_neg hne]
  -- the bytes fill the frame only in part, or to its end
  by_cases h : st.buf.length + p.length < need
  · have htake : takeLen st p.length = p.length := by
      unfold takeLen WtStream.got
      rw [hneed]; split <;> omega
    have hbuf : (copyPayload st p).buf = st.buf ++ p := by
      rw [copyPayload_buf, htake, List.take_length]
    have hfill : ¬ (copyPayload st p).got = need := by
      rw [WtStream.got, hbuf, List.length_append]; omega
    rw [if_neg hfill, htake, List.drop_length]
    have hst1 : Stands sid (copyPayload st p) (.payload need (st.buf ++ p)) :=
      ⟨hid, hh, hu, hcur, hbuf, by simpa using h, hmax⟩
    refine ⟨s, _, [], _, [], rfl, hst1, Emits.refl sid s, ?_⟩
    rw [absorb_payload_lt h, hst1.absorb_nil]
    rfl
  · have htake : takeLen st p.length = need - st.buf.length := by
      unfold takeLen WtStream.got
      rw [hneed]; split <;> omega
    have hbuf : (copyPayload st p).buf = st.buf ++ p.take (need - st.buf.length) := by
      rw [copyPayload_buf, htake]
    have hfill : (copyPayload st p).got = need := by
      rw [WtStream.got, hbuf, List.length_append, List.length_take]; omega
    have hsave := saveFrame_emits ho sid s (copyPayload st p).buf
    have hlim : limitReached (saveFrame os st.streamId s (copyPayload st p).buf) = false :=
      limitReached_unlimited ((saveFrame_emits ho _ s _).maxFrames.trans hm)
    rw [if_pos hfill]
    simp only [hlim, Bool.false_eq_true, if_false]
    rw [htake, hid, hbuf]
    exact ⟨_, _, _, .scan [], _, rfl, ⟨hid, hh, rfl, rfl⟩, hbuf ▸ hsave, absorb_payload_ge (by omega)⟩

/-- A record that needs no payload leaves length framing. -/
theorem receive_none (os : Os) (s : State) (p : List UInt8) {m : Mode} (hst : Stands sid st m)
    (hn : payloadNeed st = 0) :
    receive os s st p = .next s st.unframed p ∧ Stands sid st.unframed m := by
  refine ⟨by unfold receive; rw [if_pos hn], ?_⟩
  obtain ⟨hid, hst⟩ := hst
  refine ⟨hid, ?_⟩
  cases m with
  | header => exact hst
  | scan buf => exact hst
  | payload need acc =>
    obtain ⟨-, -, hcur, -, hlt, -⟩ := hst
    rw [payloadNeed_eq] at hn
    omega
  | raw buf => exact ⟨hst.1, hst.2.1, hst.2.2.1, nofun⟩

/-- An adopted length: the PTS is skipped, room is made, and the payload step goes on from there. -/
theorem adopt_ok (ho : os.Succeeds) (hm : s.app.maxFrames = 0) (hid : st.streamId = sid) (hh : st.headerOk = true)
    {n : Nat} (hn : ¬ BadLength n) (S : Nat) :
    ∃ s1 st1 p1 m1 fs, adopt os s st n p = .next s1 st1 p1 ∧ Stands sid st1 m1 ∧ Emits sid fs s s1 ∧
      absorb S (framed n (ptsWidth p)) (p.drop (ptsWidth p)) = (absorb S m1 p1).after fs := by
  have hpos : 0 < n ∧ n ≤ wtMaxFrameLen := by
    unfold BadLength at hn
    omega
  -- whatever room is made, the payload step starts with the record of the adopted frame
  have hreceive : ∀ (s0 : State) (cap : Nat), Emits sid [] s s0 →
      ∃ s1 st1 p1 m1 fs, receive os s0 { st.framed n p with cap := cap } (p.drop (ptsWidth p)) = .next s1 st1 p1 ∧
        Stands sid st1 m1 ∧ Emits sid fs s s1 ∧
        absorb S (framed n (ptsWidth p)) (p.drop (ptsWidth p)) = (absorb S m1 p1).after fs := by
    intro s0 cap h0
    by_cases hpts : n ≤ ptsWidth p
    · have hst : Stands sid { st.framed n p with cap := cap } (.raw []) := ⟨hid, hh, hpos.1, rfl, fun _ => hpts⟩
      have hneed : payloadNeed { st.framed n p with cap := cap } = 0 := by
        rw [payloadNeed_eq]
        exact Nat.sub_eq_zero_of_le hpts
      obtain ⟨h1, h2⟩ := receive_none os s0 (p.drop (ptsWidth p)) hst hneed
      exact ⟨_, _, _, _, [], h1, h2, h0, by rw [framed, if_pos hpts]; rfl⟩
    · have hst : Stands sid { st.framed n p with cap := cap } (.payload (n - ptsWidth p) []) :=
        ⟨hid, hh, rfl, (Nat.sub_add_cancel (Nat.le_of_not_le hpts)).symm, rfl, by simp; omega, by omega⟩
      obtain ⟨s1, st1, p1, m1, fs, h1, h2, h3, h4⟩ := receive_payload ho (h0.maxFrames.trans hm) hst S
      exact ⟨s1, st1, p1, m1, fs, h1, h2, h0.trans h3, by rw [framed, if_neg hpts]; exact h4⟩
  unfold adopt
  simp only
  split
  · rw [if_pos (ho.1 _)]
    exact hreceive { s with allocs := s.allocs + 1 } _ (Emits.allocs ..)
  · exact hreceive s _ (Emits.refl sid s)

/-- `need_len` is the width of the length varint. -/
theorem needLen_le {v c : Nat} (h : Varint.decode p = some (v, c)) :
    1 <<< ((p.getD 0 0 &&& 0xC0).toNat >>> 6) ≤ p.length := by
  cases p with
  | nil => simp at h
  | cons b0 tl =>
    have hneed : 1 <<< ((b0 &&& 0xC0).toNat >>> 6) = Varint.width b0 := by
      rw [and_C0, Nat.one_shiftLeft, Nat.shiftRight_eq_div_pow, Nat.mul_div_cancel _ (by norm_num)]
      rfl
    rw [List.getD_cons_zero, hneed]
    by_contra hlt
    rw [Varint.decode_cons_of_lt (by simpa using hlt)] at h
    cases h

theorem detect_ok (ho : os.Succeeds) (hm : s.app.maxFrames = 0) {buf : List UInt8}
    (hst : Stands sid st (.scan buf)) (hu : st.useLenFraming = false) (S : Nat) :
    RoundOk S sid s (.scan buf) p (detect os s st hu p) := by
  obtain ⟨hid, hh, hcur, rfl⟩ := hst
  unfold detect
  simp only [wtVarintDecode_eq]
  cases hd : Varint.decode p with
  | none =>
    simp only [ite_self]
    exact ⟨.scan st.buf, [], ⟨hid, hh, hcur, rfl⟩, Emits.refl sid s, absorb_scan_none hd⟩
  | some r =>
    obtain ⟨n, c⟩ := r
    rw [if_neg (Nat.not_lt.2 (needLen_le hd))]
    have habs := absorb_scan_some st.buf (S := S) hd
    by_cases hn : BadLength n
    · rw [if_pos hn] at habs
      obtain ⟨s1, h1, h2⟩ := accumulate_ok (p := p) (s := s) ho hu
      simp only [hn, if_true, h1]
      exact ⟨.scan _, _, ⟨hid, hh, hcur, rfl⟩, hid ▸ h2, habs⟩
    · rw [if_neg hn] at habs
      obtain ⟨s1, st1, p1, m1, fs, h1, h2, h3, h4⟩ := adopt_ok (p := p.drop c) ho hm hid hh hn S
      simp only [hn, if_false, h1]
      exact ⟨m1, fs, h2, h3, habs.trans h4⟩

theorem round_ok (ho : os.Succeeds) (hm : s.app.maxFrames = 0) {m : Mode} (hst : Stands sid st m) (hp : p ≠ []) :
    RoundOk s.app.sessionCtrlId sid s m p (round os s st p) := by
  -- the round that only clears `use_len_framing`
  have hclear : payloadNeed st = 0 → RoundOk s.app.sessionCtrlId sid s m p (receive os s st p) := by
    intro hn
    obtain ⟨h1, h2⟩ := receive_none os s p hst hn
    rw [h1]
    exact ⟨m, [], h2, Emits.refl sid s, rfl⟩
  cases m with
  | header =>
    rw [round, if_pos (by simpa using hst.2)]
    exact readHeader_ok hst
  | scan buf =>
    obtain ⟨hh, hcur, -⟩ := hst.2
    cases hu : st.useLenFraming with
    | false =>
      rw [round_off hh hu, if_pos hcur]
      exact detect_ok ho hm hst hu _
    | true =>
      rw [round_on hh hu]
      exact hclear (by rw [payloadNeed_eq, hcur, Nat.zero_sub])
  | payload need acc =>
    obtain ⟨hh, hu, -⟩ := hst.2
    obtain ⟨s1, st1, p1, m1, fs, h1, h2, h3, h4⟩ := receive_payload (p := p) ho hm hst s.app.sessionCtrlId
    rw [round_on hh hu, h1]
    exact ⟨m1, fs, h2, h3, h4⟩
  | raw buf =>
    obtain ⟨hh, hcur, rfl, hraw⟩ := hst.2
    cases hu : st.useLenFraming with
    | false =>
      obtain ⟨s1, h1, h2⟩ := accumulate_ok (p := p) (s := s) ho hu
      rw [round_off hh hu, if_neg (by omega), h1]
      exact ⟨.raw _, _, ⟨hst.1, hh, hcur, rfl, hraw⟩, hst.1 ▸ h2, absorb_raw hp⟩
    | true =>
      rw [round_on hh hu]
      exact hclear (by rw [payloadNeed_eq]; exact Nat.sub_eq_zero_of_le (hraw hu))

/-! ## The loop -/

/-- The loop computes `absorb`. -/
theorem loop_ok (ho : os.Succeeds) : ∀ (fuel : Nat) (s : State) (st : WtStream) (m : Mode) (p : List UInt8),
    s.app.maxFrames = 0 → Stands sid st m → 2 * p.length + lag st ≤ fuel →
    ∃ s' st', loop os fuel s st p = some (s', st', (absorb s.app.sessionCtrlId m p).code) ∧
      Stands sid st' (absorb s.app.sessionCtrlId m p).mode ∧
      Emits sid (absorb s.app.sessionCtrlId m p).frames s s' := by
  intro fuel
  induction fuel with
  | zero =>
    intro s st m p _ hst hf
    have hp : p = [] := List.length_eq_zero_iff.1 (by omega)
    subst hp
    rw [hst.absorb_nil]
    exact ⟨s, st, rfl, hst, Emits.refl sid s⟩
  | succ fuel ih =>
    intro s st m p hm hst hf
    cases p with
    | nil =>
      rw [hst.absorb_nil]
      exact ⟨s, st, rfl, hst, Emits.refl sid s⟩
    | cons b p =>
      have hround := round_ok ho hm hst (List.cons_ne_nil b p)
      simp only [loop]
      cases hr : round os s st (b :: p) with
      | next s1 st1 p1 =>
        -- the measure goes down in every round, so the fuel left is enough
        rw [hr] at hround
        obtain ⟨m1, fs, h1, h2, h3⟩ := hround
        have hless := round_measure (List.cons_ne_nil b p) hr
        obtain ⟨s', st', h5, h6, h7⟩ := ih s1 st1 m1 p1 (h2.maxFrames.trans hm) h1 (by omega)
        rw [h2.sessionCtrlId] at h5 h6 h7
        rw [h3]
        exact ⟨s', st', h5, h6, h2.trans h7⟩
      | brk s1 st1 =>
        rw [hr] at hround
        obtain ⟨m1, fs, h1, h2, h3⟩ := hround
        rw [h3]
        exact ⟨s1, st1, rfl, h1, h2⟩
      | ret s1 st1 code =>
        rw [hr] at hround
        obtain ⟨m1, fs, h1, h2, rfl, h3⟩ := hround
        rw [h3]
        exact ⟨s1, st1, rfl, h1, h2⟩

end Rounds

/-! ## The list of streams -/

theorem find_putStream_self {st : WtStream} : ∀ {l : List WtStream}, (∃ x ∈ l, x.streamId = st.streamId) →
    (putStream st l).find? (·.streamId = st.streamId) = some st
  | [], h => by obtain ⟨x, hx, -⟩ := h; cases hx
  | x :: xs, h => by
    by_cases hx : x.streamId = st.streamId
    · simp [putStream, hx]
    · rw [putStream, if_neg hx, List.find?_cons_of_neg (by simpa using hx)]
      obtain ⟨y, hy, he⟩ := h
      refine find_putStream_self ⟨y, ?_, he⟩
      rcases List.mem_cons.1 hy with rfl | hy
      · exact absurd he hx
      · exact hy

theorem find_putStream_other {st : WtStream} {sid : Nat} (h : sid ≠ st.streamId) : ∀ l : List WtStream,
    (putStream st l).find? (·.streamId = sid) = l.find? (·.streamId = sid)
  | [] => rfl
  | x :: xs => by
    by_cases hx : x.streamId = st.streamId
    · have hne : ¬ x.streamId = sid := fun he => h (he.symm.trans hx)
      rw [putStream, if_pos hx, List.find?_cons_of_neg (by simpa using Ne.symm h),
        List.find?_cons_of_neg (by simpa using hne)]
    · rw [putStream, if_neg hx, List.find?_cons, List.find?_cons, find_putStream_other h xs]

/-- The record a call on `sid` works on. -/
def recordOf (s : State) (sid : Nat) : WtStream := (s.record sid).getD (WtStream.fresh sid)

theorem recordOf_streamId (s : State) (sid : Nat) : (recordOf s sid).streamId = sid := by
  unfold recordOf
  cases h : s.record sid with
  | none => rfl
  | some st => simpa using List.find?_some h

theorem getStream_ok {os : Os} (ho : os.Succeeds) (s : State) (sid : Nat) :
    ∃ s1, getStream os s sid = (some (recordOf s sid), s1) ∧ s1.record sid = some (recordOf s sid) ∧
      (∀ sid', sid' ≠ sid → s1.record sid' = s.record sid') ∧ contents s1 = contents s ∧
      s1.app.maxFrames = s.app.maxFrames ∧ s1.app.sessionCtrlId = s.app.sessionCtrlId ∧ s1.returned = s.returned := by
  unfold getStream recordOf State.record
  cases h : s.app.streams.find? (·.streamId = sid) with
  | some st => exact ⟨s, rfl, h, fun _ _ => rfl, rfl, rfl, rfl, rfl⟩
  | none =>
    simp only [ho.1, if_true]
    refine ⟨_, rfl, ?_, fun sid' hne => ?_, rfl, rfl, rfl, rfl⟩
    · simp [WtStream.fresh]
    · simp [WtStream.fresh, Ne.symm hne]

theorem fresh_stands (sid : Nat) : Stands sid (WtStream.fresh sid) .header := ⟨rfl, rfl⟩

/-! ## Calls -/

/-- A call on `sid` computes `absorb` on its record, saves what that says, and leaves the records of the
other streams alone. -/
theorem call_ok {os : Os} (ho : os.Succeeds) {s : State} (hm : s.app.maxFrames = 0) {sid : Nat} {m : Mode}
    (hst : Stands sid (recordOf s sid) m) (p : List UInt8) :
    ∃ s', call os s (sid, p) = some s' ∧
      Stands sid (recordOf s' sid) (absorb s.app.sessionCtrlId m p).mode ∧
      contents s' = contents s ++ (absorb s.app.sessionCtrlId m p).frames.map (sid, ·) ∧
      s'.returned = s.returned ++ [(absorb s.app.sessionCtrlId m p).code] ∧
      s'.app.maxFrames = 0 ∧ s'.app.sessionCtrlId = s.app.sessionCtrlId ∧
      ∀ sid', sid' ≠ sid → s'.record sid' = s.record sid' := by
  obtain ⟨s1, h1, h2, h3, h4, h5, h6, h7⟩ := getStream_ok ho s sid
  have hfuel : 2 * p.length + lag (recordOf s sid) ≤ 2 * p.length + 3 := by
    have := lag_le (recordOf s sid)
    omega
  obtain ⟨s2, st2, h8, h9, h10⟩ := loop_ok ho _ s1 _ m p (h5.trans hm) hst hfuel
  rw [h6] at h8 h9 h10
  unfold call wtHandleStreamData
  simp only [h1, h8, Option.map_some]
  refine ⟨_, rfl, ?_, ?_, ?_, h10.maxFrames.trans (h5.trans hm), h10.sessionCtrlId.trans h6, ?_⟩
  · -- the handler wrote through its pointer into the list
    have hmem : ∃ x ∈ s2.app.streams, x.streamId = st2.streamId := by
      rw [h10.streams]
      refine ⟨recordOf s sid, List.mem_of_find?_eq_some h2, ?_⟩
      rw [hst.1, h9.1]
    have hfind := find_putStream_self hmem
    rw [h9.1] at hfind
    simp only [recordOf, State.record, hfind]
    exact h9
  · rw [← h4]; exact h10.contents
  · show s2.returned ++ _ = _
    rw [h10.returned, h7]
  · intro sid' hne
    rw [← h3 sid' hne]
    simp only [State.record]
    rw [find_putStream_other (by rw [h9.1]; exact hne), h10.streams]

/-! ## The calls of one stream -/

/-- Two varints at the start of a chunk are there in everything the chunk begins. -/
theorem two_varints_append {p : List UInt8} {v c w d : Nat} (h1 : Varint.decode p = some (v, c))
    (h2 : Varint.decode (p.drop c) = some (w, d)) (s : List UInt8) :
    Varint.decode (p ++ s) = some (v, c) ∧ Varint.decode ((p ++ s).drop c) = some (w, d) := by
  obtain ⟨-, hc⟩ := Varint.decode_bounds h1
  refine ⟨Varint.decode_append h1 s, ?_⟩
  rw [List.drop_append_of_le_length hc]
  exact Varint.decode_append h2 s

/-- The frames saved over the calls with `chunks`, from mode `m`. -/
def savedOver (S : Nat) : Mode → List (List UInt8) → List (List UInt8)
  | _, [] => []
  | m, c :: cs => (absorb S m c).frames ++ savedOver S (absorb S m c).mode cs

/-- The values returned. -/
def codesOver (S : Nat) : Mode → List (List UInt8) → List Int
  | _, [] => []
  | m, c :: cs => (absorb S m c).code :: codesOver S (absorb S m c).mode cs

theorem calls_ok {os : Os} (ho : os.Succeeds) {sid : Nat} : ∀ (chunks : List (List UInt8)) (s : State) (m : Mode),
    s.app.maxFrames = 0 → Stands sid (recordOf s sid) m →
    ∃ s', calls os s (chunks.map (sid, ·)) = some s' ∧
      contents s' = contents s ++ (savedOver s.app.sessionCtrlId m chunks).map (sid, ·) ∧
      s'.returned = s.returned ++ codesOver s.app.sessionCtrlId m chunks
  | [], s, m, _, _ => ⟨s, rfl, by simp [savedOver], by simp [codesOver]⟩
  | c :: cs, s, m, hm, hst => by
    obtain ⟨s1, h1, h2, h3, h4, h5, h6, -⟩ := call_ok ho hm hst c
    obtain ⟨s', h7, h8, h9⟩ := calls_ok ho cs s1 _ h5 h2
    rw [h6] at h8 h9
    refine ⟨s', ?_, ?_, ?_⟩
    · unfold calls at h7 ⊢
      rw [List.map_cons, Lts.run_cons, h1, Option.bind_some, h7]
    · rw [h8, h3, savedOver, List.map_append, List.append_assoc]
    · rw [h9, h4, codesOver, List.append_assoc]
      rfl

/-- A stream without a record is in mode `header`. -/
theorem unseen_stands {s : State} {sid : Nat} (h : s.record sid = none) : Stands sid (recordOf s sid) .header := by
  unfold recordOf
  rw [h]
  exact fresh_stands sid

theorem savedFor_eq (s : State) (sid : Nat) : s.savedFor sid = ((contents s).filter (·.1 = sid)).map (·.2) := by
  unfold State.savedFor contents
  rw [List.filter_map, List.map_map]
  rfl

theorem savedFor_append {s s' : State} {sid : Nat} {fs : List (List UInt8)}
    (h : contents s' = contents s ++ fs.map (sid, ·)) (x : Nat) :
    s'.savedFor x = s.savedFor x ++ if x = sid then fs else [] := by
  rw [savedFor_eq, savedFor_eq, h, List.filter_append, List.map_append]
  by_cases hx : x = sid
  · subst hx
    simp [List.filter_map, Function.comp_def]
  · simp [List.filter_map, Function.comp_def, hx, Ne.symm hx]

/-- The calls of a new stream save what the receiver saves, from mode `header`. -/
theorem calls_unseen {os : Os} (ho : os.Succeeds) {s : State} (hm : s.app.maxFrames = 0) {sid : Nat}
    (hs : s.record sid = none) (chunks : List (List UInt8)) :
    ∃ s', calls os s (chunks.map (sid, ·)) = some s' ∧
      s'.savedFor sid = s.savedFor sid ++ savedOver s.app.sessionCtrlId .header chunks ∧
      s'.returned = s.returned ++ codesOver s.app.sessionCtrlId .header chunks := by
  obtain ⟨s', h1, h2, h3⟩ := calls_ok ho chunks s .header hm (unseen_stands hs)
  refine ⟨s', h1, ?_, h3⟩
  rw [savedFor_append h2, if_pos rfl]

end Mquic.WtClient
