/-
The streams of `wt_handle_stream_data` do not interfere: what a call does to its record and what it saves
depend on the record and the bytes alone, so that interleaving the calls of other streams changes neither
the frames saved for a stream nor its record.
-/
import Mquic.Client.WtReceiver

namespace Mquic.WtClient

open Mquic.Codec

/-! ## What a round depends on -/

/-- A round's effect on the record and the bytes left, and the frames it saves. -/
inductive Outcome where
  | next (st : WtStream) (p : List UInt8) (frames : List (List UInt8))
  | brk (st : WtStream) (frames : List (List UInt8))
  | ret (st : WtStream) (code : Int) (frames : List (List UInt8))

def Outcome.record : Outcome → WtStream
  | .next st _ _ => st
  | .brk st _ => st
  | .ret st _ _ => st

def Outcome.frames : Outcome → List (List UInt8)
  | .next _ _ fs => fs
  | .brk _ fs => fs
  | .ret _ _ fs => fs

/-- The outcome in the application's state `s`. -/
def Outcome.flow (o : Outcome) (s : State) : Flow :=
  match o with
  | .next st p _ => .next s st p
  | .brk st _ => .brk s st
  | .ret st code _ => .ret s st code

/-- The outcome of `f`, on a record of stream `sid`, is the same in every state of an application without
frame limit on session `S`. -/
def Uniform (S sid : Nat) (f : State → Flow) : Prop :=
  ∃ o : Outcome, o.record.streamId = sid ∧ ∀ s, s.app.maxFrames = 0 → s.app.sessionCtrlId = S →
    ∃ s1, Emits sid o.frames s s1 ∧ f s = o.flow s1

section Rounds

variable {os : Os} {S : Nat} {st : WtStream} {p : List UInt8}

/-- An outcome that saves nothing and leaves the state alone. -/
theorem Uniform.pure (o : Outcome) (f : State → Flow) (hf : o.frames = []) (hid : o.record.streamId = st.streamId)
    (h : ∀ s, s.app.sessionCtrlId = S → f s = o.flow s) : Uniform S st.streamId f :=
  ⟨o, hid, fun s _ hS => ⟨s, hf ▸ Emits.refl _ s, h s hS⟩⟩

theorem readHeader_uniform : Uniform S st.streamId (fun s => readHeader s st p) := by
  unfold readHeader
  cases h1 : wtVarintDecode p with
  | none => exact .pure (.brk st []) _ rfl rfl fun s _ => rfl
  | some r1 =>
    cases h2 : wtVarintDecode (p.drop r1.2) with
    | none => exact .pure (.brk st []) _ rfl rfl fun s _ => by simp only [h2]; rfl
    | some r2 =>
      simp only [h2]
      by_cases hv : r1.1 = 0x54
      · by_cases hw : r2.1 = S
        · refine .pure (.next st.opened (p.drop (r1.2 + r2.2)) []) _ rfl rfl fun s hS => ?_
          rw [if_neg (by simpa using hv), if_neg (by rw [hS]; simpa using hw)]
          rfl
        · refine .pure (.ret st (-1) []) _ rfl rfl fun s hS => ?_
          rw [if_neg (by simpa using hv), if_pos (by rw [hS]; exact hw)]
          rfl
      · refine .pure (.ret st (-1) []) _ rfl rfl fun s _ => ?_
        rw [if_pos hv]
        rfl

theorem accumulate_uniform (ho : os.Succeeds) (hu : st.useLenFraming = false) :
    Uniform S st.streamId (fun s => accumulate os s st hu p) := by
  refine ⟨.brk (st.retained hu p) (extractJpegs (st.buf ++ p)).1, rfl, fun s _ _ => ?_⟩
  obtain ⟨s1, h1, h2⟩ := accumulate_ok (s := s) (p := p) ho hu
  exact ⟨s1, h2, h1⟩

theorem receive_uniform (ho : os.Succeeds) (st : WtStream) (p : List UInt8) :
    Uniform S st.streamId (fun s => receive os s st p) := by
  unfold receive
  by_cases hn : payloadNeed st = 0
  · exact .pure (.next st.unframed p []) _ rfl rfl fun s _ => if_pos hn
  · simp only [if_neg hn]
    by_cases hf : (copyPayload st p).got = payloadNeed st
    · refine ⟨.next (copyPayload st p).nextFrame (p.drop (takeLen st p.length)) [(copyPayload st p).buf], rfl,
        fun s hm _ => ?_⟩
      have hsave := saveFrame_emits ho st.streamId s (copyPayload st p).buf
      refine ⟨_, hsave, ?_⟩
      simp only [if_pos hf, limitReached_unlimited (hsave.maxFrames.trans hm)]
      rfl
    · exact .pure (.next (copyPayload st p) (p.drop (takeLen st p.length)) []) _ rfl rfl fun s _ => if_neg hf

theorem adopt_uniform (ho : os.Succeeds) (n : Nat) : Uniform S st.streamId (fun s => adopt os s st n p) := by
  unfold adopt
  by_cases hcap : payloadNeed (st.framed n p) > (st.framed n p).cap
  · obtain ⟨o, hid, h⟩ := receive_uniform ho { st.framed n p with cap := payloadNeed (st.framed n p) }
      (p.drop (ptsWidth p)) (S := S)
    refine ⟨o, hid, fun s hm hS => ?_⟩
    obtain ⟨s1, h1, h2⟩ := h { s with allocs := s.allocs + 1 } hm hS
    refine ⟨s1, (Emits.allocs _ s _).trans h1, ?_⟩
    simp only [if_pos hcap, ho.1, if_true]
    exact h2
  · obtain ⟨o, hid, h⟩ := receive_uniform ho (st.framed n p) (p.drop (ptsWidth p)) (S := S)
    refine ⟨o, hid, fun s hm hS => ?_⟩
    obtain ⟨s1, h1, h2⟩ := h s hm hS
    refine ⟨s1, h1, ?_⟩
    simp only [if_neg hcap]
    exact h2

theorem detect_uniform (ho : os.Succeeds) (hu : st.useLenFraming = false) :
    Uniform S st.streamId (fun s => detect os s st hu p) := by
  unfold detect
  simp only
  split
  · exact .pure (.brk st []) _ rfl rfl fun s _ => rfl
  · cases hd : wtVarintDecode p with
    | none => exact .pure (.brk st []) _ rfl rfl fun s _ => rfl
    | some r =>
      by_cases hb : BadLength r.1
      · simp only [if_pos hb]
        exact accumulate_uniform ho hu
      · simp only [if_neg hb]
        exact adopt_uniform ho r.1

/-- A round depends on the record and the bytes only. -/
theorem round_uniform (ho : os.Succeeds) (st : WtStream) (p : List UInt8) :
    Uniform S st.streamId (fun s => round os s st p) := by
  cases hh : st.headerOk with
  | false =>
    have hround : ∀ s, round os s st p = readHeader s st p := by
      intro s
      rw [round, if_pos (by simp [hh])]
    simp only [hround]
    exact readHeader_uniform
  | true =>
    cases hu : st.useLenFraming with
    | true =>
      simp only [round_on hh hu]
      exact receive_uniform ho st p
    | false =>
      simp only [round_off hh hu]
      by_cases hc : st.curLen = 0
      · simp only [if_pos hc]
        exact detect_uniform ho hu
      · simp only [if_neg hc]
        exact accumulate_uniform ho hu

/-- So does the loop. -/
theorem loop_uniform (ho : os.Succeeds) : ∀ (fuel : Nat) (st : WtStream) (p : List UInt8),
    2 * p.length + lag st ≤ fuel → ∃ (st' : WtStream) (code : Int) (fs : List (List UInt8)),
      st'.streamId = st.streamId ∧
      ∀ s, s.app.maxFrames = 0 → s.app.sessionCtrlId = S →
        ∃ s', Emits st.streamId fs s s' ∧ loop os fuel s st p = some (s', st', code)
  | fuel, st, [], _ => ⟨st, 0, [], rfl, fun s _ _ => ⟨s, Emits.refl _ s, by cases fuel <;> rfl⟩⟩
  | 0, st, b :: p, h => by simp at h
  | fuel + 1, st, b :: p, h => by
    obtain ⟨o, hid, ho'⟩ := round_uniform ho st (b :: p) (S := S)
    cases o with
    | brk st1 fs =>
      refine ⟨st1, 0, fs, hid, fun s hm hS => ?_⟩
      obtain ⟨s1, h1, h2⟩ := ho' s hm hS
      exact ⟨s1, h1, by rw [loop, show round os s st (b :: p) = .brk s1 st1 from h2]⟩
    | ret st1 code fs =>
      refine ⟨st1, code, fs, hid, fun s hm hS => ?_⟩
      obtain ⟨s1, h1, h2⟩ := ho' s hm hS
      exact ⟨s1, h1, by rw [loop, show round os s st (b :: p) = .ret s1 st1 code from h2]⟩
    | next st1 p1 fs =>
      have hless : 2 * p1.length + lag st1 < 2 * (b :: p).length + lag st := by
        obtain ⟨s1, -, h2⟩ := ho' (State.init "" 0 S) rfl rfl
        exact round_measure (List.cons_ne_nil b p) h2
      obtain ⟨st', code, gs, hid', hl⟩ := loop_uniform ho fuel st1 p1 (by omega)
      have hid1 : st1.streamId = st.streamId := hid
      refine ⟨st', code, fs ++ gs, hid'.trans hid1, fun s hm hS => ?_⟩
      obtain ⟨s1, h1, h2⟩ := ho' s hm hS
      obtain ⟨s', h3, h4⟩ := hl s1 (h1.maxFrames.trans hm) (h1.sessionCtrlId.trans hS)
      rw [hid1] at h3
      exact ⟨s', h1.trans h3, by rw [loop, show round os s st (b :: p) = .next s1 st1 p1 from h2]; exact h4⟩

end Rounds

/-! ## Calls -/

/-- A call depends on its record and its bytes only, and leaves the other streams' records alone. -/
theorem call_uniform {os : Os} (ho : os.Succeeds) (S : Nat) {sid : Nat} {st : WtStream} (hid : st.streamId = sid)
    (p : List UInt8) : ∃ (st' : WtStream) (fs : List (List UInt8)), ∀ s, s.app.maxFrames = 0 → s.app.sessionCtrlId = S →
      recordOf s sid = st → ∃ s', call os s (sid, p) = some s' ∧ s'.record sid = some st' ∧
        contents s' = contents s ++ fs.map (sid, ·) ∧ s'.app.maxFrames = 0 ∧ s'.app.sessionCtrlId = S ∧
        (∀ x, x ≠ sid → s'.record x = s.record x) := by
  have hlag := lag_le st
  obtain ⟨st', code, fs, hid', h⟩ := loop_uniform (S := S) ho (2 * p.length + 3) st p (by omega)
  refine ⟨st', fs, fun s hm hS hst => ?_⟩
  obtain ⟨s1, h1, h2, h3, h4, h5, h6, -⟩ := getStream_ok ho s sid
  obtain ⟨s2, h7, h8⟩ := h s1 (h5.trans hm) (h6.trans hS)
  rw [hst] at h1 h2
  rw [hid] at h7 hid'
  unfold call wtHandleStreamData
  simp only [h1, h8, Option.map_some]
  refine ⟨_, rfl, ?_, ?_, h7.maxFrames.trans (h5.trans hm), h7.sessionCtrlId.trans (h6.trans hS), fun x hx => ?_⟩
  · have hmem : ∃ x ∈ s2.app.streams, x.streamId = st'.streamId := by
      rw [h7.streams]
      exact ⟨st, List.mem_of_find?_eq_some h2, hid.trans hid'.symm⟩
    have hfind := find_putStream_self hmem
    rw [hid'] at hfind
    exact hfind
  · rw [← h4]; exact h7.contents
  · rw [← h3 x hx]
    simp only [State.record]
    rw [find_putStream_other (by rw [hid']; exact hx), h7.streams]

/-- Two states of the same session, without frame limit, that agree on the stream `sid`. -/
structure Agree (sid : Nat) (s t : State) : Prop where
  maxFrames : s.app.maxFrames = 0 ∧ t.app.maxFrames = 0
  sessionCtrlId : s.app.sessionCtrlId = t.app.sessionCtrlId
  record : s.record sid = t.record sid
  saved : s.savedFor sid = t.savedFor sid

/-- A call of the stream itself keeps the agreement. -/
theorem Agree.own {os : Os} (ho : os.Succeeds) {sid : Nat} {s t s' : State} {p : List UInt8} (ha : Agree sid s t)
    (h : call os s (sid, p) = some s') : ∃ t', call os t (sid, p) = some t' ∧ Agree sid s' t' := by
  obtain ⟨st', fs, hu⟩ := call_uniform ho t.app.sessionCtrlId (recordOf_streamId t sid) p
  have hrec : recordOf s sid = recordOf t sid := by unfold recordOf; rw [ha.record]
  obtain ⟨s1, h1, h2, h3, h4, h5, -⟩ := hu s ha.maxFrames.1 ha.sessionCtrlId hrec
  obtain ⟨t1, h6, h7, h8, h9, h10, -⟩ := hu t ha.maxFrames.2 rfl rfl
  rw [h] at h1
  cases h1
  refine ⟨t1, h6, ⟨h4, h9⟩, h5.trans h10.symm, h2.trans h7.symm, ?_⟩
  rw [savedFor_append h3, savedFor_append h8, ha.saved]

/-- A call of another stream on one side keeps it too. -/
theorem Agree.other {os : Os} (ho : os.Succeeds) {sid x : Nat} {s t s' : State} {p : List UInt8} (ha : Agree sid s t)
    (hx : x ≠ sid) (h : call os s (x, p) = some s') : Agree sid s' t := by
  obtain ⟨st', fs, hu⟩ := call_uniform ho s.app.sessionCtrlId (recordOf_streamId s x) p
  obtain ⟨s1, h1, h2, h3, h4, h5, h6⟩ := hu s ha.maxFrames.1 rfl rfl
  rw [h] at h1
  cases h1
  refine ⟨⟨h4, ha.maxFrames.2⟩, h5.trans ha.sessionCtrlId, (h6 sid (Ne.symm hx)).trans ha.record, ?_⟩
  rw [savedFor_append h3, if_neg (Ne.symm hx), List.append_nil, ha.saved]

/-! ## The list of records -/

/-- The stream ids of the records, in the order of the list. -/
def State.ids (s : State) : List Nat := s.app.streams.map (·.streamId)

theorem putStream_ids (st : WtStream) : ∀ l : List WtStream, (putStream st l).map (·.streamId) = l.map (·.streamId)
  | [] => rfl
  | x :: xs => by
    by_cases hx : x.streamId = st.streamId
    · rw [putStream, if_pos hx, List.map_cons, List.map_cons, hx]
    · rw [putStream, if_neg hx, List.map_cons, List.map_cons, putStream_ids st xs]

theorem getStream_ids {os : Os} {s s1 : State} {sid : Nat} {r : Option WtStream} (h : getStream os s sid = (r, s1)) :
    s1.ids = s.ids ∨ (sid ∉ s.ids ∧ s1.ids = sid :: s.ids) := by
  unfold getStream at h
  split at h
  · cases h; exact .inl rfl
  · rename_i hnone
    split_ifs at h
    · cases h
      refine .inr ⟨fun hmem => ?_, rfl⟩
      obtain ⟨x, hx, he⟩ := List.mem_map.1 hmem
      exact absurd (List.find?_eq_none.1 hnone x hx) (by simpa using he)
    · cases h; exact .inl rfl
    · cases h; exact .inl rfl

/-- A call adds a record only for a stream that has none. -/
theorem call_ids {os : Os} (ho : os.Succeeds) {s s' : State} (hm : s.app.maxFrames = 0) {c : Nat × List UInt8}
    (h : call os s c = some s') : s'.ids = s.ids ∨ (c.1 ∉ s.ids ∧ s'.ids = c.1 :: s.ids) := by
  obtain ⟨sid, p⟩ := c
  have hlag := lag_le (recordOf s sid)
  obtain ⟨st', code, fs, -, hl⟩ := loop_uniform (S := s.app.sessionCtrlId) ho (2 * p.length + 3)
    (recordOf s sid) p (by omega)
  obtain ⟨s1, h1, -, -, -, h5, h6, -⟩ := getStream_ok ho s sid
  obtain ⟨s2, h7, h8⟩ := hl s1 (h5.trans hm) h6
  unfold call wtHandleStreamData at h
  simp only [h1, h8, Option.map_some, Option.some.injEq] at h
  subst h
  have hids : (putStream st' s2.app.streams).map (·.streamId) = s1.ids := by
    rw [putStream_ids, h7.streams]
    rfl
  have := getStream_ids h1
  rw [← hids] at this
  exact this

/-- No stream gets a second record. -/
theorem calls_ids {os : Os} (ho : os.Succeeds) (sid : Nat) : ∀ (cs : List (Nat × List UInt8)) (s s' : State),
    s.app.maxFrames = 0 → calls os s cs = some s' → s'.ids.count sid ≤ max 1 (s.ids.count sid)
  | [], s, s', _, h => by
    cases h
    exact le_max_right ..
  | c :: cs, s, s', hm, h => by
    obtain ⟨s1, h1, h2⟩ := Lts.run_cons_some h
    obtain ⟨st', fs, hu⟩ := call_uniform ho s.app.sessionCtrlId (recordOf_streamId s c.1) c.2
    obtain ⟨s1', h1', -, -, hm1, -⟩ := hu s hm rfl rfl
    rw [show call os s (c.1, c.2) = some s1 from h1] at h1'
    cases h1'
    have ih := calls_ids ho sid cs s1 s' hm1 h2
    have hcount : s1.ids.count sid ≤ max 1 (s.ids.count sid) := by
      rcases call_ids ho hm h1 with hids | ⟨hnot, hids⟩
      · rw [hids]; exact le_max_right ..
      · rw [hids, List.count_cons]
        by_cases hc : c.1 = sid
        · rw [hc] at hnot
          simp [hc, List.count_eq_zero_of_not_mem hnot]
        · simp [hc]
    omega

/-! ## Non-interference -/

/-- Every sequence of calls returns; for each stream, the frames saved and the final record are those of
its own calls alone; and no stream gets a second record in the list. -/
theorem streams_isolated {os : Os} (ho : os.Succeeds) {s : State} (hm : s.app.maxFrames = 0)
    (cs : List (Nat × List UInt8)) :
    ∃ s', calls os s cs = some s' ∧
      (∀ sid, ∃ t', calls os s (cs.filter (·.1 = sid)) = some t' ∧ s'.savedFor sid = t'.savedFor sid ∧
        s'.record sid = t'.record sid) ∧
      ∀ sid, s'.ids.count sid ≤ max 1 (s.ids.count sid) := by
  obtain ⟨s', hs'⟩ := Option.isSome_iff_exists.1 (calls_isSome os cs s)
  refine ⟨s', hs', fun sid => ?_, fun sid => calls_ids ho sid cs s s' hm hs'⟩
  have hself : Agree sid s s := ⟨⟨hm, hm⟩, rfl, rfl, rfl⟩
  obtain ⟨t', ht', ha⟩ := Lts.run_filter (R := Agree sid) (fun c : Nat × List UInt8 => decide (c.1 = sid))
    (by
      rintro s t ⟨x, p⟩ s' hx ha h
      have hx' : x = sid := of_decide_eq_true hx
      subst hx'
      exact ha.own ho h)
    (by
      rintro s t ⟨x, p⟩ s' hx ha h
      exact ha.other ho (of_decide_eq_false hx) h)
    cs s s s' hself hs'
  exact ⟨t', ht', ha.saved, ha.record⟩

/-- Calls of two streams: on one the header, cut off; on the other the header, a length, and its payload
between them. -/
def twoCalls : List (Nat × List UInt8) := [(7, [0x40, 0x54, 0x00, 0x02]), (3, [0x40, 0x54]), (7, [0x01, 0x02])]

theorem twoCalls_isolated :
    ∃ s', calls Os.sound (State.init "" 0 0) twoCalls = some s' ∧
      (∀ sid, ∃ t', calls Os.sound (State.init "" 0 0) (twoCalls.filter (·.1 = sid)) = some t' ∧
        s'.savedFor sid = t'.savedFor sid ∧ s'.record sid = t'.record sid) ∧
      ∀ sid, s'.ids.count sid ≤ max 1 ((State.init "" 0 0).ids.count sid) :=
  streams_isolated Os.sound_succeeds rfl twoCalls

end Mquic.WtClient
