/-
What a call of `wt_handle_stream_data` can do to the records, whatever the allocator and the file system
do: it works on the first record of its stream, or on a new one, or on none, and writes no other record.
-/
import Mquic.Client.WtReceiver

namespace Mquic.WtClient

open Mquic.Codec

/-! ## The loop -/

/-- After the round, `I` holds if the loop goes on, and `Q` if it ends. -/
def Flow.Leads (I : State → WtStream → List UInt8 → Prop) (Q : State → WtStream → Prop) : Flow → Prop
  | .next s st p => I s st p
  | .brk s st => Q s st
  | .ret s st _ => Q s st

theorem Flow.Leads.imp {I J : State → WtStream → List UInt8 → Prop} {Q R : State → WtStream → Prop} {f : Flow}
    (h : f.Leads I Q) (hIJ : ∀ s st p, I s st p → J s st p) (hQR : ∀ s st, Q s st → R s st) : f.Leads J R := by
  cases f with
  | next s st p => exact hIJ s st p h
  | brk s st => exact hQR s st h
  | ret s st code => exact hQR s st h

/-- What each round keeps, the loop keeps. -/
theorem loop_rule {os : Os} {I : State → WtStream → List UInt8 → Prop} {Q : State → WtStream → Prop}
    (hround : ∀ s st p, p ≠ [] → I s st p → (round os s st p).Leads I Q) (hend : ∀ s st, I s st [] → Q s st) :
    ∀ (fuel : Nat) (s : State) (st : WtStream) (p : List UInt8) (s' : State) (st' : WtStream) (code : Int),
      I s st p → loop os fuel s st p = some (s', st', code) → Q s' st'
  | fuel, s, st, [], s', st', code, hI, h => by
    unfold loop at h
    cases h
    exact hend s st hI
  | 0, s, st, b :: p, s', st', code, _, h => by cases h
  | fuel + 1, s, st, b :: p, s', st', code, hI, h => by
    have hlead := hround s st (b :: p) (List.cons_ne_nil b p) hI
    unfold loop at h
    cases hr : round os s st (b :: p) with
    | next s1 st1 p1 =>
      rw [hr] at h hlead
      exact loop_rule hround hend fuel s1 st1 p1 s' st' code hlead h
    | brk s1 st1 => rw [hr] at h hlead; cases h; exact hlead
    | ret s1 st1 c => rw [hr] at h hlead; cases h; exact hlead

/-! ## What rounds leave alone -/

/-- From `s` to `s'` only files of stream `sid` were added; the list and the session are the same. -/
structure Extends (sid : Nat) (s s' : State) : Prop where
  streams : s'.app.streams = s.app.streams
  sessionCtrlId : s'.app.sessionCtrlId = s.app.sessionCtrlId
  files : ∃ fs, s'.files = s.files ++ fs ∧ ∀ f ∈ fs, f.sid = sid

theorem Extends.refl (sid : Nat) (s : State) : Extends sid s s := ⟨rfl, rfl, [], (List.append_nil _).symm, nofun⟩

theorem Extends.trans {sid : Nat} {s s' s'' : State} (h : Extends sid s s') (h' : Extends sid s' s'') :
    Extends sid s s'' := by
  obtain ⟨fs, hfs, hown⟩ := h.files
  obtain ⟨gs, hgs, hown'⟩ := h'.files
  refine ⟨h'.streams.trans h.streams, h'.sessionCtrlId.trans h.sessionCtrlId, fs ++ gs, ?_, fun f hf => ?_⟩
  · rw [hgs, hfs, List.append_assoc]
  · exact (List.mem_append.1 hf).elim (hown f) (hown' f)

/-- Of the state, `Extends` sees the application's list and session, and the files. -/
theorem Extends.congr {sid : Nat} {s s' t t' : State} (h : Extends sid s s') (hs : t.app.streams = s.app.streams)
    (hs' : t'.app.streams = s'.app.streams) (hc : t.app.sessionCtrlId = s.app.sessionCtrlId)
    (hc' : t'.app.sessionCtrlId = s'.app.sessionCtrlId) (hf : t.files = s.files) (hf' : t'.files = s'.files) :
    Extends sid t t' := by
  obtain ⟨fs, hfs, hown⟩ := h.files
  exact ⟨by rw [hs', hs, h.streams], by rw [hc', hc, h.sessionCtrlId], fs, by rw [hf', hf, hfs], hown⟩

theorem saveFrame_extends (os : Os) (sid : Nat) (s : State) (data : List UInt8) :
    Extends sid s (saveFrame os sid s data) := by
  unfold saveFrame
  split
  · exact ⟨rfl, rfl, [_], rfl, fun f hf => by rw [List.mem_singleton.1 hf]⟩
  · exact ⟨rfl, rfl, [], (List.append_nil _).symm, nofun⟩

theorem saveFrames_extends (os : Os) (sid : Nat) : ∀ (frames : List (List UInt8)) (s : State),
    Extends sid s (frames.foldl (saveFrame os sid) s)
  | [], s => Extends.refl sid s
  | f :: fs, s => (saveFrame_extends os sid s f).trans (saveFrames_extends os sid fs (saveFrame os sid s f))

/-- The handler's work for `st0`, since `s0`: still the same stream, its header not forgotten, and no file but its
own. -/
structure Serves (st0 : WtStream) (s0 s : State) (st : WtStream) : Prop where
  streamId : st.streamId = st0.streamId
  headerOk : st0.headerOk = true → st.headerOk = true
  grows : Extends st0.streamId s0 s

theorem Serves.refl (s : State) (st : WtStream) : Serves st s s st := ⟨rfl, id, Extends.refl _ s⟩

theorem Serves.trans {s s1 s2 : State} {st st1 st2 : WtStream} (h : Serves st s s1 st1) (h' : Serves st1 s1 s2 st2) :
    Serves st s s2 st2 :=
  ⟨h'.streamId.trans h.streamId, fun hh => h'.headerOk (h.headerOk hh), h.grows.trans (h.streamId ▸ h'.grows)⟩

section Rounds

variable {os : Os} {s : State} {st : WtStream} {p : List UInt8}

/-- The step serves the stream of its record, whatever comes of it. -/
def Flow.Served (st : WtStream) (s : State) (f : Flow) : Prop :=
  f.Leads (fun s' st' _ => Serves st s s' st') (Serves st s)

theorem readHeader_served : (readHeader s st p).Served st s := by
  unfold readHeader
  split
  · exact Serves.refl s st
  · split
    · exact Serves.refl s st
    · split_ifs
      · exact Serves.refl s st
      · exact Serves.refl s st
      · exact ⟨rfl, fun _ => rfl, Extends.refl _ s⟩

theorem accumulate_served (hu : st.useLenFraming = false) : (accumulate os s st hu p).Served st s := by
  have hscan : ∀ (n cap : Nat), (appendExtract os { s with allocs := n } { st with cap := cap } hu p).Served st s := by
    intro n cap
    exact ⟨rfl, id, (saveFrames_extends os st.streamId (extractJpegs (st.buf ++ p)).1 { s with allocs := n }).congr
      rfl rfl rfl rfl rfl rfl⟩
  unfold accumulate
  split
  · split
    · exact hscan _ _
    · exact ⟨rfl, id, (Extends.refl _ s).congr rfl rfl rfl rfl rfl rfl⟩
  · exact hscan s.allocs st.cap

theorem receive_served : (receive os s st p).Served st s := by
  unfold receive
  simp only
  split
  · exact ⟨rfl, id, Extends.refl _ s⟩
  · have hsave := saveFrame_extends os st.streamId s (copyPayload st p).buf
    split
    · split
      · exact ⟨rfl, id, hsave.congr rfl rfl rfl rfl rfl rfl⟩
      · exact ⟨rfl, id, hsave⟩
    · exact ⟨rfl, id, Extends.refl _ s⟩

theorem adopt_served (n : Nat) : (adopt os s st n p).Served st s := by
  -- the payload step on the record of the adopted frame
  have hreceive : ∀ (k cap : Nat), (receive os { s with allocs := k } { st.framed n p with cap := cap }
      (p.drop (ptsWidth p))).Served st s := by
    intro k cap
    have hserve : ∀ s' st', Serves { st.framed n p with cap := cap } { s with allocs := k } s' st' →
        Serves st s s' st' := fun s' st' h => ⟨h.streamId, h.headerOk, h.grows.congr rfl rfl rfl rfl rfl rfl⟩
    exact receive_served.imp (fun s' st' _ => hserve s' st') hserve
  unfold adopt
  simp only
  split
  · split
    · exact hreceive _ _
    · exact ⟨rfl, id, (Extends.refl _ s).congr rfl rfl rfl rfl rfl rfl⟩
  · exact hreceive s.allocs st.cap

theorem detect_served (hu : st.useLenFraming = false) : (detect os s st hu p).Served st s := by
  unfold detect
  simp only
  split
  · exact Serves.refl s st
  · split
    · exact Serves.refl s st
    · split
      · exact accumulate_served hu
      · exact adopt_served _

theorem round_served : (round os s st p).Served st s := by
  cases hh : st.headerOk with
  | false =>
    rw [round, hh]
    exact readHeader_served
  | true =>
    cases hu : st.useLenFraming with
    | true =>
      rw [round_on hh hu]
      exact receive_served
    | false =>
      rw [round_off hh hu]
      split
      · exact detect_served hu
      · exact accumulate_served hu

end Rounds

theorem loop_served {os : Os} {fuel : Nat} {s s' : State} {st st' : WtStream} {p : List UInt8} {code : Int}
    (h : loop os fuel s st p = some (s', st', code)) : Serves st s s' st' :=
  loop_rule (I := fun s1 st1 _ => Serves st s s1 st1) (Q := Serves st s)
    (fun _ _ _ _ hI => round_served.imp (fun _ _ _ => hI.trans) fun _ _ => hI.trans)
    (fun _ _ hI => hI) fuel s st p s' st' code (Serves.refl s st) h

/-! ## The list of records -/

theorem mem_putStream {st x : WtStream} : ∀ {l : List WtStream}, x ∈ putStream st l → x = st ∨ x ∈ l
  | [], h => .inr h
  | y :: ys, h => by
    unfold putStream at h
    split at h
    · rcases List.mem_cons.1 h with h | h
      · exact .inl h
      · exact .inr (List.mem_cons_of_mem _ h)
    · rcases List.mem_cons.1 h with rfl | h
      · exact .inr List.mem_cons_self
      · exact (mem_putStream h).imp_right (List.mem_cons_of_mem _)

/-- The record a call works on is the one `recordOf` names; nothing but the list and the count of
allocations changes before the loop. -/
theorem getStream_some {os : Os} {s s1 : State} {sid : Nat} {st : WtStream}
    (h : getStream os s sid = (some st, s1)) :
    st = recordOf s sid ∧ s1.record sid = some st ∧ (∀ x, x ≠ sid → s1.record x = s.record x) ∧
      s1.files = s.files ∧ s1.app.sessionCtrlId = s.app.sessionCtrlId ∧
      ∀ x ∈ s1.app.streams, x ∈ s.app.streams ∨ x = WtStream.fresh sid := by
  unfold getStream at h
  unfold recordOf State.record
  cases hf : s.app.streams.find? (·.streamId = sid) with
  | some st0 =>
    rw [hf] at h
    cases h
    exact ⟨rfl, hf, fun _ _ => rfl, rfl, rfl, fun _ hx => .inl hx⟩
  | none =>
    rw [hf] at h
    simp only at h
    split at h
    · split at h
      · cases h
        refine ⟨rfl, by simp [WtStream.fresh], fun x hx => by simp [WtStream.fresh, Ne.symm hx], rfl, rfl,
          fun x hx => ?_⟩
        exact (List.mem_cons.1 hx).symm
      · cases h
    · cases h

theorem getStream_none {os : Os} {s s1 : State} {sid : Nat} (h : getStream os s sid = (none, s1)) :
    s1.app = s.app ∧ s1.files = s.files := by
  unfold getStream at h
  split at h
  · cases h
  · split at h
    · split at h
      · cases h
      · cases h; exact ⟨rfl, rfl⟩
    · cases h; exact ⟨rfl, rfl⟩

/-- A call finds no record and cannot make one, or runs the loop on its record and stores what comes of it. -/
theorem call_cases {os : Os} {s s' : State} {sid : Nat} {p : List UInt8} (h : call os s (sid, p) = some s') :
    (∃ s1, getStream os s sid = (none, s1) ∧ s'.app = s.app ∧ s'.files = s.files) ∨
      ∃ s1 s2 st' code, getStream os s sid = (some (recordOf s sid), s1) ∧
        loop os (2 * p.length + 3) s1 (recordOf s sid) p = some (s2, st', code) ∧ s'.files = s2.files ∧
        s'.app = { s2.app with streams := putStream st' s2.app.streams } := by
  unfold call wtHandleStreamData at h
  cases hg : getStream os s sid with
  | mk r s1 =>
    rw [hg] at h
    cases r with
    | none =>
      cases h
      obtain ⟨happ, hfiles⟩ := getStream_none hg
      exact .inl ⟨s1, rfl, happ, hfiles⟩
    | some st =>
      obtain ⟨rfl, -⟩ := getStream_some hg
      simp only [Option.map_map, Option.map_eq_some_iff] at h
      obtain ⟨⟨s2, st', code⟩, hl, rfl⟩ := h
      exact .inr ⟨s1, s2, st', code, rfl, hl, rfl, rfl⟩

/-- The handler writes the record it worked on through its pointer into the list, and no other. -/
theorem stored_records {os : Os} {s s1 s2 s' : State} {sid : Nat} {p : List UInt8} {st' : WtStream} {code : Int}
    {fuel : Nat}
    (hg : getStream os s sid = (some (recordOf s sid), s1))
    (hl : loop os fuel s1 (recordOf s sid) p = some (s2, st', code))
    (happ : s'.app = { s2.app with streams := putStream st' s2.app.streams }) :
    recordOf s' sid = st' ∧ ∀ x, x ≠ sid → recordOf s' x = recordOf s x := by
  obtain ⟨-, hrec, hother, -⟩ := getStream_some hg
  have hserved := loop_served hl
  have hid := recordOf_streamId s sid
  have hid' : st'.streamId = sid := hserved.streamId.trans hid
  have hstreams : s'.app.streams = putStream st' s2.app.streams := by rw [happ]
  constructor
  · have hmem : ∃ x ∈ s2.app.streams, x.streamId = st'.streamId := by
      rw [hserved.grows.streams]
      exact ⟨recordOf s sid, List.mem_of_find?_eq_some hrec, hid.trans hid'.symm⟩
    have hfind := find_putStream_self hmem
    rw [hid', ← hstreams] at hfind
    unfold recordOf State.record
    rw [hfind]
    rfl
  · intro x hx
    have hx' : x ≠ st'.streamId := by rw [hid']; exact hx
    have hsame := hother x hx
    unfold State.record at hsame
    unfold recordOf State.record
    rw [hstreams, find_putStream_other hx', hserved.grows.streams, hsame]

end Mquic.WtClient
