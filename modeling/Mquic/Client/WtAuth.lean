/-
Which streams `wt_handle_stream_data` saves frames of, for every outcome of the allocator and of `fopen`:
those on which some chunk began with the stream header. That chunk need not be the first: what came
before it was forgotten, also when it was answered by -1.
-/
import Mquic.Client.WtCalls
import Mquic.Client.WtIsolation

namespace Mquic.WtClient

open Mquic.Codec

/-! ## Stream headers -/

/-- The stream type and the session id that bytes begin with. -/
def streamHeader (p : List UInt8) : Option (Nat × Nat) :=
  match Varint.decode p with
  | none => none
  | some (v, c) => (Varint.decode (p.drop c)).map fun r => (v, r.1)

theorem streamHeader_some {p : List UInt8} {v w : Nat} (h : streamHeader p = some (v, w)) :
    ∃ c d, Varint.decode p = some (v, c) ∧ Varint.decode (p.drop c) = some (w, d) := by
  unfold streamHeader at h
  cases h1 : Varint.decode p with
  | none => rw [h1] at h; cases h
  | some r =>
    rw [h1] at h
    obtain ⟨⟨w', d⟩, h2, h3⟩ := Option.map_eq_some_iff.1 h
    cases h3
    exact ⟨r.2, d, rfl, h2⟩

theorem streamHeader_eq {p : List UInt8} {v c w d : Nat} (h1 : Varint.decode p = some (v, c))
    (h2 : Varint.decode (p.drop c) = some (w, d)) : streamHeader p = some (v, w) := by
  unfold streamHeader
  rw [h1]
  simp only [h2, Option.map_some]

/-- More bytes do not change the header. -/
theorem streamHeader_append {p : List UInt8} {h : Nat × Nat} (hp : streamHeader p = some h) (q : List UInt8) :
    streamHeader (p ++ q) = some h := by
  obtain ⟨c, d, h1, h2⟩ := streamHeader_some hp
  obtain ⟨h3, h4⟩ := two_varints_append h1 h2 q
  exact streamHeader_eq h3 h4

theorem streamHeader_ne_nil {p : List UInt8} (h : streamHeader p ≠ none) : p ≠ [] := by
  rintro rfl
  exact h rfl

/-! ## A call on a stream whose header is not read yet -/

/-- The header of the session opens the record; a call that brings anything else saves nothing, and returns
-1 if it brings another header. -/
theorem loop_unread {os : Os} {fuel : Nat} {s s' : State} {st st' : WtStream} {p : List UInt8} {code : Int}
    (hh : st.headerOk = false) (h : loop os fuel s st p = some (s', st', code)) :
    (streamHeader p = some (0x54, s.app.sessionCtrlId) ∧ st'.headerOk = true) ∨
      (streamHeader p ≠ some (0x54, s.app.sessionCtrlId) ∧ s' = s ∧ st' = st ∧
        (streamHeader p ≠ none → code = -1)) := by
  cases p with
  | nil =>
    unfold loop at h
    cases h
    exact .inr ⟨(Option.some_ne_none _).symm, rfl, rfl, fun hne => absurd rfl hne⟩
  | cons b p =>
    cases fuel with
    | zero => cases h
    | succ fuel =>
      unfold loop at h
      rw [round, hh] at h
      simp only [Bool.not_false, if_true, readHeader, wtVarintDecode_eq] at h
      cases h1 : Varint.decode (b :: p) with
      | none =>
        have hnone : streamHeader (b :: p) = none := by unfold streamHeader; rw [h1]
        rw [h1] at h
        cases h
        exact .inr ⟨by rw [hnone]; exact (Option.some_ne_none _).symm, rfl, rfl, fun hne => absurd hnone hne⟩
      | some r =>
        obtain ⟨v, c⟩ := r
        simp only [h1] at h
        cases h2 : Varint.decode ((b :: p).drop c) with
        | none =>
          have hnone : streamHeader (b :: p) = none := by unfold streamHeader; rw [h1]; simp only [h2]; rfl
          rw [h2] at h
          cases h
          exact .inr ⟨by rw [hnone]; exact (Option.some_ne_none _).symm, rfl, rfl, fun hne => absurd hnone hne⟩
        | some r =>
          obtain ⟨w, d⟩ := r
          have hhead := streamHeader_eq h1 h2
          simp only [h2] at h
          -- both varints are there: the type decides, then the session
          by_cases hv : v = 0x54
          · by_cases hw : w = s.app.sessionCtrlId
            · rw [if_neg (by simpa using hv), if_neg (by simpa using hw)] at h
              exact .inl ⟨by rw [hhead, hv, hw], (loop_served h).headerOk rfl⟩
            · rw [if_neg (by simpa using hv), if_pos hw] at h
              cases h
              refine .inr ⟨?_, rfl, rfl, fun _ => rfl⟩
              rw [hhead]
              exact fun he => hw (Prod.mk.inj (Option.some.inj he)).2
          · rw [if_pos hv] at h
            cases h
            refine .inr ⟨?_, rfl, rfl, fun _ => rfl⟩
            rw [hhead]
            exact fun he => hv (Prod.mk.inj (Option.some.inj he)).1

/-- What a call does to its own stream and to the others. -/
structure CallEffect (s s' : State) (sid : Nat) (p : List UInt8) : Prop where
  sessionCtrlId : s'.app.sessionCtrlId = s.app.sessionCtrlId
  others : ∀ x, x ≠ sid → recordOf s' x = recordOf s x ∧ s'.savedFor x = s.savedFor x
  opened : (recordOf s sid).headerOk = true → (recordOf s' sid).headerOk = true
  unread : (recordOf s sid).headerOk = false → (recordOf s' sid).headerOk = true →
    streamHeader p = some (0x54, s.app.sessionCtrlId)
  silent : (recordOf s' sid).headerOk = false → s'.savedFor sid = s.savedFor sid

theorem savedFor_of_files {s s' : State} (h : s'.files = s.files) (sid : Nat) : s'.savedFor sid = s.savedFor sid := by
  unfold State.savedFor
  rw [h]

theorem Extends.savedFor {sid x : Nat} {s s' : State} (h : Extends sid s s') (hx : x ≠ sid) :
    s'.savedFor x = s.savedFor x := by
  obtain ⟨fs, hfs, hown⟩ := h.files
  have hnone : fs.filter (·.sid = x) = [] := by
    rw [List.filter_eq_nil_iff]
    intro f hf
    rw [hown f hf]
    simpa using Ne.symm hx
  unfold State.savedFor
  rw [hfs, List.filter_append, hnone, List.append_nil]

theorem call_effect {os : Os} {s s' : State} {sid : Nat} {p : List UInt8} (h : call os s (sid, p) = some s') :
    CallEffect s s' sid p := by
  rcases call_cases h with ⟨s1, -, happ, hfiles⟩ | ⟨s1, s2, st', code, hg, hl, hfiles, happ⟩
  · have hrec : ∀ x, recordOf s' x = recordOf s x := by
      intro x
      unfold recordOf State.record
      rw [happ]
    refine ⟨by rw [happ], fun x _ => ⟨hrec x, savedFor_of_files hfiles x⟩, fun hh => by rw [hrec]; exact hh,
      fun hh hh' => ?_, fun _ => savedFor_of_files hfiles sid⟩
    rw [hrec, hh] at hh'
    cases hh'
  · obtain ⟨-, -, -, hfiles1, hsess1, -⟩ := getStream_some hg
    have hserved := loop_served hl
    have hid := recordOf_streamId s sid
    obtain ⟨hrec, hrecs⟩ := stored_records hg hl happ
    refine ⟨by rw [happ, ← hsess1, ← hserved.grows.sessionCtrlId], fun x hx => ⟨?_, ?_⟩, fun hh => ?_, fun hh hh' => ?_,
      fun hh' => ?_⟩
    · exact hrecs x hx
    · rw [savedFor_of_files hfiles, hserved.grows.savedFor (by rw [hid]; exact hx), savedFor_of_files hfiles1]
    · rw [hrec]
      exact hserved.headerOk hh
    · -- the record opens in this call only behind the header of the session
      rcases loop_unread hh hl with ⟨hhead, -⟩ | ⟨-, -, hst, -⟩
      · rw [hsess1] at hhead
        exact hhead
      · rw [hrec, hst, hh] at hh'
        cases hh'
    · rw [hrec] at hh'
      cases hh : (recordOf s sid).headerOk with
      | true =>
        rw [hserved.headerOk hh] at hh'
        cases hh'
      -- the header is still unread, so that nothing was saved
      | false =>
        rcases loop_unread hh hl with ⟨-, hst⟩ | ⟨-, hs, -⟩
        · rw [hst] at hh'
          cases hh'
        · rw [savedFor_of_files hfiles, hs, savedFor_of_files hfiles1]

/-! ## The calls seen from outside -/

/-- The application, the calls made so far, and the streams of which a call was refused for its header. -/
structure Watch where
  state : State
  log : List (Nat × List UInt8)
  refused : List Nat

/-- All bytes received on a stream. -/
def Watch.received (t : Watch) (sid : Nat) : List UInt8 := ((t.log.filter (·.1 = sid)).map (·.2)).flatten

/-- The call finds its stream's header unread, and brings another stream type or session id. -/
def Refuses (os : Os) (s : State) (c : Nat × List UInt8) : Prop :=
  (getStream os s c.1).1.isSome = true ∧ (recordOf s c.1).headerOk = false ∧ streamHeader c.2 ≠ none ∧
    streamHeader c.2 ≠ some (0x54, s.app.sessionCtrlId)

instance (os : Os) (s : State) (c : Nat × List UInt8) : Decidable (Refuses os s c) :=
  inferInstanceAs (Decidable (_ ∧ _ ∧ _ ∧ _))

/-- Such a call returns -1. -/
theorem Refuses.returns {os : Os} {s s' : State} {c : Nat × List UInt8} (hr : Refuses os s c)
    (h : call os s c = some s') : ∃ s1, wtHandleStreamData os s c.1 c.2 = some (s1, -1) := by
  obtain ⟨hsome, hh, hne, hother⟩ := hr
  unfold call wtHandleStreamData at h
  unfold wtHandleStreamData
  cases hg : getStream os s c.1 with
  | mk r s1 =>
    rw [hg] at h hsome
    cases r with
    | none => cases hsome
    | some st =>
      obtain ⟨rfl, -, -, -, hsess, -⟩ := getStream_some hg
      simp only [Option.map_map, Option.map_eq_some_iff] at h
      obtain ⟨⟨s2, st', code⟩, hl, -⟩ := h
      rcases loop_unread hh hl with ⟨hhead, -⟩ | ⟨-, -, -, hcode⟩
      · rw [hsess] at hhead
        exact absurd hhead hother
      · simp only [hl, Option.map_some, hcode hne]
        exact ⟨_, rfl⟩

/-- A call, noted. -/
def watch (os : Os) (t : Watch) (c : Nat × List UInt8) : Option Watch :=
  (call os t.state c).map fun s =>
    ⟨s, t.log ++ [c], if Refuses os t.state c then c.1 :: t.refused else t.refused⟩

/-- An application with nothing received. -/
def Watch.init (outDir : String) (maxFrames : Int) (sessionCtrlId : Nat) : Watch :=
  ⟨State.init outDir maxFrames sessionCtrlId, [], []⟩

/-! ## The property and its condition -/

/-- Frames were saved only of streams that began with the header of the session. -/
def Authentic (t : Watch) : Prop :=
  ∀ sid, t.state.savedFor sid ≠ [] → streamHeader (t.received sid) = some (0x54, t.state.app.sessionCtrlId)

/-- Of a stream refused before, the call saves nothing. -/
def Barred (os : Os) (t : Watch) (c : Nat × List UInt8) : Prop :=
  c.1 ∈ t.refused → ∀ s', call os t.state c = some s' → s'.savedFor c.1 = t.state.savedFor c.1

/-- The chunk that opens a stream brings its first bytes. -/
def OpensFirst (t : Watch) (c : Nat × List UInt8) : Prop :=
  (recordOf t.state c.1).headerOk = false → streamHeader c.2 = some (0x54, t.state.app.sessionCtrlId) →
    t.received c.1 = []

instance (t : Watch) (c : Nat × List UInt8) : Decidable (OpensFirst t c) :=
  inferInstanceAs (Decidable (_ → _ → _))

/-- Frames come of opened streams only, these began with the header, and a refused stream is not opened. -/
structure Gated (t : Watch) : Prop where
  saved : ∀ sid, t.state.savedFor sid ≠ [] → (recordOf t.state sid).headerOk = true
  opened : ∀ sid, (recordOf t.state sid).headerOk = true →
    streamHeader (t.received sid) = some (0x54, t.state.app.sessionCtrlId)
  refused : ∀ sid ∈ t.refused, (recordOf t.state sid).headerOk = false ∧ t.received sid ≠ []

theorem Gated.init (outDir : String) (maxFrames : Int) (sessionCtrlId : Nat) :
    Gated (Watch.init outDir maxFrames sessionCtrlId) :=
  ⟨fun _ h => absurd rfl h, fun _ h => Bool.noConfusion h, nofun⟩

theorem Gated.authentic {t : Watch} (h : Gated t) : Authentic t := fun sid hs => h.opened sid (h.saved sid hs)

theorem received_snoc (s : State) (log : List (Nat × List UInt8)) (refused : List Nat) (c : Nat × List UInt8)
    (sid : Nat) :
    Watch.received ⟨s, log ++ [c], refused⟩ sid =
      ((log.filter (·.1 = sid)).map (·.2)).flatten ++ if c.1 = sid then c.2 else [] := by
  unfold Watch.received
  rw [List.filter_append, List.map_append, List.flatten_append]
  by_cases hc : c.1 = sid
  · simp [hc]
  · simp [hc]

/-- A stream refused before stays closed. -/
theorem Gated.barred {os : Os} {t : Watch} {c : Nat × List UInt8} (hg : Gated t) (hc : OpensFirst t c) :
    Barred os t c := by
  intro hmem s' h
  obtain ⟨hh, hne⟩ := hg.refused c.1 hmem
  have he : CallEffect t.state s' c.1 c.2 := call_effect h
  cases hh' : (recordOf s' c.1).headerOk with
  | false => exact he.silent hh'
  | true => exact absurd (hc hh (he.unread hh hh')) hne

theorem Gated.step {os : Os} {t t' : Watch} {c : Nat × List UInt8} (hg : Gated t) (hc : OpensFirst t c)
    (h : watch os t c = some t') : Gated t' := by
  obtain ⟨s', hcall, rfl⟩ := Option.map_eq_some_iff.1 h
  obtain ⟨sid, p⟩ := c
  have he := call_effect hcall
  constructor
  · intro x hx
    by_cases hxs : x = sid
    · subst hxs
      cases hh' : (recordOf s' x).headerOk with
      | true => rfl
      | false =>
        -- nothing was saved by this call, so the stream was open before it
        rw [he.silent hh'] at hx
        exact hh'.symm.trans (he.opened (hg.saved x hx))
    · obtain ⟨hrec, hsaved⟩ := he.others x hxs
      rw [hsaved] at hx
      rw [hrec]
      exact hg.saved x hx
  · intro x hx
    rw [received_snoc, he.sessionCtrlId]
    by_cases hxs : x = sid
    · subst hxs
      rw [if_pos rfl]
      cases hh : (recordOf t.state x).headerOk with
      | true => exact streamHeader_append (hg.opened x hh) p
      | false =>
        have hhead := he.unread hh hx
        have hnil : ((t.log.filter (·.1 = x)).map (·.2)).flatten = [] := hc hh hhead
        rw [hnil]
        exact hhead
    · rw [if_neg (Ne.symm hxs), List.append_nil]
      rw [(he.others x hxs).1] at hx
      exact hg.opened x hx
  · intro x hx
    rw [received_snoc]
    by_cases hxs : x = sid
    · subst hxs
      rw [if_pos rfl]
      -- closed before the call, and not opened by it
      have hclosed : (recordOf t.state x).headerOk = false ∧
          (streamHeader p = some (0x54, t.state.app.sessionCtrlId) → False) ∧
          ((t.log.filter (·.1 = x)).map (·.2)).flatten ++ p ≠ [] := by
        by_cases hr : Refuses os t.state (x, p)
        · obtain ⟨-, hh, hne, hother⟩ := hr
          exact ⟨hh, hother, fun hnil => streamHeader_ne_nil hne (List.append_eq_nil_iff.1 hnil).2⟩
        · simp only [if_neg hr] at hx
          obtain ⟨hh, hne⟩ := hg.refused x hx
          exact ⟨hh, fun hhead => hne (hc hh hhead), fun hnil => hne (List.append_eq_nil_iff.1 hnil).1⟩
      obtain ⟨hh, hother, hne⟩ := hclosed
      refine ⟨?_, hne⟩
      cases hh' : (recordOf s' x).headerOk with
      | false => rfl
      | true => exact absurd (he.unread hh hh') hother
    · rw [if_neg (Ne.symm hxs), List.append_nil, (he.others x hxs).1]
      apply hg.refused x
      dsimp only at hx
      split at hx
      · exact (List.mem_cons.1 hx).resolve_left hxs
      · exact hx

/-! ## Sequences of calls -/

/-- When every stream's opening chunk brings its first bytes, frames are saved only of streams that began
with the header of the session, and a stream refused once is never saved from. -/
theorem saved_authentic (os : Os) (outDir : String) (maxFrames : Int) (sessionCtrlId : Nat)
    (cs : List (Nat × List UInt8))
    (hc : Lts.Meets (watch os) OpensFirst (Watch.init outDir maxFrames sessionCtrlId) cs) :
    ∃ t, Lts.run (watch os) (Watch.init outDir maxFrames sessionCtrlId) cs = some t ∧ Authentic t ∧
      Lts.Meets (watch os) (Barred os) (Watch.init outDir maxFrames sessionCtrlId) cs := by
  have hsome : ∀ (t : Watch) (c : Nat × List UInt8), (watch os t c).isSome := by
    intro t c
    unfold watch
    rw [Option.isSome_map]
    exact call_isSome os t.state c
  have hgated := Gated.init outDir maxFrames sessionCtrlId
  obtain ⟨t, ht⟩ := Option.isSome_iff_exists.1 (Lts.run_isSome hsome cs (Watch.init outDir maxFrames sessionCtrlId))
  refine ⟨t, ht, ?_, ?_⟩
  · exact (Lts.inv_run (I := Gated) (fun _ _ _ hg hc h => hg.step hc h) cs _ t hgated hc ht).authentic
  · exact Lts.meets_of_inv (I := Gated) (fun _ _ _ hg hc h => hg.step hc h) (fun _ _ hg hc => hg.barred hc) cs _
      hgated hc

/-- A stream that brings its header, a length, and two bytes, in two chunks. -/
def openedFirst : List (Nat × List UInt8) := [(3, [0x40, 0x54, 0x00]), (3, [0x02, 0xFF, 0xD8])]

theorem openedFirst_authentic :
    ∃ t, Lts.run (watch Os.sound) (Watch.init "" 0 0) openedFirst = some t ∧ Authentic t ∧
      Lts.Meets (watch Os.sound) (Barred Os.sound) (Watch.init "" 0 0) openedFirst :=
  saved_authentic Os.sound "" 0 0 openedFirst (by decide)

/-- A stream whose first chunk is refused, and whose second begins with the header. -/
def openedLate : List (Nat × List UInt8) := [(3, [0x00, 0x00]), (3, [0x40, 0x54, 0x00, 0x02, 0xFF, 0xD8])]

/-- The first call on that stream returns -1; the second saves a frame, although what the stream brought
begins with `00 00`. -/
theorem openedLate_unauthentic :
    (calls Os.sound (State.init "" 0 0) openedLate).map (·.returned) = some [-1, 0] ∧
      (∃ t, Lts.run (watch Os.sound) (Watch.init "" 0 0) openedLate = some t ∧ ¬ Authentic t) ∧
      ¬ Lts.Meets (watch Os.sound) (Barred Os.sound) (Watch.init "" 0 0) openedLate := by
  refine ⟨by decide, ?_, ?_⟩
  · have hrun : (Lts.run (watch Os.sound) (Watch.init "" 0 0) openedLate).map (fun t => (t.state.savedFor 3,
        streamHeader (t.received 3))) = some ([[0xFF, 0xD8]], some (0, 0)) := by decide
    obtain ⟨t, ht, h⟩ := Option.map_eq_some_iff.1 hrun
    obtain ⟨hsaved, hhead⟩ := Prod.mk.inj h
    refine ⟨t, ht, fun hauth => ?_⟩
    have := hauth 3 (by rw [hsaved]; nofun)
    rw [hhead] at this
    cases this
  · rintro ⟨-, hrest⟩
    have hfirst : (watch Os.sound (Watch.init "" 0 0) (3, [0x00, 0x00])).map (fun t => (t.refused, t.state.savedFor 3,
        (call Os.sound t.state (3, [0x40, 0x54, 0x00, 0x02, 0xFF, 0xD8])).map (·.savedFor 3))) =
          some ([3], [], some [[0xFF, 0xD8]]) := by decide
    obtain ⟨t1, h1, h⟩ := Option.map_eq_some_iff.1 hfirst
    obtain ⟨hrefused, h⟩ := Prod.mk.inj h
    obtain ⟨hbefore, h⟩ := Prod.mk.inj h
    obtain ⟨s2, h2, hafter⟩ := Option.map_eq_some_iff.1 h
    have hbarred := (hrest t1 h1).1 (by rw [hrefused]; exact List.mem_singleton_self 3) s2 h2
    rw [hbefore] at hbarred
    rw [show s2.savedFor 3 = [[0xFF, 0xD8]] from hafter] at hbarred
    cases hbarred

end Mquic.WtClient
