/-
Several path streams into one callback: `client_cb` keeps one frame under reassembly for the whole
application, so the frames of each stream come through in every run in which no stream's event
arrives while another stream's frame is incomplete.
-/
import Mquic.Client.Delivery

namespace Mquic.ClientMain

open Framing Mquic.Server Mquic.Codec

/-! ## Events of several streams -/

/-- A data event that ends inside no length varint: its stream, and the tokens its bytes are. -/
abbrev TokEvent := Nat × List (Tok UInt8)

/-- The event the callback gets. -/
def deliver (e : TokEvent) : Event := .streamData e.1 (wire quicVarintEncode e.2)

/-- What the events carry on stream `sid`. -/
def streamToks (sid : Nat) (evs : List TokEvent) : List (Tok UInt8) := (evs.filter (·.1 = sid)).flatMap (·.2)

/-- The events carry the records of `frames sid` on each stream `sid`. -/
def Carries (evs : List TokEvent) (frames : Nat → List (List UInt8)) : Prop :=
  ∀ sid, streamToks sid evs = (frames sid).flatMap record

/-- No event of a stream arrives inside a record of another stream. -/
def Unmixed (evs : List TokEvent) (frames : Nat → List (List UInt8)) : Prop :=
  ∀ pre e post, evs = pre ++ e :: post → e.2 ≠ [] → ∀ sid, sid ≠ e.1 →
    ∃ k, streamToks sid pre = ((frames sid).take k).flatMap record

/-- The frames completed by events of stream `sid`. -/
def completed (sid : Nat) (s : State) : List (List UInt8) := (s.frames.filter (·.1 = sid)).map (·.2)

theorem streamToks_append (sid : Nat) (evs fvs : List TokEvent) :
    streamToks sid (evs ++ fvs) = streamToks sid evs ++ streamToks sid fvs := by
  simp [streamToks]

theorem streamToks_self (e : TokEvent) : streamToks e.1 [e] = e.2 := by simp [streamToks]

theorem streamToks_other {e : TokEvent} {sid : Nat} (h : sid ≠ e.1) : streamToks sid [e] = [] := by
  simp [streamToks, Ne.symm h]

theorem streamToks_empty {e : TokEvent} (h : e.2 = []) (sid : Nat) : streamToks sid [e] = [] := by
  by_cases he : sid = e.1
  · subst he; rw [streamToks_self, h]
  · exact streamToks_other he

theorem tagged_self (sid : Nat) : ∀ out : List (List UInt8),
    ((out.map (sid, ·)).filter (·.1 = sid)).map (·.2) = out
  | [] => rfl
  | f :: out => by
    rw [List.map_cons, List.filter_cons_of_pos (by simp), List.map_cons, tagged_self sid out]

/-- Frames completed by events of another stream are not this stream's. -/
theorem Stands.completed_other {sid sid' : Nat} {s s' : State} {r : Rx UInt8} (hs : Stands sid s.frames s' r)
    (h : sid' ≠ sid) : completed sid' s' = completed sid' s := by
  unfold completed
  rw [hs.frames, List.filter_append, List.map_append]
  simp [Ne.symm h]

theorem Stands.completed_self {sid : Nat} {s s' : State} {r : Rx UInt8} (hs : Stands sid s.frames s' r) :
    completed sid s' = completed sid s ++ r.out := by
  unfold completed
  rw [hs.frames, List.filter_append, List.map_append, tagged_self]

/-! ## The joint invariant -/

/-- After the events `pre`, the callback's state `s` with `cur` under reassembly: each stream has been
received up to its last event, and `cur` is the open record of one of them. -/
structure Joint (pre : List TokEvent) (s : State) (cur : Option (Nat × List UInt8)) : Prop where
  holds : Holds s.app cur
  streams : ∀ sid, ∃ r, Rx.empty.toks (streamToks sid pre) = some r ∧ completed sid s = r.out ∧
    (r.cur = none ∨ r.cur = cur)
  owner : cur = none ∨ ∃ sid r, Rx.empty.toks (streamToks sid pre) = some r ∧ r.cur = cur

/-- When all other streams are between records, the stream of the next event owns `cur`. -/
theorem Joint.cur_eq {pre : List TokEvent} {s : State} {cur : Option (Nat × List UInt8)} (hj : Joint pre s cur)
    {sid : Nat} {r : Rx UInt8} (hr : Rx.empty.toks (streamToks sid pre) = some r)
    (hw : ∀ sid', sid' ≠ sid → ∀ r', Rx.empty.toks (streamToks sid' pre) = some r' → r'.cur = none) : r.cur = cur := by
  obtain ⟨r1, hr1, -, hc⟩ := hj.streams sid
  rw [hr] at hr1; cases hr1
  rcases hc with hc | hc
  · rcases hj.owner with hn | ⟨sid0, r0, hr0, hc0⟩
    · rw [hc, hn]
    · by_cases he : sid0 = sid
      · subst he
        rw [hr] at hr0; cases hr0
        exact hc0
      · rw [hc, ← hc0, hw sid0 he r0 hr0]
  · exact hc

/-- An event without bytes changes nothing. -/
theorem Joint.empty_event (env : Env) {pre : List TokEvent} {s : State} {cur : Option (Nat × List UInt8)}
    (hj : Joint pre s cur) {e : TokEvent} (he : e.2 = []) :
    clientCb env s (deliver e) = some s ∧ Joint (pre ++ [e]) s cur := by
  have hsame : ∀ sid, streamToks sid (pre ++ [e]) = streamToks sid pre := by
    intro sid
    rw [streamToks_append, streamToks_empty he, List.append_nil]
  refine ⟨by simp [deliver, he, clientCb, loop], hj.holds, fun sid => ?_, ?_⟩
  · rw [hsame]; exact hj.streams sid
  · rcases hj.owner with hn | ⟨sid, r, hr, hc⟩
    · exact .inl hn
    · exact .inr ⟨sid, r, by rw [hsame]; exact hr, hc⟩

/-- An event that finds all other streams between records is received on its own stream alone. -/
theorem Joint.step {env : Env} (hd : env.Rfc9000) (hm : ∀ i, env.malloc i = true) {pre : List TokEvent} {s : State}
    {cur : Option (Nat × List UInt8)} (hj : Joint pre s cur) {e : TokEvent} {r' : Rx UInt8}
    (hw : ∀ sid, sid ≠ e.1 → ∀ r, Rx.empty.toks (streamToks sid pre) = some r → r.cur = none)
    (hl : ∀ n, Tok.len n ∈ e.2 → n < 2 ^ 62)
    (hr' : Rx.empty.toks (streamToks e.1 (pre ++ [e])) = some r') :
    ∃ s' cur', clientCb env s (deliver e) = some s' ∧ Joint (pre ++ [e]) s' cur' := by
  obtain ⟨r, hr, hcomp, -⟩ := hj.streams e.1
  have hcur := hj.cur_eq hr hw
  have hopen : Rx.Open (⟨cur, []⟩ : Rx UInt8) := by
    intro n acc hc
    exact toks_isOpen Rx.empty_open hr n acc (by rw [hcur]; exact hc)
  -- the tokens of the event, received from the open record alone
  obtain ⟨new, hnew, hcur', hout'⟩ :
      ∃ new, Rx.toks ⟨cur, []⟩ e.2 = some new ∧ r'.cur = new.cur ∧ r'.out = r.out ++ new.out := by
    rw [streamToks_append, streamToks_self] at hr'
    obtain ⟨r1, h1, h2⟩ := toks_append hr'
    rw [hr] at h1; cases h1
    have hshift := toks_out r.out e.2 cur []
    rw [List.append_nil, ← hcur] at hshift
    rw [show r = ⟨r.cur, r.out⟩ from rfl, hshift] at h2
    obtain ⟨new, hnew, rfl⟩ := Option.map_eq_some_iff.1 h2
    exact ⟨new, by rw [← hcur]; exact hnew, rfl, rfl⟩
  have hbytes : wire quicVarintEncode e.2 = wire Varint.encode e.2 :=
      wire_congr fun n hn => quicVarintEncode_eq (hl n hn)
  have hs : Stands e.1 s.frames s ⟨cur, []⟩ := ⟨hj.holds, by simp⟩
  obtain ⟨s', h1, hs'⟩ := clientCb_feed hd hm hopen (wire quicVarintEncode e.2) hs
  have hfeed : feed ⟨cur, []⟩ (wire quicVarintEncode e.2) = new := by
    have := feed_toks e.2 [] hopen hl hnew
    rwa [List.append_nil, feed_nil _ (toks_isOpen hopen hnew), ← hbytes] at this
  rw [hfeed] at hs'
  refine ⟨s', new.cur, h1, hs'.holds, fun sid => ?_, ?_⟩
  · by_cases he : sid = e.1
    · subst he
      refine ⟨r', hr', ?_, .inr hcur'⟩
      rw [hs'.completed_self, hcomp, hout']
    · obtain ⟨r2, hr2, hcomp2, -⟩ := hj.streams sid
      refine ⟨r2, by rwa [streamToks_append, streamToks_other he, List.append_nil], ?_, .inl (hw sid he r2 hr2)⟩
      rw [hs'.completed_other he, hcomp2]
  · exact .inr ⟨e.1, r', hr', hcur'⟩

/-! ## Runs -/

theorem Joint.init (outDir : String) : Joint [] (State.init 0 outDir) none :=
  ⟨(init_stands 0 0 outDir).holds, fun _ => ⟨Rx.empty, rfl, rfl, .inl rfl⟩, .inl rfl⟩

/-- The first `k` frames of a stream, whole, leave no record open. -/
theorem toks_whole {frames : List (List UInt8)} (hf : ∀ f ∈ frames, IsFrame f) (k : Nat) {r : Rx UInt8}
    (h : Rx.empty.toks ((frames.take k).flatMap record) = some r) : r.cur = none := by
  have hne : ∀ f ∈ frames.take k, f ≠ [] := fun f hk => (hf f (List.mem_of_mem_take hk)).ne_nil
  have := toks_records [] hne
  unfold Rx.empty at h
  rw [h] at this
  cases this; rfl

/-- The lengths on the wire are those of frames. -/
theorem len_mem_records {frames : List (List UInt8)} (hf : ∀ f ∈ frames, IsFrame f) {n : Nat}
    (h : Tok.len n ∈ frames.flatMap record) : n < 2 ^ 62 := by
  obtain ⟨f, hmem, hn⟩ := List.mem_flatMap.1 h
  have : n = f.length := by simpa [record] using hn
  rw [this]
  exact (hf f hmem).lt

/-- Every prefix of an unmixed run keeps the joint invariant. -/
theorem unmixed_run {env : Env} (hd : env.Rfc9000) (hm : ∀ i, env.malloc i = true) (outDir : String)
    {evs : List TokEvent} {frames : Nat → List (List UInt8)} (hf : ∀ sid, ∀ f ∈ frames sid, IsFrame f)
    (hc : Carries evs frames) (hu : Unmixed evs frames) : ∀ pre post, evs = pre ++ post →
      ∃ s cur, events env (State.init 0 outDir) (pre.map deliver) = some s ∧ Joint pre s cur := by
  intro pre
  induction pre using List.reverseRecOn with
  | nil => intro post _; exact ⟨_, none, rfl, Joint.init outDir⟩
  | append_singleton pre e ih =>
    intro post heq
    have heq' : evs = pre ++ e :: post := by rw [heq]; simp
    obtain ⟨s, cur, hs, hj⟩ := ih (e :: post) heq'
    have hrun : ∀ s', clientCb env s (deliver e) = some s' →
        events env (State.init 0 outDir) ((pre ++ [e]).map deliver) = some s' := by
      intro s' h
      unfold events at hs ⊢
      rw [List.map_append, Lts.run_append, hs, Option.bind_some, List.map_cons, List.map_nil, Lts.run_cons, h]
      rfl
    by_cases he : e.2 = []
    · obtain ⟨h1, hj'⟩ := hj.empty_event env he
      exact ⟨s, cur, hrun s h1, hj'⟩
    · have hwire : streamToks e.1 (pre ++ [e]) ++ streamToks e.1 post = (frames e.1).flatMap record := by
        rw [← streamToks_append, ← hc e.1, heq]
      have hrecords := toks_records [] fun f hmem => (hf e.1 f hmem).ne_nil
      rw [← hwire] at hrecords
      obtain ⟨r', hr', -⟩ := toks_append hrecords
      -- the other streams stand between two records
      have hw : ∀ sid, sid ≠ e.1 → ∀ r, Rx.empty.toks (streamToks sid pre) = some r → r.cur = none := by
        rintro sid hne r hr
        obtain ⟨k, hk⟩ := hu pre e post heq' he sid hne
        rw [hk] at hr
        exact toks_whole (hf sid) k hr
      -- a length in the event is that of a frame
      have hl : ∀ n, Tok.len n ∈ e.2 → n < 2 ^ 62 := by
        rintro n hn
        apply len_mem_records (hf e.1) (n := n)
        rw [← hwire, streamToks_append, streamToks_self]
        simp [hn]
      obtain ⟨s', cur', h1, hj'⟩ := hj.step hd hm hw hl hr'
      exact ⟨s', cur', hrun s' h1, hj'⟩

/-- In every run in which no event arrives inside another stream's record, the callback has completed, at
every moment and for each stream, the frames whose records it has received whole; at the end these are the
frames sent. -/
theorem unmixed_streams_received {env : Env} (hd : env.Rfc9000) (hm : ∀ i, env.malloc i = true) (outDir : String)
    {evs : List TokEvent} {frames : Nat → List (List UInt8)} (hf : ∀ sid, ∀ f ∈ frames sid, IsFrame f)
    (hc : Carries evs frames) (hu : Unmixed evs frames) :
    (∀ pre post, evs = pre ++ post → ∃ s, events env (State.init 0 outDir) (pre.map deliver) = some s ∧
      ∀ sid, ∃ r, Rx.empty.toks (streamToks sid pre) = some r ∧ completed sid s = r.out) ∧
    ∃ s, events env (State.init 0 outDir) (evs.map deliver) = some s ∧ ∀ sid, completed sid s = frames sid := by
  constructor
  · intro pre post heq
    obtain ⟨s, cur, hs, hj⟩ := unmixed_run hd hm outDir hf hc hu pre post heq
    refine ⟨s, hs, fun sid => ?_⟩
    obtain ⟨r, hr, hcomp, -⟩ := hj.streams sid
    exact ⟨r, hr, hcomp⟩
  · obtain ⟨s, cur, hs, hj⟩ := unmixed_run hd hm outDir hf hc hu evs [] (by simp)
    refine ⟨s, hs, fun sid => ?_⟩
    obtain ⟨r, hr, hcomp, -⟩ := hj.streams sid
    rw [hc sid] at hr
    have hrecords := toks_records [] fun f hmem => (hf sid f hmem).ne_nil
    unfold Rx.empty at hr
    rw [hr] at hrecords
    cases hrecords
    simpa using hcomp

/-! ## Two path streams -/

/-- A frame of two bytes on stream 0, one of one byte on stream 4. -/
def twoStreams (sid : Nat) : List (List UInt8) := if sid = 0 then [[1, 2]] else if sid = 4 then [[3]] else []

theorem twoStreams_isFrame : ∀ sid, ∀ f ∈ twoStreams sid, IsFrame f := by
  intro sid f hf
  unfold twoStreams at hf
  split_ifs at hf
  · rw [List.mem_singleton.1 hf]
    constructor
    · decide
    · decide
  · rw [List.mem_singleton.1 hf]
    constructor
    · decide
    · decide
  · cases hf

/-- The frame of stream 0 in two events, then that of stream 4. -/
def oneByOne : List TokEvent := [(0, [.len 2, .byte 1]), (0, [.byte 2]), (4, [.len 1, .byte 3])]

/-- The event of stream 4 between the two of stream 0. -/
def mixed : List TokEvent := [(0, [.len 2, .byte 1]), (4, [.len 1, .byte 3]), (0, [.byte 2])]

theorem oneByOne_carries : Carries oneByOne twoStreams := by
  intro sid
  by_cases h0 : sid = 0
  · subst h0; rfl
  by_cases h4 : sid = 4
  · subst h4; rfl
  · simp [streamToks, oneByOne, twoStreams, h0, h4, Ne.symm h0, Ne.symm h4]

theorem mixed_carries : Carries mixed twoStreams := by
  intro sid
  by_cases h0 : sid = 0
  · subst h0; rfl
  by_cases h4 : sid = 4
  · subst h4; rfl
  · simp [streamToks, mixed, twoStreams, h0, h4, Ne.symm h0, Ne.symm h4]

theorem oneByOne_unmixed : Unmixed oneByOne twoStreams := by
  intro pre e post h _ sid hne
  have hwhole : ∀ a b : TokEvent, pre = [a, b] → a = (0, [.len 2, .byte 1]) → b = (0, [.byte 2]) →
      ∃ k, streamToks sid pre = ((twoStreams sid).take k).flatMap record := by
    rintro a b rfl rfl rfl
    by_cases h0 : sid = 0
    · subst h0; exact ⟨1, rfl⟩
    · exact ⟨0, by simp [streamToks, Ne.symm h0]⟩
  unfold oneByOne at h
  rcases pre with _ | ⟨a, _ | ⟨b, _ | ⟨c, pre⟩⟩⟩
  · exact ⟨0, rfl⟩
  · simp only [List.cons_append, List.nil_append, List.cons.injEq] at h
    obtain ⟨rfl, rfl, -⟩ := h
    exact ⟨0, by simp [streamToks, Ne.symm hne]⟩
  · simp only [List.cons_append, List.nil_append, List.cons.injEq] at h
    exact hwhole a b rfl h.1.symm h.2.1.symm
  · simp at h

/-- The two frames in turn come through. -/
theorem oneByOne_received :
    (∀ pre post, oneByOne = pre ++ post → ∃ s, events Env.sound (State.init 0 "") (pre.map deliver) = some s ∧
      ∀ sid, ∃ r, Rx.empty.toks (streamToks sid pre) = some r ∧ completed sid s = r.out) ∧
    ∃ s, events Env.sound (State.init 0 "") (oneByOne.map deliver) = some s ∧
      ∀ sid, completed sid s = twoStreams sid :=
  unmixed_streams_received Env.sound_rfc9000 (fun _ => rfl) "" twoStreams_isFrame oneByOne_carries oneByOne_unmixed

/-- The same frames interleaved: stream 4's length byte completes stream 0's frame, and stream 0's frame is
never completed. -/
theorem mixed_torn : Carries mixed twoStreams ∧ (∀ sid, ∀ f ∈ twoStreams sid, IsFrame f) ∧
    (events Env.sound (State.init 0 "") (mixed.map deliver)).map (fun s => (completed 0 s, completed 4 s)) =
      some ([], [[1, 1]]) ∧
    ¬ ∃ s, events Env.sound (State.init 0 "") (mixed.map deliver) = some s ∧
      ∀ sid, completed sid s = twoStreams sid := by
  have hrun : (events Env.sound (State.init 0 "") (mixed.map deliver)).map (fun s => (completed 0 s, completed 4 s)) =
      some ([], [[1, 1]]) := by decide
  refine ⟨mixed_carries, twoStreams_isFrame, hrun, ?_⟩
  rintro ⟨s, hs, h⟩
  rw [hs] at hrun
  have h0 : completed 0 s = [] := congrArg Prod.fst (Option.some.inj hrun)
  rw [h 0] at h0
  exact absurd h0 (by decide)

end Mquic.ClientMain
