/-
Memory safety of `client_cb`: in every state of every run, also inside a loop that does not end, the copy of a round
stays in the frame buffer, and what is stored of a frame is what was consumed since its length was read.
-/
import Mquic.Client.Rounds
import Mquic.Client.Delivery

namespace Mquic.ClientMain

open Loop

/-! ## The copy of a round -/

/-- Where a round stands when it comes to its payload step: the state and the bytes left. -/
def atCopy (env : Env) (s : State) (p : List UInt8) : State × List UInt8 :=
  if s.app.frameSize = 0 then
    (s.opened env (env.picoquicVarintDecode p).2, p.drop (env.picoquicVarintDecode p).1)
  else (s, p)

/-- A call of `memcpy`: the block, the offset in it, and the bytes. -/
structure Memcpy where
  block : Block
  offset : Nat
  bytes : List UInt8

/-- It writes inside its block. -/
def Memcpy.Inside (m : Memcpy) : Prop := m.offset + m.bytes.length ≤ m.block.size

/-- The call the payload step makes, if any. -/
def memcpyOf (s : State) (p : List UInt8) : Option Memcpy :=
  match s.app.frameBuffer with
  | none => none
  | some fb =>
    if 0 < s.app.frameSize then
      let toCopy :=
        if s.app.receivedSize + p.length > s.app.frameSize then s.app.frameSize - s.app.receivedSize else p.length
      some ⟨fb, s.app.receivedSize, p.take toCopy⟩
    else none

/-! ## Runs with their history -/

/-- The declared size of the frame in progress and the bytes consumed since its length was read. -/
structure Taken where
  size : Nat
  bytes : List UInt8

/-- After a round from `s` on `p` that leaves `rest`. -/
def Taken.after (t : Taken) (env : Env) (s : State) (p rest : List UInt8) : Taken :=
  if s.app.frameSize = 0 then
    let (lenLen, frameSize) := env.picoquicVarintDecode p
    ⟨frameSize, (p.drop lenLen).take (p.length - lenLen - rest.length)⟩
  else { t with bytes := t.bytes ++ p.take (p.length - rest.length) }

/-- The states of a run, between events (`none`) and between the rounds of an event's loop (its stream, and the
bytes left), with the history of the frame in progress. -/
inductive Trace (env : Env) (maxFrames : Int) (outDir : String) : State → Option (Nat × List UInt8) → Taken → Prop where
  | init : Trace env maxFrames outDir (State.init maxFrames outDir) none ⟨0, []⟩
  | data {s : State} {t : Taken} (sid : Nat) (bytes : List UInt8) (h : Trace env maxFrames outDir s none t) :
    Trace env maxFrames outDir s (some (sid, bytes)) t
  | event {s s' : State} {t : Taken} {e : Event} (h : Trace env maxFrames outDir s none t)
    (hno : ∀ sid bytes, e ≠ .streamData sid bytes) (hcb : clientCb env s e = some s') :
    Trace env maxFrames outDir s' none t
  | round {s s' : State} {t : Taken} {sid : Nat} {p p' : List UInt8}
    (h : Trace env maxFrames outDir s (some (sid, p)) t) (hr : whileBody env sid (s, p) = .inr (s', p')) :
    Trace env maxFrames outDir s' (some (sid, p')) (t.after env s p p')
  | exit {s s' : State} {t : Taken} {sid : Nat} {p : List UInt8}
    (h : Trace env maxFrames outDir s (some (sid, p)) t) (hx : whileBody env sid (s, p) = .inl s') :
    Trace env maxFrames outDir s' none t

section Trace

variable {env : Env} {maxFrames : Int} {outDir : String}

/-- Every head of a loop is among the states. -/
theorem Trace.heads {s : State} {sid : Nat} {p : List UInt8} {t : Taken}
    (h : Trace env maxFrames outDir s (some (sid, p)) t) {y : State × List UInt8}
    (hy : Heads (whileBody env sid) (s, p) y) : ∃ t', Trace env maxFrames outDir y.1 (some (sid, y.2)) t' := by
  induction hy with
  | refl => exact ⟨t, h⟩
  | tail _ hz ih =>
    obtain ⟨t', ht'⟩ := ih
    exact ⟨_, .round ht' hz⟩

/-- So is every state an event leads to. -/
theorem Trace.clientCb {s s' : State} {t : Taken} {e : Event} (h : Trace env maxFrames outDir s none t)
    (hcb : clientCb env s e = some s') : ∃ t', Trace env maxFrames outDir s' none t' := by
  by_cases he : ∃ sid bytes, e = .streamData sid bytes
  · obtain ⟨sid, bytes, rfl⟩ := he
    obtain ⟨y, hy, hend⟩ := loop_exit bytes.length s bytes s' hcb
    obtain ⟨t', ht'⟩ := (Trace.data sid bytes h).heads hy
    exact ⟨t', .exit ht' hend⟩
  · exact ⟨t, .event h (fun sid bytes heq => he ⟨sid, bytes, heq⟩) hcb⟩

/-- So the states between events are among the traces'. -/
theorem Reached.trace {s : State} (h : Reached env maxFrames outDir s) : ∃ t, Trace env maxFrames outDir s none t :=
  h.inv (I := fun s => ∃ t, Trace env maxFrames outDir s none t) ⟨_, .init⟩
    fun _ _ _ ⟨_, ht⟩ hcb => ht.clientCb hcb

end Trace

/-! ## The invariant -/

/-- The bounds of the buffer, and a frame in progress has its declared size and, if there is a buffer, the bytes
consumed of it at the buffer's start. -/
structure Holding (app : AppCtx) (t : Taken) : Prop where
  sized : Sized app
  small : app.frameSize < 2 ^ 62
  size : 0 < app.frameSize → app.frameSize = t.size
  received : 0 < app.frameSize → app.receivedSize = t.bytes.length
  start : 0 < app.frameSize → ∀ fb, app.frameBuffer = some fb → fb.data.take t.bytes.length = t.bytes

/-- What a step to `s'` stores: nothing, or one frame, the bytes of `t`, all that was declared. -/
def Stores (sid : Nat) (s s' : State) (t : Taken) : Prop :=
  (s'.frames = s.frames ∧ s'.files = s.files) ∨
    (s'.frames = s.frames ++ [(sid, t.bytes)] ∧ t.bytes.length = t.size ∧
      (s'.files = s.files ∨ s'.files = s.files ++ [(s'.app.frameCount, t.bytes)]))

section Rounds

variable {env : Env} {sid : Nat} {s s' : State} {p p' : List UInt8} {t : Taken}

/-- With `bytes` more. -/
def Taken.add (t : Taken) (bytes : List UInt8) : Taken := { t with bytes := t.bytes ++ bytes }

theorem Holding.idle {app : AppCtx} (h : Sized app) (h0 : app.frameSize = 0) (t : Taken) : Holding app t :=
  ⟨h, h0 ▸ Nat.two_pow_pos 62, fun hpos => absurd h0 (Nat.pos_iff_ne_zero.1 hpos),
    fun hpos => absurd h0 (Nat.pos_iff_ne_zero.1 hpos),
    fun hpos => absurd h0 (Nat.pos_iff_ne_zero.1 hpos)⟩

/-- A frame just opened has nothing of its own yet. -/
theorem Holding.opened (hs : Sized s.app) {n : Nat} (hn : n < 2 ^ 62) : Holding (s.opened env n).app ⟨n, []⟩ := by
  have hsized : Sized (s.opened env n).app := hs.opened n
  rcases opened_cases env s n with ⟨-, -, h⟩ | ⟨-, -, h⟩ | ⟨-, h⟩
  · rw [h] at hsized ⊢
    exact ⟨hsized, hn, fun _ => rfl, fun _ => rfl, fun _ _ _ => rfl⟩
  · rw [h] at hsized ⊢
    exact ⟨hsized, hn, fun _ => rfl, fun _ => rfl, fun _ _ _ => rfl⟩
  · rw [h] at hsized ⊢
    exact ⟨hsized, hn, fun _ => rfl, fun _ => rfl, fun _ _ _ => rfl⟩

/-- The payload step keeps the invariant with what it consumed added, and stores a frame that is complete. -/
theorem copyPayload_holding (hs : Holding s.app t) (h : copyPayload env sid s p = .next s' p') :
    Holding s'.app (t.add (p.take (p.length - p'.length))) ∧
      Stores sid s s' (t.add (p.take (p.length - p'.length))) := by
  have hsized := copyPayload_sized hs.sized h
  rcases copyPayload_cases env sid s p hs.sized.received with ⟨-, hc⟩ | ⟨fb, hfb, hlt, hc⟩ |
      ⟨fb, piece, rest, hfb, hpos, rfl, hfull, hc⟩
  · rw [hc] at h
    cases h
    have hsame : t.add (p.take (p.length - p.length)) = t := by
      unfold Taken.add
      rw [Nat.sub_self, List.take_zero, List.append_nil]
    rw [hsame]
    exact ⟨hs, .inl ⟨rfl, rfl⟩⟩
  · rw [hc] at h
    cases h
    have hpos : 0 < s.app.frameSize := by omega
    have hrec := hs.received hpos
    have hall : p.take (p.length - ([] : List UInt8).length) = p := by
      rw [List.length_nil, Nat.sub_zero, List.take_length]
    rw [hall]
    refine ⟨⟨hsized, hs.small, hs.size, fun _ => ?_, fun _ fb' hfb' => ?_⟩, .inl ⟨rfl, rfl⟩⟩
    · show s.app.receivedSize + p.length = (t.bytes ++ p).length
      rw [hrec, List.length_append]
    · cases hfb'
      show ((fb.write s.app.receivedSize p).data.take (t.bytes ++ p).length) = t.bytes ++ p
      rw [hrec, List.length_append]
      exact take_write fb p (hs.start hpos fb hfb)
  · rw [hc] at h
    cases h
    have hrec := hs.received hpos
    have hpiece : (piece ++ p').take ((piece ++ p').length - p'.length) = piece := by
      rw [List.length_append, Nat.add_sub_cancel, List.take_left']
      rfl
    have hlen : t.bytes.length + piece.length = s.app.frameSize := by omega
    -- the frame the round stores
    have hframe : (fb.write s.app.receivedSize piece).data.take s.app.frameSize = t.bytes ++ piece := by
      rw [hrec, ← hlen]
      exact take_write fb piece (hs.start hpos fb hfb)
    rw [hpiece]
    refine ⟨.idle hsized rfl _, .inr ⟨?_, ?_, ?_⟩⟩
    · show s.frames ++ [(sid, _)] = _
      rw [show (s.filled fb piece).app.frameSize = s.app.frameSize from rfl, hframe]
      rfl
    · show (t.bytes ++ piece).length = t.size
      rw [List.length_append, hlen, hs.size hpos]
    · show (if _ then s.files ++ [(_, _)] else s.files) = s.files ∨
        (if _ then s.files ++ [(_, _)] else s.files) = _
      rw [show (s.filled fb piece).app.frameSize = s.app.frameSize from rfl, hframe]
      split
      · exact .inr rfl
      · exact .inl rfl

/-- A round keeps the invariant, and stores what it completes. -/
theorem round_holding (hd : env.Rfc9000) (hs : Holding s.app t) (h : round env sid s p = .next s' p') :
    Holding s'.app (t.after env s p p') ∧ Stores sid s s' (t.after env s p p') := by
  rcases round_cases hd sid s p with ⟨-, -, hr⟩ | ⟨n, c, h0, hdec, hr⟩ | ⟨hpos, hr⟩
  · rw [hr] at h
    cases h
  · have hdp := hd p
    rw [hdec] at hdp
    rw [hr] at h
    have hafter : t.after env s p p' = (Taken.mk n []).add ((p.drop c).take ((p.drop c).length - p'.length)) := by
      unfold Taken.after Taken.add
      rw [if_pos h0]
      simp only [hdp, List.nil_append, List.length_drop]
    obtain ⟨hhold, hstore⟩ := copyPayload_holding (.opened hs.sized (Varint.decode_lt hdec)) h
    obtain ⟨hframes, hfiles, -⟩ := opened_frames env s n
    rw [hafter]
    refine ⟨hhold, ?_⟩
    unfold Stores at hstore ⊢
    rwa [hframes, hfiles] at hstore
  · rw [hr] at h
    have hafter : t.after env s p p' = t.add (p.take (p.length - p'.length)) := by
      unfold Taken.after
      rw [if_neg (Nat.pos_iff_ne_zero.1 hpos)]
      rfl
    rw [hafter]
    exact copyPayload_holding hs h

end Rounds

section Trace

variable {env : Env} {maxFrames : Int} {outDir : String}

theorem Trace.holding (hd : env.Rfc9000) {s : State} {cur : Option (Nat × List UInt8)} {t : Taken}
    (h : Trace env maxFrames outDir s cur t) : Holding s.app t := by
  induction h with
  | init => exact .idle (Sized.init maxFrames outDir) rfl _
  | data sid bytes _ ih => exact ih
  | @event s s' t e _ hno hcb ih =>
    have hsized := clientCb_sized hd ih.sized hcb
    -- a close frees the buffer under the frame and changes nothing else
    cases e with
    | streamData sid bytes => exact absurd rfl (hno sid bytes)
    | streamFin sid bytes => cases hcb; exact ih
    | close =>
      cases hcb
      exact ⟨hsized, ih.small, ih.size, ih.received, fun _ _ h => (Option.some_ne_none _ h.symm).elim⟩
    | applicationClose =>
      cases hcb
      exact ⟨hsized, ih.small, ih.size, ih.received, fun _ _ h => (Option.some_ne_none _ h.symm).elim⟩
    | other => cases hcb; exact ih
  | round _ hr ih =>
    obtain ⟨_, _, -, hr⟩ := whileBody_next hr
    exact (round_holding hd ih hr).1
  | exit _ hx ih =>
    rw [whileBody_exit hd ih.sized hx]
    exact ih

end Trace

/-! ## The copy -/

section Copy

variable {env : Env} {sid : Nat} {s s' : State} {p p' : List UInt8}

/-- A round that goes on is the payload step from where it stands then. -/
theorem round_atCopy (hd : env.Rfc9000) (h : round env sid s p = .next s' p') :
    copyPayload env sid (atCopy env s p).1 (atCopy env s p).2 = .next s' p' := by
  unfold atCopy
  rcases round_cases hd sid s p with ⟨-, -, hr⟩ | ⟨n, c, h0, hdec, hr⟩ | ⟨hpos, hr⟩
  · rw [hr] at h
    cases h
  · have hdp := hd p
    rw [hdec] at hdp
    rw [if_pos h0, hdp, ← hr]
    exact h
  · rw [if_neg (Nat.pos_iff_ne_zero.1 hpos), ← hr]
    exact h

theorem atCopy_sized (hs : Sized s.app) : Sized (atCopy env s p).1.app := by
  unfold atCopy
  split
  · exact hs.opened _
  · exact hs

/-- `memcpyOf` is the write the payload step makes: the buffer afterwards is the block with the bytes in it. -/
theorem copyPayload_memcpy {m : Memcpy} (hm : memcpyOf s p = some m) (h : copyPayload env sid s p = .next s' p') :
    s.app.frameBuffer = some m.block ∧ s'.app.frameBuffer = some (m.block.write m.offset m.bytes) := by
  unfold memcpyOf at hm
  unfold copyPayload at h
  cases hfb : s.app.frameBuffer with
  | none =>
    rw [hfb] at hm
    cases hm
  | some fb =>
    rw [hfb] at hm h
    simp only at hm h
    split at hm
    · rename_i hpos
      cases hm
      rw [if_pos hpos] at h
      generalize (if s.app.receivedSize + p.length > s.app.frameSize then s.app.frameSize - s.app.receivedSize
        else p.length) = toCopy at h ⊢
      split at h
      · cases h
        exact ⟨rfl, rfl⟩
      · cases h
        exact ⟨rfl, rfl⟩
    · cases hm

/-- Without a `memcpy` the buffer stays. -/
theorem copyPayload_no_memcpy (hm : memcpyOf s p = none) (h : copyPayload env sid s p = .next s' p') : s' = s := by
  unfold memcpyOf at hm
  unfold copyPayload at h
  cases hfb : s.app.frameBuffer with
  | none =>
    rw [hfb] at h
    cases h
    rfl
  | some fb =>
    rw [hfb] at hm h
    simp only at hm h
    split at hm
    · cases hm
    · rename_i hpos
      rw [if_neg hpos] at h
      cases h
      rfl

theorem memcpy_inside (hs : Sized s.app) {m : Memcpy} (hm : memcpyOf s p = some m) : m.Inside := by
  unfold memcpyOf at hm
  cases hfb : s.app.frameBuffer with
  | none =>
    rw [hfb] at hm
    cases hm
  | some fb =>
    rw [hfb] at hm
    simp only at hm
    split at hm
    · rename_i hpos
      cases hm
      have hsize := hs.block fb hfb
      have hfits := hs.fits fb hfb hpos
      have hrec := hs.received
      show s.app.receivedSize + (p.take _).length ≤ fb.size
      rw [List.length_take]
      split <;> omega
    · cases hm

/-- What a round leaves is a suffix of what it found. -/
theorem round_suffix (hd : env.Rfc9000) (hs : Sized s.app) (h : round env sid s p = .next s' p') : p' <:+ p := by
  have hcopy : ∀ s1 q, Sized s1.app → copyPayload env sid s1 q = .next s' p' → p' <:+ q := by
    intro s1 q h1 hc
    rcases copyPayload_cases env sid s1 q h1.received with ⟨-, hq⟩ | ⟨_, -, -, hq⟩ | ⟨_, piece, rest, -, -, rfl, -, hq⟩
    · rw [hq] at hc
      cases hc
      exact List.suffix_rfl
    · rw [hq] at hc
      cases hc
      exact List.nil_suffix
    · rw [hq] at hc
      cases hc
      exact List.suffix_append piece p'
  have hrest := hcopy _ _ (atCopy_sized hs) (round_atCopy hd h)
  unfold atCopy at hrest
  split at hrest
  · exact hrest.trans (List.drop_suffix _ p)
  · exact hrest

/-- The sum in the test of the payload step, for an event of at most `PTRDIFF_MAX` bytes: the code takes
`p_max - p`. -/
theorem sum_lt (hs : Sized s.app) (hsmall : s.app.frameSize < 2 ^ 62) (hp : p.length < 2 ^ 63) :
    (atCopy env s p).1.app.receivedSize + (atCopy env s p).2.length < 2 ^ 64 := by
  unfold atCopy
  split
  · have hzero : (s.opened env (env.picoquicVarintDecode p).2).app.receivedSize = 0 := by
      rcases opened_cases env s (env.picoquicVarintDecode p).2 with ⟨-, -, h⟩ | ⟨-, -, h⟩ | ⟨-, h⟩ <;> rw [h]
    rw [hzero, List.length_drop]
    omega
  · have := hs.received
    simp only
    omega

end Copy

/-- In every state of every run, the states between events among them, the frame buffer is as large as noted and holds
the frame in progress; a round without a `memcpy` leaves the buffer it opened, and the `memcpy` of a round stays inside
it and is all that the round writes there; its sum does not wrap, and what the round stores is exactly what was consumed
since the frame's length was read, and of that length. -/
theorem frame_buffer_safe {env : Env} (hd : env.Rfc9000) {maxFrames : Int} {outDir : String} {s : State}
    {cur : Option (Nat × List UInt8)} {t : Taken} (h : Trace env maxFrames outDir s cur t) :
    (∀ s, Reached env maxFrames outDir s → ∃ t, Trace env maxFrames outDir s none t) ∧
    (s.app.receivedSize ≤ s.app.frameSize ∧ ∀ fb, s.app.frameBuffer = some fb →
      fb.size = s.app.bufferSize ∧ (0 < s.app.frameSize → s.app.frameSize ≤ s.app.bufferSize)) ∧
    ∀ sid p s' p', cur = some (sid, p) → whileBody env sid (s, p) = .inr (s', p') →
      (memcpyOf (atCopy env s p).1 (atCopy env s p).2 = none → s' = (atCopy env s p).1) ∧
      (∀ m, memcpyOf (atCopy env s p).1 (atCopy env s p).2 = some m → m.Inside ∧
        (atCopy env s p).1.app.frameBuffer = some m.block ∧
        s'.app.frameBuffer = some (m.block.write m.offset m.bytes)) ∧
      (p.length < 2 ^ 63 → (atCopy env s p).1.app.receivedSize + (atCopy env s p).2.length < 2 ^ 64) ∧
      p' <:+ p ∧ Stores sid s s' (t.after env s p p') := by
  have hs := h.holding hd
  refine ⟨fun s hreached => hreached.trace, ?_, ?_⟩
  · exact ⟨hs.sized.received, fun fb hfb => ⟨hs.sized.block fb hfb, hs.sized.fits fb hfb⟩⟩
  · rintro sid p s' p' rfl hz
    obtain ⟨_, _, -, hr⟩ := whileBody_next hz
    have hcopy := round_atCopy hd hr
    refine ⟨fun hno => copyPayload_no_memcpy hno hcopy, fun m hm => ⟨?_, copyPayload_memcpy hm hcopy⟩,
      sum_lt hs.sized hs.small, round_suffix hd hs.sized hr, (round_holding hd hs hr).2⟩
    exact memcpy_inside (atCopy_sized hs.sized) hm

/-- Inside the first event of a run, a frame of one byte. -/
theorem frame_buffer_safe_first :
    (∀ s, Reached Env.sound 0 "" s → ∃ t, Trace Env.sound 0 "" s none t) ∧
    ((State.init 0 "").app.receivedSize ≤ (State.init 0 "").app.frameSize ∧
      ∀ fb, (State.init 0 "").app.frameBuffer = some fb → fb.size = (State.init 0 "").app.bufferSize ∧
        (0 < (State.init 0 "").app.frameSize → (State.init 0 "").app.frameSize ≤ (State.init 0 "").app.bufferSize)) ∧
    ∀ sid p s' p', some (4, [0x01, 0xAA]) = some (sid, p) →
      whileBody Env.sound sid (State.init 0 "", p) = .inr (s', p') →
      (memcpyOf (atCopy Env.sound (State.init 0 "") p).1 (atCopy Env.sound (State.init 0 "") p).2 = none →
        s' = (atCopy Env.sound (State.init 0 "") p).1) ∧
      (∀ m, memcpyOf (atCopy Env.sound (State.init 0 "") p).1 (atCopy Env.sound (State.init 0 "") p).2 = some m →
        m.Inside ∧ (atCopy Env.sound (State.init 0 "") p).1.app.frameBuffer = some m.block ∧
        s'.app.frameBuffer = some (m.block.write m.offset m.bytes)) ∧
      (p.length < 2 ^ 63 → (atCopy Env.sound (State.init 0 "") p).1.app.receivedSize +
        (atCopy Env.sound (State.init 0 "") p).2.length < 2 ^ 64) ∧
      p' <:+ p ∧ Stores sid (State.init 0 "") s' ((Taken.mk 0 []).after Env.sound (State.init 0 "") p p') :=
  frame_buffer_safe Env.sound_rfc9000 (.data 4 [0x01, 0xAA] .init)

end Mquic.ClientMain
