/-
The parsing loop of `client_cb` round by round, whatever `malloc` does: what a round can do to the context and to
the bytes left of the event, and the bounds on the frame buffer that every round and every event keeps.
-/
import Mquic.Client.Main
import Mquic.Lib.Loop

namespace Mquic.ClientMain

open Loop

/-! ## The loop -/

/-- `while (p < p_max)`: out of bytes, or one more round. -/
def whileBody (env : Env) (streamId : Nat) : State × List UInt8 → State ⊕ State × List UInt8
  | (s, []) => .inl s
  | (s, b :: p) =>
    match round env streamId s (b :: p) with
    | .brk s' => .inl s'
    | .next s' p' => .inr (s', p')

theorem whileBody_brk {env : Env} {sid : Nat} {s s' : State} {b : UInt8} {p : List UInt8}
    (h : round env sid s (b :: p) = .brk s') : whileBody env sid (s, b :: p) = .inl s' := by
  simp only [whileBody, h]

theorem whileBody_go {env : Env} {sid : Nat} {s s' : State} {b : UInt8} {p p' : List UInt8}
    (h : round env sid s (b :: p) = .next s' p') : whileBody env sid (s, b :: p) = .inr (s', p') := by
  simp only [whileBody, h]

/-- The loop with fuel comes to an end where the loop does. -/
theorem loop_exit {env : Env} {sid : Nat} : ∀ (fuel : Nat) (s : State) (p : List UInt8) (s' : State),
    loop env sid fuel s p = some s' → ∃ y, Heads (whileBody env sid) (s, p) y ∧ whileBody env sid y = .inl s'
  | fuel, s, [], s', h => by
    unfold loop at h
    cases h
    exact ⟨(s, []), Heads.refl _, rfl⟩
  | 0, s, b :: p, s', h => by cases h
  | fuel + 1, s, b :: p, s', h => by
    unfold loop at h
    cases hr : round env sid s (b :: p) with
    | brk s1 =>
      rw [hr] at h
      cases h
      exact ⟨(s, b :: p), Heads.refl _, whileBody_brk hr⟩
    | next s1 p1 =>
      rw [hr] at h
      obtain ⟨y, hy, hend⟩ := loop_exit fuel s1 p1 s' h
      exact ⟨y, ((Heads.refl _).next (whileBody_go hr)).trans hy, hend⟩

/-! ## What a round can do -/

/-- The context once the length varint of a frame of `n` bytes is read. -/
def State.opened (s : State) (env : Env) (n : Nat) : State :=
  startFrame env { s with app := { s.app with frameSize := n } }

/-- The context once `bytes` are copied into the block `fb`. -/
def State.filled (s : State) (fb : Block) (bytes : List UInt8) : State :=
  { s with app := { s.app with
      frameBuffer := some (fb.write s.app.receivedSize bytes), receivedSize := s.app.receivedSize + bytes.length } }

section Rounds

variable {env : Env} {sid : Nat} {s : State} {p : List UInt8}

/-- A new frame's block: allocated, refused, or the old one. -/
theorem opened_cases (env : Env) (s : State) (n : Nat) :
    (s.app.bufferSize < n ∧ env.malloc s.mallocs = true ∧ (s.opened env n).app = { s.app with
        frameSize := n, frameBuffer := some ⟨n, []⟩, bufferSize := n, receivedSize := 0 }) ∨
    (s.app.bufferSize < n ∧ env.malloc s.mallocs = false ∧ (s.opened env n).app = { s.app with
        frameSize := n, frameBuffer := none, bufferSize := 0, receivedSize := 0 }) ∨
    (n ≤ s.app.bufferSize ∧ (s.opened env n).app = { s.app with frameSize := n, receivedSize := 0 }) := by
  unfold State.opened startFrame
  simp only
  split
  · rename_i hlt
    split
    · rename_i hm
      exact .inl ⟨hlt, hm, rfl⟩
    · rename_i hm
      exact .inr (.inl ⟨hlt, by simpa using hm, rfl⟩)
  · rename_i hle
    exact .inr (.inr ⟨Nat.le_of_not_lt hle, rfl⟩)

/-- Opening a frame stores nothing. -/
theorem opened_frames (env : Env) (s : State) (n : Nat) :
    (s.opened env n).frames = s.frames ∧ (s.opened env n).files = s.files ∧ (s.opened env n).closes = s.closes ∧
      (s.opened env n).gRunning = s.gRunning := by
  unfold State.opened startFrame
  simp only
  split
  · split
    · exact ⟨rfl, rfl, rfl, rfl⟩
    · exact ⟨rfl, rfl, rfl, rfl⟩
  · exact ⟨rfl, rfl, rfl, rfl⟩

/-- The payload step: nothing without a frame or a block, else the bytes up to the end of the frame are copied, and
a frame that is full is completed. -/
theorem copyPayload_cases (env : Env) (sid : Nat) (s : State) (p : List UInt8)
    (hle : s.app.receivedSize ≤ s.app.frameSize) :
    ((s.app.frameBuffer = none ∨ s.app.frameSize = 0) ∧ copyPayload env sid s p = .next s p) ∨
    (∃ fb, s.app.frameBuffer = some fb ∧ s.app.receivedSize + p.length < s.app.frameSize ∧
      copyPayload env sid s p = .next (s.filled fb p) []) ∨
    ∃ fb piece rest, s.app.frameBuffer = some fb ∧ 0 < s.app.frameSize ∧ p = piece ++ rest ∧
      s.app.receivedSize + piece.length = s.app.frameSize ∧
      copyPayload env sid s p =
        .next (completeFrame env sid (s.filled fb piece) (fb.write s.app.receivedSize piece)) rest := by
  unfold copyPayload
  cases hfb : s.app.frameBuffer with
  | none => exact .inl ⟨.inl rfl, rfl⟩
  | some fb =>
    simp only
    by_cases hpos : 0 < s.app.frameSize
    · rw [if_pos hpos]
      by_cases hlt : s.app.receivedSize + p.length < s.app.frameSize
      · have hgt : ¬ s.app.receivedSize + p.length > s.app.frameSize := by omega
        have hne : ¬ s.app.receivedSize + p.length = s.app.frameSize := by omega
        refine .inr (.inl ⟨fb, rfl, hlt, ?_⟩)
        simp only [if_neg hgt, if_neg hne, List.take_length, List.drop_length]
        rfl
      · -- `to_copy` is what the frame lacks, also where the event holds exactly that
        have hcopy : (if s.app.receivedSize + p.length > s.app.frameSize then s.app.frameSize - s.app.receivedSize
            else p.length) = s.app.frameSize - s.app.receivedSize := by split <;> omega
        have hlen : (p.take (s.app.frameSize - s.app.receivedSize)).length =
            s.app.frameSize - s.app.receivedSize := by
          rw [List.length_take]
          omega
        have hfull : s.app.receivedSize + (s.app.frameSize - s.app.receivedSize) = s.app.frameSize := by omega
        refine .inr (.inr ⟨fb, p.take (s.app.frameSize - s.app.receivedSize),
          p.drop (s.app.frameSize - s.app.receivedSize), rfl, hpos, (List.take_append_drop _ p).symm, ?_, ?_⟩)
        · rw [hlen, hfull]
        · simp only [hcopy, if_pos hfull]
          unfold State.filled
          rw [hlen]
    · rw [if_neg hpos]
      exact .inl ⟨.inr (by omega), rfl⟩

/-- A round: between frames a cut varint ends the loop and a whole one opens a frame; then comes the payload step. -/
theorem round_cases (hd : env.Rfc9000) (sid : Nat) (s : State) (p : List UInt8) :
    (s.app.frameSize = 0 ∧ Varint.decode p = none ∧ round env sid s p = .brk s) ∨
    (∃ n c, s.app.frameSize = 0 ∧ Varint.decode p = some (n, c) ∧
      round env sid s p = copyPayload env sid (s.opened env n) (p.drop c)) ∨
    (0 < s.app.frameSize ∧ round env sid s p = copyPayload env sid s p) := by
  unfold round
  by_cases h0 : s.app.frameSize = 0
  · have hdp := hd p
    rw [if_pos h0]
    cases hdec : Varint.decode p with
    | none =>
      rw [hdec] at hdp
      have hsame : { s with app := { s.app with frameSize := 0 } } = s := by rw [← h0]
      refine .inl ⟨h0, rfl, ?_⟩
      simp only [hdp, if_true, hsame]
    | some nc =>
      obtain ⟨n, c⟩ := nc
      obtain ⟨hc, -⟩ := Varint.decode_bounds hdec
      rw [hdec] at hdp
      simp only [hdp, if_neg (show ¬ c = 0 by omega)]
      exact .inr (.inl ⟨n, c, h0, rfl, rfl⟩)
  · rw [if_neg h0]
    exact .inr (.inr ⟨Nat.pos_of_ne_zero h0, rfl⟩)

end Rounds

/-! ## The frame buffer -/

/-- The bounds of the buffer: less than a frame is received of the frame in progress, a block has the size noted
for it, and a frame in progress fits in its block. -/
structure Sized (app : AppCtx) : Prop where
  received : app.receivedSize ≤ app.frameSize
  unfinished : 0 < app.frameSize → app.receivedSize < app.frameSize
  block : ∀ fb, app.frameBuffer = some fb → fb.size = app.bufferSize
  fits : ∀ fb, app.frameBuffer = some fb → 0 < app.frameSize → app.frameSize ≤ app.bufferSize

theorem Sized.init (maxFrames : Int) (outDir : String) : Sized (AppCtx.init maxFrames outDir) :=
  ⟨le_refl 0, fun h => absurd h (lt_irrefl 0), fun _ h => (Option.some_ne_none _ h.symm).elim,
    fun _ h => (Option.some_ne_none _ h.symm).elim⟩

theorem Sized.opened {env : Env} {s : State} (hs : Sized s.app) (n : Nat) : Sized (s.opened env n).app := by
  rcases opened_cases env s n with ⟨-, -, h⟩ | ⟨-, -, h⟩ | ⟨hle, h⟩
  · rw [h]
    refine ⟨Nat.zero_le _, id, fun fb hfb => ?_, fun _ _ _ => le_refl n⟩
    cases hfb
    rfl
  · rw [h]
    exact ⟨Nat.zero_le _, id, fun _ h => (Option.some_ne_none _ h.symm).elim,
      fun _ h => (Option.some_ne_none _ h.symm).elim⟩
  · rw [h]
    exact ⟨Nat.zero_le _, id, hs.block, fun _ _ _ => hle⟩

/-- A copy that does not fill the frame. -/
theorem Sized.filled {s : State} (hs : Sized s.app) {fb : Block} (hfb : s.app.frameBuffer = some fb)
    {bytes : List UInt8} (hlt : s.app.receivedSize + bytes.length < s.app.frameSize) :
    Sized (s.filled fb bytes).app := by
  refine ⟨hlt.le, fun _ => hlt, fun fb' h => ?_, fun _ _ hpos => hs.fits fb hfb hpos⟩
  cases h
  exact hs.block fb hfb

theorem Sized.completed {env : Env} {sid : Nat} {s : State} (hs : Sized s.app) {fb : Block}
    (hfb : s.app.frameBuffer = some fb) (piece : List UInt8) :
    Sized (completeFrame env sid (s.filled fb piece) (fb.write s.app.receivedSize piece)).app := by
  refine ⟨le_refl 0, fun h => absurd h (lt_irrefl 0), fun fb' h => ?_, fun _ _ h => absurd h (lt_irrefl 0)⟩
  cases h
  exact hs.block fb hfb

theorem copyPayload_sized {env : Env} {sid : Nat} {s s' : State} {p p' : List UInt8} (hs : Sized s.app)
    (h : copyPayload env sid s p = .next s' p') : Sized s'.app := by
  rcases copyPayload_cases env sid s p hs.received with ⟨-, hc⟩ | ⟨fb, hfb, hlt, hc⟩ |
      ⟨fb, piece, rest, hfb, -, -, -, hc⟩
  · rw [hc] at h
    cases h
    exact hs
  · rw [hc] at h
    cases h
    exact hs.filled hfb hlt
  · rw [hc] at h
    cases h
    exact hs.completed hfb piece

/-- Every round keeps the bounds. -/
theorem round_sized {env : Env} (hd : env.Rfc9000) {sid : Nat} {s s' : State} {p p' : List UInt8} (hs : Sized s.app)
    (h : round env sid s p = .next s' p') : Sized s'.app := by
  rcases round_cases hd sid s p with ⟨-, -, hr⟩ | ⟨n, c, -, -, hr⟩ | ⟨-, hr⟩
  · rw [hr] at h
    cases h
  · rw [hr] at h
    exact copyPayload_sized (hs.opened n) h
  · rw [hr] at h
    exact copyPayload_sized hs h

/-- Only a length varint that the event cuts breaks the loop off, and leaves the state as it is. -/
theorem round_brk {env : Env} (hd : env.Rfc9000) {sid : Nat} {s s' : State} {p : List UInt8} (hs : Sized s.app)
    (h : round env sid s p = .brk s') : s' = s ∧ s.app.frameSize = 0 ∧ Varint.decode p = none := by
  have hnext : ∀ s1 q, Sized s1.app → copyPayload env sid s1 q ≠ .brk s' := by
    intro s1 q h1 hc
    rcases copyPayload_cases env sid s1 q h1.received with ⟨-, hq⟩ | ⟨_, -, -, hq⟩ | ⟨_, _, _, -, -, -, -, hq⟩
    · rw [hq] at hc; cases hc
    · rw [hq] at hc; cases hc
    · rw [hq] at hc; cases hc
  rcases round_cases hd sid s p with ⟨h0, hdec, hr⟩ | ⟨n, c, -, -, hr⟩ | ⟨-, hr⟩
  · rw [hr] at h
    cases h
    exact ⟨rfl, h0, hdec⟩
  · exact absurd (hr ▸ h) (hnext _ _ (hs.opened n))
  · exact absurd (hr ▸ h) (hnext _ _ hs)

/-- How a round of the loop comes to its next head. -/
theorem whileBody_next {env : Env} {sid : Nat} {y z : State × List UInt8} (h : whileBody env sid y = .inr z) :
    ∃ b p, y.2 = b :: p ∧ round env sid y.1 y.2 = .next z.1 z.2 := by
  obtain ⟨s, _ | ⟨b, p⟩⟩ := y
  · cases h
  · cases hr : round env sid s (b :: p) with
    | brk s' => rw [whileBody_brk hr] at h; cases h
    | next s' p' =>
      rw [whileBody_go hr] at h
      cases h
      exact ⟨b, p, rfl, rfl⟩

/-- How it ends: the state is that of the last head. -/
theorem whileBody_exit {env : Env} (hd : env.Rfc9000) {sid : Nat} {y : State × List UInt8} {s' : State}
    (hs : Sized y.1.app) (h : whileBody env sid y = .inl s') : s' = y.1 := by
  obtain ⟨s, _ | ⟨b, p⟩⟩ := y
  · cases h
    rfl
  · cases hr : round env sid s (b :: p) with
    | brk s1 =>
      rw [whileBody_brk hr] at h
      cases h
      exact (round_brk hd hs hr).1
    | next s1 p1 => rw [whileBody_go hr] at h; cases h

theorem heads_sized {env : Env} (hd : env.Rfc9000) {sid : Nat} {s : State} {p : List UInt8} {y : State × List UInt8}
    (hs : Sized s.app) (h : Heads (whileBody env sid) (s, p) y) : Sized y.1.app := by
  refine heads_inv (I := fun y => Sized y.1.app) (fun y z hy hz => ?_) hs h
  obtain ⟨_, _, -, hr⟩ := whileBody_next hz
  exact round_sized hd hy hr

/-! ## Events -/

/-- A data event leaves the state of its last loop head. -/
theorem streamData_head {env : Env} (hd : env.Rfc9000) {sid : Nat} {bytes : List UInt8} {s s' : State}
    (hs : Sized s.app) (h : clientCb env s (.streamData sid bytes) = some s') :
    ∃ rest, Heads (whileBody env sid) (s, bytes) (s', rest) := by
  obtain ⟨y, hy, hend⟩ := loop_exit bytes.length s bytes s' h
  have := whileBody_exit hd (heads_sized hd hs hy) hend
  subst this
  exact ⟨y.2, hy⟩

theorem clientCb_sized {env : Env} (hd : env.Rfc9000) {s s' : State} {e : Event} (hs : Sized s.app)
    (h : clientCb env s e = some s') : Sized s'.app := by
  have hclosed : Sized { s.app with frameBuffer := none } :=
    ⟨hs.received, hs.unfinished, fun _ h => (Option.some_ne_none _ h.symm).elim,
      fun _ h => (Option.some_ne_none _ h.symm).elim⟩
  cases e with
  | streamData sid bytes =>
    obtain ⟨rest, hh⟩ := streamData_head hd hs h
    exact heads_sized hd hs hh
  | streamFin sid bytes => cases h; exact hs
  | close => cases h; exact hclosed
  | applicationClose => cases h; exact hclosed
  | other => cases h; exact hs

/-- The states `client_cb` can be called in. -/
def Reached (env : Env) (maxFrames : Int) (outDir : String) (s : State) : Prop :=
  Lts.Reachable (clientCb env) (State.init maxFrames outDir) s

theorem reached_sized {env : Env} (hd : env.Rfc9000) {maxFrames : Int} {outDir : String} {s : State}
    (h : Reached env maxFrames outDir s) : Sized s.app :=
  h.inv (I := fun s => Sized s.app) (Sized.init maxFrames outDir) fun _ _ _ hs hstep => clientCb_sized hd hs hstep

end Mquic.ClientMain
