/-
The frame limit of `client_cb`. The limit closes the connection and clears `g_running`, but the loop and the
events that are still delivered go on: at most `max_frames` frames are completed exactly when, from the last of
them on, no round has the end of another frame in its bytes.
-/
import Mquic.Client.Rounds
import Mquic.Client.Delivery

namespace Mquic.ClientMain

open Loop

/-- The round's bytes reach the end of a frame that has a buffer: of the frame in progress, or of a frame whose
length they begin with and for which there is a block or one can be had. -/
def Completes (env : Env) (y : State × List UInt8) : Prop :=
  if y.1.app.frameSize = 0 then
    ∃ n c, Varint.decode y.2 = some (n, c) ∧ 0 < n ∧ c + n ≤ y.2.length ∧
      if y.1.app.bufferSize < n then env.malloc y.1.mallocs = true else y.1.app.frameBuffer ≠ none
  else y.1.app.frameBuffer ≠ none ∧ y.1.app.frameSize ≤ y.1.app.receivedSize + y.2.length

/-- At most `M` frames are completed and stored. -/
def State.AtMost (M : Nat) (s : State) : Prop :=
  s.app.frameCount ≤ M ∧ s.frames.length ≤ M ∧ s.files.length ≤ M

/-- An event never leads beyond `M` frames, neither during its loop nor after it. -/
def Respects (env : Env) (M : Nat) (s : State) (e : Event) : Prop :=
  (∀ sid bytes y, e = .streamData sid bytes → Heads (whileBody env sid) (s, bytes) y → y.1.AtMost M) ∧
    ∀ s', clientCb env s e = some s' → s'.AtMost M

/-- From frame `M` on, no round of the event's loop completes a frame. -/
def StopsAt (env : Env) (M : Nat) (s : State) (e : Event) : Prop :=
  ∀ sid bytes y, e = .streamData sid bytes → Heads (whileBody env sid) (s, bytes) y → M ≤ y.1.app.frameCount →
    ¬ Completes env y

/-! ## Counting -/

/-- The frames are counted, and no more are stored than counted. -/
structure Counted (s : State) : Prop where
  sized : Sized s.app
  frames : s.frames.length = s.app.frameCount
  files : s.files.length ≤ s.app.frameCount

theorem Counted.init (maxFrames : Int) (outDir : String) : Counted (State.init maxFrames outDir) :=
  ⟨Sized.init maxFrames outDir, rfl, le_refl 0⟩

theorem Counted.atMost {s : State} {M : Nat} (hs : Counted s) : s.AtMost M ↔ s.app.frameCount ≤ M := by
  constructor
  · rintro ⟨h, -⟩
    exact h
  · intro h
    have hframes := hs.frames
    have hfiles := hs.files
    exact ⟨h, by omega, by omega⟩

/-- The three counts of a state, before and after a step that completes `k` frames. -/
structure Counts (k : Nat) (s s' : State) : Prop where
  count : s'.app.frameCount = s.app.frameCount + k
  frames : s'.frames.length = s.frames.length + k
  files : s'.files.length ≤ s.files.length + k

theorem Counts.refl (s : State) : Counts 0 s s := ⟨rfl, rfl, le_refl _⟩

theorem Counts.counted {k : Nat} {s s' : State} (h : Counts k s s') (hs : Counted s) (hsized : Sized s'.app) :
    Counted s' := by
  obtain ⟨hcount, hframes, hfiles⟩ := h
  have h1 := hs.frames
  have h2 := hs.files
  exact ⟨hsized, by omega, by omega⟩

section Rounds

variable {env : Env} {sid : Nat} {s s' : State} {p p' : List UInt8}

/-- The payload step completes a frame exactly when its bytes reach the frame's end and there is a block. -/
theorem copyPayload_counts (hs : Sized s.app) (h : copyPayload env sid s p = .next s' p') :
    ∃ k, Counts k s s' ∧ (k = 0 ∨ k = 1) ∧ (k = 1 ↔ 0 < s.app.frameSize ∧ s.app.frameBuffer ≠ none ∧
      s.app.frameSize ≤ s.app.receivedSize + p.length) := by
  rcases copyPayload_cases env sid s p hs.received with ⟨hidle, hc⟩ | ⟨fb, hfb, hlt, hc⟩ |
      ⟨fb, piece, rest, hfb, hpos, hp, hfull, hc⟩
  · rw [hc] at h
    cases h
    refine ⟨0, Counts.refl s, .inl rfl, fun h => absurd h Nat.zero_ne_one, ?_⟩
    rintro ⟨hpos, hsome, -⟩
    rcases hidle with hnone | h0
    · exact absurd hnone hsome
    · omega
  · rw [hc] at h
    cases h
    refine ⟨0, ⟨rfl, rfl, le_refl _⟩, .inl rfl, fun h => absurd h Nat.zero_ne_one, ?_⟩
    rintro ⟨-, -, hle⟩
    omega
  · rw [hc] at h
    cases h
    refine ⟨1, ⟨rfl, by simp [completeFrame, State.filled], ?_⟩, .inr rfl, fun _ => ⟨hpos, ?_, ?_⟩, fun _ => rfl⟩
    · show (if _ then s.files ++ [_] else s.files).length ≤ s.files.length + 1
      split
      · rw [List.length_append, List.length_singleton]
      · exact Nat.le_succ _
    · rw [hfb]
      exact Option.some_ne_none fb
    · rw [hp, List.length_append]
      omega

/-- What `Completes` asks of a new frame is what the payload step finds once the frame is opened. -/
theorem opened_completes {n c : Nat} (h0 : s.app.frameSize = 0) (hdec : Varint.decode p = some (n, c)) :
    Completes env (s, p) ↔ 0 < (s.opened env n).app.frameSize ∧ (s.opened env n).app.frameBuffer ≠ none ∧
      (s.opened env n).app.frameSize ≤ (s.opened env n).app.receivedSize + (p.drop c).length := by
  obtain ⟨-, hle⟩ := Varint.decode_bounds hdec
  have hiff : Completes env (s, p) ↔ 0 < n ∧ c + n ≤ p.length ∧
      if s.app.bufferSize < n then env.malloc s.mallocs = true else s.app.frameBuffer ≠ none := by
    unfold Completes
    rw [if_pos h0]
    constructor
    · rintro ⟨n', c', hdec', h⟩
      rw [hdec] at hdec'
      cases hdec'
      exact h
    · intro h
      exact ⟨n, c, hdec, h⟩
  rw [hiff, List.length_drop]
  -- a larger buffer that `malloc` gives, one that it refuses, and the buffer that is there
  rcases opened_cases env s n with ⟨hlt, hm, happ⟩ | ⟨hlt, hm, happ⟩ | ⟨hnot, happ⟩
  · rw [happ, if_pos hlt]
    simp only [hm]
    constructor
    · rintro ⟨hn, hlen, -⟩
      exact ⟨hn, Option.some_ne_none _, by omega⟩
    · rintro ⟨hn, -, hlen⟩
      exact ⟨hn, by omega, trivial⟩
  · rw [happ, if_pos hlt, hm]
    constructor
    · rintro ⟨-, -, hf⟩
      cases hf
    · rintro ⟨-, hno, -⟩
      exact absurd rfl hno
  · rw [happ, if_neg (Nat.not_lt.2 hnot)]
    simp only
    constructor
    · rintro ⟨hn, hlen, hb⟩
      exact ⟨hn, hb, by omega⟩
    · rintro ⟨hn, hb, hlen⟩
      exact ⟨hn, by omega, hb⟩

/-- A round counts one frame if its bytes complete one, and none otherwise. -/
theorem round_counts (hd : env.Rfc9000) (hs : Sized s.app) (h : round env sid s p = .next s' p') :
    ∃ k, Counts k s s' ∧ (k = 0 ∨ k = 1) ∧ (k = 1 ↔ Completes env (s, p)) := by
  rcases round_cases hd sid s p with ⟨-, -, hr⟩ | ⟨n, c, h0, hdec, hr⟩ | ⟨hpos, hr⟩
  · rw [hr] at h
    cases h
  · rw [hr] at h
    obtain ⟨k, hk, hk01, hiff⟩ := copyPayload_counts (hs.opened n) h
    obtain ⟨hframes, hfiles, -⟩ := opened_frames env s n
    have hcount : (s.opened env n).app.frameCount = s.app.frameCount := by
      rcases opened_cases env s n with ⟨-, -, happ⟩ | ⟨-, -, happ⟩ | ⟨-, happ⟩
      · rw [happ]
      · rw [happ]
      · rw [happ]
    refine ⟨k, ⟨by rw [hk.count, hcount], by rw [hk.frames, hframes], hfiles ▸ hk.files⟩, hk01, ?_⟩
    rw [hiff, opened_completes h0 hdec]
  · rw [hr] at h
    obtain ⟨k, hk, hk01, hiff⟩ := copyPayload_counts hs h
    refine ⟨k, hk, hk01, ?_⟩
    rw [hiff]
    unfold Completes
    rw [if_neg (Nat.pos_iff_ne_zero.1 hpos)]
    exact ⟨fun h => h.2, fun h => ⟨hpos, h⟩⟩

end Rounds

/-! ## Events and runs -/

section Runs

variable {env : Env} {M : Nat} {s s' : State} {e : Event}

theorem heads_counted (hd : env.Rfc9000) {sid : Nat} {p : List UInt8} {y : State × List UInt8} (hs : Counted s)
    (h : Heads (whileBody env sid) (s, p) y) : Counted y.1 := by
  refine heads_inv (I := fun y => Counted y.1) (fun y z hy hz => ?_) hs h
  obtain ⟨_, _, -, hr⟩ := whileBody_next hz
  obtain ⟨k, hk, -⟩ := round_counts hd hy.sized hr
  exact hk.counted hy (round_sized hd hy.sized hr)

theorem clientCb_counted (hd : env.Rfc9000) (hs : Counted s) (h : clientCb env s e = some s') : Counted s' := by
  have hsized := clientCb_sized hd hs.sized h
  cases e with
  | streamData sid bytes =>
    obtain ⟨rest, hh⟩ := streamData_head hd hs.sized h
    exact heads_counted hd hs hh
  | streamFin sid bytes => cases h; exact hs
  | close => cases h; exact ⟨hsized, hs.frames, hs.files⟩
  | applicationClose => cases h; exact ⟨hsized, hs.frames, hs.files⟩
  | other => cases h; exact hs

/-- A round whose bytes complete a frame goes on. -/
theorem completes_next (hd : env.Rfc9000) {sid : Nat} {y : State × List UInt8} (hs : Sized y.1.app)
    (h : Completes env y) : ∃ z, whileBody env sid y = .inr z ∧ z.1.app.frameCount = y.1.app.frameCount + 1 := by
  obtain ⟨s, p⟩ := y
  -- there is a byte for the frame to end with
  have hne : p ≠ [] := by
    rintro rfl
    unfold Completes at h
    split at h
    · obtain ⟨n, c, hdec, -⟩ := h
      cases hdec
    · rename_i h0
      have hun := hs.unfinished (Nat.pos_of_ne_zero h0)
      obtain ⟨-, hle⟩ := h
      simp only [List.length_nil] at hle hun
      omega
  obtain ⟨b, q, rfl⟩ := List.exists_cons_of_ne_nil hne
  cases hr : round env sid s (b :: q) with
  | brk s1 =>
    obtain ⟨-, h0, hdec⟩ := round_brk hd hs hr
    unfold Completes at h
    rw [if_pos h0] at h
    obtain ⟨n, c, hdec', -⟩ := h
    rw [hdec] at hdec'
    cases hdec'
  | next s1 q1 =>
    obtain ⟨k, hk, -, hiff⟩ := round_counts hd hs hr
    refine ⟨(s1, q1), whileBody_go hr, ?_⟩
    have hcount := hk.count
    rw [hiff.2 h] at hcount
    exact hcount

/-- Within a loop the limit is kept as long as no frame is completed at the limit, and no longer. -/
theorem heads_atMost_iff (hd : env.Rfc9000) {sid : Nat} {p : List UInt8} (hs : Counted s) (hM : s.AtMost M) :
    (∀ y, Heads (whileBody env sid) (s, p) y → y.1.AtMost M) ↔
      ∀ y, Heads (whileBody env sid) (s, p) y → M ≤ y.1.app.frameCount → ¬ Completes env y := by
  constructor
  · intro h y hy hge hcomp
    obtain ⟨z, hz, hcount⟩ := completes_next hd (heads_counted hd hs hy).sized hcomp
    have := (h z (hy.next hz)).1
    omega
  · intro h y hy
    induction hy with
    | refl => exact hM
    | @tail y z hy hz ih =>
      have hcounted := heads_counted hd hs hy
      obtain ⟨b, p1, -, hr⟩ := whileBody_next hz
      obtain ⟨k, hk, hk01, hiff⟩ := round_counts hd hcounted.sized hr
      rw [(hk.counted hcounted (round_sized hd hcounted.sized hr)).atMost, hk.count]
      have hle := ih.1
      rcases hk01 with rfl | rfl
      · exact hle
      · have hnot : ¬ M ≤ y.1.app.frameCount := fun hge => h y hy hge (hiff.1 rfl)
        omega

/-- An event keeps the limit exactly when its loop stops completing frames at the limit. -/
theorem respects_iff (hd : env.Rfc9000) (hs : Counted s) (hM : s.AtMost M) (e : Event) :
    Respects env M s e ↔ StopsAt env M s e := by
  constructor
  · rintro ⟨hheads, -⟩ sid bytes y rfl hy
    exact (heads_atMost_iff hd hs hM).1 (fun y hy => hheads sid bytes y rfl hy) y hy
  · intro hstops
    have hheads : ∀ sid bytes y, e = .streamData sid bytes → Heads (whileBody env sid) (s, bytes) y →
        y.1.AtMost M := by
      rintro sid bytes y rfl hy
      exact (heads_atMost_iff hd hs hM).2 (fun y hy => hstops sid bytes y rfl hy) y hy
    refine ⟨hheads, fun s' h => ?_⟩
    cases e with
    | streamData sid bytes =>
      obtain ⟨rest, hh⟩ := streamData_head hd hs.sized h
      exact hheads sid bytes _ rfl hh
    | streamFin sid bytes => cases h; exact hM
    | close => cases h; exact hM
    | applicationClose => cases h; exact hM
    | other => cases h; exact hM

end Runs

/-- A run of events, one event after the other and every state of every loop among them, completes and stores at
most `M` frames exactly when none of its rounds completes a frame once `M` are complete. -/
theorem frame_limit_iff {env : Env} (hd : env.Rfc9000) (M : Nat) (outDir : String) (es : List Event) :
    Lts.Meets (clientCb env) (Respects env M) (State.init M outDir) es ↔
      Lts.Meets (clientCb env) (StopsAt env M) (State.init M outDir) es := by
  refine Lts.meets_iff (I := fun s => Counted s ∧ s.AtMost M) ?_ ?_ es _ ⟨Counted.init M outDir, ?_⟩
  · rintro s e s' ⟨hs, hM⟩ hstops h
    exact ⟨clientCb_counted hd hs h, ((respects_iff hd hs hM e).2 hstops).2 s' h⟩
  · rintro s e ⟨hs, hM⟩
    exact respects_iff hd hs hM e
  · exact ⟨Nat.zero_le M, Nat.zero_le M, Nat.zero_le M⟩

/-- Limit 1, and a run with one frame. -/
theorem frame_limit_iff_single :
    Lts.Meets (clientCb Env.sound) (Respects Env.sound 1) (State.init 1 "") [.streamData 4 [0x01, 0xAA]] ↔
      Lts.Meets (clientCb Env.sound) (StopsAt Env.sound 1) (State.init 1 "") [.streamData 4 [0x01, 0xAA]] :=
  frame_limit_iff Env.sound_rfc9000 1 "" [.streamData 4 [0x01, 0xAA]]

/-- Limit 1, and two frames of one byte in one data event: both are completed and stored. -/
theorem frame_limit_passed :
    (events Env.sound (State.init 1 "out") [.streamData 4 [0x01, 0xAA, 0x01, 0xBB]]).map
      (fun s => (s.app.frameCount, s.frames, s.files)) =
      some (2, [(4, [0xAA]), (4, [0xBB])], [(1, [0xAA]), (2, [0xBB])]) := by
  decide

end Mquic.ClientMain
