/-
When the parsing loop of `client_cb` ends: exactly when it never comes to a frame in progress that has no buffer
while the event has bytes left. Such a round consumes nothing, and so do all that follow.
-/
import Mquic.Client.Rounds
import Mquic.Client.Delivery

namespace Mquic.ClientMain

open Loop

/-- Bytes are left, a frame is in progress, and there is no buffer for it. -/
def Stalled (y : State × List UInt8) : Prop :=
  y.2 ≠ [] ∧ 0 < y.1.app.frameSize ∧ y.1.app.frameBuffer = none

/-- Every round of the loop from `x` consumes a byte of the event or leaves the loop. -/
def Advances (env : Env) (sid : Nat) (x : State × List UInt8) : Prop :=
  ∀ y z, Heads (whileBody env sid) x y → whileBody env sid y = .inr z → z.2.length < y.2.length

section Rounds

variable {env : Env} {sid : Nat} {y z : State × List UInt8}

/-- A stalled round changes nothing. -/
theorem stalled_round (h : Stalled y) : whileBody env sid y = .inr y := by
  obtain ⟨s, p⟩ := y
  obtain ⟨hp, hpos, hnone⟩ := h
  obtain ⟨b, q, rfl⟩ := List.exists_cons_of_ne_nil hp
  apply whileBody_go
  unfold round copyPayload
  rw [if_neg (Nat.pos_iff_ne_zero.1 hpos)]
  simp only at hnone
  rw [hnone]

theorem stalled_not_ends (h : Stalled y) : ¬ Ends (whileBody env sid) y :=
  not_ends_of_trap (T := Stalled) (fun y hy => ⟨y, stalled_round hy, hy⟩) h

/-- The payload step consumes a byte, unless it has none, no frame or no buffer. -/
theorem copyPayload_length {s s' : State} {p p' : List UInt8} (hs : Sized s.app)
    (h : copyPayload env sid s p = .next s' p') :
    p'.length ≤ p.length ∧ (p ≠ [] → 0 < s.app.frameSize → s.app.frameBuffer ≠ none → p'.length < p.length) := by
  rcases copyPayload_cases env sid s p hs.received with ⟨hidle, hc⟩ | ⟨fb, -, -, hc⟩ |
      ⟨fb, piece, rest, -, hpos, hp, hfull, hc⟩
  · rw [hc] at h
    cases h
    refine ⟨le_refl _, fun _ hpos hsome => ?_⟩
    rcases hidle with hnone | h0
    · exact absurd hnone hsome
    · omega
  · rw [hc] at h
    cases h
    refine ⟨Nat.zero_le _, fun hp _ _ => ?_⟩
    have : 0 < p.length := List.length_pos_of_ne_nil hp
    simpa using this
  · rw [hc] at h
    cases h
    have hun := hs.unfinished hpos
    rw [hp, List.length_append]
    exact ⟨by omega, fun _ _ _ => by omega⟩

/-- A round that is not stalled consumes a byte or leaves the loop. -/
theorem fed_round (hd : env.Rfc9000) (hs : Sized y.1.app) (hy : ¬ Stalled y) (h : whileBody env sid y = .inr z) :
    z.2.length < y.2.length := by
  obtain ⟨b, p, hp, hr⟩ := whileBody_next h
  have hne : y.2 ≠ [] := by rw [hp]; exact List.cons_ne_nil b p
  rcases round_cases hd sid y.1 y.2 with ⟨-, -, hcut⟩ | ⟨n, c, -, hdec, hopen⟩ | ⟨hpos, hcopy⟩
  · rw [hcut] at hr
    cases hr
  · -- the length varint at least
    obtain ⟨hc, hle⟩ := Varint.decode_bounds hdec
    rw [hopen] at hr
    have := (copyPayload_length (hs.opened n) hr).1
    rw [List.length_drop] at this
    omega
  · rw [hcopy] at hr
    exact (copyPayload_length hs hr).2 hne hpos fun hnone => hy ⟨hne, hpos, hnone⟩

end Rounds

/-! ## The loop of one event -/

section Loop

variable {env : Env} {sid : Nat} {s : State} {p : List UInt8}

theorem ends_iff_fed (hd : env.Rfc9000) (hs : Sized s.app) :
    Ends (whileBody env sid) (s, p) ↔ ∀ y, Heads (whileBody env sid) (s, p) y → ¬ Stalled y := by
  constructor
  · intro he y hy hstalled
    exact stalled_not_ends hstalled (he.heads hy)
  · intro hfed
    refine ends_of_progress (fun y => y.2.length) fun y hy => ?_
    cases hb : whileBody env sid y with
    | inl s' => exact .inl (ends_exit hb)
    | inr z => exact .inr ⟨z, (Heads.refl y).next hb, fed_round hd (heads_sized hd hs hy) (hfed y hy) hb⟩

theorem advances_iff_fed (hd : env.Rfc9000) (hs : Sized s.app) :
    Advances env sid (s, p) ↔ ∀ y, Heads (whileBody env sid) (s, p) y → ¬ Stalled y := by
  constructor
  · intro ha y hy hstalled
    exact lt_irrefl _ (ha y y hy (stalled_round hstalled))
  · intro hfed y z hy hz
    exact fed_round hd (heads_sized hd hs hy) (hfed y hy) hz

/-- The fuel of `client_cb`'s loop is enough for a loop that ends. -/
theorem loop_isSome_iff (hd : env.Rfc9000) : ∀ (fuel : Nat) (s : State) (p : List UInt8), Sized s.app →
    p.length ≤ fuel → ((loop env sid fuel s p).isSome ↔ Ends (whileBody env sid) (s, p))
  | fuel, s, [], _, _ => by
    unfold loop
    exact ⟨fun _ => ends_exit (r := s) rfl, fun _ => rfl⟩
  | 0, s, b :: p, _, hf => by simp at hf
  | fuel + 1, s, b :: p, hs, hf => by
    unfold loop
    cases hr : round env sid s (b :: p) with
    | brk s' => exact ⟨fun _ => ends_exit (whileBody_brk hr), fun _ => rfl⟩
    | next s' p' =>
      have hgo := whileBody_go hr
      by_cases hstalled : Stalled (s, b :: p)
      · -- the same state over and over, whatever the fuel
        rw [stalled_round hstalled] at hgo
        cases hgo
        refine ⟨fun h => ?_, fun he => absurd he (stalled_not_ends hstalled)⟩
        obtain ⟨s1, h1⟩ := Option.isSome_iff_exists.1 h
        obtain ⟨y, hy, hend⟩ := loop_exit fuel s (b :: p) s1 h1
        exact ends_of_heads hy (ends_exit hend)
      · have hlt : p'.length < (b :: p).length := fed_round hd hs hstalled hgo
        rw [ends_next hgo]
        refine loop_isSome_iff hd fuel s' p' (round_sized hd hs hr) ?_
        simp only [List.length_cons] at hf hlt
        omega

theorem clientCb_isSome_iff (hd : env.Rfc9000) (hs : Sized s.app) (bytes : List UInt8) :
    (clientCb env s (.streamData sid bytes)).isSome ↔ Ends (whileBody env sid) (s, bytes) :=
  loop_isSome_iff hd bytes.length s bytes hs (le_refl _)

end Loop

/-- In every state `client_cb` can be called in, its loop ends, and each of its rounds consumes a byte or leaves it,
exactly when no round finds a frame in progress without a buffer; and the call returns exactly when its loop ends. -/
theorem parse_ends_iff {env : Env} (hd : env.Rfc9000) {maxFrames : Int} {outDir : String} {s : State}
    (hs : Reached env maxFrames outDir s) (sid : Nat) (bytes : List UInt8) :
    ((Ends (whileBody env sid) (s, bytes) ∧ Advances env sid (s, bytes)) ↔
      ∀ y, Heads (whileBody env sid) (s, bytes) y → ¬ Stalled y) ∧
    ((clientCb env s (.streamData sid bytes)).isSome ↔ Ends (whileBody env sid) (s, bytes)) := by
  have hsized := reached_sized hd hs
  refine ⟨?_, clientCb_isSome_iff hd hsized bytes⟩
  rw [ends_iff_fed hd hsized, advances_iff_fed hd hsized, and_self]

/-- The first data event of a run. -/
theorem parse_ends_iff_first : ((Ends (whileBody Env.sound 4) (State.init 0 "", [0x01, 0xAA]) ∧
      Advances Env.sound 4 (State.init 0 "", [0x01, 0xAA])) ↔
      ∀ y, Heads (whileBody Env.sound 4) (State.init 0 "", [0x01, 0xAA]) y → ¬ Stalled y) ∧
    ((clientCb Env.sound (State.init 0 "") (.streamData 4 [0x01, 0xAA])).isSome ↔
      Ends (whileBody Env.sound 4) (State.init 0 "", [0x01, 0xAA])) :=
  parse_ends_iff Env.sound_rfc9000 ⟨[], rfl⟩ 4 [0x01, 0xAA]

/-- No memory for a frame of two bytes whose first byte is there; and a frame in progress when the connection
closes, with one more byte after that: neither loop ends. -/
theorem parse_spins :
    ¬ Ends (whileBody { Env.sound with malloc := fun _ => false } 4) (State.init 0 "", [0x02, 0xAA]) ∧
      ∃ s, Reached Env.sound 0 "" s ∧ ¬ Ends (whileBody Env.sound 4) (s, [0xBB]) := by
  constructor
  · have hfirst : whileBody { Env.sound with malloc := fun _ => false } 4 (State.init 0 "", [0x02, 0xAA]) =
        .inr ({ State.init 0 "" with app := { AppCtx.init 0 "" with frameSize := 2 }, mallocs := 1 }, [0xAA]) := rfl
    rw [ends_next hfirst]
    exact stalled_not_ends ⟨List.cons_ne_nil _ _, Nat.two_pos, rfl⟩
  · have hrun : events Env.sound (State.init 0 "") [.streamData 4 [0x02, 0xAA], .close] = some
        { State.init 0 "" with
          app := { AppCtx.init 0 "" with bufferSize := 2, frameSize := 2, receivedSize := 1 }
          gRunning := false
          mallocs := 1 } := rfl
    exact ⟨_, ⟨_, hrun⟩, stalled_not_ends ⟨List.cons_ne_nil _ _, Nat.two_pos, rfl⟩⟩

end Mquic.ClientMain
