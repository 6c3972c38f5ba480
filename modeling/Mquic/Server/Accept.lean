/-
Whom an accepted CONNECT is served by. A CONNECT accepted while `is_sending` is up starts no thread and relies on
one that is still running; the flag stays up behind a network thread that leaves its loop because the
connection is disconnecting or `max_frames` is reached.
-/
import Mquic.Server.Lifecycle

namespace Mquic.Server.Lifecycle

open Network (maxPaths)

/-! ## What is claimed of a connect -/

/-- Connection `c` is served: a network thread that has not left its loop runs for it, and that thread has made
no binding yet or its bindings are streams of `c`. -/
def State.Served (s : State) (c : Cnx) : Prop :=
  s.cnx = some c ∧ ∃ pc ∈ s.networks, pc ≠ .left ∧ (pc = .created ∨ ∀ i b, s.bind i = some b → b.cnx = c)

/-- A connect event for which the callback returns 0 leaves its connection served. -/
def AcceptsServed (s : State) : Step → Prop
  | .event c (.connect r) =>
    s.callback c = .h3 → (cameraPathCallback s c r).2 = 0 → (cameraPathCallback s c r).1.Served c
  | _ => True

/-! ## Conditions on a step -/

/-- A network thread other than the `k`-th has not left its loop. -/
def State.OtherNetwork (s : State) (k : Nat) : Prop :=
  ∃ j, j < s.networks.length ∧ j ≠ k ∧ s.networks[j]? ≠ some .left

instance (s : State) (k : Nat) : Decidable (s.OtherNetwork k) := inferInstanceAs (Decidable (∃ _, _ ∧ _))

/-- The last network thread does not leave its loop behind the flag. -/
def CleanExit (s : State) : Step → Prop
  | .networkDisconnecting k => s.isSending = true → s.OtherNetwork k
  | .networkRound k sent => s.isSending = true → s.maxFrames ≤ s.counted sent → s.OtherNetwork k
  | _ => True

instance (s : State) : ∀ e, Decidable (CleanExit s e)
  | .networkDisconnecting _ => inferInstanceAs (Decidable (_ → _))
  | .networkRound _ _ => inferInstanceAs (Decidable (_ → _ → _))
  | .event _ _ | .cameraCheck _ | .networkStart _ | .networkOpen _ _ _ | .networkCheck _ | .networkLengthRefused _
  | .networkPayloadRefused _ => isTrue trivial

/-- A network thread has yet to start, or no stream is bound. -/
def State.Unbound (s : State) : Prop := .created ∈ s.networks ∨ ∀ i, s.bind i = none

instance (s : State) : Decidable s.Unbound := inferInstanceAs (Decidable (_ ∨ _))

/-- A connect that is answered while a stream is running finds no stream bound for another connection. -/
def FindsUnbound (s : State) : Step → Prop
  | .event _ (.connect r) => r.sent200 = true → s.isSending = true → s.Unbound
  | _ => True

instance (s : State) : ∀ e, Decidable (FindsUnbound s e)
  | .event _ (.connect _) => inferInstanceAs (Decidable (_ → _ → _))
  | .event _ .close | .event _ .applicationClose | .event _ .statelessReset | .event _ .stopSending
  | .event _ .streamReset | .cameraCheck _ | .networkStart _ | .networkOpen _ _ _ | .networkCheck _
  | .networkDisconnecting _ | .networkLengthRefused _ | .networkPayloadRefused _ | .networkRound _ _ =>
    isTrue trivial

/-! ## Connections -/

/-- The connection of the context and those of the bindings had their CONNECT. -/
structure Owned (s : State) : Prop where
  cnx : ∀ c, s.cnx = some c → s.callback c = .wt
  bind : ∀ i b, s.bind i = some b → s.callback b.cnx = .wt

section Steps

variable {s s' : State}

theorem Owned.connect (h : Owned s) (c : Cnx) (r : Connect) : Owned (cameraPathCallback s c r).1 := by
  obtain ⟨hcnx, hcb, hbind⟩ := connect_adopts s c r
  constructor
  · rintro d hd
    obtain rfl : c = d := Option.some.inj (hcnx.symm.trans hd)
    rw [hcb, Function.update_self]
  · rintro i b hb
    rw [hbind] at hb
    rw [hcb]
    rcases eq_or_ne b.cnx c with he | hne
    · rw [he, Function.update_self]
    · rw [Function.update_of_ne hne]
      exact h.bind i b hb

theorem Owned.deliver (h : Owned s) {c : Cnx} {ev : Event} (hd : deliver s c ev = some s') : Owned s' := by
  rcases deliver_cases hd with ⟨r, -, -, rfl⟩ | ⟨-, -, rfl⟩ | ⟨hcb, -, rfl⟩ | ⟨-, -, rfl⟩
  · exact h.connect c r
  · exact ⟨h.cnx, h.bind⟩
  · -- a connection that never connected is not one of those
    have hkeep : ∀ d, s.callback d = .wt → Function.update s.callback c Callback.closed d = .wt := by
      rintro d hwt
      have hne : d ≠ c := by
        rintro rfl
        rw [hcb] at hwt
        cases hwt
      rw [Function.update_of_ne hne]
      exact hwt
    exact ⟨fun d hd => hkeep d (h.cnx d hd), fun i b hb => hkeep _ (h.bind i b hb)⟩
  · exact h

theorem Owned.openBinding (h : Owned s) (i : Fin maxPaths) (sid : Nat) : Owned (s.openBinding i sid) := by
  unfold State.openBinding
  split
  · rename_i c hcnx hbind
    refine ⟨h.cnx, fun j b hb => ?_⟩
    have hb' : Function.update s.bind i (some ⟨sid, c⟩) j = some b := hb
    rcases eq_or_ne j i with rfl | hne
    · rw [Function.update_self] at hb'
      cases hb'
      exact h.cnx c hcnx
    · rw [Function.update_of_ne hne] at hb'
      exact h.bind j b hb'
  · exact h

theorem Owned.start (h : Owned s) (k : Nat) : Owned (s.start k) := by
  unfold State.start
  split
  · exact ⟨h.cnx, h.bind⟩
  · exact ⟨h.cnx, nofun⟩

theorem Owned.step (h : Owned s) {e : Step} (he : step s e = some s') : Owned s' := by
  cases step_moved he with
  | event hd => exact h.deliver hd
  | networkStart hk => exact h.start _
  | networkOpen => exact h.openBinding _ _
  | cameraCheck | networkCheck | networkDisconnecting | networkLengthRefused | networkPayloadRefused
  | networkRound => exact ⟨h.cnx, h.bind⟩

/-! ## A running stream has a network thread -/

structure Running (s : State) : Prop where
  owned : Owned s
  adopted : s.isSending = true → s.cnx ≠ none
  live : s.isSending = true → ∃ pc ∈ s.networks, pc ≠ .left

theorem init_running (maxFrames : Nat) : Running (State.init maxFrames) :=
  ⟨⟨nofun, nofun⟩, nofun, nofun⟩

/-- With the flag down nothing is left to show but the connections. -/
theorem Owned.running_down (h : Owned s) (hs : s.isSending = false) : Running s :=
  ⟨h, fun ht => absurd ht (by simp [hs]), fun ht => absurd ht (by simp [hs])⟩

theorem Running.connect (h : Running s) (c : Cnx) (r : Connect) : Running (cameraPathCallback s c r).1 := by
  have howned := h.owned.connect c r
  have hcnx := (connect_adopts s c r).1
  rcases connect_cases s c r with ⟨hs, he⟩ | ⟨-, he⟩ | ⟨-, he | ⟨-, he | he⟩⟩
  · rw [he] at howned hcnx ⊢
    exact ⟨howned, fun _ => by rw [hcnx]; simp, fun _ => h.live hs⟩
  · rw [he] at howned hcnx ⊢
    refine ⟨howned, fun _ => by rw [hcnx]; simp, fun _ => ⟨.created, ?_, by decide⟩⟩
    exact List.mem_append_right _ (List.mem_singleton.2 rfl)
  · rw [he] at howned hcnx ⊢
    exact ⟨howned, fun _ => by rw [hcnx]; simp, h.live⟩
  · rw [he] at howned ⊢
    exact howned.running_down rfl
  · rw [he] at howned ⊢
    exact howned.running_down rfl

/-- The `k`-th network thread goes on to `pc`; if it leaves, the flag is down or another one is running. -/
theorem live_set {k : Nat} {old pc : ThreadPc} (hk : s.networks[k]? = some old)
    (hleft : pc = .left → s.isSending = true → s.OtherNetwork k) (hs : s.isSending = true) :
    ∃ p ∈ s.networks.set k pc, p ≠ .left := by
  obtain ⟨hlt, -⟩ := List.getElem?_eq_some_iff.1 hk
  by_cases hpc : pc = .left
  · obtain ⟨j, hj, hne, hp⟩ := hleft hpc hs
    refine ⟨s.networks[j], ?_, fun he => hp (by rw [List.getElem?_eq_getElem hj, he])⟩
    have hget : (s.networks.set k pc)[j]? = some s.networks[j] := by
      rw [List.getElem?_set_ne hne.symm, List.getElem?_eq_getElem hj]
    exact List.mem_of_getElem? hget
  · exact ⟨pc, List.mem_set hlt pc, hpc⟩

/-- The prologue leaves the thread running: it has a connection to serve. -/
theorem Running.start (h : Running s) {k : Nat} (hk : s.networks[k]? = some .created) : Running (s.start k) := by
  have howned := h.owned.start k
  unfold State.start at howned ⊢
  split
  · rename_i hnone
    exact ⟨⟨h.owned.cnx, h.owned.bind⟩, h.adopted, fun hs => absurd hnone (h.adopted hs)⟩
  · exact ⟨⟨h.owned.cnx, nofun⟩, h.adopted, fun hs => live_set hk nofun hs⟩

theorem Running.openBinding (h : Running s) (i : Fin maxPaths) (sid : Nat) : Running (s.openBinding i sid) := by
  have howned := h.owned.openBinding i sid
  unfold State.openBinding at howned ⊢
  split at howned
  · exact ⟨howned, h.adopted, h.live⟩
  · exact h

theorem Running.step (h : Running s) {e : Step} (hc : CleanExit s e) (he : step s e = some s') : Running s' := by
  have howned := h.owned.step he
  cases step_moved he with
  | event hd =>
    rcases deliver_cases hd with ⟨r, -, -, rfl⟩ | ⟨-, -, rfl⟩ | ⟨-, -, rfl⟩ | ⟨-, -, rfl⟩
    · exact h.connect _ r
    · exact howned.running_down rfl
    · exact ⟨howned, h.adopted, h.live⟩
    · exact h
  | cameraCheck => exact ⟨howned, h.adopted, h.live⟩
  | networkStart hk => exact h.start hk
  | networkOpen => exact h.openBinding _ _
  | networkCheck hk hl =>
    -- a thread that reads the flag up stays in its loop
    refine ⟨howned, h.adopted, fun hs => live_set hk (fun hleft hs' => ?_) hs⟩
    rw [State.atCheck, if_pos hs'] at hleft
    cases hleft
  | networkDisconnecting hk => exact ⟨howned, h.adopted, fun hs => live_set hk (fun _ => hc) hs⟩
  | networkLengthRefused hk => exact howned.running_down rfl
  | networkPayloadRefused => exact howned.running_down rfl
  | @networkRound k sent hk =>
    refine ⟨howned, h.adopted, fun hs => live_set hk (fun hleft hs' => ?_) hs⟩
    by_cases hmax : s.maxFrames ≤ s.counted sent
    · exact hc hs' hmax
    · rw [if_neg hmax] at hleft
      cases hleft

/-! ## Connects -/

/-- While a running stream has its thread, an accepted connect is served exactly if it starts threads or finds
nothing bound. -/
theorem Running.served_iff (h : Running s) {c : Cnx} {r : Connect} (hcb : s.callback c = .h3)
    (hret : (cameraPathCallback s c r).2 = 0) :
    (cameraPathCallback s c r).1.Served c ↔ s.isSending = false ∨ s.Unbound := by
  have hcnx := (connect_adopts s c r).1
  rcases connect_cases s c r with ⟨hs, he⟩ | ⟨hs, he⟩ | ⟨he, -⟩
  · rw [he] at hcnx ⊢
    constructor
    · rintro ⟨-, pc, hpc, -, rfl | hown⟩
      · exact .inr (.inl hpc)
      · -- a stream bound earlier is of another connection, which had its CONNECT before
        refine .inr (.inr fun i => ?_)
        cases hb : s.bind i with
        | none => rfl
        | some b =>
          have hbc : b.cnx = c := hown i b hb
          have := h.owned.bind i b hb
          rw [hbc, hcb] at this
          cases this
    · rintro (hf | hcr | hnone)
      · rw [hs] at hf
        cases hf
      · exact ⟨hcnx, .created, hcr, by decide, .inl rfl⟩
      · obtain ⟨pc, hpc, hl⟩ := h.live hs
        refine ⟨hcnx, pc, hpc, hl, .inr fun i b hb => ?_⟩
        have hb' : s.bind i = some b := hb
        rw [hnone i] at hb'
        cases hb'
  · rw [he] at hcnx ⊢
    refine ⟨fun _ => .inl hs, fun _ => ⟨hcnx, .created, ?_, by decide, .inl rfl⟩⟩
    exact List.mem_append_right _ (List.mem_singleton.2 rfl)
  · rw [he] at hret
    cases hret

theorem accepts_served (h : Running s) {e : Step} (hc : FindsUnbound s e) : AcceptsServed s e := by
  cases e with
  | event c ev =>
    cases ev with
    | connect r =>
      intro hcb hret
      apply (h.served_iff hcb hret).2
      cases hs : s.isSending with
      | false => exact .inl rfl
      | true =>
        have hsent : r.sent200 = true := by
          cases hr : r.sent200 with
          | true => rfl
          | false =>
            simp only [cameraPathCallback, hr, Bool.false_eq_true, if_false] at hret
            cases hret
        exact .inr (hc hsent hs)
    | close | applicationClose | statelessReset | stopSending | streamReset => trivial
  | cameraCheck _ | networkStart _ | networkOpen _ _ _ | networkCheck _ | networkDisconnecting _
  | networkLengthRefused _ | networkPayloadRefused _ | networkRound _ _ => trivial

end Steps

/-- A connect on stream 0 that goes through. -/
def accepted : Connect := ⟨0, true, true, true⟩

def firstPath : Fin maxPaths := ⟨0, by decide⟩

/-- A session that streams, is stopped by its client, and leaves; the next client connects. -/
def twoSessions : List Step :=
  [.event 1 (.connect accepted), .networkStart 0, .networkOpen 0 firstPath 3, .cameraCheck 0, .networkCheck 0,
    .networkRound 0 true, .event 1 .stopSending, .cameraCheck 0, .networkCheck 0, .event 2 (.connect accepted),
    .networkStart 1, .networkOpen 1 firstPath 3, .networkCheck 1]

/-- The client closes its session; its network thread leaves because the connection is disconnecting. -/
def closedSession : List Step :=
  [.event 1 (.connect accepted), .networkStart 0, .networkOpen 0 firstPath 3, .networkCheck 0,
    .event 1 .applicationClose, .networkDisconnecting 0]

end Mquic.Server.Lifecycle
