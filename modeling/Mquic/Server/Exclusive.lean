/-
How many threads are inside their loops at once. Stopping only lowers `is_sending`, which the threads read between
sleeps and sends; a CONNECT that raises it again before they read it keeps them and adds new ones.
-/
import Mquic.Server.Lifecycle

namespace Mquic.Server.Lifecycle

/-! ## What is claimed of a state -/

def ThreadPc.isInside : ThreadPc → Bool
  | .inside => true
  | _ => false

/-- Not out of its loop: inside, or still to enter it. -/
def ThreadPc.isLive : ThreadPc → Bool
  | .left => false
  | _ => true

/-- At most one camera thread and at most one network thread are inside their loops. -/
def State.Exclusive (s : State) : Prop :=
  s.cameras.countP ThreadPc.isInside ≤ 1 ∧ s.networks.countP ThreadPc.isInside ≤ 1

instance (s : State) : Decidable s.Exclusive := inferInstanceAs (Decidable (_ ∧ _))

/-- A connect that creates threads, being answered with `is_sending` down, finds the earlier ones of the kind out
of their loops. -/
def FindsAllLeft (s : State) : Step → Prop
  | .event _ (.connect r) => r.sent200 = true → s.isSending = false → r.cameraCreated = true →
      (∀ pc ∈ s.cameras, pc = .left) ∧ (r.networkCreated = true → ∀ pc ∈ s.networks, pc = .left)
  | _ => True

instance (s : State) : ∀ e, Decidable (FindsAllLeft s e)
  | .event _ (.connect _) => inferInstanceAs (Decidable (_ → _ → _ → _ ∧ (_ → _)))
  | .event _ .close | .event _ .applicationClose | .event _ .statelessReset | .event _ .stopSending
  | .event _ .streamReset | .cameraCheck _ | .networkStart _ | .networkOpen _ _ _ | .networkCheck _
  | .networkDisconnecting _ | .networkLengthRefused _ | .networkPayloadRefused _ | .networkRound _ _ =>
    isTrue trivial

/-! ## Counting threads -/

theorem countP_allLeft {l : List ThreadPc} (h : ∀ pc ∈ l, pc = .left) : l.countP ThreadPc.isLive = 0 := by
  rw [List.countP_eq_zero]
  rintro pc hpc
  rw [h pc hpc]
  decide

/-- A thread that goes on, or leaves, adds none. -/
theorem countP_set_live {l : List ThreadPc} {k : Nat} {old : ThreadPc} (hk : l[k]? = some old)
    (hl : old ≠ .left) (pc : ThreadPc) : (l.set k pc).countP ThreadPc.isLive ≤ l.countP ThreadPc.isLive := by
  obtain ⟨hlt, hget⟩ := List.getElem?_eq_some_iff.1 hk
  have hlive : old.isLive = true := by
    cases old with
    | left => exact absurd rfl hl
    | created | ready | inside => rfl
  have hpos : 0 < l.countP ThreadPc.isLive := List.countP_pos_iff.2 ⟨old, List.mem_of_getElem? hk, hlive⟩
  rw [List.countP_set hlt, hget, if_pos hlive]
  split
  · omega
  · omega

theorem countP_inside_le (l : List ThreadPc) : l.countP ThreadPc.isInside ≤ l.countP ThreadPc.isLive := by
  apply List.countP_mono_left
  rintro pc -
  cases pc with
  | inside => exact id
  | created | ready | left => nofun

/-! ## The invariant -/

/-- At most one camera thread and at most one network thread have not left their loops. -/
structure OneEach (s : State) : Prop where
  cameras : s.cameras.countP ThreadPc.isLive ≤ 1
  networks : s.networks.countP ThreadPc.isLive ≤ 1

theorem OneEach.exclusive {s : State} (h : OneEach s) : s.Exclusive :=
  ⟨(countP_inside_le _).trans h.cameras, (countP_inside_le _).trans h.networks⟩

section Steps

variable {s s' : State}

theorem OneEach.setCamera (h : OneEach s) {k : Nat} {old : ThreadPc} (hk : s.cameras[k]? = some old)
    (hl : old ≠ .left) (pc : ThreadPc) : OneEach (s.setCamera k pc) :=
  ⟨(countP_set_live hk hl pc).trans h.cameras, h.networks⟩

theorem OneEach.setNetwork (h : OneEach s) {k : Nat} {old : ThreadPc} (hk : s.networks[k]? = some old)
    (hl : old ≠ .left) (pc : ThreadPc) : OneEach (s.setNetwork k pc) :=
  ⟨h.cameras, (countP_set_live hk hl pc).trans h.networks⟩

/-- A new thread is alone when the earlier ones have left. -/
theorem countP_created {l : List ThreadPc} (h : ∀ pc ∈ l, pc = .left) :
    (l ++ [ThreadPc.created]).countP ThreadPc.isLive ≤ 1 := by
  rw [List.countP_append, countP_allLeft h]
  decide

theorem OneEach.connect (h : OneEach s) {c : Cnx} {r : Connect} (hall : FindsAllLeft s (.event c (.connect r))) :
    OneEach (cameraPathCallback s c r).1 := by
  unfold cameraPathCallback startThreads
  cases hr : r.sent200 with
  | false => exact ⟨h.cameras, h.networks⟩
  | true =>
    cases hs : s.isSending with
    | true => exact ⟨h.cameras, h.networks⟩
    | false =>
      cases hcam : r.cameraCreated with
      | false => exact ⟨h.cameras, h.networks⟩
      | true =>
        obtain ⟨hc, hn⟩ := hall hr hs hcam
        cases hnet : r.networkCreated with
        | false => exact ⟨countP_created hc, h.networks⟩
        | true => exact ⟨countP_created hc, countP_created (hn hnet)⟩

theorem OneEach.step (h : OneEach s) {e : Step} (hc : FindsAllLeft s e) (he : step s e = some s') : OneEach s' := by
  cases step_moved he with
  | event hd =>
    rcases deliver_cases hd with ⟨r, rfl, -, rfl⟩ | ⟨-, -, rfl⟩ | ⟨-, -, rfl⟩ | ⟨-, -, rfl⟩
    · exact h.connect hc
    · exact ⟨h.cameras, h.networks⟩
    · exact ⟨h.cameras, h.networks⟩
    · exact h
  | cameraCheck hk hl => exact h.setCamera hk hl _
  | networkStart hk =>
    unfold State.start
    split
    · exact h.setNetwork hk nofun .left
    · have hset := h.setNetwork hk nofun .ready
      exact ⟨hset.cameras, hset.networks⟩
  | networkOpen =>
    unfold State.openBinding
    split
    · exact ⟨h.cameras, h.networks⟩
    · exact h
  | networkCheck hk hl => exact h.setNetwork hk hl _
  | networkDisconnecting hk => exact h.setNetwork hk nofun .left
  | networkLengthRefused hk =>
    have hset := h.setNetwork hk nofun .left
    exact ⟨hset.cameras, hset.networks⟩
  | networkPayloadRefused => exact ⟨h.cameras, h.networks⟩
  | @networkRound k sent hk =>
    have hset := h.setNetwork hk nofun (if s.maxFrames ≤ s.counted sent then .left else .inside)
    exact ⟨hset.cameras, hset.networks⟩

end Steps

/-- In every run in which each connect that creates threads finds the earlier ones out of their loops, at most one
camera thread and one network thread are inside their loops in every state. -/
theorem threads_exclusive (maxFrames : Nat) {es : List Step} {s : State}
    (hc : Lts.Meets step FindsAllLeft (State.init maxFrames) es)
    (h : Lts.run step (State.init maxFrames) es = some s) : s.Exclusive := by
  have hone : OneEach s := by
    apply Lts.inv_run (fun _ _ _ hi hc h => OneEach.step hi hc h) es _ s _ hc h
    exact ⟨Nat.zero_le 1, Nat.zero_le 1⟩
  exact hone.exclusive

/-- A stream that is stopped and left by its threads before the next client connects. -/
def stopThenConnect : List Step :=
  [.event 1 (.connect ⟨0, true, true, true⟩), .networkStart 0, .networkCheck 0, .cameraCheck 0, .event 1 .streamReset,
    .networkCheck 0, .cameraCheck 0, .event 2 (.connect ⟨0, true, true, true⟩), .networkStart 1, .networkCheck 1,
    .cameraCheck 1]

theorem stopThenConnect_exclusive :
    (Lts.run step (State.init 10) stopThenConnect).map (fun s => (s.cameras, s.networks)) =
        some ([.left, .inside], [.left, .inside]) ∧
      ∀ s, Lts.run step (State.init 10) stopThenConnect = some s → s.Exclusive :=
  ⟨by decide, fun _ h => threads_exclusive 10 (by decide) h⟩

/-- The next client connects before the threads have read the flag. -/
def quickReconnect : List Step :=
  [.event 1 (.connect ⟨0, true, true, true⟩), .networkStart 0, .networkCheck 0, .cameraCheck 0, .event 1 .streamReset,
    .event 2 (.connect ⟨0, true, true, true⟩), .networkStart 1, .networkCheck 1, .cameraCheck 1, .networkCheck 0,
    .cameraCheck 0]

theorem quickReconnect_doubles :
    (Lts.run step (State.init 10) quickReconnect).map (fun s => (s.cameras, s.networks)) =
        some ([.inside, .inside], [.inside, .inside]) ∧
      ¬ ∀ maxFrames es s, Lts.run step (State.init maxFrames) es = some s → s.Exclusive := by
  have hrun : (Lts.run step (State.init 10) quickReconnect).map (fun s => (s.cameras, s.networks)) =
      some ([.inside, .inside], [.inside, .inside]) := by decide
  refine ⟨hrun, fun hall => ?_⟩
  obtain ⟨s, hs, he⟩ := Option.map_eq_some_iff.1 hrun
  have hcount := (hall 10 quickReconnect s hs).1
  rw [(Prod.mk.inj he).1] at hcount
  exact absurd hcount (by decide)

end Mquic.Server.Lifecycle
