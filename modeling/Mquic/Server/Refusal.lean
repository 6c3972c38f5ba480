/-
A CONNECT that `camera_path_callback` refuses. The callback takes the context over before its first failure exit and
answers 200 before the others, and of all this undoes `is_sending` alone.
-/
import Mquic.Server.Lifecycle

namespace Mquic.Server.Lifecycle

/-- Nothing of a CONNECT on `c` is left: the context and the connection are as before, no 200 was written, and no
thread was started. -/
structure Untouched (s s' : State) (c : Cnx) : Prop where
  cnx : s'.cnx = s.cnx
  controlStreamId : s'.controlStreamId = s.controlStreamId
  isSending : s'.isSending = s.isSending
  callback : s'.callback c = .h3
  responses : s'.responses = s.responses
  cameras : s'.cameras = s.cameras
  networks : s'.networks = s.networks

/-- The CONNECT does not fail: its 200 is queued, and the stream runs already or both threads can be created. -/
def Succeeds (s : State) (r : Connect) : Prop :=
  r.sent200 = true ∧ (s.isSending = true ∨ (r.cameraCreated = true ∧ r.networkCreated = true))

instance (s : State) (r : Connect) : Decidable (Succeeds s r) := inferInstanceAs (Decidable (_ ∧ _))

/-- The callback returns 0 exactly on a CONNECT that does not fail. -/
theorem connect_returns (s : State) (c : Cnx) (r : Connect) : (cameraPathCallback s c r).2 = 0 ↔ Succeeds s r := by
  have hne : (-1 : Int) ≠ 0 := by decide
  unfold cameraPathCallback startThreads Succeeds
  cases r.sent200 with
  | false =>
    constructor
    · intro h
      exact absurd h hne
    · rintro ⟨h, -⟩
      cases h
  | true =>
    -- where a stream is under way nothing is created
    cases s.isSending with
    | true => exact ⟨fun _ => ⟨rfl, .inl rfl⟩, fun _ => rfl⟩
    | false =>
      cases r.cameraCreated with
      | false =>
        constructor
        · intro h
          exact absurd h hne
        · rintro ⟨-, h | ⟨h, -⟩⟩
          · cases h
          · cases h
      | true =>
        cases r.networkCreated with
        | false =>
          constructor
          · intro h
            exact absurd h hne
          · rintro ⟨-, h | ⟨-, h⟩⟩
            · cases h
            · cases h
        | true => exact ⟨fun _ => ⟨rfl, .inr ⟨rfl, rfl⟩⟩, fun _ => rfl⟩

/-- What a refused CONNECT leaves: the context is `c`'s, `c` has lost its H3 callback, the 200 is out if it could be
queued, and with it the camera thread if that could be created. -/
structure Leftover (s s' : State) (c : Cnx) (r : Connect) : Prop where
  cnx : s'.cnx = some c
  controlStreamId : s'.controlStreamId = r.streamId
  callback : s'.callback c = .wt
  isSending : s'.isSending = s.isSending
  responses : s'.responses = if r.sent200 then s.responses ++ [(c, r.streamId)] else s.responses
  cameras : s'.cameras = if r.sent200 && r.cameraCreated then s.cameras ++ [.created] else s.cameras
  networks : s'.networks = s.networks

theorem refused_leftover {s : State} {c : Cnx} {r : Connect} (h : ¬ Succeeds s r) :
    Leftover s (cameraPathCallback s c r).1 c r := by
  have hwt : Function.update s.callback c Callback.wt c = .wt := Function.update_self c Callback.wt s.callback
  unfold cameraPathCallback startThreads
  unfold Succeeds at h
  cases h200 : r.sent200 with
  | false => exact ⟨rfl, rfl, hwt, rfl, by rw [h200]; rfl, by rw [h200]; rfl, rfl⟩
  | true =>
    have hdown : s.isSending = false := Bool.eq_false_iff.2 fun hup => h ⟨h200, .inl hup⟩
    rw [hdown]
    cases hcam : r.cameraCreated with
    | false => exact ⟨rfl, rfl, hwt, hdown.symm, by rw [h200]; rfl, by rw [h200, hcam]; rfl, rfl⟩
    | true =>
      cases hnet : r.networkCreated with
      | false => exact ⟨rfl, rfl, hwt, hdown.symm, by rw [h200]; rfl, by rw [h200, hcam]; rfl, rfl⟩
      | true => exact absurd ⟨h200, .inr ⟨hcam, hnet⟩⟩ h

/-- A CONNECT leaves nothing behind when it is refused only if it is not refused: no refused one does. -/
theorem refused_untouched_iff (s : State) (c : Cnx) (r : Connect) :
    ((cameraPathCallback s c r).2 ≠ 0 → Untouched s (cameraPathCallback s c r).1 c) ↔ Succeeds s r := by
  rw [← connect_returns s c r]
  constructor
  · intro h
    by_contra hret
    have hleft := refused_leftover (c := c) fun hok => hret ((connect_returns s c r).2 hok)
    have hcb := (h hret).callback
    rw [hleft.callback] at hcb
    cases hcb
  · intro hret hne
    exact absurd hret hne

/-- The first CONNECT of a server whose network thread cannot be created: -1, and the context belongs to the
connection, whose callback is replaced, with a 200 written and a camera thread created. -/
theorem refused_leaves : (cameraPathCallback (State.init 1) 7 ⟨0, true, true, false⟩).2 = -1 ∧
    (cameraPathCallback (State.init 1) 7 ⟨0, true, true, false⟩).1.cnx = some 7 ∧
    (cameraPathCallback (State.init 1) 7 ⟨0, true, true, false⟩).1.callback 7 = .wt ∧
    (cameraPathCallback (State.init 1) 7 ⟨0, true, true, false⟩).1.responses = [(7, 0)] ∧
    (cameraPathCallback (State.init 1) 7 ⟨0, true, true, false⟩).1.cameras = [.created] ∧
    ¬ Untouched (State.init 1) (cameraPathCallback (State.init 1) 7 ⟨0, true, true, false⟩).1 7 := by
  refine ⟨rfl, rfl, rfl, rfl, rfl, fun h => ?_⟩
  cases h.cnx

end Mquic.Server.Lifecycle
