/-
The streamer context that all connections of the server share (quic_server.c): a CONNECT adopts it and starts
the threads (camera_path_callback), events on a connection may stop them (camera_wt_callback), and the threads
enter and leave their loops by polling `is_sending`. What the threads do inside their loops is kept to what the
others can see of it.
-/
import Mquic.Server.Network
import Mquic.Lib.Lts

namespace Mquic.Server.Lifecycle

open Network (maxPaths)

/-! ## State -/

/-- A connection of the QUIC context. -/
abbrev Cnx := Nat

/-- The callback a connection has: `h3zero_callback` at first, `camera_wt_callback` from its CONNECT on, none
after `h3zero_callback` saw it close. -/
inductive Callback where
  | h3
  | wt
  | closed
deriving DecidableEq

/-- Where a thread is: created, past the prologue of `network_thread_func`, inside its loop, or out of it. -/
inductive ThreadPc where
  | created
  | ready
  | inside
  | left
deriving DecidableEq

/-- A binding that is ready: its stream, and as history the connection the stream was opened on. -/
structure Binding where
  sid : Nat
  cnx : Cnx
deriving DecidableEq

/-- The shared fields of `streamer_context_t`, the threads in the order of their creation, the callbacks of the
connections, and as history the 200 responses and the connection whose CONNECT last started threads. -/
structure State where
  cnx : Option Cnx
  controlStreamId : Nat
  isSending : Bool
  frameCount : Nat
  maxFrames : Nat
  bind : Fin maxPaths → Option Binding
  cameras : List ThreadPc
  networks : List ThreadPc
  callback : Cnx → Callback
  responses : List (Cnx × Nat)
  session : Option Cnx

/-- The context `run_server` sets up. -/
def State.init (maxFrames : Nat) : State where
  cnx := none
  controlStreamId := 0
  isSending := false
  frameCount := 0
  maxFrames := maxFrames
  bind _ := none
  cameras := []
  networks := []
  callback _ := .h3
  responses := []
  session := none

/-! ## Callbacks -/

/-- A connect event: its stream, whether the 200 response could be queued, and whether the two
`pthread_create` succeed. -/
structure Connect where
  streamId : Nat
  sent200 : Bool
  cameraCreated : Bool
  networkCreated : Bool
deriving DecidableEq

/-- What picoquic reports on a connection. -/
inductive Event where
  | connect (r : Connect)
  | close
  | applicationClose
  | statelessReset
  | stopSending
  | streamReset
deriving DecidableEq

/-- The context now belongs to connection `c`, whose callback is `camera_wt_callback`. -/
def State.adopt (s : State) (c : Cnx) (streamId : Nat) : State :=
  { s with cnx := some c, controlStreamId := streamId, callback := Function.update s.callback c .wt }

/-- `h3_send_status_200_headers` succeeded. -/
def State.respond (s : State) (c : Cnx) (streamId : Nat) : State :=
  { s with responses := s.responses ++ [(c, streamId)] }

def State.raise (s : State) : State := { s with frameCount := 0, isSending := true }

def State.lower (s : State) : State := { s with isSending := false }

def State.addCamera (s : State) : State := { s with cameras := s.cameras ++ [.created] }

def State.addNetwork (s : State) (c : Cnx) : State := { s with networks := s.networks ++ [.created], session := some c }

/-- The two `pthread_create`, and the callback's return value. -/
def startThreads (s : State) (c : Cnx) (r : Connect) : State × Int :=
  if r.cameraCreated then
    -- the camera thread that was created is left to find the flag down
    if r.networkCreated then ((s.raise.addCamera.addNetwork c), 0) else (s.raise.addCamera.lower, -1)
  else (s.raise.lower, -1)

/-- `camera_path_callback` on a connect event, and its return value. -/
def cameraPathCallback (s : State) (c : Cnx) (r : Connect) : State × Int :=
  if r.sent200 then
    let s' := (s.adopt c r.streamId).respond c r.streamId
    -- a running stream keeps its threads, but the context is `c`'s already
    if s.isSending then (s', 0) else startThreads s' c r
  else (s.adopt c r.streamId, -1)

/-- The events on which `camera_wt_callback` stops the stream. -/
def Event.stops : Event → Bool
  | .close | .stopSending | .streamReset => true
  | _ => false

/-- `camera_wt_callback`. -/
def cameraWtCallback (s : State) (ev : Event) : State := if ev.stops then s.lower else s

/-- The events on which `h3zero_callback` gives a connection up. -/
def Event.closes : Event → Bool
  | .close | .applicationClose | .statelessReset => true
  | _ => false

/-- `h3zero_callback` on an event other than a connect, as far as the streamer context goes. -/
def h3zeroCallback (s : State) (c : Cnx) (ev : Event) : State :=
  if ev.closes then { s with callback := Function.update s.callback c .closed } else s

/-- An event reaches the callback its connection has; a connect is seen by `h3zero_callback` only. -/
def deliver (s : State) (c : Cnx) : Event → Option State
  | .connect r => match s.callback c with
    | .h3 => some (cameraPathCallback s c r).1
    | _ => none
  | ev => match s.callback c with
    | .h3 => some (h3zeroCallback s c ev)
    | .wt => some (cameraWtCallback s ev)
    | .closed => some s

/-! ## Threads -/

/-- The labels: an event on a connection, and the steps of the `k`-th camera and network thread. -/
inductive Step where
  | event (c : Cnx) (ev : Event)
  | cameraCheck (k : Nat)
  | networkStart (k : Nat)
  | networkOpen (k : Nat) (i : Fin maxPaths) (sid : Nat)
  | networkCheck (k : Nat)
  | networkDisconnecting (k : Nat)
  | networkLengthRefused (k : Nat)
  | networkPayloadRefused (k : Nat)
  | networkRound (k : Nat) (sent : Bool)
deriving DecidableEq

def State.setCamera (s : State) (k : Nat) (pc : ThreadPc) : State := { s with cameras := s.cameras.set k pc }

def State.setNetwork (s : State) (k : Nat) (pc : ThreadPc) : State := { s with networks := s.networks.set k pc }

/-- The loop condition `ctx->is_sending`. -/
def State.atCheck (s : State) : ThreadPc := if s.isSending then .inside else .left

/-- The prologue of `network_thread_func`: nothing without a connection, else the bindings are cleared. -/
def State.start (s : State) (k : Nat) : State :=
  match s.cnx with
  | none => s.setNetwork k .left
  | some _ => { s.setNetwork k .ready with bind := fun _ => none }

/-- `ensure_stream_for_path` opened stream `sid` for index `i`; a binding that is ready is kept. -/
def State.openBinding (s : State) (i : Fin maxPaths) (sid : Nat) : State :=
  match s.cnx, s.bind i with
  | some c, none => { s with bind := Function.update s.bind i (some ⟨sid, c⟩) }
  | _, _ => s

/-- `frame_count` after a round of the network loop. -/
def State.counted (s : State) (sent : Bool) : Nat := if sent then s.frameCount + 1 else s.frameCount

/-- The end of a round: the loop is left when `max_frames` is reached. -/
def State.round (s : State) (k : Nat) (sent : Bool) : State :=
  { s.setNetwork k (if s.maxFrames ≤ s.counted sent then .left else .inside) with frameCount := s.counted sent }

/-- The steps, each enabled where its thread stands before it. -/
def step (s : State) : Step → Option State
  | .event c ev => deliver s c ev
  | .cameraCheck k => match s.cameras[k]? with
    | some .created => some (s.setCamera k s.atCheck)
    | some .inside => some (s.setCamera k s.atCheck)
    | _ => none
  | .networkStart k => match s.networks[k]? with
    | some .created => some (s.start k)
    | _ => none
  | .networkOpen k i sid => match s.networks[k]? with
    | some .ready => some (s.openBinding i sid)
    | some .inside => some (s.openBinding i sid)
    | _ => none
  | .networkCheck k => match s.networks[k]? with
    | some .ready => some (s.setNetwork k s.atCheck)
    | some .inside => some (s.setNetwork k s.atCheck)
    | _ => none
  | .networkDisconnecting k => match s.networks[k]? with
    | some .inside => some (s.setNetwork k .left)
    | _ => none
  | .networkLengthRefused k => match s.networks[k]? with
    | some .inside => some (s.setNetwork k .left).lower
    | _ => none
  | .networkPayloadRefused k => match s.networks[k]? with
    | some .inside => some s.lower
    | _ => none
  | .networkRound k sent => match s.networks[k]? with
    | some .inside => some (s.round k sent)
    | _ => none

/-! ## What a step can do -/

/-- The steps with what they need of the state before and what they make of it. -/
inductive Moved (s : State) : Step → State → Prop where
  | event {c : Cnx} {ev : Event} {s' : State} (hd : deliver s c ev = some s') : Moved s (.event c ev) s'
  | cameraCheck {k : Nat} {old : ThreadPc} (hk : s.cameras[k]? = some old) (hl : old ≠ .left) :
    Moved s (.cameraCheck k) (s.setCamera k s.atCheck)
  | networkStart {k : Nat} (hk : s.networks[k]? = some .created) : Moved s (.networkStart k) (s.start k)
  | networkOpen {k : Nat} {i : Fin maxPaths} {sid : Nat} : Moved s (.networkOpen k i sid) (s.openBinding i sid)
  | networkCheck {k : Nat} {old : ThreadPc} (hk : s.networks[k]? = some old) (hl : old ≠ .left) :
    Moved s (.networkCheck k) (s.setNetwork k s.atCheck)
  | networkDisconnecting {k : Nat} (hk : s.networks[k]? = some .inside) :
    Moved s (.networkDisconnecting k) (s.setNetwork k .left)
  | networkLengthRefused {k : Nat} (hk : s.networks[k]? = some .inside) :
    Moved s (.networkLengthRefused k) (s.setNetwork k .left).lower
  | networkPayloadRefused {k : Nat} : Moved s (.networkPayloadRefused k) s.lower
  | networkRound {k : Nat} {sent : Bool} (hk : s.networks[k]? = some .inside) :
    Moved s (.networkRound k sent) (s.round k sent)

theorem step_moved {s s' : State} {e : Step} (h : step s e = some s') : Moved s e s' := by
  cases e with
  | event c ev => exact .event h
  | cameraCheck k =>
    simp only [step] at h
    split at h <;> cases h
    · rename_i hk
      exact .cameraCheck hk nofun
    · rename_i hk
      exact .cameraCheck hk nofun
  | networkStart k =>
    simp only [step] at h
    split at h <;> cases h
    exact .networkStart ‹_›
  | networkOpen k i sid =>
    simp only [step] at h
    split at h <;> cases h
    · exact .networkOpen
    · exact .networkOpen
  | networkCheck k =>
    simp only [step] at h
    split at h <;> cases h
    · rename_i hk
      exact .networkCheck hk nofun
    · rename_i hk
      exact .networkCheck hk nofun
  | networkDisconnecting k =>
    simp only [step] at h
    split at h <;> cases h
    exact .networkDisconnecting ‹_›
  | networkLengthRefused k =>
    simp only [step] at h
    split at h <;> cases h
    exact .networkLengthRefused ‹_›
  | networkPayloadRefused k =>
    simp only [step] at h
    split at h <;> cases h
    exact .networkPayloadRefused
  | networkRound k sent =>
    simp only [step] at h
    split at h <;> cases h
    exact .networkRound ‹_›

/-- A connect event: accepted into a running stream, accepted with new threads, or refused. -/
theorem connect_cases (s : State) (c : Cnx) (r : Connect) :
    (s.isSending = true ∧ cameraPathCallback s c r = ((s.adopt c r.streamId).respond c r.streamId, 0)) ∨
    (s.isSending = false ∧ cameraPathCallback s c r =
      (((s.adopt c r.streamId).respond c r.streamId).raise.addCamera.addNetwork c, 0)) ∨
    ((cameraPathCallback s c r).2 = -1 ∧ ((cameraPathCallback s c r).1 = s.adopt c r.streamId ∨
      s.isSending = false ∧ ((cameraPathCallback s c r).1 = ((s.adopt c r.streamId).respond c r.streamId).raise.lower ∨
        (cameraPathCallback s c r).1 = ((s.adopt c r.streamId).respond c r.streamId).raise.addCamera.lower))) := by
  unfold cameraPathCallback startThreads
  cases r.sent200 with
  | false => exact .inr (.inr ⟨rfl, .inl rfl⟩)
  | true =>
    cases hs : s.isSending with
    | true => exact .inl ⟨rfl, rfl⟩
    | false =>
      cases r.cameraCreated with
      | false => exact .inr (.inr ⟨rfl, .inr ⟨rfl, .inl rfl⟩⟩)
      | true =>
        cases r.networkCreated with
        | false => exact .inr (.inr ⟨rfl, .inr ⟨rfl, .inr rfl⟩⟩)
        | true => exact .inr (.inl ⟨rfl, rfl⟩)

/-- A connect event adopts the context for its connection, whatever it returns, and leaves the bindings alone. -/
theorem connect_adopts (s : State) (c : Cnx) (r : Connect) :
    (cameraPathCallback s c r).1.cnx = some c ∧
      (cameraPathCallback s c r).1.callback = Function.update s.callback c .wt ∧
      (cameraPathCallback s c r).1.bind = s.bind := by
  rcases connect_cases s c r with ⟨-, h⟩ | ⟨-, h⟩ | ⟨-, h | ⟨-, h | h⟩⟩ <;> rw [h] <;> exact ⟨rfl, rfl, rfl⟩

theorem deliver_other (s : State) (c : Cnx) {ev : Event} (hev : ∀ r, ev ≠ .connect r) :
    deliver s c ev = match s.callback c with
      | .h3 => some (h3zeroCallback s c ev)
      | .wt => some (cameraWtCallback s ev)
      | .closed => some s := by
  cases ev with
  | connect r => exact absurd rfl (hev r)
  | close | applicationClose | statelessReset | stopSending | streamReset => rfl

/-- An event that is delivered: a connect to a fresh connection, a stop, the end of a connection that never
connected, or nothing the context shows. -/
theorem deliver_cases {s s' : State} {c : Cnx} {ev : Event} (h : deliver s c ev = some s') :
    (∃ r, ev = .connect r ∧ s.callback c = .h3 ∧ s' = (cameraPathCallback s c r).1) ∨
    (s.callback c = .wt ∧ ev.stops = true ∧ s' = s.lower) ∨
    (s.callback c = .h3 ∧ ev.closes = true ∧ s' = { s with callback := Function.update s.callback c .closed }) ∨
    ((∀ r, ev ≠ .connect r) ∧ (s.callback c = .wt → ev.stops = false) ∧ s' = s) := by
  by_cases hev : ∃ r, ev = .connect r
  · obtain ⟨r, rfl⟩ := hev
    simp only [deliver] at h
    split at h
    · cases h
      exact .inl ⟨r, rfl, ‹_›, rfl⟩
    · cases h
  · have hno : ∀ r, ev ≠ .connect r := fun r hr => hev ⟨r, hr⟩
    rw [deliver_other s c hno] at h
    cases hcb : s.callback c with
    | h3 =>
      simp only [hcb, h3zeroCallback, Option.some.injEq] at h
      by_cases hcl : ev.closes = true
      · rw [if_pos hcl] at h
        exact .inr (.inr (.inl ⟨rfl, hcl, h.symm⟩))
      · rw [if_neg hcl] at h
        exact .inr (.inr (.inr ⟨hno, nofun, h.symm⟩))
    | wt =>
      simp only [hcb, cameraWtCallback, Option.some.injEq] at h
      by_cases hst : ev.stops = true
      · rw [if_pos hst] at h
        exact .inr (.inl ⟨rfl, hst, h.symm⟩)
      · rw [if_neg hst] at h
        exact .inr (.inr (.inr ⟨hno, fun _ => Bool.eq_false_iff.2 hst, h.symm⟩))
    | closed =>
      simp only [hcb, Option.some.injEq] at h
      exact .inr (.inr (.inr ⟨hno, nofun, h.symm⟩))

end Mquic.Server.Lifecycle
