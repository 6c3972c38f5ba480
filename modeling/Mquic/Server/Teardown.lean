/-
The end of `run_server` beside the threads that may still run (quic_server.c): the callbacks until the packet loop
returns, `picoquic_free`, the joins, `camera_destroy` and the `free` of the frame buffers; and of each thread what
it has loaded of a connection. The callback that starts the threads is taken statement by statement, since the
threads run beside it.
-/
import Mquic.Server.Lifecycle

namespace Mquic.Server.Teardown

open Lifecycle

/-! ## Network threads -/

/-- Where `network_thread_func` is: before its loop, at the loop's condition, at `picoquic_get_cnx_state`, in a
round up to `pop_ready_frame`, with a frame, behind the frame, without one, behind the loop. -/
inductive NetPc where
  | created
  | prologue
  | head
  | state
  | round
  | length
  | payload
  | piece
  | sent
  | idle
  | finish
  | returned
deriving DecidableEq

/-- What the thread has loaded for the call it is in: nothing, `ctx->cnx`, or the connection and the path that
`send_with_pacing` was given. A path stands for the connection it is of. -/
inductive Call where
  | nothing
  | cnx (c : Cnx)
  | send (c : Cnx) (path : Option Cnx)
deriving DecidableEq

def Call.pointers : Call → List Cnx
  | .nothing => []
  | .cnx c => [c]
  | .send c path => c :: path.toList

def Call.loaded : Call → Bool
  | .cnx _ => true
  | _ => false

def Call.sending : Call → Bool
  | .send _ _ => true
  | _ => false

/-- `ctx->cnx` is loaded. -/
def Call.load : Option Cnx → Call
  | some c => .cnx c
  | none => .nothing

/-- `send_with_pacing` is called on `ctx->cnx`. -/
def Call.sendOn (cnx path : Option Cnx) : Call :=
  match cnx with
  | some c => .send c path
  | none => .nothing

/-- The locals of the thread that are pointers, none where they are not in use: `path` of
`ensure_stream_for_path` and `finish_all_bindings`, `cur_path`, `send_path`; and the index of its frame. -/
structure Net where
  pc : NetPc
  call : Call
  path : Option Cnx
  curPath : Option Cnx
  sendPath : Option Cnx
  fbIdx : Fin 2
deriving DecidableEq

/-- `frame_buffer[0]`. -/
def buffer0 : Fin 2 := ⟨0, Nat.two_pos⟩

/-- `frame_buffer[1]`. -/
def buffer1 : Fin 2 := ⟨1, Nat.one_lt_two⟩

def Net.new : Net := ⟨.created, .nothing, none, none, none, buffer0⟩

/-- What the thread holds of connections. -/
def Net.pointers (n : Net) : List Cnx :=
  n.call.pointers ++ (n.path.toList ++ (n.curPath.toList ++ n.sendPath.toList))

/-- The steps: loads and uses of `ctx->cnx`, a path looked up and looked at, a call of `send_with_pacing` begun,
paced and over, a stream pinned to its path; and the steps from one place to another. -/
inductive NetStep where
  | start
  | load
  | look
  | fetch
  | inspect (verified : Bool)
  | send (keepAlive : Bool)
  | pace
  | sendDone (opened : Bool)
  | pin
  | enter
  | check
  | state (disconnecting : Bool)
  | take (frame : Option (Fin 2))
  | length (accepted : Bool)
  | payload (more : Bool)
  | piece (accepted : Bool)
  | sent
  | idled
  | leave
deriving DecidableEq

/-- The places with calls on paths, which are taken to come in any order and number there. -/
def NetPc.calls : NetPc → Bool
  | .prologue | .round | .idle | .finish => true
  | _ => false

/-- The step can be taken where the thread is. -/
def Net.Ready (n : Net) (s : State) : NetStep → Prop
  | .start => n.pc = .created
  | .load => (n.pc.calls = true ∨ n.pc = .state) ∧ n.call = .nothing ∧ s.cnx.isSome = true
  | .look | .fetch => n.pc.calls = true ∧ n.call.loaded = true
  | .inspect _ => n.pc.calls = true ∧ n.call = .nothing ∧ n.path.isSome = true
  | .send keepAlive => (n.pc.calls = true ∨ n.pc = .length ∨ n.pc = .piece) ∧ n.call = .nothing ∧
      s.cnx.isSome = true ∧ (keepAlive = true → n.pc = .idle)
  | .pace => n.pc ≠ .returned ∧ n.call.sending = true
  | .sendDone _ => n.pc.calls = true ∧ n.call.sending = true
  | .pin => n.pc.calls = true ∧ n.call.loaded = true ∧ n.path.isSome = true
  | .enter => n.pc = .prologue ∧ n.call.loaded = true
  | .check => n.pc = .head
  | .state _ => n.pc = .state ∧ n.call.loaded = true
  | .take (some _) => n.pc = .round ∧ n.call.loaded = true
  | .take none => n.pc = .round ∧ n.call = .nothing
  | .length _ => n.pc = .length ∧ n.call.sending = true
  | .payload _ => n.pc = .payload
  | .piece _ => n.pc = .piece ∧ n.call.sending = true
  | .sent => n.pc = .sent
  | .idled => n.pc = .idle ∧ n.call = .nothing
  | .leave => n.pc = .finish ∧ n.call.loaded = true

instance (n : Net) (s : State) : ∀ e, Decidable (n.Ready s e)
  | .start | .check | .payload _ | .sent => inferInstanceAs (Decidable (_ = _))
  | .load | .look | .fetch | .inspect _ | .pace | .sendDone _ | .pin | .enter | .state _ | .take (some _) | .take none
  | .length _ | .piece _ | .idled | .leave => inferInstanceAs (Decidable (_ ∧ _))
  | .send keepAlive => inferInstanceAs (Decidable (_ ∧ _ ∧ _ ∧ (keepAlive = true → _)))

/-- The path that `send_with_pacing` is called with. -/
def Net.passes (n : Net) (keepAlive : Bool) : Option Cnx :=
  match n.pc with
  | .length | .piece => n.sendPath
  | _ => if keepAlive then n.curPath else n.path

/-- The connection a path is fetched from. -/
def Call.from : Call → Option Cnx
  | .cnx c => some c
  | _ => none

/-- Behind the loop; `cur_path` and `send_path` are not used any more. -/
def Net.behindLoop (n : Net) : Net :=
  { n with pc := .finish, call := .nothing, path := none, curPath := none, sendPath := none }

/-- The end of a round that sent a frame or not. -/
def Net.roundEnd (n : Net) (s : State) (sent : Bool) : Net :=
  if s.maxFrames ≤ s.counted sent then n.behindLoop else { n with pc := .head, path := none }

/-- The step's effect on the shared context and on the `k`-th thread. -/
def Net.next (n : Net) (s : State) (k : Nat) : NetStep → State × Net
  | .start => (s.start k, { n with pc := if s.cnx.isSome then .prologue else .returned })
  | .load => (s, { n with call := .load s.cnx })
  | .look => (s, { n with call := .nothing })
  | .fetch => (s, { n with path := n.call.from, call := .nothing })
  | .inspect verified => (s, { n with path := if verified then n.path else none })
  | .send keepAlive => (s, { n with call := .sendOn s.cnx (n.passes keepAlive) })
  | .pace => (s, n)
  | .sendDone opened => (s, { n with call := .nothing, path := if opened then n.path else none })
  | .pin => (s, { n with call := .nothing, path := none })
  | .enter => (s, { n with pc := .head, call := .nothing, path := none, curPath := n.call.from })
  | .check => (s.setNetwork k s.atCheck, if s.isSending then { n with pc := .state } else n.behindLoop)
  | .state disconnecting =>
    if disconnecting then (s.setNetwork k .left, n.behindLoop) else (s, { n with pc := .round, call := .nothing })
  | .take (some i) =>
    (s, { n with pc := .length, call := .nothing, path := none, sendPath := n.call.from, fbIdx := i })
  | .take none => (s, { n with pc := .idle, path := none })
  | .length accepted =>
    if accepted then (s, { n with pc := .payload, call := .nothing })
    else ((s.setNetwork k .left).lower, n.behindLoop)
  | .payload more => (s, { n with pc := if more && s.isSending then .piece else .sent })
  | .piece accepted =>
    (if accepted then s else s.lower, { n with pc := if accepted then .payload else .sent, call := .nothing })
  | .sent => (s.round k true, { n with curPath := n.sendPath, sendPath := none }.roundEnd s true)
  | .idled => (s.round k false, n.roundEnd s false)
  | .leave => (s, { n with pc := .returned, call := .nothing, path := none })

/-! ## The main thread -/

/-- Where `run_server` is: in the packet loop; in `camera_path_callback`, which has adopted the context, raised
the flag, created the camera thread, or failed to create a thread; in `picoquic_free`; and behind it. -/
inductive MainPc where
  | loop
  | adopted (c : Cnx) (r : Connect)
  | starting (c : Cnx) (r : Connect)
  | pairing (c : Cnx) (r : Connect)
  | failing
  | freeing
  | check
  | joinCamera
  | joinNetwork
  | destroy
  | freeBuffer (i : Fin 2)
  | done
deriving DecidableEq

/-- The streamer context, the network threads by their index, the camera threads that are behind their loop's
condition, the connections that have had a closing event, and what is released. -/
structure World where
  ctx : State
  net : Nat → Net
  armed : Nat → Bool
  main : MainPc
  closing : Cnx → Bool
  deleted : Cnx → Bool
  cameraDestroyed : Bool
  freed : Fin 2 → Bool

/-- At the start of the packet loop. -/
def World.init (maxFrames : Nat) : World where
  ctx := State.init maxFrames
  net _ := Net.new
  armed _ := false
  main := .loop
  closing _ := false
  deleted _ := false
  cameraDestroyed := false
  freed _ := false

/-- The labels: events and the steps of `camera_path_callback`, picoquic deleting a connection, the statements of
`run_server` behind the packet loop, and the steps of the threads. `i` is the buffer the camera writes to. -/
inductive Label where
  | event (c : Cnx) (ev : Event)
  | answer
  | createCamera
  | createNetwork
  | giveUp
  | delete (c : Cnx)
  | loopReturns
  | freeQuic
  | checkSending
  | joinCamera
  | joinNetwork
  | destroyCamera
  | freeBuffer
  | cameraCheck (k : Nat)
  | cameraWait (k : Nat)
  | capture (k : Nat) (i : Fin 2)
  | net (k : Nat) (e : NetStep)
deriving DecidableEq

/-- picoquic's callbacks run: in the packet loop, and while `picoquic_free` closes what is open. -/
def MainPc.inPicoquic : MainPc → Bool
  | .loop | .freeing => true
  | _ => false

/-- A connect begins `camera_path_callback`; any other event is delivered at once. -/
def World.event (w : World) (c : Cnx) : Event → Option World
  | .connect r =>
    if w.main = .loop ∧ w.deleted c = false ∧ w.ctx.callback c = .h3 then
      some { w with ctx := w.ctx.adopt c r.streamId, main := .adopted c r }
    else none
  | ev =>
    if w.main.inPicoquic = true ∧ w.deleted c = false then
      (deliver w.ctx c ev).map fun s =>
        { w with ctx := s, closing := Function.update w.closing c (w.closing c || ev.closes) }
    else none

/-- `h3_send_status_200_headers`, and the flag of the context looked at. -/
def World.answer (w : World) : Option World :=
  match w.main with
  | .adopted c r =>
    some (if r.sent200 then
      if w.ctx.isSending then { w with ctx := w.ctx.respond c r.streamId, main := .loop }
      else { w with ctx := (w.ctx.respond c r.streamId).raise, main := .starting c r }
    else { w with main := .loop })
  | _ => none

def World.createCamera (w : World) : Option World :=
  match w.main with
  | .starting c r =>
    some (if r.cameraCreated then { w with ctx := w.ctx.addCamera, main := .pairing c r }
      else { w with main := .failing })
  | _ => none

def World.createNetwork (w : World) : Option World :=
  match w.main with
  | .pairing c r =>
    some (if r.networkCreated then { w with ctx := w.ctx.addNetwork c, main := .loop }
      else { w with main := .failing })
  | _ => none

/-- `free(ctx.frame_buffer[i])`. -/
def World.freeBuffer (w : World) : Option World :=
  match w.main with
  | .freeBuffer i =>
    some { w with freed := Function.update w.freed i true, main := if i = buffer0 then .freeBuffer buffer1 else .done }
  | _ => none

/-- The last camera thread to be created has returned, so that `pthread_join` does. -/
def World.cameraReturned (w : World) : Prop := w.ctx.cameras.getLast? = some .left

instance (w : World) : Decidable w.cameraReturned := inferInstanceAs (Decidable (_ = _))

def World.networkReturned (w : World) : Prop := (w.net (w.ctx.networks.length - 1)).pc = .returned

instance (w : World) : Decidable w.networkReturned := inferInstanceAs (Decidable (_ = _))

/-- `while (ctx->is_sending)` in `camera_thread_func`. -/
def World.cameraCheck (w : World) (k : Nat) : World :=
  { w with ctx := w.ctx.setCamera k w.ctx.atCheck, armed := Function.update w.armed k w.ctx.isSending }

/-- The camera thread is at its loop's condition. -/
def World.CameraAtCheck (w : World) (k : Nat) : Prop :=
  w.armed k = false ∧ (w.ctx.cameras[k]? = some .created ∨ w.ctx.cameras[k]? = some .inside)

instance (w : World) (k : Nat) : Decidable (w.CameraAtCheck k) := inferInstanceAs (Decidable (_ ∧ (_ ∨ _)))

def World.step (w : World) : Label → Option World
  | .event c ev => w.event c ev
  | .answer => w.answer
  | .createCamera => w.createCamera
  | .createNetwork => w.createNetwork
  | .giveUp => if w.main = .failing then some { w with ctx := w.ctx.lower, main := .loop } else none
  | .delete c =>
    if w.main.inPicoquic = true ∧ w.closing c = true then
      some { w with deleted := Function.update w.deleted c true }
    else none
  | .loopReturns => if w.main = .loop then some { w with main := .freeing } else none
  | .freeQuic => if w.main = .freeing then some { w with deleted := fun _ => true, main := .check } else none
  | .checkSending =>
    if w.main = .check then
      some (if w.ctx.isSending then { w with ctx := w.ctx.lower, main := .joinCamera }
        else { w with main := .destroy })
    else none
  | .joinCamera => if w.main = .joinCamera ∧ w.cameraReturned then some { w with main := .joinNetwork } else none
  | .joinNetwork => if w.main = .joinNetwork ∧ w.networkReturned then some { w with main := .destroy } else none
  | .destroyCamera =>
    if w.main = .destroy then some { w with cameraDestroyed := true, main := .freeBuffer buffer0 } else none
  | .freeBuffer => w.freeBuffer
  | .cameraCheck k => if w.CameraAtCheck k then some (w.cameraCheck k) else none
  -- the backlog is full: a sleep, and back to the condition
  | .cameraWait k => if w.armed k = true then some { w with armed := Function.update w.armed k false } else none
  | .capture k _ => if w.armed k = true then some { w with armed := Function.update w.armed k false } else none
  | .net k e =>
    if k < w.ctx.networks.length ∧ (w.net k).Ready w.ctx e then
      some { w with ctx := ((w.net k).next w.ctx k e).1, net := Function.update w.net k ((w.net k).next w.ctx k e).2 }
    else none

/-! ## What a step can do -/

/-- What a step of the `k`-th network thread leaves of the context: a flag that is down stays down, and no thread
comes. -/
structure KeptBy (k : Nat) (s s' : State) : Prop where
  cnx : s'.cnx = s.cnx
  cameras : s'.cameras = s.cameras
  length : s'.networks.length = s.networks.length
  others : ∀ j, j ≠ k → s'.networks[j]? = s.networks[j]?
  isSending : s.isSending = false → s'.isSending = false

theorem KeptBy.refl (k : Nat) (s : State) : KeptBy k s s := ⟨rfl, rfl, rfl, fun _ _ => rfl, id⟩

theorem KeptBy.setNetwork (s : State) (k : Nat) (pc : ThreadPc) : KeptBy k s (s.setNetwork k pc) :=
  ⟨rfl, rfl, List.length_set, fun _ hj => List.getElem?_set_ne (Ne.symm hj), id⟩

theorem KeptBy.lower {k : Nat} {s s' : State} (h : KeptBy k s s') : KeptBy k s s'.lower :=
  ⟨h.cnx, h.cameras, h.length, h.others, fun _ => rfl⟩

theorem KeptBy.round (s : State) (k : Nat) (sent : Bool) : KeptBy k s (s.round k sent) :=
  ⟨rfl, rfl, List.length_set, fun _ hj => List.getElem?_set_ne (Ne.symm hj), id⟩

theorem KeptBy.start (s : State) (k : Nat) : KeptBy k s (s.start k) := by
  unfold State.start
  split
  · exact .setNetwork s k .left
  · exact ⟨rfl, rfl, List.length_set, fun _ hj => List.getElem?_set_ne (Ne.symm hj), id⟩

theorem Net.next_kept (n : Net) (s : State) (k : Nat) (e : NetStep) : KeptBy k s (n.next s k e).1 := by
  cases e with
  | start => exact .start s k
  | load | look | fetch | inspect | send | pace | sendDone | pin | enter | payload | leave => exact .refl k s
  | check => exact .setNetwork s k _
  | state disconnecting =>
    cases disconnecting with
    | true => exact .setNetwork s k .left
    | false => exact .refl k s
  | take frame => cases frame <;> exact .refl k s
  | length accepted =>
    cases accepted with
    | true => exact .refl k s
    | false => exact (KeptBy.setNetwork s k .left).lower
  | piece accepted =>
    cases accepted with
    | true => exact .refl k s
    | false => exact (KeptBy.refl k s).lower
  | sent => exact .round s k true
  | idled => exact .round s k false

/-- What an event other than a connect leaves of the context. -/
theorem told_kept {s s' : State} {c : Cnx} {ev : Event} (hno : ∀ r, ev ≠ .connect r)
    (h : deliver s c ev = some s') : s'.cnx = s.cnx ∧ s'.cameras = s.cameras ∧ s'.networks = s.networks ∧
      (s.isSending = false → s'.isSending = false) := by
  rcases deliver_cases h with ⟨r, rfl, -, -⟩ | ⟨-, -, rfl⟩ | ⟨-, -, rfl⟩ | ⟨-, -, rfl⟩
  · exact absurd rfl (hno r)
  · exact ⟨rfl, rfl, rfl, fun _ => rfl⟩
  · exact ⟨rfl, rfl, rfl, id⟩
  · exact ⟨rfl, rfl, rfl, id⟩

/-- The steps of the world, with what they need and what they make of it. -/
inductive Changed (w : World) : Label → World → Prop where
  | connect {c : Cnx} {r : Connect} (hmain : w.main = .loop) (hlive : w.deleted c = false)
    (hcb : w.ctx.callback c = .h3) :
    Changed w (.event c (.connect r)) { w with ctx := w.ctx.adopt c r.streamId, main := .adopted c r }
  | told {c : Cnx} {ev : Event} {s : State} (hno : ∀ r, ev ≠ .connect r) (hmain : w.main.inPicoquic = true)
    (hd : deliver w.ctx c ev = some s) :
    Changed w (.event c ev)
      { w with ctx := s, closing := Function.update w.closing c (w.closing c || ev.closes) }
  | unanswered {c : Cnx} {r : Connect} (hmain : w.main = .adopted c r) : Changed w .answer { w with main := .loop }
  | joined {c : Cnx} {r : Connect} (hmain : w.main = .adopted c r) :
    Changed w .answer { w with ctx := w.ctx.respond c r.streamId, main := .loop }
  | raised {c : Cnx} {r : Connect} (hmain : w.main = .adopted c r) :
    Changed w .answer { w with ctx := (w.ctx.respond c r.streamId).raise, main := .starting c r }
  | createCamera {c : Cnx} {r : Connect} (hmain : w.main = .starting c r) :
    Changed w .createCamera { w with ctx := w.ctx.addCamera, main := .pairing c r }
  | noCamera {c : Cnx} {r : Connect} (hmain : w.main = .starting c r) :
    Changed w .createCamera { w with main := .failing }
  | createNetwork {c : Cnx} {r : Connect} (hmain : w.main = .pairing c r) :
    Changed w .createNetwork { w with ctx := w.ctx.addNetwork c, main := .loop }
  | noNetwork {c : Cnx} {r : Connect} (hmain : w.main = .pairing c r) :
    Changed w .createNetwork { w with main := .failing }
  | giveUp (hmain : w.main = .failing) : Changed w .giveUp { w with ctx := w.ctx.lower, main := .loop }
  | delete {c : Cnx} (hmain : w.main.inPicoquic = true) (hc : w.closing c = true) :
    Changed w (.delete c) { w with deleted := Function.update w.deleted c true }
  | loopReturns (hmain : w.main = .loop) : Changed w .loopReturns { w with main := .freeing }
  | freeQuic (hmain : w.main = .freeing) : Changed w .freeQuic { w with deleted := fun _ => true, main := .check }
  | checkUp (hmain : w.main = .check) : Changed w .checkSending { w with ctx := w.ctx.lower, main := .joinCamera }
  | checkDown (hmain : w.main = .check) (hdown : w.ctx.isSending = false) :
    Changed w .checkSending { w with main := .destroy }
  | joinCamera (hmain : w.main = .joinCamera) (hret : w.cameraReturned) :
    Changed w .joinCamera { w with main := .joinNetwork }
  | joinNetwork (hmain : w.main = .joinNetwork) (hret : w.networkReturned) :
    Changed w .joinNetwork { w with main := .destroy }
  | destroyCamera (hmain : w.main = .destroy) :
    Changed w .destroyCamera { w with cameraDestroyed := true, main := .freeBuffer buffer0 }
  | freeBuffer {i : Fin 2} (hmain : w.main = .freeBuffer i) :
    Changed w .freeBuffer
      { w with freed := Function.update w.freed i true, main := if i = buffer0 then .freeBuffer buffer1 else .done }
  | cameraCheck {k : Nat} (hk : w.CameraAtCheck k) : Changed w (.cameraCheck k) (w.cameraCheck k)
  | cameraWait {k : Nat} (hk : w.armed k = true) :
    Changed w (.cameraWait k) { w with armed := Function.update w.armed k false }
  | capture {k : Nat} {i : Fin 2} (hk : w.armed k = true) :
    Changed w (.capture k i) { w with armed := Function.update w.armed k false }
  | net {k : Nat} {e : NetStep} (hk : k < w.ctx.networks.length) (hready : (w.net k).Ready w.ctx e) :
    Changed w (.net k e)
      { w with ctx := ((w.net k).next w.ctx k e).1, net := Function.update w.net k ((w.net k).next w.ctx k e).2 }

theorem World.event_changed {w w' : World} {c : Cnx} {ev : Event} (h : w.event c ev = some w') :
    Changed w (.event c ev) w' := by
  cases ev with
  | connect r =>
    simp only [World.event] at h
    split at h <;> cases h
    rename_i hc
    exact .connect hc.1 hc.2.1 hc.2.2
  | close | applicationClose | statelessReset | stopSending | streamReset =>
    simp only [World.event] at h
    split at h
    · rename_i hc
      obtain ⟨s, hs, rfl⟩ := Option.map_eq_some_iff.1 h
      exact .told nofun hc.1 hs
    · cases h

theorem World.answer_changed {w w' : World} (h : w.answer = some w') : Changed w .answer w' := by
  unfold World.answer at h
  split at h
  · rename_i c r hmain
    cases h
    by_cases hr : r.sent200 = true
    · rw [if_pos hr]
      by_cases hs : w.ctx.isSending = true
      · rw [if_pos hs]
        exact .joined hmain
      · rw [if_neg hs]
        exact .raised hmain
    · rw [if_neg hr]
      exact .unanswered hmain
  · cases h

theorem World.createCamera_changed {w w' : World} (h : w.createCamera = some w') : Changed w .createCamera w' := by
  unfold World.createCamera at h
  split at h
  · rename_i c r hmain
    cases h
    by_cases hr : r.cameraCreated = true
    · rw [if_pos hr]
      exact .createCamera hmain
    · rw [if_neg hr]
      exact .noCamera hmain
  · cases h

theorem World.createNetwork_changed {w w' : World} (h : w.createNetwork = some w') : Changed w .createNetwork w' := by
  unfold World.createNetwork at h
  split at h
  · rename_i c r hmain
    cases h
    by_cases hr : r.networkCreated = true
    · rw [if_pos hr]
      exact .createNetwork hmain
    · rw [if_neg hr]
      exact .noNetwork hmain
  · cases h

theorem World.freeBuffer_changed {w w' : World} (h : w.freeBuffer = some w') : Changed w .freeBuffer w' := by
  unfold World.freeBuffer at h
  split at h
  · cases h
    exact .freeBuffer ‹_›
  · cases h

theorem World.step_changed {w w' : World} {l : Label} (h : w.step l = some w') : Changed w l w' := by
  cases l with
  | event c ev => exact World.event_changed h
  | answer => exact World.answer_changed h
  | createCamera => exact World.createCamera_changed h
  | createNetwork => exact World.createNetwork_changed h
  | freeBuffer => exact World.freeBuffer_changed h
  | giveUp =>
    obtain ⟨hmain, ⟨⟩⟩ := Option.ite_none_right_eq_some.1 h
    exact .giveUp hmain
  | delete c =>
    obtain ⟨⟨hmain, hc⟩, ⟨⟩⟩ := Option.ite_none_right_eq_some.1 h
    exact .delete hmain hc
  | loopReturns =>
    obtain ⟨hmain, ⟨⟩⟩ := Option.ite_none_right_eq_some.1 h
    exact .loopReturns hmain
  | freeQuic =>
    obtain ⟨hmain, ⟨⟩⟩ := Option.ite_none_right_eq_some.1 h
    exact .freeQuic hmain
  | checkSending =>
    obtain ⟨hmain, ⟨⟩⟩ := Option.ite_none_right_eq_some.1 h
    by_cases hs : w.ctx.isSending = true
    · rw [if_pos hs]
      exact .checkUp hmain
    · rw [if_neg hs]
      exact .checkDown hmain (Bool.eq_false_iff.2 hs)
  | joinCamera =>
    obtain ⟨⟨hmain, hret⟩, ⟨⟩⟩ := Option.ite_none_right_eq_some.1 h
    exact .joinCamera hmain hret
  | joinNetwork =>
    obtain ⟨⟨hmain, hret⟩, ⟨⟩⟩ := Option.ite_none_right_eq_some.1 h
    exact .joinNetwork hmain hret
  | destroyCamera =>
    obtain ⟨hmain, ⟨⟩⟩ := Option.ite_none_right_eq_some.1 h
    exact .destroyCamera hmain
  | cameraCheck k =>
    obtain ⟨hk, ⟨⟩⟩ := Option.ite_none_right_eq_some.1 h
    exact .cameraCheck hk
  | cameraWait k =>
    obtain ⟨hk, ⟨⟩⟩ := Option.ite_none_right_eq_some.1 h
    exact .cameraWait hk
  | capture k i =>
    obtain ⟨hk, ⟨⟩⟩ := Option.ite_none_right_eq_some.1 h
    exact .capture hk
  | net k e =>
    obtain ⟨⟨hk, hready⟩, ⟨⟩⟩ := Option.ite_none_right_eq_some.1 h
    exact .net hk hready

/-! ## The same context -/

/-- With no thread between its statements, the callback does to the context what it does there at once. -/
theorem callback_runs {w : World} {c : Cnx} {r : Connect} (hmain : w.main = .loop) (hlive : w.deleted c = false)
    (hcb : w.ctx.callback c = .h3) :
    ∃ ls, Lts.run World.step w (.event c (.connect r) :: ls) =
      some { w with ctx := (cameraPathCallback w.ctx c r).1 } := by
  have hconnect : w.step (.event c (.connect r)) =
      some { w with ctx := w.ctx.adopt c r.streamId, main := .adopted c r } := if_pos ⟨hmain, hlive, hcb⟩
  obtain ⟨ctx, net, armed, main, closing, deleted, cameraDestroyed, freed⟩ := w
  obtain rfl : main = .loop := hmain
  simp only [Lts.run_cons, hconnect, Option.bind_some]
  cases hr : r.sent200 with
  | false => exact ⟨[.answer], by simp [World.step, World.answer, cameraPathCallback, hr]⟩
  | true =>
    cases hs : ctx.isSending with
    | true => exact ⟨[.answer], by simp [World.step, World.answer, cameraPathCallback, State.adopt, hr, hs]⟩
    | false =>
      cases hcam : r.cameraCreated with
      | false =>
        refine ⟨[.answer, .createCamera, .giveUp], ?_⟩
        simp [World.step, World.answer, World.createCamera, cameraPathCallback, startThreads, State.adopt, hr, hs,
          hcam]
      | true =>
        cases hnet : r.networkCreated with
        | false =>
          refine ⟨[.answer, .createCamera, .createNetwork, .giveUp], ?_⟩
          simp [World.step, World.answer, World.createCamera, World.createNetwork, cameraPathCallback, startThreads,
            State.adopt, hr, hs, hcam, hnet]
        | true =>
          refine ⟨[.answer, .createCamera, .createNetwork], ?_⟩
          simp [World.step, World.answer, World.createCamera, World.createNetwork, cameraPathCallback, startThreads,
            State.adopt, hr, hs, hcam, hnet]

/-- Where the context has the thread. -/
def NetPc.Stands : NetPc → ThreadPc → Prop
  | .created, pc => pc = .created
  | .prologue, pc => pc = .ready
  | .head, pc => pc = .ready ∨ pc = .inside
  | .finish, pc | .returned, pc => pc = .left
  | _, pc => pc = .inside

/-- Past the loop's condition and not yet back at it. -/
def NetPc.inLoop : NetPc → Bool
  | .state | .round | .length | .payload | .piece | .sent | .idle => true
  | _ => false

theorem NetPc.stands_inside {pc : NetPc} {t : ThreadPc} (h : pc.inLoop = true) (hst : pc.Stands t) : t = .inside := by
  cases pc with
  | created | prologue | head | finish | returned => cases h
  | state | round | length | payload | piece | sent | idle => exact hst

/-- The context has each thread where it is, and the threads to come are new. -/
structure Agrees (w : World) : Prop where
  networks : ∀ k pc, w.ctx.networks[k]? = some pc → (w.net k).pc.Stands pc
  fresh : ∀ k, w.ctx.networks.length ≤ k → w.net k = Net.new
  cameras : ∀ k, w.armed k = true → w.ctx.cameras[k]? = some .inside

theorem entry_set {l : List ThreadPc} {k : Nat} {new pc : ThreadPc} (h : (l.set k new)[k]? = some pc) :
    pc = new := by
  rw [List.getElem?_set_self'] at h
  obtain ⟨-, -, rfl⟩ := Option.map_eq_some_iff.1 h
  rfl

theorem Net.roundEnd_stands (n : Net) (s : State) (k : Nat) (sent : Bool) (pc : ThreadPc)
    (h : (s.round k sent).networks[k]? = some pc) : (n.roundEnd s sent).pc.Stands pc := by
  obtain rfl := entry_set h
  unfold Net.roundEnd
  by_cases hmax : s.maxFrames ≤ s.counted sent
  · simp only [if_pos hmax]
    rfl
  · simp only [if_neg hmax]
    exact .inr rfl

/-- A step of a network thread keeps it where the context has it. -/
theorem Net.next_stands {n : Net} {s : State} {k : Nat} {e : NetStep} (hready : n.Ready s e)
    (hst : ∀ pc, s.networks[k]? = some pc → n.pc.Stands pc) (pc : ThreadPc)
    (h : (n.next s k e).1.networks[k]? = some pc) : (n.next s k e).2.pc.Stands pc := by
  -- within the loop the context has the thread inside, at one place as at another
  have hmove : ∀ {old new : NetPc}, n.pc = old → (∀ pc, old.Stands pc → new.Stands pc) →
      s.networks[k]? = some pc → new.Stands pc := by
    rintro old new rfl hon hk
    exact hon pc (hst pc hk)
  cases e with
  | load | look | fetch | inspect | send | pace | sendDone | pin => exact hst pc h
  | start =>
    have hstart : (s.start k).networks[k]? = some pc := h
    show (if s.cnx.isSome then NetPc.prologue else .returned).Stands pc
    unfold State.start at hstart
    cases hc : s.cnx with
    | none =>
      rw [hc] at hstart
      exact entry_set hstart
    | some c =>
      rw [hc] at hstart
      exact entry_set hstart
  | enter => exact hmove hready.1 (fun _ => .inl) h
  | check =>
    have hset := entry_set (k := k) h
    show (if s.isSending then { n with pc := .state } else n.behindLoop).pc.Stands pc
    unfold State.atCheck at hset
    cases hs : s.isSending with
    | true =>
      rw [hs] at hset
      exact hset
    | false =>
      rw [hs] at hset
      exact hset
  | state disconnecting =>
    cases disconnecting with
    | true => exact entry_set (k := k) h
    | false => exact hmove hready.1 (fun _ => id) h
  | take frame =>
    cases frame with
    | none => exact hmove hready.1 (fun _ => id) h
    | some i => exact hmove hready.1 (fun _ => id) h
  | length accepted =>
    cases accepted with
    | true => exact hmove hready.1 (fun _ => id) h
    | false => exact entry_set (k := k) h
  | payload more =>
    have hinside : pc = .inside := hmove hready (fun _ => id) h
    show (if more && s.isSending then NetPc.piece else .sent).Stands pc
    split
    · exact hinside
    · exact hinside
  | piece accepted =>
    cases accepted with
    | true => exact hmove hready.1 (fun _ => id) h
    | false => exact hmove hready.1 (fun _ => id) h
  | sent => exact Net.roundEnd_stands _ s k true pc h
  | idled => exact Net.roundEnd_stands n s k false pc h
  | leave => exact hmove hready.1 (fun _ => id) h

theorem armed_of_update {armed : Nat → Bool} {k j : Nat} (h : Function.update armed k false j = true) :
    armed j = true := by
  rcases eq_or_ne j k with rfl | hne
  · rw [Function.update_self] at h
    cases h
  · rwa [Function.update_of_ne hne] at h

/-- Whatever the threads and the callbacks do, the context has each thread where it is. -/
theorem agrees_step {w w' : World} {l : Label} (h : Agrees w) (hstep : w.step l = some w') : Agrees w' := by
  cases World.step_changed hstep with
  | connect | unanswered | joined | raised | noCamera | noNetwork | giveUp | delete | loopReturns | freeQuic
  | checkUp | checkDown | joinCamera | joinNetwork | destroyCamera | freeBuffer =>
    exact ⟨h.networks, h.fresh, h.cameras⟩
  | told hno hmain hd =>
    obtain ⟨-, hcam, hnet, -⟩ := told_kept hno hd
    constructor
    · simpa only [hnet] using h.networks
    · simpa only [hnet] using h.fresh
    · simpa only [hcam] using h.cameras
  | createCamera hmain =>
    refine ⟨h.networks, h.fresh, fun k hk => ?_⟩
    have hin := h.cameras k hk
    exact (List.getElem?_append_left (List.getElem?_eq_some_iff.1 hin).1).trans hin
  | createNetwork hmain =>
    constructor
    · intro k pc hk
      have happ : (w.ctx.networks ++ [ThreadPc.created])[k]? = some pc := hk
      -- the thread that was created is the last one, and fresh
      rcases Nat.lt_or_ge k w.ctx.networks.length with hlt | hge
      · rw [List.getElem?_append_left hlt] at happ
        exact h.networks k pc happ
      · show (w.net k).pc.Stands pc
        rw [h.fresh k hge]
        rw [List.getElem?_append_right hge] at happ
        exact List.mem_singleton.1 (List.mem_of_getElem? happ)
    · intro k hk
      have hlen : (w.ctx.networks ++ [ThreadPc.created]).length ≤ k := hk
      rw [List.length_append] at hlen
      exact h.fresh k (by omega)
    · exact h.cameras
  | @cameraCheck k hk =>
    refine ⟨h.networks, h.fresh, fun j hj => ?_⟩
    have harmed : Function.update w.armed k w.ctx.isSending j = true := hj
    show (w.ctx.cameras.set k w.ctx.atCheck)[j]? = some .inside
    -- armed is the thread that has just seen the flag up
    rcases eq_or_ne j k with rfl | hne
    · rw [Function.update_self] at harmed
      have hlt : j < w.ctx.cameras.length := by
        rcases hk.2 with hat | hat
        · exact (List.getElem?_eq_some_iff.1 hat).1
        · exact (List.getElem?_eq_some_iff.1 hat).1
      rw [List.getElem?_set_self hlt, State.atCheck, if_pos harmed]
    · rw [Function.update_of_ne hne] at harmed
      rw [List.getElem?_set_ne hne.symm]
      exact h.cameras j harmed
  | cameraWait hk | capture hk => exact ⟨h.networks, h.fresh, fun j hj => h.cameras j (armed_of_update hj)⟩
  | @net k e hk hready =>
    have hkept := Net.next_kept (w.net k) w.ctx k e
    constructor
    · intro j pc hj
      show (Function.update w.net k ((w.net k).next w.ctx k e).2 j).pc.Stands pc
      rcases eq_or_ne j k with rfl | hne
      · rw [Function.update_self]
        exact Net.next_stands hready (h.networks j) pc hj
      · rw [Function.update_of_ne hne]
        exact h.networks j pc ((hkept.others j hne).symm.trans hj)
    · intro j hj
      have hle : ((w.net k).next w.ctx k e).1.networks.length ≤ j := hj
      rw [hkept.length] at hle
      show Function.update w.net k ((w.net k).next w.ctx k e).2 j = Net.new
      rw [Function.update_of_ne (by omega)]
      exact h.fresh j hle
    · intro j hj
      show ((w.net k).next w.ctx k e).1.cameras[j]? = some .inside
      rw [hkept.cameras]
      exact h.cameras j hj

/-- A step of a network thread is a step of it in the coarser model, or one that the context does not show. -/
theorem Net.next_lifecycle {n : Net} {s : State} {k : Nat} {e : NetStep} {pc : ThreadPc} (hready : n.Ready s e)
    (hpc : s.networks[k]? = some pc) (hst : n.pc.Stands pc) :
    (n.next s k e).1 = s ∨ ∃ e', Lifecycle.step s e' = some (n.next s k e).1 := by
  have hinside : ∀ {place : NetPc}, n.pc = place → place.inLoop = true → s.networks[k]? = some .inside := by
    rintro place rfl hin
    rw [hpc, NetPc.stands_inside hin hst]
  cases e with
  -- inside a round, which the coarser model takes as one step
  | load | look | fetch | inspect | send | pace | sendDone | pin | enter | payload | leave => exact .inl rfl
  | start =>
    have hn : n.pc = .created := hready
    rw [hn] at hst
    obtain rfl : pc = .created := hst
    exact .inr ⟨.networkStart k, by simp only [Lifecycle.step, hpc, Net.next]⟩
  | check =>
    have hn : n.pc = .head := hready
    rw [hn] at hst
    refine .inr ⟨.networkCheck k, ?_⟩
    rcases hst with rfl | rfl
    · simp only [Lifecycle.step, hpc, Net.next]
    · simp only [Lifecycle.step, hpc, Net.next]
  | state disconnecting =>
    cases disconnecting with
    | false => exact .inl rfl
    | true =>
      have hin := hinside hready.1 rfl
      exact .inr ⟨.networkDisconnecting k, by simp [Lifecycle.step, hin, Net.next]⟩
  | take frame => cases frame <;> exact .inl rfl
  | length accepted =>
    cases accepted with
    | true => exact .inl rfl
    | false =>
      have hin := hinside hready.1 rfl
      exact .inr ⟨.networkLengthRefused k, by simp [Lifecycle.step, hin, Net.next]⟩
  | piece accepted =>
    cases accepted with
    | true => exact .inl rfl
    | false =>
      have hin := hinside hready.1 rfl
      exact .inr ⟨.networkPayloadRefused k, by simp [Lifecycle.step, hin, Net.next]⟩
  | sent =>
    have hin := hinside hready rfl
    exact .inr ⟨.networkRound k true, by simp [Lifecycle.step, hin, Net.next]⟩
  | idled =>
    have hin := hinside hready.1 rfl
    exact .inr ⟨.networkRound k false, by simp [Lifecycle.step, hin, Net.next]⟩

/-- The labels that are steps of the coarser model too: events that are no connect, and the threads' steps. -/
def Label.shared : Label → Bool
  | .event _ (.connect _) => false
  | .event _ _ | .cameraCheck _ | .cameraWait _ | .capture _ _ | .net _ _ => true
  | _ => false

/-- What the threads and picoquic's other events do to the context, they do in the coarser model, or they leave it
alone. -/
theorem shared_lifecycle {w w' : World} {l : Label} (h : Agrees w) (hl : l.shared = true)
    (hstep : w.step l = some w') : w'.ctx = w.ctx ∨ ∃ e, Lifecycle.step w.ctx e = some w'.ctx := by
  cases World.step_changed hstep with
  | connect | unanswered | joined | raised | createCamera | noCamera | createNetwork | noNetwork | giveUp | delete
  | loopReturns | freeQuic | checkUp | checkDown | joinCamera | joinNetwork | destroyCamera | freeBuffer => cases hl
  | @told c ev s hno hmain hd => exact .inr ⟨.event c ev, hd⟩
  | @cameraCheck k hk =>
    refine .inr ⟨.cameraCheck k, ?_⟩
    rcases hk.2 with hat | hat
    · simp only [Lifecycle.step, hat, World.cameraCheck]
    · simp only [Lifecycle.step, hat, World.cameraCheck]
  | cameraWait | capture => exact .inl rfl
  | @net k e hk hready =>
    have hpc : w.ctx.networks[k]? = some w.ctx.networks[k] := List.getElem?_eq_getElem hk
    exact Net.next_lifecycle hready hpc (h.networks k _ hpc)

end Mquic.Server.Teardown
