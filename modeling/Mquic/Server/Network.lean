/-
The network thread of the server (network_thread_func, quic_server.c) as a step function: path choice, the
streams bound to paths by `ensure_stream_for_path`, the frame being sent, keep-alive and the closing FINs.
What picoquic answers, the path tables it shows, the frames that are ready and the stop requests are labels.
-/
import Mquic.Server.Path
import Mquic.Server.Wire
import Mquic.Lib.Lts

namespace Mquic.Server.Network

open Mquic.Codec

/-- `MAX_PATHS`. -/
def maxPaths : Nat := 8

/-- `ONE_SECOND_US`. -/
def oneSecondUs : Nat := 1000000

/-! ## State -/

/-- `mp_binding_t`. -/
structure MpBinding where
  pathIdx : Nat
  sid : Nat
  ready : Bool
deriving DecidableEq

/-- One call of `picoquic_add_to_stream` by `send_with_pacing` on `path`. `opens` is history: the call is the
header of `ensure_stream_for_path`. -/
structure Write where
  path : Option Path
  sid : Nat
  bytes : List UInt8
  setFin : Bool
  accepted : Bool
  opens : Bool
deriving DecidableEq

/-- The frame being sent: `send_idx`, `send_path`, `sid_for_path`, `fb_sz`, and the `sent` bytes of it. -/
structure Sending where
  idx : Nat
  path : Option Path
  sid : Nat
  fbSz : Nat
  payload : List UInt8
deriving DecidableEq

/-- Where the thread is. -/
inductive Pc where
  | pickFirst
  | openFirst
  | head
  | pickProbe
  | openProbe (probeIdx : Nat)
  | pickSend
  | serve (sendIdx : Nat)
  | idle
  | length (x : Sending)
  | payload (x : Sending)
  | piece (x : Sending)
  | tail
  | finish
  | over
deriving DecidableEq

/-- What the thread reads and writes of `streamer_context_t`, its locals, the streams pinned to a path by
`picoquic_set_stream_path_affinity`, and as history its writes and the record the run ended inside. -/
structure State where
  isSending : Bool
  frameCount : Nat
  maxFrames : Nat
  controlStreamId : Nat
  algo : Option PathAlgo
  bind : Nat → MpBinding
  curIdx : Nat
  curPath : Option Path
  lastActivityUs : Nat
  pc : Pc
  affinity : List (Nat × Nat)
  writes : List Write
  cut : Option Sending

/-- The thread after `path_algo_create` and the `memset` of `bind`, whatever lies behind the array. -/
def State.enter (allocated : Bool) (behind : Nat → MpBinding) (controlStreamId maxFrames : Nat) : State where
  isSending := true
  frameCount := 0
  maxFrames := maxFrames
  controlStreamId := controlStreamId
  algo := pathAlgoCreate allocated
  bind i := if i < maxPaths then ⟨0, 0, false⟩ else behind i
  curIdx := 0
  curPath := none
  lastActivityUs := 0
  pc := .pickFirst
  affinity := []
  writes := []
  cut := none

/-! ## Streams bound to paths -/

/-- What picoquic answers to `ensure_stream_for_path`: its next stream id, and whether it takes the header. -/
structure Opening where
  sid : Nat
  accepted : Bool
deriving DecidableEq

def State.write (s : State) (w : Write) : State := { s with writes := s.writes ++ [w] }

def headerWrite (s : State) (path : Path) (o : Opening) : Write :=
  ⟨some path, o.sid, wtHeader s.controlStreamId, false, o.accepted, true⟩

/-- The header is out: the stream is pinned to the path and bound to its index. -/
def State.bound (s : State) (pidx : Nat) (path : Path) (o : Opening) : State :=
  { s with
    writes := s.writes ++ [headerWrite s path o]
    affinity := s.affinity ++ [(o.sid, path.uniquePathId)]
    bind := Function.update s.bind pidx ⟨pidx, o.sid, true⟩ }

/-- `ensure_stream_for_path`, and whether it returned 0. Its callers pass no negative index. -/
def ensureStreamForPath (s : State) (paths : Paths) (pidx : Nat) (o : Opening) : State × Bool :=
  if paths.length ≤ pidx ∨ maxPaths ≤ pidx then (s, false)
  -- a binding stays with its index, whatever path the table has there now
  else if (s.bind pidx).ready then (s, true)
  else
    match paths.at pidx with
    | none => (s, false)
    | some path =>
      -- not verified yet
      if path.firstTuple ≠ some true then (s, false)
      else if o.sid % 4 ≠ 3 then (s, false)
      else if o.accepted then (s.bound pidx path o, true)
      else (s.write (headerWrite s path o), false)

/-- What `ensure_stream_for_path` can do: nothing, have its header refused, or open a stream on the path that is
at the index. -/
theorem ensure_cases (s : State) (paths : Paths) (idx : Nat) (o : Opening) :
    (ensureStreamForPath s paths idx o).1 = s ∨
    (∃ path, o.accepted = false ∧ (ensureStreamForPath s paths idx o).1 = s.write (headerWrite s path o)) ∨
    (∃ path, (o.accepted = true ∧ idx < maxPaths ∧ paths.at idx = some path) ∧
      (ensureStreamForPath s paths idx o).1 = s.bound idx path o) := by
  unfold ensureStreamForPath
  by_cases hidx : paths.length ≤ idx ∨ maxPaths ≤ idx
  · exact .inl (by rw [if_pos hidx])
  rw [if_neg hidx]
  by_cases hready : (s.bind idx).ready = true
  · exact .inl (by rw [if_pos hready])
  rw [if_neg hready]
  cases hp : paths.at idx with
  | none => exact .inl rfl
  | some path =>
    by_cases hv : path.firstTuple ≠ some true
    · exact .inl (by simp only [if_pos hv])
    by_cases hu : o.sid % 4 ≠ 3
    · exact .inl (by simp only [if_neg hv, if_pos hu])
    cases ha : o.accepted with
    | false => exact .inr (.inl ⟨path, rfl, by simp only [if_neg hv, if_neg hu, Bool.false_eq_true, if_false]⟩)
    | true =>
      exact .inr (.inr ⟨path, ⟨rfl, by omega, rfl⟩, by simp only [if_neg hv, if_neg hu, if_true]⟩)

/-- `finish_all_bindings`: a FIN on every bound stream within the table. -/
def finishAllBindings (s : State) (paths : Paths) (accepted : Nat → Bool) : List Write :=
  ((List.range (min maxPaths paths.length)).filter fun i => (s.bind i).ready).map fun i =>
    ⟨paths.at (s.bind i).pathIdx, (s.bind i).sid, [], true, accepted i, false⟩

/-! ## Steps -/

/-- The labels. Each takes what its step reads from outside: the path table at that moment, picoquic's
answers, the clock, the size of a ready frame, the bytes read from the frame buffer. -/
inductive Step where
  | pickFirst (paths : Paths)
  | openFirst (paths : Paths) (o : Opening) (nowUs : Nat)
  | head (disconnecting : Bool)
  | pickProbe (paths : Paths) (nowUs : Nat)
  | openProbe (paths : Paths) (o : Opening) (accepted : Bool)
  | pickSend (paths : Paths)
  | serve (paths : Paths) (o : Opening) (frame : Option Nat)
  | idle (paths : Paths) (o : Opening) (accepted : Bool) (nowUs : Nat)
  | sendLength (accepted : Bool)
  | checkPayload (nowUs : Nat)
  | sendPiece (bytes : List UInt8) (accepted : Bool) (nowUs : Nat)
  | tail
  | finish (paths : Paths) (accepted : Nat → Bool)
  | stopRequest

/-- A path index that `path_algo_pick_send_path` returned, or `cur` when it is not in the table. -/
def clampIdx (idx : Int) (paths : Paths) (cur : Nat) : Nat :=
  if idx < 0 ∨ (paths.length : Int) ≤ idx then cur else idx.toNat

def pickFirst (s : State) (paths : Paths) : State :=
  let r := pathAlgoPickSendPath s.algo paths
  { s with algo := r.1, curIdx := clampIdx r.2 paths 0, pc := .openFirst }

def openFirst (s : State) (paths : Paths) (o : Opening) (nowUs : Nat) : State :=
  { (ensureStreamForPath s paths s.curIdx o).1 with
    curPath := paths.at s.curIdx, lastActivityUs := nowUs, pc := .head }

def head (s : State) (disconnecting : Bool) : State :=
  { s with pc := if s.isSending && !disconnecting then .pickProbe else .finish }

def pickProbe (s : State) (paths : Paths) (nowUs : Nat) : State :=
  let r := pathAlgoPickProbePath s.algo paths nowUs
  { s with
    algo := r.1
    pc := if 0 ≤ r.2 ∧ r.2 < paths.length ∧ r.2 < maxPaths then .openProbe r.2.toNat else .pickSend }

/-- An empty write on the stream bound to `idx`. -/
def touch (s : State) (idx : Nat) (path : Option Path) (accepted : Bool) : State :=
  s.write ⟨path, (s.bind idx).sid, [], false, accepted, false⟩

def openProbe (s : State) (paths : Paths) (idx : Nat) (o : Opening) (accepted : Bool) : State :=
  let r := ensureStreamForPath s paths idx o
  { (if r.2 then touch r.1 idx (paths.at idx) accepted else r.1) with pc := .pickSend }

def pickSend (s : State) (paths : Paths) : State :=
  let r := pathAlgoPickSendPath s.algo paths
  { s with algo := r.1, pc := .serve (clampIdx r.2 paths s.curIdx) }

/-- A ready frame is taken whatever `ensure_stream_for_path` returned. -/
def serve (s : State) (paths : Paths) (idx : Nat) (o : Opening) (frame : Option Nat) : State :=
  let s' := (ensureStreamForPath s paths idx o).1
  { s' with
    pc := match frame with
      | some fbSz => .length ⟨idx, paths.at idx, (s'.bind idx).sid, fbSz, []⟩
      | none => .idle }

/-- Keep-alive on the path last used, once a second. -/
def idle (s : State) (paths : Paths) (o : Opening) (accepted : Bool) (nowUs : Nat) : State :=
  if usSub nowUs s.lastActivityUs > oneSecondUs then
    { (if (s.bind s.curIdx).ready then touch s s.curIdx s.curPath accepted
        else (ensureStreamForPath s paths s.curIdx o).1) with lastActivityUs := nowUs, pc := .tail }
  else { s with pc := .tail }

/-- A write of the frame `x`. -/
def frameWrite (x : Sending) (bytes : List UInt8) (accepted : Bool) : Write :=
  ⟨x.path, x.sid, bytes, false, accepted, false⟩

/-- The length varint; when it is refused the run ends here. -/
def sendLength (s : State) (x : Sending) (accepted : Bool) : State :=
  if accepted then { s.write (frameWrite x (quicVarintEncode x.fbSz) true) with pc := .payload x }
  else { s.write (frameWrite x (quicVarintEncode x.fbSz) false) with isSending := false, pc := .finish }

/-- Behind the payload loop. -/
def leavePayload (s : State) (x : Sending) (nowUs : Nat) : State :=
  { s with
    frameCount := s.frameCount + 1
    lastActivityUs := nowUs
    curIdx := x.idx
    curPath := x.path
    pc := .tail
    -- the frame counts as sent, cut or not
    cut := if x.payload.length < x.fbSz then some x else s.cut }

def checkPayload (s : State) (x : Sending) (nowUs : Nat) : State :=
  if x.payload.length < x.fbSz ∧ s.isSending = true then { s with pc := .piece x } else leavePayload s x nowUs

/-- `x` with one more piece sent. -/
def Sending.add (x : Sending) (bytes : List UInt8) : Sending := { x with payload := x.payload ++ bytes }

def State.stopped (s : State) : State := { s with isSending := false }

/-- One piece of the payload; when it is refused the frame stays cut and the run ends. -/
def sendPiece (s : State) (x : Sending) (bytes : List UInt8) (accepted : Bool) (nowUs : Nat) : State :=
  if accepted then
    { s.write (frameWrite x bytes true) with algo := pathAlgoOnSent s.algo x.idx, pc := .payload (x.add bytes) }
  else leavePayload (s.write (frameWrite x bytes false)).stopped x nowUs

def tail (s : State) : State := { s with pc := if s.maxFrames ≤ s.frameCount then .finish else .head }

def finish (s : State) (paths : Paths) (accepted : Nat → Bool) : State :=
  { s with writes := s.writes ++ finishAllBindings s paths accepted, pc := .over }

/-- A ready frame has a size the camera thread publishes. -/
def ReadySize : Option Nat → Prop
  | some fbSz => 0 < fbSz ∧ fbSz ≤ frameBufferBytes
  | none => True

instance : ∀ frame, Decidable (ReadySize frame)
  | some _ => inferInstanceAs (Decidable (_ ∧ _))
  | none => isTrue trivial

/-- The thread's steps, each enabled where it stands before it, and a stop request at any time. -/
def step (s : State) : Step → Option State
  | .pickFirst paths => match s.pc with
    | .pickFirst => some (pickFirst s paths)
    | _ => none
  | .openFirst paths o nowUs => match s.pc with
    | .openFirst => some (openFirst s paths o nowUs)
    | _ => none
  | .head disconnecting => match s.pc with
    | .head => some (head s disconnecting)
    | _ => none
  | .pickProbe paths nowUs => match s.pc with
    | .pickProbe => some (pickProbe s paths nowUs)
    | _ => none
  | .openProbe paths o accepted => match s.pc with
    | .openProbe idx => some (openProbe s paths idx o accepted)
    | _ => none
  | .pickSend paths => match s.pc with
    | .pickSend => some (pickSend s paths)
    | _ => none
  | .serve paths o frame => match s.pc with
    | .serve idx => if ReadySize frame then some (serve s paths idx o frame) else none
    | _ => none
  | .idle paths o accepted nowUs => match s.pc with
    | .idle => some (idle s paths o accepted nowUs)
    | _ => none
  | .sendLength accepted => match s.pc with
    | .length x => some (sendLength s x accepted)
    | _ => none
  | .checkPayload nowUs => match s.pc with
    | .payload x => some (checkPayload s x nowUs)
    | _ => none
  | .sendPiece bytes accepted nowUs => match s.pc with
    | .piece x =>
      if bytes.length = pieceLen (x.fbSz - x.payload.length) then some (sendPiece s x bytes accepted nowUs) else none
    | _ => none
  | .tail => match s.pc with
    | .tail => some (tail s)
    | _ => none
  | .finish paths accepted => match s.pc with
    | .finish => some (finish s paths accepted)
    | _ => none
  | .stopRequest => some s.stopped

/-- The steps with what they need of the state before and what they make of it. -/
inductive Moved (s : State) : Step → State → Prop where
  | pickFirst {paths : Paths} (hpc : s.pc = .pickFirst) : Moved s (.pickFirst paths) (pickFirst s paths)
  | openFirst {paths : Paths} {o : Opening} {nowUs : Nat} (hpc : s.pc = .openFirst) :
    Moved s (.openFirst paths o nowUs) (openFirst s paths o nowUs)
  | head {disconnecting : Bool} (hpc : s.pc = .head) : Moved s (.head disconnecting) (head s disconnecting)
  | pickProbe {paths : Paths} {nowUs : Nat} (hpc : s.pc = .pickProbe) :
    Moved s (.pickProbe paths nowUs) (pickProbe s paths nowUs)
  | openProbe {paths : Paths} {o : Opening} {accepted : Bool} {idx : Nat} (hpc : s.pc = .openProbe idx) :
    Moved s (.openProbe paths o accepted) (openProbe s paths idx o accepted)
  | pickSend {paths : Paths} (hpc : s.pc = .pickSend) : Moved s (.pickSend paths) (pickSend s paths)
  | serve {paths : Paths} {o : Opening} {frame : Option Nat} {idx : Nat} (hpc : s.pc = .serve idx)
    (hsz : ReadySize frame) : Moved s (.serve paths o frame) (serve s paths idx o frame)
  | idle {paths : Paths} {o : Opening} {accepted : Bool} {nowUs : Nat} (hpc : s.pc = .idle) :
    Moved s (.idle paths o accepted nowUs) (idle s paths o accepted nowUs)
  | sendLength {accepted : Bool} {x : Sending} (hpc : s.pc = .length x) :
    Moved s (.sendLength accepted) (sendLength s x accepted)
  | checkPayload {nowUs : Nat} {x : Sending} (hpc : s.pc = .payload x) :
    Moved s (.checkPayload nowUs) (checkPayload s x nowUs)
  | sendPiece {bytes : List UInt8} {accepted : Bool} {nowUs : Nat} {x : Sending} (hpc : s.pc = .piece x)
    (hlen : bytes.length = pieceLen (x.fbSz - x.payload.length)) :
    Moved s (.sendPiece bytes accepted nowUs) (sendPiece s x bytes accepted nowUs)
  | tail (hpc : s.pc = .tail) : Moved s .tail (tail s)
  | finish {paths : Paths} {accepted : Nat → Bool} (hpc : s.pc = .finish) :
    Moved s (.finish paths accepted) (finish s paths accepted)
  | stopRequest : Moved s .stopRequest s.stopped

theorem step_moved {s s' : State} {e : Step} (h : step s e = some s') : Moved s e s' := by
  cases e with
  | pickFirst paths =>
    simp only [step] at h
    split at h <;> cases h
    exact .pickFirst ‹_›
  | openFirst paths o nowUs =>
    simp only [step] at h
    split at h <;> cases h
    exact .openFirst ‹_›
  | head disconnecting =>
    simp only [step] at h
    split at h <;> cases h
    exact .head ‹_›
  | pickProbe paths nowUs =>
    simp only [step] at h
    split at h <;> cases h
    exact .pickProbe ‹_›
  | openProbe paths o accepted =>
    simp only [step] at h
    split at h <;> cases h
    exact .openProbe ‹_›
  | pickSend paths =>
    simp only [step] at h
    split at h <;> cases h
    exact .pickSend ‹_›
  | serve paths o frame =>
    simp only [step] at h
    split at h
    · split at h <;> cases h
      exact .serve ‹_› ‹_›
    · cases h
  | idle paths o accepted nowUs =>
    simp only [step] at h
    split at h <;> cases h
    exact .idle ‹_›
  | sendLength accepted =>
    simp only [step] at h
    split at h <;> cases h
    exact .sendLength ‹_›
  | checkPayload nowUs =>
    simp only [step] at h
    split at h <;> cases h
    exact .checkPayload ‹_›
  | sendPiece bytes accepted nowUs =>
    simp only [step] at h
    split at h
    · split at h <;> cases h
      exact .sendPiece ‹_› ‹_›
    · cases h
  | tail =>
    simp only [step] at h
    split at h <;> cases h
    exact .tail ‹_›
  | finish paths accepted =>
    simp only [step] at h
    split at h <;> cases h
    exact .finish ‹_›
  | stopRequest =>
    cases h
    exact .stopRequest

end Mquic.Server.Network
