/-
The client's connection callback `client_cb` (client_main.c): one frame at a time is reassembled in
the application context, whatever stream the bytes come from.
-/
import Mquic.Lib.Varint
import Mquic.Lib.Lts

namespace Mquic.ClientMain

/-! ## State -/

/-- A block `malloc` returned: its size, and the bytes written to it so far. -/
structure Block where
  size : Nat
  data : List UInt8

/-- `memcpy` into the block. -/
def Block.write (b : Block) (off : Nat) (bytes : List UInt8) : Block :=
  { b with data := b.data.take off ++ bytes ++ b.data.drop (off + bytes.length) }

/-- `app_ctx_t`. -/
structure AppCtx where
  maxFrames : Int
  frameCount : Nat
  outDir : String
  frameBuffer : Option Block
  bufferSize : Nat
  frameSize : Nat
  receivedSize : Nat

/-- `main`'s context: zeroed but for the two options. -/
def AppCtx.init (maxFrames : Int) (outDir : String) : AppCtx := ⟨maxFrames, 0, outDir, none, 0, 0, 0⟩

/-- The callback's state: the context, the global `g_running`, the `malloc` calls made so far, the
frames completed (each with the stream whose event completed it), the files written (`frame_%04d.jpg`
by number) and the calls of `picoquic_close`. -/
structure State where
  app : AppCtx
  gRunning : Bool
  mallocs : Nat
  frames : List (Nat × List UInt8)
  files : List (Nat × List UInt8)
  closes : Nat

/-- The state before the first event. -/
def State.init (maxFrames : Int) (outDir : String) : State := ⟨AppCtx.init maxFrames outDir, true, 0, [], [], 0⟩

/-- What the callback gets from outside: picoquic's varint decoder (length and value), the outcome of
each `malloc` call, and whether the file of a frame number can be opened. -/
structure Env where
  picoquicVarintDecode : List UInt8 → Nat × Nat
  malloc : Nat → Bool
  fopen : Nat → Bool

/-- picoquic's decoder is that of RFC 9000, and gives length 0 and value 0 on truncated input. -/
def Env.Rfc9000 (env : Env) : Prop :=
  ∀ p, env.picoquicVarintDecode p =
    match Varint.decode p with
    | some (v, c) => (c, v)
    | none => (0, 0)

/-- The picoquic callback events the client tells apart. -/
inductive Event where
  | streamData (streamId : Nat) (bytes : List UInt8)
  | streamFin (streamId : Nat) (bytes : List UInt8)
  | close
  | applicationClose
  | other

/-! ## The parsing loop -/

/-- How a round of `while (p < p_max)` ends: by `break`, or with the rest of the input. -/
inductive Round where
  | brk (s : State)
  | next (s : State) (p : List UInt8)

/-- After a length varint: make room for the frame and start it. -/
def startFrame (env : Env) (s : State) : State :=
  let app := s.app
  if app.frameSize > app.bufferSize then
    if env.malloc s.mallocs then
      { s with
        app := { app with frameBuffer := some ⟨app.frameSize, []⟩, bufferSize := app.frameSize, receivedSize := 0 }
        mallocs := s.mallocs + 1 }
    else
      { s with
        app := { app with frameBuffer := none, bufferSize := 0, receivedSize := 0 }
        mallocs := s.mallocs + 1 }
  else { s with app := { app with receivedSize := 0 } }

/-- A frame is complete: count it, store it, start over, and close the connection at the limit. -/
def completeFrame (env : Env) (streamId : Nat) (s : State) (fb : Block) : State :=
  let app := s.app
  let count := app.frameCount + 1
  let frame := fb.data.take app.frameSize
  let limit : Bool := app.maxFrames > 0 ∧ (count : Int) ≥ app.maxFrames
  { s with
    app := { app with frameCount := count, frameSize := 0, receivedSize := 0 }
    frames := s.frames ++ [(streamId, frame)]
    files := if app.outDir ≠ "" ∧ env.fopen count then s.files ++ [(count, frame)] else s.files
    closes := if limit then s.closes + 1 else s.closes
    gRunning := s.gRunning && !limit }

/-- The second half of a round: copy payload into the buffer, if there is one. -/
def copyPayload (env : Env) (streamId : Nat) (s : State) (p : List UInt8) : Round :=
  match s.app.frameBuffer with
  -- without a buffer no payload is consumed
  | none => .next s p
  | some fb =>
    if 0 < s.app.frameSize then
      let toCopy :=
        if s.app.receivedSize + p.length > s.app.frameSize then s.app.frameSize - s.app.receivedSize else p.length
      let fb := fb.write s.app.receivedSize (p.take toCopy)
      let s := { s with app := { s.app with frameBuffer := some fb, receivedSize := s.app.receivedSize + toCopy } }
      let p := p.drop toCopy
      if s.app.receivedSize = s.app.frameSize then .next (completeFrame env streamId s fb) p else .next s p
    else .next s p

/-- One round of the loop on the remaining bytes `p`. -/
def round (env : Env) (streamId : Nat) (s : State) (p : List UInt8) : Round :=
  if s.app.frameSize = 0 then
    let (lenLen, frameSize) := env.picoquicVarintDecode p
    let s := { s with app := { s.app with frameSize := frameSize } }
    -- the bytes of a varint that the event cuts are dropped with the event
    if lenLen = 0 then .brk s else copyPayload env streamId (startFrame env s) (p.drop lenLen)
  else copyPayload env streamId s p

/-- The loop, for at most `fuel` rounds; `none` when it has not ended by then. -/
def loop (env : Env) (streamId : Nat) : Nat → State → List UInt8 → Option State
  | _, s, [] => some s
  | 0, _, _ :: _ => none
  | fuel + 1, s, b :: p =>
    match round env streamId s (b :: p) with
    | .brk s' => some s'
    | .next s' p' => loop env streamId fuel s' p'

/-- `client_cb`. A round that ends without `break` and without consuming a byte repeats for ever, so
one round a byte is enough for every loop that ends. -/
def clientCb (env : Env) (s : State) : Event → Option State
  | .streamData streamId bytes => loop env streamId bytes.length s bytes
  -- the bytes a stream_fin carries are not looked at
  | .streamFin _ _ => some s
  | .close | .applicationClose => some { s with app := { s.app with frameBuffer := none }, gRunning := false }
  | .other => some s

/-- The callback on a sequence of events. -/
def events (env : Env) : State → List Event → Option State := Lts.run (clientCb env)

end Mquic.ClientMain
