/-
The WebTransport receiver `wt_handle_stream_data` (wt_client.c): one record per stream in the
application's list, and a loop that reads the stream header, guesses the framing, and saves frames.
-/
import Mquic.Codec.Varint
import Mquic.Client.Jpeg
import Mquic.Lib.Lts

namespace Mquic.WtClient

open Mquic.Codec

/-! ## State -/

/-- `WT_MAX_FRAME_LEN`. -/
def wtMaxFrameLen : Nat := 32 * 1024 * 1024

/-- `wt_stream_t`; `buf` is the first `got` bytes of the C buffer, whose size is `cap`. In length framing
no more is stored than the frame needs, so that `need - got` does not underflow. -/
structure WtStream where
  streamId : Nat
  buf : List UInt8
  cap : Nat
  headerOk : Bool
  curLen : Nat
  ptsLen : Nat
  useLenFraming : Bool
  fits : useLenFraming = true → buf.length ≤ curLen - ptsLen

/-- `got`. -/
def WtStream.got (st : WtStream) : Nat := st.buf.length

/-- `payload_need`. -/
def payloadNeed (st : WtStream) : Nat := if st.curLen > st.ptsLen then st.curLen - st.ptsLen else 0

theorem payloadNeed_eq (st : WtStream) : payloadNeed st = st.curLen - st.ptsLen := by
  unfold payloadNeed; split <;> omega

/-- `app_ctx_t`. -/
structure AppCtx where
  outDir : String
  maxFrames : Int
  saved : Int
  sessionCtrlId : Nat
  streams : List WtStream

/-- A file written: the stream whose bytes it holds, its number, its content. -/
structure Saved where
  sid : Nat
  number : Int
  data : List UInt8
deriving DecidableEq

/-- The application, the global `g_running`, the calls made of the allocator and of `fopen`, the files
written, and the values the handler has returned. -/
structure State where
  app : AppCtx
  gRunning : Bool
  allocs : Nat
  fopens : Nat
  files : List Saved
  returned : List Int

/-- The outcomes of the allocator calls (`calloc`, `malloc`, `realloc`) and of the `fopen` calls. -/
structure Os where
  alloc : Nat → Bool
  fopen : Nat → Bool

/-- An application with no streams and nothing saved. -/
def State.init (outDir : String) (maxFrames : Int) (sessionCtrlId : Nat) : State :=
  ⟨⟨outDir, maxFrames, 0, sessionCtrlId, []⟩, true, 0, 0, [], []⟩

/-! ## The list of streams -/

/-- The record of a stream new to the list. -/
def WtStream.fresh (sid : Nat) : WtStream := ⟨sid, [], 1 <<< 20, false, 0, 0, false, nofun⟩

/-- `get_stream`: the first record of `sid`, or a new one at the head of the list; `none` when an
allocation fails. -/
def getStream (os : Os) (s : State) (sid : Nat) : Option WtStream × State :=
  match s.app.streams.find? (·.streamId = sid) with
  | some st => (some st, s)
  | none =>
    if os.alloc s.allocs then
      if os.alloc (s.allocs + 1) then
        let st := WtStream.fresh sid
        (some st, { s with app := { s.app with streams := st :: s.app.streams }, allocs := s.allocs + 2 })
      else (none, { s with allocs := s.allocs + 2 })
    else (none, { s with allocs := s.allocs + 1 })

/-- The list after the handler has written through its pointer to the first record of that id. -/
def putStream (st : WtStream) : List WtStream → List WtStream
  | [] => []
  | x :: xs => if x.streamId = st.streamId then st :: xs else x :: putStream st xs

/-! ## Saving -/

/-- `save_frame`. -/
def saveFrame (os : Os) (sid : Nat) (s : State) (data : List UInt8) : State :=
  if os.fopen s.fopens then
    { s with
      app := { s.app with saved := s.app.saved + 1 }
      fopens := s.fopens + 1
      files := s.files ++ [⟨sid, s.app.saved, data⟩] }
  else { s with fopens := s.fopens + 1 }

/-- `app->max_frames > 0 && app->saved >= app->max_frames`. -/
def limitReached (s : State) : Bool := s.app.maxFrames > 0 ∧ s.app.saved ≥ s.app.maxFrames

/-! ## One round of the loop -/

/-- How a round ends: with the next round on the bytes left, by `break`, or by `return`. -/
inductive Flow where
  | next (s : State) (st : WtStream) (p : List UInt8)
  | brk (s : State) (st : WtStream)
  | ret (s : State) (st : WtStream) (code : Int)

/-- The record once the header is read. -/
def WtStream.opened (st : WtStream) : WtStream :=
  { st with headerOk := true, curLen := 0, buf := [], ptsLen := 0, useLenFraming := false, fits := nofun }

/-- A) the stream header. -/
def readHeader (s : State) (st : WtStream) (p : List UInt8) : Flow :=
  match wtVarintDecode p with
  | none => .brk s st
  | some (v, cType) =>
    match wtVarintDecode (p.drop cType) with
    | none => .brk s st
    | some (sidv, cSid) =>
      -- the header is kept open: the next call starts over at its own first byte
      if v ≠ 0x54 then .ret s st (-1)
      else if sidv ≠ s.app.sessionCtrlId then .ret s st (-1)
      else .next s st.opened (p.drop (cType + cSid))

/-- The copy and the extraction of `accumulate`, once there is room. -/
def appendExtract (os : Os) (s : State) (st : WtStream) (hu : st.useLenFraming = false) (p : List UInt8) : Flow :=
  let (frames, rest) := extractJpegs (st.buf ++ p)
  let s := frames.foldl (saveFrame os st.streamId) s
  .brk { s with gRunning := s.gRunning && !limitReached s } { st with buf := rest, fits := hu ▸ nofun }

/-- D) SOI/EOI accumulation, and the same steps in B) for a length that cannot be one. -/
def accumulate (os : Os) (s : State) (st : WtStream) (hu : st.useLenFraming = false) (p : List UInt8) : Flow :=
  if st.cap < st.got + p.length then
    if os.alloc s.allocs then
      appendExtract os { s with allocs := s.allocs + 1 } { st with cap := st.got + p.length } hu p
    else .ret { s with allocs := s.allocs + 1 } st (-1)
  else appendExtract os s st hu p

/-- The bytes `receive` takes of `avail`. -/
def takeLen (st : WtStream) (avail : Nat) : Nat :=
  if payloadNeed st - st.got < avail then payloadNeed st - st.got else avail

/-- The copy of `receive`. -/
def copyPayload (st : WtStream) (p : List UInt8) : WtStream where
  streamId := st.streamId
  buf := st.buf ++ p.take (takeLen st p.length)
  cap := st.cap
  headerOk := st.headerOk
  curLen := st.curLen
  ptsLen := st.ptsLen
  useLenFraming := st.useLenFraming
  fits hu := by
    have hle := st.fits hu
    have htake : takeLen st p.length ≤ payloadNeed st - st.got := by unfold takeLen; split <;> omega
    rw [payloadNeed_eq, WtStream.got] at htake
    rw [List.length_append, List.length_take]
    omega

theorem copyPayload_buf (st : WtStream) (p : List UInt8) :
    (copyPayload st p).buf = st.buf ++ p.take (takeLen st p.length) := rfl

theorem got_le_need (st : WtStream) (hu : st.useLenFraming = true) : st.got ≤ payloadNeed st :=
  payloadNeed_eq st ▸ st.fits hu

theorem takeLen_le (st : WtStream) (n : Nat) : takeLen st n ≤ n := by
  unfold takeLen
  split <;> omega

theorem copyPayload_got (st : WtStream) (p : List UInt8) :
    (copyPayload st p).got = st.got + takeLen st p.length := by
  have hle := takeLen_le st p.length
  rw [WtStream.got, copyPayload_buf, List.length_append, List.length_take, Nat.min_eq_left hle]
  rfl

/-- The record once a frame is complete. -/
def WtStream.nextFrame (st : WtStream) : WtStream :=
  { st with curLen := 0, buf := [], ptsLen := 0, fits := fun _ => Nat.zero_le _ }

/-- The record that leaves length framing. -/
def WtStream.unframed (st : WtStream) : WtStream := { st with useLenFraming := false, fits := nofun }

/-- C) payload of a frame with a declared length. -/
def receive (os : Os) (s : State) (st : WtStream) (p : List UInt8) : Flow :=
  -- a length that the PTS uses up: from now on JPEG data, with `cur_len` still set
  if payloadNeed st = 0 then .next s st.unframed p
  else
    let st1 := copyPayload st p
    let p1 := p.drop (takeLen st p.length)
    if st1.got = payloadNeed st then
      let s1 := saveFrame os st.streamId s st1.buf
      if limitReached s1 then .ret { s1 with gRunning := false } st1 0
      else .next s1 st1.nextFrame p1
    else .next s st1 p1

/-- The width of the PTS varint the receiver takes to follow a length. -/
def ptsWidth (p : List UInt8) : Nat :=
  match wtVarintDecode p with
  | some (_, c2) => c2
  | none => 0

/-- The record of a frame whose length `fl` was just read, with `p` behind it. -/
def WtStream.framed (st : WtStream) (fl : Nat) (p : List UInt8) : WtStream :=
  { st with curLen := fl, buf := [], ptsLen := ptsWidth p, useLenFraming := true, fits := fun _ => Nat.zero_le _ }

/-- B) a length is adopted: the optional PTS varint, and room for the payload; then C). -/
def adopt (os : Os) (s : State) (st : WtStream) (fl : Nat) (p : List UInt8) : Flow :=
  let st1 := st.framed fl p
  if payloadNeed st1 > st1.cap then
    if os.alloc s.allocs then
      receive os { s with allocs := s.allocs + 1 } { st1 with cap := payloadNeed st1 } (p.drop (ptsWidth p))
    else .ret { s with allocs := s.allocs + 1 } st1 (-1)
  else receive os s st1 (p.drop (ptsWidth p))

/-- A length the receiver does not believe. -/
def BadLength (n : Nat) : Prop := n = 0 ∨ n > wtMaxFrameLen

instance (n : Nat) : Decidable (BadLength n) := inferInstanceAs (Decidable (_ ∨ _))

/-- B) detect the framing. -/
def detect (os : Os) (s : State) (st : WtStream) (hu : st.useLenFraming = false) (p : List UInt8) : Flow :=
  let needLen := 1 <<< ((p.getD 0 0 &&& 0xC0).toNat >>> 6)
  if p.length < needLen then .brk s st
  else
    match wtVarintDecode p with
    | none => .brk s st
    -- the varint of a length that is not believed stays in the JPEG data
    | some (fl, c) => if BadLength fl then accumulate os s st hu p else adopt os s st fl (p.drop c)

/-- One round on the bytes left. -/
def round (os : Os) (s : State) (st : WtStream) (p : List UInt8) : Flow :=
  if !st.headerOk then readHeader s st p
  else
    match hu : st.useLenFraming with
    | false => if st.curLen = 0 then detect os s st hu p else accumulate os s st hu p
    | true => receive os s st p

/-! ## The handler -/

/-- The loop, for at most `fuel` rounds: state, record and return value; `none` when it has not ended
by then. -/
def loop (os : Os) : Nat → State → WtStream → List UInt8 → Option (State × WtStream × Int)
  | _, s, st, [] => some (s, st, 0)
  | 0, _, _, _ :: _ => none
  | fuel + 1, s, st, b :: p =>
    match round os s st (b :: p) with
    | .next s st p => loop os fuel s st p
    | .brk s st => some (s, st, 0)
    | .ret s st code => some (s, st, code)

/-- `wt_handle_stream_data`, with room for every round the loop can take. -/
def wtHandleStreamData (os : Os) (s : State) (sid : Nat) (bytes : List UInt8) : Option (State × Int) :=
  match getStream os s sid with
  | (none, s) => some (s, -1)
  | (some st, s) =>
    (loop os (2 * bytes.length + 3) s st bytes).map fun (s, st, code) =>
      ({ s with app := { s.app with streams := putStream st s.app.streams } }, code)

/-- One call, its result noted. -/
def call (os : Os) (s : State) (c : Nat × List UInt8) : Option State :=
  (wtHandleStreamData os s c.1 c.2).map fun (s, code) => { s with returned := s.returned ++ [code] }

/-- A sequence of calls. -/
def calls (os : Os) : State → List (Nat × List UInt8) → Option State := Lts.run (call os)

/-! ## Observations -/

/-- The record of a stream. -/
def State.record (s : State) (sid : Nat) : Option WtStream := s.app.streams.find? (·.streamId = sid)

/-- The payloads saved on behalf of a stream, in order. -/
def State.savedFor (s : State) (sid : Nat) : List (List UInt8) := (s.files.filter (·.sid = sid)).map (·.data)

/-- Allocation and file writes succeed. -/
def Os.Succeeds (os : Os) : Prop := (∀ i, os.alloc i = true) ∧ ∀ i, os.fopen i = true

/-- The outcomes without any failure. -/
def Os.sound : Os := ⟨fun _ => true, fun _ => true⟩

theorem Os.sound_succeeds : Os.sound.Succeeds := ⟨fun _ => rfl, fun _ => rfl⟩

end Mquic.WtClient
