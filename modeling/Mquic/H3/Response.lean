/-
The server's answer to a CONNECT request: the 200 response `camera_path_callback` sends
(h3_send_status_200_headers, pico_webtransport.c), the one `h3zero_process_request_frame` sends after it
(h3zero_common.c), and what a client's parser makes of the two.
-/
import Mquic.H3.Chunks
import Mquic.Server.Lifecycle

namespace Mquic.H3

open Mquic.Server.Lifecycle (State Cnx Connect cameraPathCallback)

/-! ## The callback's response -/

/-- `wt_varint_encode` into `cap` bytes; nothing where it returns 0. -/
def wtVarintEncode (v cap : Nat) : List UInt8 :=
  if v ≤ 0x3F then
    if cap < 1 then [] else [UInt8.ofNat v]
  else if v ≤ 0x3FFF then
    if cap < 2 then [] else [UInt8.ofNat (0x40 ||| v >>> 8 &&& 0x3F), UInt8.ofNat v]
  else if v ≤ 0x3FFFFFFF then
    if cap < 4 then []
    else [UInt8.ofNat (0x80 ||| v >>> 24 &&& 0x3F), UInt8.ofNat (v >>> 16), UInt8.ofNat (v >>> 8), UInt8.ofNat v]
  else if cap < 8 then []
  else
    [UInt8.ofNat (0xC0 ||| v >>> 56 &&& 0x3F), UInt8.ofNat (v >>> 48), UInt8.ofNat (v >>> 40), UInt8.ofNat (v >>> 32),
      UInt8.ofNat (v >>> 24), UInt8.ofNat (v >>> 16), UInt8.ofNat (v >>> 8), UInt8.ofNat v]

/-- A varint behind the bytes `out` of a buffer of `cap` bytes. -/
def putVarint (cap v : Nat) (out : List UInt8) : Option (List UInt8) :=
  let w := wtVarintEncode v (cap - out.length)
  if w = [] then none else some (out ++ w)

/-- A copy of `bytes` there. -/
def putBytes (cap : Nat) (bytes out : List UInt8) : Option (List UInt8) :=
  if cap - out.length < bytes.length then none else some (out ++ bytes)

/-- `qpack_min_status_200`. -/
def qpackMinStatus200 (cap : Nat) : Option (List UInt8) :=
  putVarint cap 0 [] >>= putVarint cap 0 >>= putBytes cap [0x10] >>= putVarint cap (ascii ":status").length >>=
    putBytes cap (ascii ":status") >>= putVarint cap (ascii "200").length >>= putBytes cap (ascii "200")

/-- `h3_send_status_200_headers`: the bytes given to `picoquic_add_to_stream`. -/
def h3SendStatus200Headers : Option (List UInt8) :=
  qpackMinStatus200 256 >>= fun block =>
    putVarint 300 0x1 [] >>= putVarint 300 block.length >>= putBytes 300 block

/-! ## The response of the HTTP/3 layer -/

/-- `h3zero_qpack_int_encode` behind its first byte, in `room` bytes. -/
def qpackIntEncodeRest : Nat → Nat → Option (List UInt8)
  | 0, _ => none
  | room + 1, val =>
    if val ≥ 0x80 then
      (qpackIntEncodeRest room (val >>> 7)).map (UInt8.ofNat (0x80 ||| (val &&& 0x7F)) :: ·)
    else some [UInt8.ofNat val]

/-- `h3zero_qpack_code_encode` behind the bytes `out` of a buffer of `cap` bytes. -/
def qpackCodeEncode (cap : Nat) (pre mask : UInt8) (code : Nat) (out : List UInt8) : Option (List UInt8) :=
  if out.length + 1 > cap then none
  else if code < mask.toNat then some (out ++ [pre ||| UInt8.ofNat code])
  else (qpackIntEncodeRest (cap - (out.length + 1)) (code - mask.toNat)).map fun w => out ++ (pre ||| mask) :: w

/-- `h3zero_qpack_literal_plus_ref_encode`. -/
def qpackLiteralPlusRefEncode (cap code : Nat) (val out : List UInt8) : Option (List UInt8) :=
  qpackCodeEncode cap 0x50 0x0F code out >>= qpackCodeEncode cap 0x00 0x7F val.length >>= fun out =>
    if out.length + val.length > cap then none else some (out ++ val)

/-- `h3zero_encode_content_type`. -/
def encodeContentType (cap : Nat) (t : ContentType) (out : List UInt8) : Option (List UInt8) :=
  match qpackStatic.findIdx? fun e => e.header = .contentType ∧ e.enumAsInt = t.code with
  | none => none
  | some code => qpackCodeEncode cap 0xC0 0x3F code out

def h3zeroQpackCode404 : Nat := 27
def h3zeroQpackCode200 : Nat := 25
def h3zeroQpackAllowGet : Nat := 76
def h3zeroQpackServer : Nat := 92

/-- `H3ZERO_USER_AGENT_STRING`. -/
def h3zeroUserAgentString : List UInt8 := ascii "H3Zero/1.0"

/-- `h3zero_create_response_header_frame`, in `cap` bytes. -/
def createResponseHeaderFrame (cap : Nat) (docType : ContentType) : Option (List UInt8) :=
  if 2 > cap then none
  else
    qpackCodeEncode cap 0xC0 0x3F h3zeroQpackCode200 [0, 0] >>=
      qpackLiteralPlusRefEncode cap h3zeroQpackServer h3zeroUserAgentString >>= fun out =>
        if docType ≠ .none then encodeContentType cap docType out else some out

/-- `h3zero_create_error_frame`, in `cap` bytes, with the user agent for the server. -/
def createErrorFrame (cap : Nat) (errorCode : String) : Option (List UInt8) :=
  if 2 > cap then none
  else
    (if errorCode = "404" then qpackCodeEncode cap 0xC0 0x3F h3zeroQpackCode404 [0, 0]
      else
        (qpackCodeEncode cap 0x50 0x0F h3zeroQpackCode404 [0, 0]).map fun out =>
          if out.length + 4 ≤ cap then out ++ 3 :: (ascii errorCode).take 3 else out) >>=
      qpackLiteralPlusRefEncode cap h3zeroQpackServer h3zeroUserAgentString >>= fun out =>
        if errorCode = "405" then
          qpackLiteralPlusRefEncode cap h3zeroQpackAllowGet (ascii "GET, POST, CONNECT") out
        else some out

/-- The entry of `path_item_list`. -/
def pathTable : List (List UInt8) := [ascii "/camera"]

/-- `h3zero_find_path_item`. -/
def findPathItem (path : List UInt8) (table : List (List UInt8)) : Option Nat :=
  table.findIdx? fun item =>
    path.length ≥ item.length ∧ path.take item.length = item ∧
      (path.length = item.length ∨ path.getD item.length 0 = 0x3F)

/-- The stream of a CONNECT request: its path, whether it has a callback, and `is_upgraded`. -/
structure RequestStream where
  path : List UInt8
  hasCallback : Bool
  isUpgraded : Bool

/-- What the server did on the stream: the bytes written, and whether it was finished or reset. -/
structure Reply where
  written : List UInt8
  fin : Bool
  reset : Bool

/-- The end of `h3zero_process_request_frame` where there is no body. `oBytes` is what stands in the buffer
behind the three bytes of the frame header, `accepts` the result of `picoquic_add_to_stream_with_ctx`. -/
def sendReply (written : List UInt8) (oBytes : Option (List UInt8)) (isUpgraded accepts : Bool) : Reply :=
  match oBytes with
  | none => ⟨written, false, true⟩
  | some block =>
    let buffer := UInt8.ofNat h3zeroFrameHeader :: (UInt8.ofNat (block.length >>> 8) ||| 0x40) ::
      UInt8.ofNat (block.length &&& 0xFF) :: block
    if accepts then ⟨written ++ buffer, !isUpgraded, false⟩ else ⟨written, false, true⟩

/-- `h3zero_process_request_frame` on a CONNECT: the streamer context and the reply. The frame is built in a
buffer of 1024 bytes. -/
def processRequestFrame (s : State) (c : Cnx) (stream : RequestStream) (r : Connect) (accepts : Bool) : State × Reply :=
  if stream.hasCallback then
    -- a duplicate request: nothing was put into the frame, but it is sent
    (s, sendReply [] (some []) stream.isUpgraded accepts)
  else
    match findPathItem stream.path pathTable with
    | none => (s, sendReply [] (createErrorFrame 1021 "404") stream.isUpgraded accepts)
    | some _ =>
      let written := if r.sent200 then h3SendStatus200Headers.getD [] else []
      let (s', ret) := cameraPathCallback s c r
      if ret ≠ 0 then (s', sendReply written (createErrorFrame 1021 "501") stream.isUpgraded accepts)
      else (s', sendReply written (createResponseHeaderFrame 1021 .none) true accepts)

/-! ## What the client makes of it -/

/-- `bytes` are one HEADERS frame. -/
def OneHeadersFrame (bytes : List UInt8) : Prop :=
  ∃ l block, bytes = l ++ block ∧ frameHeaderOf l = some (h3zeroFrameHeader, block.length, l.length)

/-- `bytes` are one HEADERS frame that a client accepts, in any chunks, with a 2xx status. -/
def Answered (mem : Mem) (bytes : List UInt8) : Prop :=
  OneHeadersFrame bytes ∧ ∀ chunks : List (List UInt8), chunks.flatten = bytes →
    ∃ rx, receiveAll mem .fresh chunks = .ok rx ∧ 200 ≤ rx.state.header.status ∧ rx.state.header.status < 300

/-- The block of the callback's response. -/
def status200Block : List UInt8 := [0, 0, 0x10, 7] ++ ascii ":status" ++ [3] ++ ascii "200"

/-- The block of the HTTP/3 layer's response. -/
def okBlock : List UInt8 := [0, 0, 0xD9, 0x5F, 0x4D, 10] ++ h3zeroUserAgentString

theorem h3SendStatus200Headers_eq : h3SendStatus200Headers = some ([1, 15] ++ status200Block) := by decide

theorem createResponseHeaderFrame_eq : createResponseHeaderFrame 1021 .none = some okBlock := by decide

/-- The field line of the one begins with an opcode that QPACK does not have. -/
theorem status200Block_refused (mem : Mem) : (parseQpackHeaderFrame mem status200Block).1 = none := rfl

/-- The other is well formed. -/
theorem okBlock_parses (mem : Mem) :
    parseQpackHeaderFrame mem okBlock = (some [], { HeaderParts.zero with status := 200 }) := rfl

/-- The callback accepts a request only after it queued its response. -/
theorem sent200_of_accepted {s : State} {c : Cnx} {r : Connect} (hret : (cameraPathCallback s c r).2 = 0) :
    r.sent200 = true := by
  by_contra hsent
  unfold cameraPathCallback at hret
  rw [if_neg hsent] at hret
  cases hret

/-- An accepted request is answered by the callback and, unless picoquic refuses it, once more. -/
theorem accepted_written {s : State} {c : Cnx} {stream : RequestStream} {r : Connect}
    (hfresh : stream.hasCallback = false) (hpath : (findPathItem stream.path pathTable).isSome)
    (hret : (cameraPathCallback s c r).2 = 0) (accepts : Bool) :
    (processRequestFrame s c stream r accepts).2.written =
      [1, 15] ++ (status200Block ++ if accepts then [1, 0x40, 16] ++ okBlock else []) := by
  obtain ⟨item, hitem⟩ := Option.isSome_iff_exists.1 hpath
  unfold processRequestFrame
  rw [hfresh, hitem, if_neg Bool.false_ne_true]
  simp only [hret, sent200_of_accepted hret, if_true, ne_eq, not_true_eq_false, if_false, h3SendStatus200Headers_eq,
    createResponseHeaderFrame_eq, Option.getD_some]
  cases accepts
  · rfl
  · rfl

/-- Whatever is written behind it, the callback's response fails the stream, in any chunks. -/
theorem status200_refused (mem : Mem) (rest : List UInt8) {chunks : List (List UInt8)}
    (hchunks : chunks.flatten = [1, 15] ++ (status200Block ++ rest)) :
    ∃ code, receiveAll mem .fresh chunks = .error code := by
  have hheader : frameHeaderOf [1, 15] = some (h3zeroFrameHeader, status200Block.length, 2) := by decide
  have hne : status200Block ≠ [] := nofun
  exact headers_rejected mem hheader hne (by decide) (status200Block_refused mem) hchunks

/-- The HTTP/3 layer's response alone would do. -/
theorem ok_answers {mem : Mem} (hmalloc : mem.malloc okBlock.length = true) :
    Answered mem ([1, 0x40, 16] ++ okBlock) := by
  have hheader : frameHeaderOf [1, 0x40, 16] = some (h3zeroFrameHeader, okBlock.length, 3) := by decide
  constructor
  · exact ⟨_, _, rfl, hheader⟩
  · intro chunks hchunks
    have hreceive := receive_headers mem hheader nofun (by decide) []
    rw [List.append_nil, if_pos hmalloc, okBlock_parses, if_pos rfl, receive_nil] at hreceive
    refine ⟨_, (receiveAll_eq mem chunks .fresh).trans (hchunks ▸ hreceive), ?_, ?_⟩
    · exact (by decide : (200 : Int) ≤ 200)
    · exact (by decide : (200 : Int) < 300)

/-- No accepted CONNECT is answered: the client refuses the bytes in any chunks. -/
theorem connect_unanswered (mem : Mem) {s : State} {c : Cnx} {stream : RequestStream} {r : Connect}
    (hfresh : stream.hasCallback = false) (hpath : (findPathItem stream.path pathTable).isSome)
    (hret : (cameraPathCallback s c r).2 = 0) (accepts : Bool) :
    ¬ Answered mem (processRequestFrame s c stream r accepts).2.written ∧
      ∀ chunks : List (List UInt8), chunks.flatten = (processRequestFrame s c stream r accepts).2.written →
        ∃ code, receiveAll mem .fresh chunks = .error code := by
  rw [accepted_written hfresh hpath hret]
  constructor
  · rintro ⟨-, haccepted⟩
    exact refused_not_received (fun _ => status200_refused mem _) _ haccepted
  · intro chunks hchunks
    exact status200_refused mem _ hchunks

/-- A CONNECT for the camera on a new server, whose threads start. -/
def cameraRequest : RequestStream := ⟨ascii "/camera", false, false⟩

theorem camera_unanswered :
    ¬ Answered .ample (processRequestFrame (State.init 0) 0 cameraRequest ⟨0, true, true, true⟩ true).2.written ∧
      ∀ chunks : List (List UInt8),
        chunks.flatten = (processRequestFrame (State.init 0) 0 cameraRequest ⟨0, true, true, true⟩ true).2.written →
        ∃ code, receiveAll .ample .fresh chunks = .error code :=
  connect_unanswered .ample rfl (by decide) rfl true

/-- Two frames, and the first is refused. -/
theorem camera_answer_refused :
    ¬ ∀ (s : State) (c : Cnx) (stream : RequestStream) (r : Connect) (accepts : Bool), stream.hasCallback = false →
      (findPathItem stream.path pathTable).isSome → (cameraPathCallback s c r).2 = 0 →
      Answered .ample (processRequestFrame s c stream r accepts).2.written := by
  intro hall
  have hanswered := hall (State.init 0) 0 cameraRequest ⟨0, true, true, true⟩ true rfl (by decide) rfl
  rw [accepted_written rfl (by decide) rfl] at hanswered
  exact refused_not_received (fun _ => status200_refused .ample _) _ hanswered.2

end Mquic.H3
