/-
The CONNECT request of client_main.c: a header block of text lines, sent by `h3zero_create_headers_frame`
(h3zero_client.c), and what the server's parser makes of it.
-/
import Mquic.H3.Chunks

namespace Mquic.H3

/-! ## HEADERS frames -/

/-- What `picoquic_varint_encode` writes into `space` bytes for a value. -/
abbrev VarintEncode := Nat → Nat → List UInt8

/-- The shortest encoding, nothing where it does not fit. -/
def VarintEncode.shortest : VarintEncode := fun space v => if Varint.size v ≤ space then Varint.encode v else []

def VarintEncode.Shortest (enc : VarintEncode) : Prop := ∀ space v, v < 2 ^ 62 → enc space v = shortest space v

theorem VarintEncode.shortest_shortest : VarintEncode.shortest.Shortest := fun _ _ _ => rfl

/-- `write_varint`, behind the bytes `out` of a buffer of `cap` bytes. -/
def writeVarint (enc : VarintEncode) (cap : Nat) (out : List UInt8) (v : Nat) : Option (List UInt8) :=
  if out.length ≥ cap then none
  else
    let w := enc (cap - out.length) v
    if w = [] then none else some (out ++ w)

/-- A HEADERS frame, built in a buffer of `cap` bytes. -/
def headersFrame (enc : VarintEncode) (cap : Nat) (headers : List UInt8) : Option (List UInt8) :=
  (writeVarint enc cap [] h3zeroFrameHeader).bind fun frame =>
    (writeVarint enc cap frame headers.length).bind fun frame =>
      if cap - frame.length < headers.length then none else some (frame ++ headers)

/-- `h3zero_create_headers_frame`: the bytes given to `picoquic_add_to_stream`. -/
def createHeadersFrame (enc : VarintEncode) (headers : List UInt8) : Option (List UInt8) :=
  if headers.length = 0 then none else headersFrame enc 1200 headers

theorem writeVarint_eq {enc : VarintEncode} (henc : enc.Shortest) {cap v : Nat} (hv : v < 2 ^ 62) {out : List UInt8}
    (hroom : out.length + Varint.size v ≤ cap) : writeVarint enc cap out v = some (out ++ Varint.encode v) := by
  have hpos := Varint.size_pos v
  have hfits : Varint.size v ≤ cap - out.length := by omega
  unfold writeVarint
  rw [if_neg (by omega), henc _ _ hv, VarintEncode.shortest, if_pos hfits]
  exact if_neg (Varint.encode_ne_nil v)

/-- With room for it, the frame is the type, the length and the block. -/
theorem headersFrame_eq {enc : VarintEncode} (henc : enc.Shortest) {cap : Nat} {headers : List UInt8}
    (hn : headers.length < 2 ^ 62) (hroom : 1 + Varint.size headers.length + headers.length ≤ cap) :
    headersFrame enc cap headers =
      some (Varint.encode h3zeroFrameHeader ++ Varint.encode headers.length ++ headers) := by
  have htype : Varint.size h3zeroFrameHeader = 1 := by decide
  have hlength : (Varint.encode h3zeroFrameHeader ++ Varint.encode headers.length).length =
      1 + Varint.size headers.length := by
    rw [List.length_append, Varint.encode_length, Varint.encode_length, htype]
  unfold headersFrame
  rw [writeVarint_eq henc (by decide) (by rw [htype, List.length_nil]; omega), Option.bind_some, List.nil_append,
    writeVarint_eq henc hn (by rw [Varint.encode_length, htype]; omega), Option.bind_some, hlength, if_neg (by omega)]

/-! ## The request -/

/-- `authority`, in its 256 bytes. -/
def authority (sniHost : List UInt8) (port : Int) : List UInt8 :=
  (sniHost ++ ascii ":" ++ ascii (toString port)).take 255

/-- `hdr_block`, before it is cut to the buffer. -/
def hdrBlock (sniHost : List UInt8) (port : Int) (path : List UInt8) : List UInt8 :=
  ascii ":method: CONNECT\r\n" ++ ascii ":scheme: https\r\n" ++
    (ascii ":authority: " ++ authority sniHost port ++ ascii "\r\n") ++ (ascii ":path: " ++ path ++ ascii "\r\n") ++
    ascii ":protocol: webtransport\r\n"

/-- The frame `main` sends, if the block is built. -/
def connectFrame (enc : VarintEncode) (sniHost : List UInt8) (port : Int) (path : List UInt8) : Option (List UInt8) :=
  let block := hdrBlock sniHost port path
  if block.length ≥ 512 then none else createHeadersFrame enc block

/-- The server takes `frame` for the CONNECT request for `path`, in any chunks. -/
def Understood (mem : Mem) (frame path : List UInt8) : Prop :=
  ∀ chunks : List (List UInt8), chunks.flatten = frame → ∃ rx, receiveAll mem .fresh chunks = .ok rx ∧
    rx.state.header.method = .connect ∧ rx.state.header.path = some path ∧
    rx.state.header.protocol = some (ascii "webtransport")

/-- A block of text begins with a colon, where the prefix of a header block has a zero. -/
theorem hdrBlock_refused (mem : Mem) (sniHost : List UInt8) (port : Int) (path : List UInt8) :
    parseQpackHeaderFrame mem (hdrBlock sniHost port path) = (none, .zero) := by
  obtain ⟨tl, htl⟩ : ∃ tl, hdrBlock sniHost port path = 0x3A :: tl := ⟨_, rfl⟩
  rw [htl, parseQpackHeaderFrame, if_pos (by decide)]

/-- The frame is sent. -/
theorem connectFrame_eq {enc : VarintEncode} (henc : enc.Shortest) {sniHost : List UInt8} {port : Int}
    {path : List UInt8} (hlen : (hdrBlock sniHost port path).length < 512) :
    connectFrame enc sniHost port path = some (Varint.encode h3zeroFrameHeader ++
      Varint.encode (hdrBlock sniHost port path).length ++ hdrBlock sniHost port path) := by
  have hsize := Varint.size_le (hdrBlock sniHost port path).length
  have hne : (hdrBlock sniHost port path).length ≠ 0 := nofun
  unfold connectFrame createHeadersFrame
  simp only
  rw [if_neg (Nat.not_le.2 hlen), if_neg hne]
  exact headersFrame_eq henc (by omega) (by omega)

/-- The server refuses it, however it is cut. -/
theorem connectFrame_refused (mem : Mem) {sniHost : List UInt8} {port : Int} {path : List UInt8}
    (hlen : (hdrBlock sniHost port path).length < 512) {chunks : List (List UInt8)}
    (hchunks : chunks.flatten = Varint.encode h3zeroFrameHeader ++
      Varint.encode (hdrBlock sniHost port path).length ++ hdrBlock sniHost port path) :
    ∃ code, receiveAll mem .fresh chunks = .error code := by
  have hheader := frameHeaderOf_encode (by decide : h3zeroFrameHeader < 2 ^ 62)
    (by omega : (hdrBlock sniHost port path).length < 2 ^ 62)
  have hrest := hchunks.trans (congrArg _ (List.append_nil (hdrBlock sniHost port path)).symm)
  exact headers_rejected mem hheader nofun (by omega) (by rw [hdrBlock_refused]) hrest

/-- Whatever the host, the port and the path, the request is sent and the server does not understand it. -/
theorem connect_misunderstood {enc : VarintEncode} (henc : enc.Shortest) (mem : Mem) (sniHost : List UInt8) (port : Int)
    (path : List UInt8) (hlen : (hdrBlock sniHost port path).length < 512) :
    ∃ frame, connectFrame enc sniHost port path = some frame ∧ ¬ Understood mem frame path ∧
      ∀ chunks : List (List UInt8), chunks.flatten = frame → ∃ code, receiveAll mem .fresh chunks = .error code := by
  have hrefused := fun chunks => @connectFrame_refused mem sniHost port path hlen chunks
  exact ⟨_, connectFrame_eq henc hlen, refused_not_received hrefused _, hrefused⟩

theorem camera_misunderstood :
    ∃ frame, connectFrame .shortest (ascii "127.0.0.1") 4433 (ascii "/camera") = some frame ∧
      ¬ Understood .ample frame (ascii "/camera") ∧
      ∀ chunks : List (List UInt8), chunks.flatten = frame → ∃ code, receiveAll .ample .fresh chunks = .error code :=
  connect_misunderstood VarintEncode.shortest_shortest .ample (ascii "127.0.0.1") 4433 (ascii "/camera") (by decide)

/-- The request of the client's own usage line, by the frame alone. -/
theorem camera_request_refused :
    ¬ ∀ frame, connectFrame .shortest (ascii "127.0.0.1") 4433 (ascii "/camera") = some frame →
      Understood .ample frame (ascii "/camera") := by
  have hlen : (hdrBlock (ascii "127.0.0.1") 4433 (ascii "/camera")).length < 512 := by decide
  intro hall
  exact refused_not_received (fun _ => connectFrame_refused .ample hlen) _
    (hall _ (connectFrame_eq VarintEncode.shortest_shortest hlen))

end Mquic.H3
