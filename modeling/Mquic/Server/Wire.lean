/-
The bytes the server puts on a path stream (quic_server.c): the WebTransport header of
`ensure_stream_for_path`, then for each frame its length varint and its payload in pieces of at
most `MTU_CHUNK_BYTES`.
-/
import Mquic.Codec.Varint
import Mquic.Lib.Framing

namespace Mquic.Server

open Mquic.Codec

/-- `MTU_CHUNK_BYTES`. -/
def mtuChunkBytes : Nat := 16 * 1024

/-- `FRAME_BUFFER_BYTES`. -/
def frameBufferBytes : Nat := 1024 * 1024

/-- `a - b` on `uint64_t`. -/
def usSub (a b : Nat) : Nat := (a + 2 ^ 64 - b) % 2 ^ 64

/-- A frame the camera can hand over: not empty, and no larger than its buffer. -/
def IsFrame (f : List UInt8) : Prop := 1 ≤ f.length ∧ f.length ≤ frameBufferBytes

/-! ## What is written -/

/-- The stream header: `0x54`, then the session id. -/
def wtHeader (controlStreamId : Nat) : List UInt8 := quicVarintEncode 0x54 ++ quicVarintEncode controlStreamId

/-- `to_send` with `left` bytes of a payload still unsent. -/
def pieceLen (left : Nat) : Nat := if left > mtuChunkBytes then mtuChunkBytes else left

/-- `to_send` for a payload of which `rest` is still unsent. -/
def toSend (rest : List UInt8) : Nat := pieceLen rest.length

/-- The payload loop's writes; each takes at least one byte, so `rest.length` rounds are enough. -/
def piecesFrom : Nat → List UInt8 → List (List UInt8)
  | 0, _ => []
  | _ + 1, [] => []
  | n + 1, rest => rest.take (toSend rest) :: piecesFrom n (rest.drop (toSend rest))

/-- The pieces of one payload. -/
def pieces (f : List UInt8) : List (List UInt8) := piecesFrom f.length f

/-- The writes of one frame. -/
def frameWrites (f : List UInt8) : List (List UInt8) := quicVarintEncode f.length :: pieces f

/-- The writes on one path stream: the header, then the frames. -/
def streamWrites (controlStreamId : Nat) (frames : List (List UInt8)) : List (List UInt8) :=
  wtHeader controlStreamId :: frames.flatMap frameWrites

/-- The bytes of one path stream. -/
def streamBytes (controlStreamId : Nat) (frames : List (List UInt8)) : List UInt8 :=
  (streamWrites controlStreamId frames).flatten

/-! ## Its shape -/

theorem pieceLen_le (left : Nat) : pieceLen left ≤ left := by unfold pieceLen; split <;> omega

theorem pieceLen_pos {left : Nat} (h : 0 < left) : 0 < pieceLen left := by
  unfold pieceLen mtuChunkBytes; split <;> omega

theorem toSend_pos {rest : List UInt8} (h : rest ≠ []) : 0 < toSend rest :=
  pieceLen_pos (List.length_pos_of_ne_nil h)

theorem piecesFrom_flatten : ∀ (n : Nat) (rest : List UInt8), rest.length ≤ n → (piecesFrom n rest).flatten = rest
  | 0, rest, h => by
    have : rest = [] := List.length_eq_zero_iff.1 (by omega)
    subst this; rfl
  | n + 1, [], _ => rfl
  | n + 1, b :: rest, h => by
    have hpos := toSend_pos (List.cons_ne_nil b rest)
    have hlen : ((b :: rest).drop (toSend (b :: rest))).length ≤ n := by
      rw [List.length_drop]; omega
    rw [piecesFrom, List.flatten_cons, piecesFrom_flatten n _ hlen, List.take_append_drop]
    exact List.cons_ne_nil b rest

/-- The pieces are the payload. -/
theorem pieces_flatten (f : List UInt8) : (pieces f).flatten = f := piecesFrom_flatten _ f (le_refl _)

theorem frameWrites_flatten (f : List UInt8) : (frameWrites f).flatten = quicVarintEncode f.length ++ f := by
  rw [frameWrites, List.flatten_cons, pieces_flatten]

theorem flatMap_frameWrites_flatten : ∀ frames : List (List UInt8),
    (frames.flatMap frameWrites).flatten = Framing.wire quicVarintEncode (frames.flatMap Framing.record)
  | [] => rfl
  | f :: frames => by
    rw [List.flatMap_cons, List.flatten_append, frameWrites_flatten, flatMap_frameWrites_flatten frames,
      List.flatMap_cons, Framing.wire_append, Framing.wire_record]

/-- A path stream is its header and the wire form of its records. -/
theorem streamBytes_eq (S : Nat) (frames : List (List UInt8)) :
    streamBytes S frames = wtHeader S ++ Framing.wire quicVarintEncode (frames.flatMap Framing.record) := by
  unfold streamBytes streamWrites
  rw [List.flatten_cons, flatMap_frameWrites_flatten]

/-- One more frame is one more record. -/
theorem streamBytes_snoc (S : Nat) (frames : List (List UInt8)) (f : List UInt8) :
    streamBytes S (frames ++ [f]) = streamBytes S frames ++ (quicVarintEncode f.length ++ f) := by
  rw [streamBytes_eq, streamBytes_eq, List.flatMap_append, Framing.wire_append, List.flatMap_singleton,
    Framing.wire_record, List.append_assoc]

theorem wtHeader_eq {S : Nat} (hS : S < 2 ^ 62) : wtHeader S = Varint.encode 0x54 ++ Varint.encode S := by
  rw [wtHeader, quicVarintEncode_eq (by norm_num), quicVarintEncode_eq hS]

theorem encode_54 : Varint.encode 0x54 = [0x40, 0x54] := by decide

theorem wtHeader_cons {S : Nat} (hS : S < 2 ^ 62) : wtHeader S = 0x40 :: 0x54 :: Varint.encode S := by
  rw [wtHeader_eq hS, encode_54]; rfl

theorem wtHeader_length {S : Nat} (hS : S < 2 ^ 62) : (wtHeader S).length = 2 + Varint.size S := by
  rw [wtHeader_cons hS, List.length_cons, List.length_cons, Varint.encode_length]; omega

theorem IsFrame.ne_nil {f : List UInt8} (h : IsFrame f) : f ≠ [] := by
  rintro rfl; exact absurd h.1 (by decide)

theorem IsFrame.lt {f : List UInt8} (h : IsFrame f) : f.length < 2 ^ 62 := by
  have := h.2
  unfold frameBufferBytes at this
  omega

end Mquic.Server
