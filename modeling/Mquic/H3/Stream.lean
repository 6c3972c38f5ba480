/-
The parser of an HTTP/3 data stream, `h3zero_parse_data_stream` (h3zero_common.c). It collects the bytes of a
frame header over any number of calls; `parseFrameHeader_eq` says what a call makes of them.
-/
import Mquic.H3.Qpack
import Mquic.Codec.Varint

namespace Mquic.H3

/-! ## Error codes and frame types -/

def h3zeroGeneralProtocolError : Nat := 0x0101
def h3zeroInternalError : Nat := 0x0102
def h3zeroFrameUnexpected : Nat := 0x0105
def h3zeroFrameError : Nat := 0x0106

def h3zeroFrameData : Nat := 0
def h3zeroFrameHeader : Nat := 1
def h3zeroFrameCancelPush : Nat := 3
def h3zeroFrameSettings : Nat := 4
def h3zeroFrameGoaway : Nat := 7
def h3zeroFrameMaxPushId : Nat := 0xD
def h3zeroFrameWebtransportStream : Nat := 0x41

/-! ## State -/

/-- The fields of `h3zero_data_stream_state_t` the parser uses. `frameHeader` holds the `frame_header_read`
bytes of a frame's type and length, `currentFrame` what was copied of a header block. -/
structure DataStreamState where
  header : HeaderParts
  trailer : HeaderParts
  currentFrame : Option (List UInt8)
  currentFrameType : Nat
  currentFrameLength : Nat
  currentFrameRead : Nat
  controlStreamId : Nat
  frameHeader : List UInt8
  isWebTransport : Bool
  frameHeaderParsed : Bool
  headerFound : Bool
  dataFound : Bool
  trailerFound : Bool
deriving DecidableEq

/-- The state of a new stream. -/
def DataStreamState.fresh : DataStreamState :=
  ⟨.zero, .zero, none, 0, 0, 0, 0, [], false, false, false, false, false⟩

/-- What a call returns: the state, the bytes from the returned pointer on (`none` for `NULL`),
`*available_data` and `*error_found`. -/
structure Parsed where
  state : DataStreamState
  rest : Option (List UInt8)
  availableData : Nat
  errorFound : Nat

/-- A call that fails. -/
def Parsed.error (s : DataStreamState) (code : Nat) : Parsed := ⟨s, none, 0, code⟩

/-! ## Frame headers -/

/-- `h3zero_varint_skip`. A byte that has not come counts as 0. -/
def varintSkip (bytes : List UInt8) : Nat := 1 <<< ((bytes.getD 0 0 &&& 0xC0).toNat >>> 6)

/-- `h3zero_varint_decode`: the length, 0 if `bytes` is shorter, and the value. -/
def varintDecode (bytes : List UInt8) : Nat × Nat :=
  let length := varintSkip bytes
  if length > bytes.length then (0, 0)
  else
    (length, ((bytes.drop 1).take (length - 1)).foldl (fun v b => (v <<< 8) + b.toNat)
      (bytes.getD 0 0 &&& 0x3F).toNat)

/-- `while (frame_header_read < n && bytes < bytes_max)`: bytes go to the frame header. -/
def fill (n : Nat) (read bytes : List UInt8) : List UInt8 × List UInt8 :=
  (read ++ bytes.take (n - read.length), bytes.drop (n - read.length))

/-- The checks on a frame whose type and length are known, `bytes` behind them. -/
def startFrame (s : DataStreamState) (bytes : List UInt8) : Parsed :=
  if s.currentFrameType = h3zeroFrameData then
    if !s.headerFound || s.trailerFound || s.isWebTransport then .error s h3zeroFrameUnexpected
    else ⟨s, some bytes, 0, 0⟩
  else if s.currentFrameType = h3zeroFrameHeader then
    if s.headerFound && (!s.dataFound || s.trailerFound || s.isWebTransport) then .error s h3zeroFrameUnexpected
    else if s.currentFrameLength > 0x10000 then .error s h3zeroInternalError
    else ⟨s, some bytes, 0, 0⟩
  else if s.currentFrameType = h3zeroFrameWebtransportStream then
    if s.headerFound then .error s h3zeroFrameUnexpected
    else
      ⟨{ s with
          headerFound := true
          isWebTransport := true
          controlStreamId := s.currentFrameLength
          currentFrameLength := 0
          frameHeaderParsed := true }, some bytes, 0, 0⟩
  else if s.currentFrameType = h3zeroFrameCancelPush ∨ s.currentFrameType = h3zeroFrameGoaway ∨
      s.currentFrameType = h3zeroFrameMaxPushId then .error s h3zeroGeneralProtocolError
  else if s.currentFrameType = h3zeroFrameSettings then .error s h3zeroFrameUnexpected
  else ⟨s, some bytes, 0, 0⟩

/-- The call while a frame header is being read. -/
def parseFrameHeader (s : DataStreamState) (bytes : List UInt8) : Parsed :=
  let (read, bytes) := fill 1 s.frameHeader bytes
  let frameTypeLength := varintSkip read
  let (read, bytes) := fill frameTypeLength read bytes
  if read.length < frameTypeLength then ⟨{ s with frameHeader := read }, some bytes, 0, 0⟩
  else
    let s := { s with currentFrameType := (varintDecode (read.take frameTypeLength)).2 }
    let (read, bytes) := fill (frameTypeLength + 1) read bytes
    let frameHeaderLength := varintSkip (read.drop frameTypeLength) + frameTypeLength
    if frameHeaderLength > 16 then .error { s with frameHeader := read } h3zeroInternalError
    else
      let (read, bytes) := fill frameHeaderLength read bytes
      if read.length ≥ frameHeaderLength then
        startFrame { s with
          frameHeader := read
          currentFrameLength :=
            (varintDecode ((read.drop frameTypeLength).take (frameHeaderLength - frameTypeLength))).2
          currentFrameRead := 0
          frameHeaderParsed := true } bytes
      else ⟨{ s with frameHeader := read }, some bytes, 0, 0⟩

/-! ## Frame contents -/

/-- Of `n` bytes, those of the current frame. -/
def DataStreamState.available (s : DataStreamState) (n : Nat) : Nat :=
  if s.currentFrameRead + n > s.currentFrameLength then s.currentFrameLength - s.currentFrameRead else n

/-- The state after the last byte of a frame. -/
def DataStreamState.nextFrame (s : DataStreamState) : DataStreamState :=
  { s with frameHeaderParsed := false, frameHeader := [] }

/-- The buffer for a header block, `malloc`ed before its first bytes are copied. -/
def DataStreamState.buffer (mem : Mem) (s : DataStreamState) : Option (List UInt8) :=
  match s.currentFrame with
  | some frame => some frame
  | none => if s.currentFrameLength ≤ 0x10000 ∧ mem.malloc s.currentFrameLength = true then some [] else none

/-- After the copy: a header block that is complete is parsed. `rest` is behind the bytes copied. -/
def endHeaderBytes (mem : Mem) (s : DataStreamState) (frame rest : List UInt8) : Parsed :=
  if s.currentFrameRead ≥ s.currentFrameLength then
    let (parsed, parts) := parseQpackHeaderFrame mem frame
    let s := DataStreamState.nextFrame { s with
      header := if s.headerFound then s.header else parts
      trailer := if s.headerFound then parts else s.trailer
      trailerFound := s.headerFound
      headerFound := true
      currentFrame := none }
    if parsed = some [] then ⟨s, some rest, 0, 0⟩ else .error s h3zeroFrameError
  else ⟨{ s with currentFrame := some frame }, some rest, 0, 0⟩

/-- The call on bytes of a header block, `available` of them. -/
def parseHeaderBytes (mem : Mem) (s : DataStreamState) (available : Nat) (bytes : List UInt8) : Parsed :=
  match s.buffer mem with
  | none => .error s h3zeroInternalError
  | some frame =>
    endHeaderBytes mem { s with currentFrameRead := s.currentFrameRead + available } (frame ++ bytes.take available)
      (bytes.drop available)

/-- The call on the content of a frame. -/
def parseContent (mem : Mem) (s : DataStreamState) (bytes : List UInt8) : Parsed :=
  if s.isWebTransport then ⟨s, some bytes, bytes.length, 0⟩
  else
    let available := s.available bytes.length
    if s.currentFrameType = h3zeroFrameHeader then parseHeaderBytes mem s available bytes
    else
      let s := { s with currentFrameRead := s.currentFrameRead + available }
      if s.currentFrameType = h3zeroFrameData then
        -- the caller takes the data and goes on behind it
        if s.currentFrameRead ≥ s.currentFrameLength then
          ⟨{ s.nextFrame with dataFound := true }, some bytes, available, 0⟩
        else ⟨s, some bytes, available, 0⟩
      else if s.currentFrameRead ≥ s.currentFrameLength then ⟨s.nextFrame, some (bytes.drop available), 0, 0⟩
      else ⟨s, some (bytes.drop available), 0, 0⟩

/-- `h3zero_parse_data_stream`. -/
def parseDataStream (mem : Mem) (s : DataStreamState) (bytes : List UInt8) : Parsed :=
  if bytes = [] then .error s h3zeroInternalError
  else if !s.frameHeaderParsed then parseFrameHeader s bytes
  else parseContent mem s bytes

/-! ## The frame header as a whole -/

theorem varintSkip_cons (b : UInt8) (tl : List UInt8) : varintSkip (b :: tl) = Varint.width b := by
  unfold varintSkip
  rw [List.getD_cons_zero, Codec.and_C0, Nat.one_shiftLeft, Nat.shiftRight_eq_div_pow,
    Nat.mul_div_cancel _ (by norm_num)]
  rfl

theorem varintSkip_pos (p : List UInt8) : 0 < varintSkip p := by
  unfold varintSkip
  rw [Nat.one_shiftLeft]
  positivity

theorem varintSkip_le (p : List UInt8) : varintSkip p ≤ 8 := by
  unfold varintSkip
  rw [Codec.and_C0, Nat.one_shiftLeft, Nat.shiftRight_eq_div_pow, Nat.mul_div_cancel _ (by norm_num)]
  have hb := (p.getD 0 0).toNat_lt
  calc 2 ^ ((p.getD 0 0).toNat / 64) ≤ 2 ^ 3 := Nat.pow_le_pow_right (by norm_num) (by omega)
    _ = 8 := by norm_num

theorem varintDecode_take {p : List UInt8} {v c : Nat} (h : Varint.decode p = some (v, c)) :
    varintSkip p = c ∧ (varintDecode (p.take c)).2 = v := by
  obtain ⟨hc, hle⟩ := Varint.decode_bounds h
  cases p with
  | nil => cases h
  | cons b tl =>
    by_cases hw : Varint.width b ≤ tl.length + 1
    · rw [Varint.decode_cons_of_le hw] at h
      cases h
      obtain ⟨n, hn⟩ : ∃ n, Varint.width b = n + 1 := ⟨Varint.width b - 1, by omega⟩
      refine ⟨varintSkip_cons b tl, ?_⟩
      have hlen : (tl.take n).length = n := by rw [List.length_take]; omega
      unfold varintDecode
      rw [hn, List.take_succ_cons, varintSkip_cons, hn]
      simp only [List.length_cons, hlen, gt_iff_lt, lt_irrefl, if_false, List.drop_succ_cons, List.drop_zero,
        Nat.add_sub_cancel, List.getD_cons_zero, Codec.low6, Nat.shiftLeft_eq, Nat.reducePow]
      rw [List.take_of_length_le hlen.le, Varint.foldl_ofBytes, hlen]
    · rw [Varint.decode_cons_of_lt (by omega)] at h
      cases h

theorem varintSkip_of_none {p : List UInt8} (hp : p ≠ []) (h : Varint.decode p = none) : p.length < varintSkip p := by
  obtain ⟨b, tl, rfl⟩ := List.exists_cons_of_ne_nil hp
  rw [varintSkip_cons]
  by_contra hw
  rw [Varint.decode_cons_of_le (by simpa using hw)] at h
  cases h

theorem varintSkip_take {n : Nat} (hn : 0 < n) (p : List UInt8) : varintSkip (p.take n) = varintSkip p := by
  obtain ⟨m, rfl⟩ : ∃ m, n = m + 1 := ⟨n - 1, by omega⟩
  cases p with
  | nil => rfl
  | cons b tl => rw [List.take_succ_cons, varintSkip_cons, varintSkip_cons]

/-- A prefix that holds the integer is enough. -/
theorem decode_take {p : List UInt8} {v c n : Nat} (h : Varint.decode p = some (v, c)) (hn : c ≤ n) :
    Varint.decode (p.take n) = some (v, c) := by
  obtain ⟨hc, hle⟩ := Varint.decode_bounds h
  obtain ⟨hskip, -⟩ := varintDecode_take h
  cases ht : Varint.decode (p.take n) with
  | some r =>
    have := Varint.decode_append ht (p.drop n)
    rw [List.take_append_drop, h] at this
    exact this.symm
  | none =>
    have hne : p.take n ≠ [] := by
      intro hnil
      have := congrArg List.length hnil
      rw [List.length_take, List.length_nil] at this
      omega
    have hshort := varintSkip_of_none hne ht
    rw [varintSkip_take (by omega), hskip, List.length_take] at hshort
    omega

/-- Bytes that only now complete an integer end behind what was there. -/
theorem decode_longer {x y : List UInt8} (hx : Varint.decode x = none) {v c : Nat}
    (h : Varint.decode (x ++ y) = some (v, c)) : x.length < c := by
  by_contra hle
  have := decode_take h (Nat.le_of_not_lt hle)
  rw [List.take_left, hx] at this
  cases this

/-- The type, the length and the width of a frame header, once it is complete. -/
def frameHeaderOf (x : List UInt8) : Option (Nat × Nat × Nat) :=
  match Varint.decode x with
  | none => none
  | some (frameType, c) => (Varint.decode (x.drop c)).map fun r => (frameType, r.1, c + r.2)

/-- Bytes split at any point are filled up as the whole. -/
theorem fill_split (n k : Nat) (x : List UInt8) :
    fill n (x.take k) (x.drop k) = (x.take (max n k), x.drop (max n k)) := by
  have hlen : (x.take k).length = min k x.length := List.length_take
  by_cases hk : k ≤ x.length
  · rw [Nat.min_eq_left hk] at hlen
    have hmax : max n k = k + (n - k) := by omega
    unfold fill
    rw [hlen, hmax, List.take_add, List.drop_drop]
  · have hall : x.take k = x := List.take_of_length_le (by omega)
    have hnone : x.drop k = [] := List.drop_eq_nil_of_le (by omega)
    unfold fill
    rw [hall, hnone, List.take_of_length_le (show x.length ≤ max n k by omega),
      List.drop_eq_nil_of_le (show x.length ≤ max n k by omega)]
    simp

theorem fill_eq (n : Nat) (read bytes : List UInt8) :
    fill n read bytes = ((read ++ bytes).take (max n read.length), (read ++ bytes).drop (max n read.length)) := by
  have h := fill_split n read.length (read ++ bytes)
  rwa [List.take_left, List.drop_left] at h

/-- The state while the frame header `x` is incomplete. -/
def DataStreamState.waiting (s : DataStreamState) (x : List UInt8) : DataStreamState :=
  { s with frameHeader := x, currentFrameType := ((Varint.decode x).map (·.1)).getD s.currentFrameType }

/-- The state once the frame header is complete. -/
def DataStreamState.started (s : DataStreamState) (x : List UInt8) (frameType length : Nat) : DataStreamState :=
  { s with
    currentFrameType := frameType
    frameHeader := x
    currentFrameLength := length
    currentFrameRead := 0
    frameHeaderParsed := true }

/-- What a call makes of the bytes `x` read of a frame header and behind it. -/
def DataStreamState.afterHeader (s : DataStreamState) (x : List UInt8) : Parsed :=
  match frameHeaderOf x with
  | some (frameType, length, w) => startFrame (s.started (x.take w) frameType length) (x.drop w)
  | none => ⟨s.waiting x, some [], 0, 0⟩

theorem DataStreamState.afterHeader_some {s : DataStreamState} {x : List UInt8} {frameType length w : Nat}
    (h : frameHeaderOf x = some (frameType, length, w)) :
    s.afterHeader x = startFrame (s.started (x.take w) frameType length) (x.drop w) := by
  rw [afterHeader, h]

theorem DataStreamState.afterHeader_none {s : DataStreamState} {x : List UInt8} (h : frameHeaderOf x = none) :
    s.afterHeader x = ⟨s.waiting x, some [], 0, 0⟩ := by
  rw [afterHeader, h]

theorem frameHeaderOf_some {x : List UInt8} {frameType length w : Nat}
    (h : frameHeaderOf x = some (frameType, length, w)) :
    ∃ c d, Varint.decode x = some (frameType, c) ∧ Varint.decode (x.drop c) = some (length, d) ∧ w = c + d := by
  unfold frameHeaderOf at h
  cases h1 : Varint.decode x with
  | none => rw [h1] at h; cases h
  | some r =>
    rw [h1] at h
    obtain ⟨⟨len, d⟩, h2, h3⟩ := Option.map_eq_some_iff.1 h
    cases h3
    exact ⟨r.2, d, rfl, h2, rfl⟩

theorem frameHeaderOf_eq {x : List UInt8} {frameType c length d : Nat} (h1 : Varint.decode x = some (frameType, c))
    (h2 : Varint.decode (x.drop c) = some (length, d)) : frameHeaderOf x = some (frameType, length, c + d) := by
  unfold frameHeaderOf
  rw [h1]
  simp only [h2, Option.map_some]

/-- A frame header written with the shortest encodings. -/
theorem frameHeaderOf_encode {frameType length : Nat} (ht : frameType < 2 ^ 62) (hl : length < 2 ^ 62) :
    frameHeaderOf (Varint.encode frameType ++ Varint.encode length) =
      some (frameType, length, (Varint.encode frameType ++ Varint.encode length).length) := by
  have h1 := Varint.decode_encode ht (Varint.encode length)
  have h2 := Varint.decode_encode hl []
  rw [List.append_nil] at h2
  rw [List.length_append, Varint.encode_length, Varint.encode_length]
  apply frameHeaderOf_eq h1
  rw [List.drop_append_of_le_length (by simp), List.drop_eq_nil_of_le (by simp), List.nil_append]
  exact h2

theorem frameHeaderOf_append {x : List UInt8} {h : Nat × Nat × Nat} (hx : frameHeaderOf x = some h) (y : List UInt8) :
    frameHeaderOf (x ++ y) = some h := by
  obtain ⟨frameType, length, w⟩ := h
  obtain ⟨c, d, h1, h2, rfl⟩ := frameHeaderOf_some hx
  obtain ⟨-, hc⟩ := Varint.decode_bounds h1
  apply frameHeaderOf_eq (Varint.decode_append h1 y)
  rw [List.drop_append_of_le_length hc]
  exact Varint.decode_append h2 y

theorem frameHeaderOf_agree {p x : List UInt8} {h h' : Nat × Nat × Nat} (hp : p <+: x) (hh : frameHeaderOf p = some h)
    (hh' : frameHeaderOf x = some h') : h = h' := by
  obtain ⟨y, rfl⟩ := hp
  rw [frameHeaderOf_append hh y] at hh'
  exact Option.some.inj hh'

theorem frameHeaderOf_bounds {x : List UInt8} {frameType length w : Nat}
    (hx : frameHeaderOf x = some (frameType, length, w)) : 0 < w ∧ w ≤ x.length := by
  obtain ⟨c, d, h1, h2, rfl⟩ := frameHeaderOf_some hx
  obtain ⟨hc, hcle⟩ := Varint.decode_bounds h1
  obtain ⟨-, hd⟩ := Varint.decode_bounds h2
  rw [List.length_drop] at hd
  omega

/-- A prefix that holds the frame header is enough. -/
theorem frameHeaderOf_take {x : List UInt8} {frameType length w n : Nat}
    (hx : frameHeaderOf x = some (frameType, length, w)) (hn : w ≤ n) :
    frameHeaderOf (x.take n) = some (frameType, length, w) := by
  obtain ⟨c, d, h1, h2, rfl⟩ := frameHeaderOf_some hx
  apply frameHeaderOf_eq (decode_take h1 (by omega))
  rw [List.drop_take]
  exact decode_take h2 (by omega)

/-- Bytes that only now complete a frame header end behind what was there. -/
theorem frameHeaderOf_longer {x y : List UInt8} (hx : frameHeaderOf x = none) {frameType length w : Nat}
    (h : frameHeaderOf (x ++ y) = some (frameType, length, w)) : x.length < w := by
  by_contra hle
  have := frameHeaderOf_take h (Nat.le_of_not_lt hle)
  rw [List.take_left, hx] at this
  cases this

/-- The call sees the frame header only as a whole, the bytes read before and the new ones. -/
theorem parseFrameHeader_eq {s : DataStreamState} {bytes : List UInt8} (hb : bytes ≠ [])
    (hs : frameHeaderOf s.frameHeader = none) :
    parseFrameHeader s bytes = s.afterHeader (s.frameHeader ++ bytes) := by
  have hx : s.frameHeader ++ bytes ≠ [] := fun h => hb (List.append_eq_nil_iff.1 h).2
  have hlt : s.frameHeader.length < (s.frameHeader ++ bytes).length := by
    have := List.length_pos_of_ne_nil hb
    rw [List.length_append]
    omega
  have hprefix : ∀ frameType length w, frameHeaderOf (s.frameHeader ++ bytes) = some (frameType, length, w) →
      s.frameHeader.length < w := fun _ _ _ => frameHeaderOf_longer hs
  unfold parseFrameHeader
  rw [fill_eq]
  generalize s.frameHeader ++ bytes = x at *
  simp only [varintSkip_take (show 0 < max 1 s.frameHeader.length by omega), fill_split]
  have hpos := varintSkip_pos x
  cases h1 : Varint.decode x with
  | none =>
    have hshort := varintSkip_of_none hx h1
    have hnone : frameHeaderOf x = none := by unfold frameHeaderOf; rw [h1]
    have htake : x.take (max (varintSkip x) (max 1 s.frameHeader.length)) = x := List.take_of_length_le (by omega)
    rw [DataStreamState.afterHeader_none hnone, htake, if_pos hshort, List.drop_eq_nil_of_le (by omega)]
    unfold DataStreamState.waiting
    rw [h1]
    rfl
  | some r =>
    obtain ⟨frameType, c⟩ := r
    obtain ⟨hc, hcle⟩ := Varint.decode_bounds h1
    obtain ⟨hskip, hval⟩ := varintDecode_take h1
    have hc8 := varintSkip_le x
    have hd8 := varintSkip_le (x.drop c)
    have hdpos := varintSkip_pos (x.drop c)
    have hlong : ¬ (x.take (max c (max 1 s.frameHeader.length))).length < c := by
      rw [List.length_take]
      omega
    -- the length's first byte is there or counts as 0
    have hnext : varintSkip ((x.take (max (c + 1) (max c (max 1 s.frameHeader.length)))).drop c) =
        varintSkip (x.drop c) := by
      rw [List.drop_take, varintSkip_take (by omega)]
    rw [hskip] at hc8 ⊢
    rw [if_neg hlong, hnext, if_neg (by omega)]
    have htype : ((x.take (max c (max 1 s.frameHeader.length))).take c) = x.take c := by
      rw [List.take_take, Nat.min_eq_left (by omega)]
    rw [htype, hval]
    have hmax : max (varintSkip (x.drop c) + c) (max (c + 1) (max c (max 1 s.frameHeader.length))) =
        max (varintSkip (x.drop c) + c) s.frameHeader.length := by omega
    rw [hmax]
    cases h2 : Varint.decode (x.drop c) with
    | none =>
      have hnone : frameHeaderOf x = none := by unfold frameHeaderOf; rw [h1]; simp only [h2]; rfl
      have hshort : x.length < varintSkip (x.drop c) + c := by
        cases hd : x.drop c with
        | nil =>
          have := congrArg List.length hd
          rw [List.length_drop, List.length_nil] at this
          rw [hd] at hdpos
          omega
        | cons b tl =>
          have := varintSkip_of_none (by rw [hd]; nofun) h2
          rw [List.length_drop, hd] at this
          omega
      have htake : x.take (max (varintSkip (x.drop c) + c) s.frameHeader.length) = x :=
        List.take_of_length_le (by omega)
      rw [DataStreamState.afterHeader_none hnone, htake, if_neg (by omega), List.drop_eq_nil_of_le (by omega)]
      unfold DataStreamState.waiting
      rw [h1]
      rfl
    | some r =>
      obtain ⟨length, d⟩ := r
      obtain ⟨-, hdle⟩ := Varint.decode_bounds h2
      obtain ⟨hskip2, hval2⟩ := varintDecode_take h2
      rw [List.length_drop] at hdle
      have hsome := frameHeaderOf_eq h1 h2
      have hread := hprefix _ _ _ hsome
      rw [hskip2, Nat.max_eq_left (by omega), if_pos (by rw [List.length_take]; omega),
        DataStreamState.afterHeader_some hsome]
      have hlength : ((x.take (d + c)).drop c).take (d + c - c) = (x.drop c).take d := by
        rw [List.drop_take, List.take_take, Nat.add_sub_cancel, Nat.min_self]
      rw [hlength, hval2, Nat.add_comm d c]
      rfl

end Mquic.H3
