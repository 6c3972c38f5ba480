/-
The client's unidirectional streams (h3zero_common.c): `h3zero_parse_remote_unidir_stream` with the parser of the
control stream and the decoder of SETTINGS. What the control stream leaves of the settings does not depend on how its
bytes are cut (`parseControlStream_append`).
-/
import Mquic.H3.Stream

namespace Mquic.H3

/-! ## Error codes and types -/

def h3zeroSettingsError : Nat := 0x0109
def h3zeroMissingSettings : Nat := 0x010A

def h3zeroFramePushPromise : Nat := 5

def h3zeroStreamTypeControl : Nat := 0
def h3zeroStreamTypeWebtransport : Nat := 0x54

def h3zeroSettingHeaderTableSize : Nat := 0x1
def h3zeroQpackBlockedStreams : Nat := 0x7
def h3zeroSettingsEnableConnectProtocol : Nat := 0x8
def h3zeroSettingH3Datagram : Nat := 0x33
def h3zeroSettingsWebtransportMaxSessions : Nat := 0xC671706A

/-! ## Settings -/

/-- The fields of `h3zero_settings_t` that are received. -/
structure Settings where
  tableSize : Nat
  blockedStreams : Nat
  enableConnectProtocol : Bool
  h3Datagram : Bool
  webtransportMaxSessions : Nat
  settingsReceived : Bool
deriving DecidableEq

def Settings.zero : Settings := ⟨0, 0, false, false, 0, false⟩

/-- One component; two of the fields have one bit. -/
def Settings.component (set : Settings) (key value : Nat) : Settings :=
  if key = h3zeroSettingHeaderTableSize then { set with tableSize := value }
  else if key = h3zeroQpackBlockedStreams then { set with blockedStreams := value }
  else if key = h3zeroSettingsEnableConnectProtocol then { set with enableConnectProtocol := value % 2 = 1 }
  else if key = h3zeroSettingH3Datagram then { set with h3Datagram := value % 2 = 1 }
  else if key = h3zeroSettingsWebtransportMaxSessions then { set with webtransportMaxSessions := value }
  else set

/-- `h3zero_settings_components_decode`: the settings, and whether the last component is whole. -/
def settingsComponentsDecode (varint : Varint.Reader) (set : Settings) (bytes : List UInt8) : Settings × Bool :=
  if bytes = [] then (set, true)
  else
    match _h1 : varint.read bytes with
    | none => (set, false)
    | some (key, c) =>
      match varint.read (bytes.drop c) with
      | none => (set, false)
      | some (value, d) => settingsComponentsDecode varint (set.component key value) ((bytes.drop c).drop d)
termination_by bytes.length
decreasing_by
  obtain ⟨hc, hle⟩ := varint.bounds _h1
  simp only [List.length_drop]
  omega

theorem settingsComponentsDecode_nil (varint : Varint.Reader) (set : Settings) :
    settingsComponentsDecode varint set [] = (set, true) := by
  rw [settingsComponentsDecode, if_pos rfl]

theorem settingsComponentsDecode_some {varint : Varint.Reader} {set : Settings} {bytes : List UInt8}
    {key c value d : Nat} (h1 : varint.read bytes = some (key, c)) (h2 : varint.read (bytes.drop c) = some (value, d)) :
    settingsComponentsDecode varint set bytes =
      settingsComponentsDecode varint (set.component key value) ((bytes.drop c).drop d) := by
  have hne : bytes ≠ [] := by
    rintro rfl
    obtain ⟨hpos, hle⟩ := varint.bounds h1
    exact absurd hle (Nat.not_le.2 hpos)
  rw [settingsComponentsDecode, if_neg hne]
  split
  · rename_i h; rw [h1] at h; cases h
  · rename_i h; rw [h1] at h; cases h; simp only [h2]

/-! ## State -/

/-- The fields of `h3zero_data_stream_state_t` of a remote unidirectional stream. `none` is `UINT64_MAX`, a null
pointer in `currentFrame`; `frameHeader` holds the `frame_header_read` bytes of an incomplete varint. -/
structure UniState where
  streamType : Option Nat
  currentFrame : Option (List UInt8)
  currentFrameType : Option Nat
  currentFrameLength : Option Nat
  currentFrameRead : Nat
  controlStreamId : Option Nat
  frameHeader : List UInt8
  isCurrentFrameIgnored : Bool
deriving DecidableEq

/-- The state of a new stream. -/
def UniState.fresh : UniState := ⟨none, none, some 0, some 0, 0, none, [], false⟩

/-- `h3zero_reset_control_stream_state`. -/
def UniState.reset (s : UniState) : UniState :=
  { s with currentFrameType := none, currentFrameLength := none, currentFrameRead := 0, currentFrame := none }

/-- What a parser returns: the state, the settings, the bytes from the returned pointer on (`none` for `NULL`), and
`*error_found`. -/
structure Control where
  state : UniState
  settings : Settings
  rest : Option (List UInt8)
  errorFound : Nat

/-- `h3zero_varint_from_stream`: the bytes left, `*result`, and the buffer. -/
def varintFromStream (bytes : List UInt8) (result : Option Nat) (buffer : List UInt8) :
    List UInt8 × Option Nat × List UInt8 :=
  if bytes = [] then (bytes, result, buffer)
  else
    let (buffer, bytes) := fill 1 buffer bytes
    let n := varintSkip buffer
    let (buffer, bytes) := fill n buffer bytes
    if buffer.length ≥ n then (bytes, some (varintDecode buffer).2, buffer.drop n) else (bytes, result, buffer)

/-! ## The control stream -/

/-- Of `bytes`, how many are of the current frame, `length` bytes long. -/
def UniState.available (s : UniState) (length : Nat) (bytes : List UInt8) : Nat :=
  if s.currentFrameRead + bytes.length > length then length - s.currentFrameRead else bytes.length

/-- `h3zero_skip_frame_content`. -/
def skipFrameContent (s : UniState) (length : Nat) (bytes : List UInt8) : UniState × Option (List UInt8) :=
  ({ s with currentFrameRead := s.currentFrameRead + s.available length bytes },
    some (bytes.drop (s.available length bytes)))

/-- `h3zero_load_frame_content`. -/
def loadFrameContent (mem : Mem) (s : UniState) (length : Nat) (bytes : List UInt8) : UniState × Option (List UInt8) :=
  if length > 0x10000 then (s, none)
  else
    match s.currentFrame.or (if mem.malloc length then some [] else none) with
    | none => (s, none)
    | some frame =>
      ({ s with
          currentFrame := some (frame ++ bytes.take (s.available length bytes))
          currentFrameRead := s.currentFrameRead + s.available length bytes },
        some (bytes.drop (s.available length bytes)))

/-- The end of a frame. -/
def endFrame (mem : Mem) (s : UniState) (set : Settings) (rest : Option (List UInt8)) : Control :=
  if s.currentFrameType = some h3zeroFrameSettings then
    match s.currentFrame with
    -- the frame was empty, or was skipped
    | none => ⟨s.reset, set, none, h3zeroSettingsError⟩
    | some frame =>
      let (set, whole) := settingsComponentsDecode mem.framesVarintDecode set frame
      if whole then ⟨s.reset, { set with settingsReceived := true }, rest, 0⟩
      else ⟨s.reset, set, none, h3zeroSettingsError⟩
  else ⟨s.reset, set, rest, 0⟩

/-- The content of a frame is skipped or loaded. -/
def takeContent (mem : Mem) (s : UniState) (length : Nat) (bytes : List UInt8) : UniState × Option (List UInt8) :=
  if s.currentFrameRead < length then
    if s.isCurrentFrameIgnored then skipFrameContent s length bytes else loadFrameContent mem s length bytes
  else (s, some bytes)

/-- The rest of a round once the length of the frame is known. -/
def roundContent (mem : Mem) (s : UniState) (set : Settings) (length : Nat) (bytes : List UInt8) : Control :=
  let (s, rest) := takeContent mem s length bytes
  if s.currentFrameRead ≥ length then endFrame mem s set rest
  else ⟨s, set, rest, if rest.isNone then h3zeroInternalError else 0⟩

/-- The rest of a round once the type of the frame is known. -/
def roundLength (mem : Mem) (s : UniState) (set : Settings) (bytes : List UInt8) : Control :=
  match s.currentFrameLength with
  | some length => roundContent mem s set length bytes
  | none =>
    let (bytes, length, buffer) := varintFromStream bytes none s.frameHeader
    let s := { s with currentFrameLength := length, frameHeader := buffer }
    match length with
    | none => ⟨s, set, some bytes, 0⟩
    | some length => roundContent mem s set length bytes

/-- What is wrong with a frame of this type, if anything is. -/
def typeError (set : Settings) (frameType : Nat) : Option Nat :=
  if set.settingsReceived ∧ frameType = h3zeroFrameSettings then some h3zeroFrameUnexpected
  else if ¬ set.settingsReceived ∧ frameType ≠ h3zeroFrameSettings then some h3zeroMissingSettings
  else if frameType = h3zeroFrameData ∨ frameType = h3zeroFrameHeader ∨ frameType = h3zeroFramePushPromise ∨
      frameType = h3zeroFrameWebtransportStream then some h3zeroInternalError
  else none

/-- A round of the loop of `h3zero_parse_control_stream`. -/
def controlRound (mem : Mem) (s : UniState) (set : Settings) (bytes : List UInt8) : Control :=
  match s.currentFrameType with
  | some _ => roundLength mem s set bytes
  | none =>
    let (bytes, frameType, buffer) := varintFromStream bytes none s.frameHeader
    let s := { s with currentFrameType := frameType, frameHeader := buffer }
    match frameType with
    | none => ⟨s, set, some bytes, 0⟩
    | some frameType =>
      match typeError set frameType with
      | some code => ⟨s, set, none, code⟩
      | none =>
        roundLength mem
          { s with isCurrentFrameIgnored := s.isCurrentFrameIgnored || frameType ≠ h3zeroFrameSettings } set bytes

/-- The loop of `h3zero_parse_control_stream`, `n` rounds of it. -/
def controlLoop (mem : Mem) : Nat → UniState → Settings → List UInt8 → Control
  | 0, s, set, bytes => ⟨s, set, some bytes, 0⟩
  | n + 1, s, set, bytes =>
    if bytes = [] then ⟨s, set, some [], 0⟩
    else
      match controlRound mem s set bytes with
      | ⟨s, set, some rest, _⟩ => controlLoop mem n s set rest
      | ⟨s, set, none, code⟩ => ⟨s, set, none, code⟩

/-- `h3zero_parse_control_stream`. Two rounds to a byte are enough (`parseControlStream_step`). -/
def parseControlStream (mem : Mem) (s : UniState) (set : Settings) (bytes : List UInt8) : Control :=
  controlLoop mem (2 * bytes.length + 1) s set bytes

/-! ## Unidirectional streams -/

/-- `h3zero_wt_parse_control_stream_id`. The server declares no stream prefix, so none is found. -/
def wtParseControlStreamId (s : UniState) (bytes : List UInt8) : UniState × Option (List UInt8) :=
  match s.controlStreamId with
  | some _ => (s, some bytes)
  | none =>
    let (bytes, id, buffer) := varintFromStream bytes none s.frameHeader
    ({ s with controlStreamId := id, frameHeader := buffer }, if id.isSome then none else some bytes)

/-- The dispatch on the type of the stream. -/
def parseTyped (mem : Mem) (s : UniState) (set : Settings) (streamType : Nat) (bytes : List UInt8) : Control :=
  if streamType = h3zeroStreamTypeControl then parseControlStream mem s set bytes
  else if streamType = h3zeroStreamTypeWebtransport then
    let (s, rest) := wtParseControlStreamId s bytes
    ⟨s, set, rest, 0⟩
  -- push, QPACK and unknown streams are read and ignored
  else ⟨s, set, some [], 0⟩

/-- `h3zero_parse_remote_unidir_stream`. -/
def parseRemoteUnidirStream (mem : Mem) (s : UniState) (set : Settings) (bytes : List UInt8) : Control :=
  match s.streamType with
  | some streamType => parseTyped mem s set streamType bytes
  | none =>
    let (bytes, streamType, buffer) := varintFromStream bytes none s.frameHeader
    let s := { s with streamType := streamType, frameHeader := buffer }
    match streamType with
    | none => ⟨s, set, some bytes, 0⟩
    | some streamType =>
      parseTyped mem (if streamType = h3zeroStreamTypeControl then s.reset else s) set streamType bytes

/-! ## Varints in pieces -/

section Varints

variable {buffer bytes : List UInt8}

theorem varintFromStream_nil (result : Option Nat) : varintFromStream [] result buffer = ([], result, buffer) :=
  if_pos rfl

/-- The bytes complete the varint in the buffer. -/
theorem varintFromStream_some (hb : bytes ≠ []) (hw : Varint.decode buffer = none) (result : Option Nat) {v c : Nat}
    (h : Varint.decode (buffer ++ bytes) = some (v, c)) :
    varintFromStream bytes result buffer = ((buffer ++ bytes).drop c, some v, []) := by
  obtain ⟨hc, hle⟩ := Varint.decode_bounds h
  obtain ⟨hskip, hval⟩ := varintDecode_take h
  have hlong := decode_longer hw h
  unfold varintFromStream
  rw [if_neg hb, fill_eq]
  generalize buffer ++ bytes = x at *
  simp only [varintSkip_take (show 0 < max 1 buffer.length by omega), fill_split, hskip]
  have hmax : max c (max 1 buffer.length) = c := by omega
  have hlen : (x.take c).length = c := by rw [List.length_take]; omega
  rw [hmax, if_pos hlen.ge, hval, List.drop_eq_nil_of_le hlen.le]

/-- The bytes do not complete it. -/
theorem varintFromStream_none (hb : bytes ≠ []) (result : Option Nat) (h : Varint.decode (buffer ++ bytes) = none) :
    varintFromStream bytes result buffer = ([], result, buffer ++ bytes) := by
  have hne : buffer ++ bytes ≠ [] := fun hnil => hb (List.append_eq_nil_iff.1 hnil).2
  have hshort := varintSkip_of_none hne h
  have hlt : buffer.length < (buffer ++ bytes).length := by
    have := List.length_pos_of_ne_nil hb
    rw [List.length_append]
    omega
  unfold varintFromStream
  rw [if_neg hb, fill_eq]
  generalize buffer ++ bytes = x at *
  simp only [varintSkip_take (show 0 < max 1 buffer.length by omega), fill_split]
  have htake : x.take (max (varintSkip x) (max 1 buffer.length)) = x := List.take_of_length_le (by omega)
  rw [htake, if_neg (Nat.not_le.2 hshort), List.drop_eq_nil_of_le (by omega)]

end Varints

/-! ## Rounds -/

/-- Between the rounds: the buffer holds no whole varint, a length is known only behind a type, and the frame is not
at its end. -/
structure UniState.Waits (s : UniState) : Prop where
  header : Varint.decode s.frameHeader = none
  start : s.currentFrameType = none → s.currentFrameLength = none
  inside : ∀ n ∈ s.currentFrameLength, s.currentFrameRead < n

theorem UniState.reset_waits {s : UniState} (h : Varint.decode s.frameHeader = none) : s.reset.Waits :=
  ⟨h, fun _ => rfl, fun _ hn => (Option.some_ne_none _ hn.symm).elim⟩

/-- The state with the bytes `x` of an incomplete varint. -/
def UniState.holding (s : UniState) (x : List UInt8) : UniState := { s with frameHeader := x }

/-- The state behind the type of a frame. -/
def UniState.typed (s : UniState) (frameType : Nat) : UniState :=
  { s with currentFrameType := some frameType, frameHeader := [] }

/-- The state in a frame whose type was accepted. -/
def UniState.accepting (s : UniState) (frameType : Nat) : UniState :=
  { s.typed frameType with isCurrentFrameIgnored := s.isCurrentFrameIgnored || frameType ≠ h3zeroFrameSettings }

/-- The state behind the length of a frame. -/
def UniState.sized (s : UniState) (length : Nat) : UniState :=
  { s with currentFrameLength := some length, frameHeader := [] }

section Rounds

variable {mem : Mem} {s : UniState} {set : Settings} {bytes : List UInt8}

theorem round_type_none (ht : s.currentFrameType = none) (hb : bytes ≠ [])
    (h : Varint.decode (s.frameHeader ++ bytes) = none) :
    controlRound mem s set bytes = ⟨s.holding (s.frameHeader ++ bytes), set, some [], 0⟩ := by
  unfold controlRound UniState.holding
  rw [ht, varintFromStream_none hb none h]

theorem round_type_some (ht : s.currentFrameType = none) (hw : s.Waits) (hb : bytes ≠ []) {frameType c : Nat}
    (h : Varint.decode (s.frameHeader ++ bytes) = some (frameType, c)) :
    controlRound mem s set bytes =
      match typeError set frameType with
      | some code => ⟨s.typed frameType, set, none, code⟩
      | none => roundLength mem (s.accepting frameType) set ((s.frameHeader ++ bytes).drop c) := by
  unfold controlRound
  rw [ht, varintFromStream_some hb hw.header none h]
  rfl

theorem round_typed {frameType : Nat} (ht : s.currentFrameType = some frameType) :
    controlRound mem s set bytes = roundLength mem s set bytes := by
  unfold controlRound
  rw [ht]

theorem length_none (hl : s.currentFrameLength = none) (hb : bytes ≠ [])
    (h : Varint.decode (s.frameHeader ++ bytes) = none) :
    roundLength mem s set bytes = ⟨s.holding (s.frameHeader ++ bytes), set, some [], 0⟩ := by
  unfold roundLength UniState.holding
  rw [hl, varintFromStream_none hb none h]

theorem length_nil (hl : s.currentFrameLength = none) : roundLength mem s set [] = ⟨s, set, some [], 0⟩ := by
  unfold roundLength
  rw [hl, varintFromStream_nil]
  simp only [← hl]

theorem length_some (hl : s.currentFrameLength = none) (hw : Varint.decode s.frameHeader = none) (hb : bytes ≠ [])
    {length c : Nat} (h : Varint.decode (s.frameHeader ++ bytes) = some (length, c)) :
    roundLength mem s set bytes = roundContent mem (s.sized length) set length ((s.frameHeader ++ bytes).drop c) := by
  unfold roundLength
  rw [hl, varintFromStream_some hb hw none h]
  rfl

theorem length_known {length : Nat} (hl : s.currentFrameLength = some length) :
    roundLength mem s set bytes = roundContent mem s set length bytes := by
  unfold roundLength
  rw [hl]

/-- The content of a frame is not taken at all, or the bytes are taken up to the end of the frame. -/
theorem take_cases (mem : Mem) (s : UniState) (length : Nat) (bytes : List UInt8) :
    (s.currentFrameRead < length ∧ takeContent mem s length bytes = (s, none)) ∨
      ∃ frame k, takeContent mem s length bytes =
          ({ s with currentFrame := frame, currentFrameRead := s.currentFrameRead + k }, some (bytes.drop k)) ∧
        k = min bytes.length (length - s.currentFrameRead) := by
  have hk : s.available length bytes = min bytes.length (length - s.currentFrameRead) := by
    unfold UniState.available
    split
    · omega
    · omega
  unfold takeContent
  by_cases hread : s.currentFrameRead < length
  · rw [if_pos hread]
    by_cases hi : s.isCurrentFrameIgnored = true
    · rw [if_pos hi]
      exact .inr ⟨s.currentFrame, _, rfl, hk⟩
    · rw [if_neg hi]
      unfold loadFrameContent
      by_cases hbig : length > 0x10000
      · rw [if_pos hbig]
        exact .inl ⟨hread, rfl⟩
      · rw [if_neg hbig]
        cases s.currentFrame.or (if mem.malloc length then some [] else none) with
        | none => exact .inl ⟨hread, rfl⟩
        | some frame => exact .inr ⟨_, _, rfl, hk⟩
  · rw [if_neg hread]
    exact .inr ⟨s.currentFrame, 0, rfl, by omega⟩

/-- The end of a frame starts the next one, or is an error. -/
theorem endFrame_cases (mem : Mem) (s : UniState) (set : Settings) (rest : Option (List UInt8)) :
    (endFrame mem s set rest).state = s.reset ∧
      ((endFrame mem s set rest).rest = none ∨ (endFrame mem s set rest).rest = rest) := by
  unfold endFrame
  split
  · split
    · exact ⟨rfl, .inl rfl⟩
    · simp only
      split
      · exact ⟨rfl, .inr rfl⟩
      · exact ⟨rfl, .inl rfl⟩
  · exact ⟨rfl, .inr rfl⟩

/-- What a round leaves to the next one: a state that waits and fewer bytes, or the same bytes at the start of a
frame. -/
structure Leaves (s : UniState) (bytes : List UInt8) (r : Control) : Prop where
  waits : r.rest ≠ none → r.state.Waits
  shorter : ∀ rest ∈ r.rest, rest.length ≤ bytes.length ∧ (r.state.currentFrameType = none ∨ rest = [])

theorem content_leaves (hw : Varint.decode s.frameHeader = none) {frameType length : Nat}
    (ht : s.currentFrameType = some frameType) (hl : s.currentFrameLength = some length) :
    Leaves s bytes (roundContent mem s set length bytes) := by
  have htype : s.currentFrameType ≠ none := by rw [ht]; exact Option.some_ne_none frameType
  unfold roundContent
  rcases take_cases mem s length bytes with ⟨hread, h⟩ | ⟨frame, k, h, hk⟩
  · rw [h]
    simp only
    rw [if_neg (Nat.not_le.2 hread)]
    exact ⟨fun hrest => absurd rfl hrest, fun _ hrest => (Option.some_ne_none _ hrest.symm).elim⟩
  · rw [h]
    simp only
    split
    · -- the frame is whole, and its end starts the next one
      obtain ⟨hstate, hrest⟩ := endFrame_cases mem
        { s with currentFrame := frame, currentFrameRead := s.currentFrameRead + k } set (some (bytes.drop k))
      constructor
      · intro _
        rw [hstate]
        exact UniState.reset_waits hw
      · intro rest hmem
        rcases hrest with hrest | hrest
        · rw [hrest] at hmem
          cases hmem
        · rw [hrest] at hmem
          cases hmem
          exact ⟨by rw [List.length_drop]; omega, .inl (by rw [hstate]; rfl)⟩
    · rename_i hlt
      -- all the bytes are of the frame, which is not whole yet
      have hnil : bytes.drop k = [] := List.drop_eq_nil_of_le (by omega)
      rw [hnil]
      constructor
      · intro _
        refine ⟨hw, fun hnone => absurd hnone htype, fun n hn => ?_⟩
        have hn' : s.currentFrameLength = some n := hn
        rw [hl] at hn'
        cases hn'
        exact Nat.lt_of_not_le hlt
      · rintro rest ⟨⟩
        exact ⟨Nat.zero_le _, .inr rfl⟩

theorem length_leaves (hw : Varint.decode s.frameHeader = none) {frameType : Nat}
    (ht : s.currentFrameType = some frameType) (hin : ∀ n ∈ s.currentFrameLength, s.currentFrameRead < n) :
    Leaves s bytes (roundLength mem s set bytes) := by
  cases hl : s.currentFrameLength with
  | some length =>
    rw [length_known hl]
    exact content_leaves hw ht hl
  | none =>
    have htype : s.currentFrameType ≠ none := by rw [ht]; exact Option.some_ne_none frameType
    by_cases hb : bytes = []
    · subst hb
      rw [length_nil hl]
      refine ⟨fun _ => ⟨hw, fun hnone => absurd hnone htype, hin⟩, ?_⟩
      rintro rest ⟨⟩
      exact ⟨le_rfl, .inr rfl⟩
    · cases hx : Varint.decode (s.frameHeader ++ bytes) with
      | none =>
        rw [length_none hl hb hx]
        refine ⟨fun _ => ⟨hx, fun hnone => absurd hnone htype, hin⟩, ?_⟩
        rintro rest ⟨⟩
        exact ⟨Nat.zero_le _, .inr rfl⟩
      | some r =>
        obtain ⟨length, c⟩ := r
        rw [length_some hl hw hb hx]
        have hlong := decode_longer hw hx
        have hleaves : Leaves (s.sized length) ((s.frameHeader ++ bytes).drop c)
            (roundContent mem (s.sized length) set length ((s.frameHeader ++ bytes).drop c)) :=
          content_leaves Varint.decode_nil ht rfl
        refine ⟨hleaves.waits, fun rest hrest => ?_⟩
        obtain ⟨hle, hend⟩ := hleaves.shorter rest hrest
        rw [List.length_drop, List.length_append] at hle
        exact ⟨by omega, hend⟩

/-- What the loop still has to do. -/
def UniState.todo (s : UniState) (bytes : List UInt8) : Nat :=
  2 * bytes.length + if s.currentFrameType = none then 0 else 1

theorem Leaves.todo_le {r : Control} (h : Leaves s bytes r) {rest : List UInt8} (hrest : r.rest = some rest) :
    r.state.todo rest ≤ max (2 * bytes.length) 1 := by
  obtain ⟨hle, hend⟩ := h.shorter rest hrest
  unfold UniState.todo
  rcases hend with hend | rfl
  · rw [if_pos hend]
    omega
  · rw [List.length_nil]
    split
    · omega
    · omega

/-- Every round that goes on leaves less to do. -/
theorem round_leaves (hw : s.Waits) (hb : bytes ≠ []) {rest : List UInt8}
    (h : (controlRound mem s set bytes).rest = some rest) :
    (controlRound mem s set bytes).state.Waits ∧ (controlRound mem s set bytes).state.todo rest < s.todo bytes := by
  have hpos := List.length_pos_of_ne_nil hb
  cases ht : s.currentFrameType with
  | some frameType =>
    have hleaves : Leaves s bytes (roundLength mem s set bytes) := length_leaves hw.header ht hw.inside
    have htodo : s.todo bytes = 2 * bytes.length + 1 := by
      unfold UniState.todo
      rw [ht, if_neg (Option.some_ne_none frameType)]
    rw [round_typed ht] at h ⊢
    have hle := hleaves.todo_le h
    exact ⟨hleaves.waits (h ▸ Option.some_ne_none rest), by omega⟩
  | none =>
    -- a type still to be read counts one less than a frame being read
    have htodo : s.todo bytes = 2 * bytes.length := by
      unfold UniState.todo
      rw [ht, if_pos rfl]
      rfl
    cases hx : Varint.decode (s.frameHeader ++ bytes) with
    | none =>
      rw [round_type_none ht hb hx] at h ⊢
      cases h
      refine ⟨⟨hx, hw.start, hw.inside⟩, ?_⟩
      have htype : (s.holding (s.frameHeader ++ bytes)).currentFrameType = none := ht
      unfold UniState.todo at htodo ⊢
      simp only [htype, if_true, List.length_nil]
      omega
    | some r =>
      obtain ⟨frameType, c⟩ := r
      have hlong := decode_longer hw.header hx
      rw [round_type_some ht hw hb hx] at h ⊢
      cases he : typeError set frameType with
      | some code =>
        rw [he] at h
        cases h
      | none =>
        rw [he] at h
        have hleaves : Leaves (s.accepting frameType) ((s.frameHeader ++ bytes).drop c)
            (roundLength mem (s.accepting frameType) set ((s.frameHeader ++ bytes).drop c)) :=
          length_leaves Varint.decode_nil rfl hw.inside
        have hle := hleaves.todo_le h
        rw [List.length_drop, List.length_append] at hle
        exact ⟨hleaves.waits (h ▸ Option.some_ne_none rest), by simp only; omega⟩

end Rounds

/-! ## The loop -/

section Loop

variable {mem : Mem} {s : UniState} {set : Settings}

/-- Enough rounds are as good as any more. -/
theorem controlLoop_enough : ∀ (n m : Nat) {s : UniState} {set : Settings} {bytes : List UInt8}, s.Waits →
    s.todo bytes ≤ n → s.todo bytes ≤ m → controlLoop mem n s set bytes = controlLoop mem m s set bytes
  | n, m, s, set, [], _, _, _ => by cases n <;> cases m <;> rfl
  | 0, _, s, set, b :: bs, _, hn, _ => by
    unfold UniState.todo at hn
    rw [List.length_cons] at hn
    omega
  | _ + 1, 0, s, set, b :: bs, _, _, hm => by
    unfold UniState.todo at hm
    rw [List.length_cons] at hm
    omega
  | n + 1, m + 1, s, set, b :: bs, hw, hn, hm => by
    have hb : b :: bs ≠ [] := List.cons_ne_nil b bs
    have hleft : ∀ rest, (controlRound mem s set (b :: bs)).rest = some rest → _ := fun rest => round_leaves hw hb
    unfold controlLoop
    rw [if_neg hb, if_neg hb]
    generalize controlRound mem s set (b :: bs) = r at hleft
    obtain ⟨s', set', rest, code⟩ := r
    cases rest with
    | none => rfl
    | some rest =>
      obtain ⟨hw', hlt⟩ := hleft rest rfl
      simp only at hlt ⊢
      exact controlLoop_enough n m hw' (by omega) (by omega)

/-- What comes of a round when the loop goes on. -/
def Control.goOn (mem : Mem) (r : Control) : Control :=
  match r.rest with
  | none => r
  | some rest => parseControlStream mem r.state r.settings rest

theorem parse_nil (mem : Mem) (s : UniState) (set : Settings) :
    parseControlStream mem s set [] = ⟨s, set, some [], 0⟩ :=
  rfl

theorem parseControlStream_step (hw : s.Waits) {bytes : List UInt8} (hb : bytes ≠ []) :
    parseControlStream mem s set bytes = (controlRound mem s set bytes).goOn mem := by
  have hleft : ∀ rest, (controlRound mem s set bytes).rest = some rest → _ := fun rest => round_leaves hw hb
  have htodo : s.todo bytes ≤ 2 * bytes.length + 1 := by
    unfold UniState.todo
    split
    · omega
    · omega
  unfold parseControlStream controlLoop Control.goOn
  rw [if_neg hb]
  generalize controlRound mem s set bytes = r at hleft
  obtain ⟨s', set', rest, code⟩ := r
  cases rest with
  | none => rfl
  | some rest =>
    obtain ⟨hw', hlt⟩ := hleft rest rfl
    have hrest : s'.todo rest ≤ 2 * rest.length + 1 := by
      unfold UniState.todo
      split
      · omega
      · omega
    simp only at hlt ⊢
    exact controlLoop_enough _ _ hw' (by omega) hrest

/-! ## Chunks -/

/-- What comes of the parser's result when more bytes arrive. -/
def Control.andThen (mem : Mem) (r : Control) (bytes : List UInt8) : Control :=
  match r.rest with
  | none => r
  | some _ => parseControlStream mem r.state r.settings bytes

/-- Of `a` and the bytes behind it, those of the frame. -/
theorem available_split (s : UniState) {length : Nat} {a : List UInt8} (b : List UInt8)
    (ha : a.length ≤ length - s.currentFrameRead) (hread : s.currentFrameRead < length) :
    length ≤ s.currentFrameRead + a.length ∧ s.available length (a ++ b) = a.length ∨
      s.currentFrameRead + a.length < length ∧ s.available length (a ++ b) = a.length +
        UniState.available { s with currentFrameRead := s.currentFrameRead + a.length } length b := by
  unfold UniState.available
  rw [List.length_append]
  by_cases hend : length ≤ s.currentFrameRead + a.length
  · refine .inl ⟨hend, ?_⟩
    split
    · omega
    · omega
  · refine .inr ⟨Nat.lt_of_not_le hend, ?_⟩
    dsimp only
    split
    · rw [if_pos (by omega)]
      omega
    · rw [if_neg (by omega)]

/-- Content up to the end of the frame, or less, and the bytes behind it. -/
theorem take_split (mem : Mem) (s : UniState) {length : Nat} {a : List UInt8} (b : List UInt8)
    (ha : a.length ≤ length - s.currentFrameRead) :
    (s.currentFrameRead < length ∧ takeContent mem s length a = (s, none) ∧
        takeContent mem s length (a ++ b) = (s, none)) ∨
      ∃ frame, takeContent mem s length a =
          ({ s with currentFrame := frame, currentFrameRead := s.currentFrameRead + a.length }, some []) ∧
        takeContent mem s length (a ++ b) =
          if length ≤ s.currentFrameRead + a.length then
            ({ s with currentFrame := frame, currentFrameRead := s.currentFrameRead + a.length }, some b)
          else
            takeContent mem { s with currentFrame := frame, currentFrameRead := s.currentFrameRead + a.length }
              length b := by
  have hava : s.available length a = a.length := by
    unfold UniState.available
    split
    · omega
    · rfl
  have hdrop : a.drop (s.available length a) = [] := by rw [hava, List.drop_length]
  -- a frame that was read in full takes nothing more
  by_cases hread : s.currentFrameRead < length
  swap
  · have hnil : a = [] := List.length_eq_zero_iff.1 (by omega)
    subst hnil
    refine .inr ⟨s.currentFrame, ?_, ?_⟩
    · unfold takeContent
      rw [if_neg hread]
      rfl
    · unfold takeContent
      rw [if_neg hread, if_pos (by rw [List.length_nil]; omega)]
      rfl
  have havb := available_split s b ha hread
  -- skipped, or stored as far as `malloc` and the bound allow
  by_cases hi : s.isCurrentFrameIgnored = true
  · refine .inr ⟨s.currentFrame, ?_, ?_⟩
    · unfold takeContent skipFrameContent
      rw [if_pos hread, if_pos hi, hdrop, hava]
    · rcases havb with ⟨hend, hav⟩ | ⟨hend, hav⟩
      · unfold takeContent skipFrameContent
        rw [if_pos hread, if_pos hi, if_pos hend, hav, List.drop_left]
      · rw [if_neg (Nat.not_le.2 hend)]
        unfold takeContent skipFrameContent
        rw [if_pos hread, if_pos hi, if_pos hend, if_pos hi, hav, Nat.add_assoc, List.drop_append]
        simp [UniState.available]
  · unfold takeContent
    rw [if_pos hread, if_pos hread, if_neg hi, if_neg hi]
    unfold loadFrameContent
    by_cases hbig : length > 0x10000
    · exact .inl ⟨hread, if_pos hbig, if_pos hbig⟩
    · rw [if_neg hbig, if_neg hbig]
      cases s.currentFrame.or (if mem.malloc length then some [] else none) with
      | none => exact .inl ⟨hread, rfl, rfl⟩
      | some frame =>
        refine .inr ⟨some (frame ++ a), ?_, ?_⟩
        · simp only [hava, List.take_length, List.drop_length]
        · rcases havb with ⟨hend, hav⟩ | ⟨hend, hav⟩
          · rw [if_pos hend, hav, List.drop_left, List.take_left]
          · rw [if_neg (Nat.not_le.2 hend), if_pos hend, if_neg hi, if_neg hbig, hav]
            simp [UniState.available, List.take_append, List.drop_append, Nat.add_assoc]

/-- The end of a frame with bytes behind it, and these bytes later. -/
theorem endFrame_split (mem : Mem) (s : UniState) (set : Settings) (b : List UInt8) :
    (endFrame mem s set (some b)).goOn mem = ((endFrame mem s set (some [])).goOn mem).andThen mem b := by
  unfold endFrame
  by_cases ht : s.currentFrameType = some h3zeroFrameSettings
  · rw [if_pos ht, if_pos ht]
    cases s.currentFrame with
    | none => rfl
    | some frame =>
      simp only
      split
      · rfl
      · rfl
  · rw [if_neg ht, if_neg ht]
    rfl

theorem content_split (mem : Mem) (hw : Varint.decode s.frameHeader = none) {frameType length : Nat}
    (ht : s.currentFrameType = some frameType) (hl : s.currentFrameLength = some length) {a b : List UInt8}
    (ha : a.length ≤ length - s.currentFrameRead) (hb : b ≠ []) :
    (roundContent mem s set length (a ++ b)).goOn mem = ((roundContent mem s set length a).goOn mem).andThen mem b := by
  rcases take_split mem s b ha with ⟨hread, h1, h2⟩ | ⟨frame, h1, h2⟩
  · unfold roundContent
    rw [h1, h2]
    simp only
    rw [if_neg (Nat.not_le.2 hread)]
    rfl
  · unfold roundContent
    rw [h1, h2]
    by_cases hend : length ≤ s.currentFrameRead + a.length
    · rw [if_pos hend]
      simp only
      rw [if_pos hend, if_pos hend]
      exact endFrame_split mem _ set b
    · -- the frame goes on in the second part
      rw [if_neg hend]
      simp only
      rw [if_neg hend]
      generalize hs' : ({ s with currentFrame := frame, currentFrameRead := s.currentFrameRead + a.length } : UniState)
        = s'
      have hw' : s'.Waits := by
        subst hs'
        refine ⟨hw, fun hnone => ?_, fun n hn => ?_⟩
        · exact (Option.some_ne_none _ (ht.symm.trans hnone)).elim
        · have hn' : s.currentFrameLength = some n := hn
          rw [hl] at hn'
          cases hn'
          exact Nat.lt_of_not_le hend
      have ht' : s'.currentFrameType = some frameType := by rw [← hs']; exact ht
      have hl' : s'.currentFrameLength = some length := by rw [← hs']; exact hl
      show _ = parseControlStream mem s' set b
      rw [parseControlStream_step hw' hb, round_typed ht', length_known hl']
      rfl

/-- The parser fails, or takes all bytes and waits. -/
theorem parse_ends (mem : Mem) : ∀ (n : Nat) {s : UniState} {set : Settings} {bytes : List UInt8}, s.Waits →
    s.todo bytes ≤ n → (parseControlStream mem s set bytes).rest = none ∨
      ∃ s' set', parseControlStream mem s set bytes = ⟨s', set', some [], 0⟩ ∧ s'.Waits
  | n, s, set, [], hw, _ => .inr ⟨s, set, rfl, hw⟩
  | 0, s, set, b :: bs, _, hn => by
    unfold UniState.todo at hn
    rw [List.length_cons] at hn
    omega
  | n + 1, s, set, b :: bs, hw, hn => by
    have hb : b :: bs ≠ [] := List.cons_ne_nil b bs
    rw [parseControlStream_step hw hb]
    unfold Control.goOn
    cases hr : (controlRound mem s set (b :: bs)).rest with
    | none => exact .inl hr
    | some rest =>
      obtain ⟨hw', hlt⟩ := round_leaves hw hb hr
      exact parse_ends mem n hw' (by omega)

/-- What a varint in pieces was read as is read again when more bytes come. -/
theorem round_holding (hw : s.Waits) {b : UInt8} {bs : List UInt8} (hbs : bs ≠ [])
    (hx : Varint.decode (s.frameHeader ++ [b]) = none) (hl : s.currentFrameLength = none) :
    controlRound mem s set (b :: bs) = controlRound mem (s.holding (s.frameHeader ++ [b])) set bs := by
  have hb : b :: bs ≠ [] := List.cons_ne_nil b bs
  have hsame : s.frameHeader ++ b :: bs = (s.holding (s.frameHeader ++ [b])).frameHeader ++ bs := by
    rw [List.append_cons]
    rfl
  have hw' : (s.holding (s.frameHeader ++ [b])).Waits := ⟨hx, hw.start, hw.inside⟩
  have hl' : (s.holding (s.frameHeader ++ [b])).currentFrameLength = none := hl
  cases ht : s.currentFrameType with
  | none =>
    have ht' : (s.holding (s.frameHeader ++ [b])).currentFrameType = none := ht
    cases h : Varint.decode (s.frameHeader ++ b :: bs) with
    | none =>
      rw [round_type_none ht hb h, round_type_none ht' hbs (hsame ▸ h), ← hsame]
      rfl
    | some r =>
      rw [round_type_some ht hw hb h, round_type_some ht' hw' hbs (hsame ▸ h), ← hsame]
      rfl
  | some frameType =>
    have ht' : (s.holding (s.frameHeader ++ [b])).currentFrameType = some frameType := ht
    rw [round_typed ht, round_typed ht']
    cases h : Varint.decode (s.frameHeader ++ b :: bs) with
    | none =>
      rw [length_none hl hb h, length_none hl' hbs (hsame ▸ h), ← hsame]
      rfl
    | some r =>
      rw [length_some hl hw.header hb h, length_some hl' hx hbs (hsame ▸ h), ← hsame]
      rfl

/-- A byte that completes a varint is its last one. -/
theorem decode_last {x : List UInt8} {b : UInt8} {v c : Nat} (hx : Varint.decode x = none)
    (h : Varint.decode (x ++ [b]) = some (v, c)) (bs : List UInt8) :
    (x ++ [b]).drop c = [] ∧ Varint.decode (x ++ b :: bs) = some (v, c) ∧ (x ++ b :: bs).drop c = bs := by
  obtain ⟨-, hle⟩ := Varint.decode_bounds h
  have hlong := decode_longer hx h
  have hlen : (x ++ [b]).length = c := by
    rw [List.length_append, List.length_singleton] at hle ⊢
    omega
  have hcons : x ++ b :: bs = x ++ [b] ++ bs := List.append_cons x b bs
  refine ⟨List.drop_eq_nil_of_le hlen.le, ?_, ?_⟩
  · rw [hcons]
    exact Varint.decode_append h bs
  · rw [hcons, ← hlen, List.drop_left]

/-- A byte, and the bytes behind it. -/
theorem parse_cons (hw : s.Waits) (b : UInt8) {bs : List UInt8} (hbs : bs ≠ []) :
    parseControlStream mem s set (b :: bs) = (parseControlStream mem s set [b]).andThen mem bs := by
  have hb : b :: bs ≠ [] := List.cons_ne_nil b bs
  have h1 : [b] ≠ [] := List.cons_ne_nil b []
  rw [parseControlStream_step hw hb, parseControlStream_step hw h1]
  cases ht : s.currentFrameType with
  | none =>
    have hl := hw.start ht
    cases hx : Varint.decode (s.frameHeader ++ [b]) with
    | none =>
      have hw' : (s.holding (s.frameHeader ++ [b])).Waits := ⟨hx, hw.start, hw.inside⟩
      rw [round_holding hw hbs hx hl, round_type_none ht h1 hx]
      exact (parseControlStream_step hw' hbs).symm
    | some r =>
      obtain ⟨frameType, c⟩ := r
      obtain ⟨hnil, hdec, hrest⟩ := decode_last hw.header hx bs
      rw [round_type_some ht hw hb hdec, round_type_some ht hw h1 hx, hnil, hrest]
      cases typeError set frameType with
      | some code => rfl
      | none =>
        -- the length is still to come
        have hl' : (s.accepting frameType).currentFrameLength = none := hl
        have hw' : (s.accepting frameType).Waits :=
          ⟨Varint.decode_nil, fun hnone => (Option.some_ne_none _ hnone).elim, hw.inside⟩
        simp only
        rw [length_nil hl']
        show _ = parseControlStream mem (s.accepting frameType) set bs
        rw [parseControlStream_step hw' hbs, round_typed rfl]
  | some frameType =>
    cases hl : s.currentFrameLength with
    | none =>
      cases hx : Varint.decode (s.frameHeader ++ [b]) with
      | none =>
        have hw' : (s.holding (s.frameHeader ++ [b])).Waits := ⟨hx, hw.start, hw.inside⟩
        rw [round_holding hw hbs hx hl, round_typed ht, length_none hl h1 hx]
        exact (parseControlStream_step hw' hbs).symm
      | some r =>
        obtain ⟨length, c⟩ := r
        obtain ⟨hnil, hdec, hrest⟩ := decode_last hw.header hx bs
        have hw' : Varint.decode (s.sized length).frameHeader = none := Varint.decode_nil
        rw [round_typed ht, round_typed ht, length_some hl hw.header hb hdec,
          length_some hl hw.header h1 hx, hnil, hrest]
        exact content_split (a := []) mem hw' ht rfl (Nat.zero_le _) hbs
    | some length =>
      have hin := hw.inside length hl
      rw [round_typed ht, round_typed ht, length_known hl, length_known hl]
      exact content_split (a := [b]) mem hw.header ht hl (by rw [List.length_singleton]; omega) hbs

theorem Control.andThen_nil {s' : UniState} {set' : Settings} :
    Control.andThen mem ⟨s', set', some [], 0⟩ [] = ⟨s', set', some [], 0⟩ := rfl

/-- The control stream may be cut anywhere. -/
theorem parseControlStream_append (mem : Mem) : ∀ (a : List UInt8) {s : UniState} {set : Settings} (b : List UInt8),
    s.Waits → parseControlStream mem s set (a ++ b) = (parseControlStream mem s set a).andThen mem b
  | [], s, set, b, _ => rfl
  | x :: a, s, set, b, hw => by
    have hone := @parse_ends mem (s.todo [x]) s set [x] hw le_rfl
    rcases List.eq_nil_or_concat' a with rfl | ⟨a', y, hay⟩
    · rcases List.eq_nil_or_concat' b with rfl | ⟨b', y, hby⟩
      · rw [List.append_nil]
        rcases hone with hnone | ⟨s', set', hr, -⟩
        · unfold Control.andThen
          rw [hnone]
        · rw [hr]
          exact Control.andThen_nil.symm
      · have hb : b ≠ [] := by rw [hby]; exact List.append_ne_nil_of_right_ne_nil _ (List.cons_ne_nil y [])
        exact parse_cons hw x hb
    · have ha : a ≠ [] := by rw [hay]; exact List.append_ne_nil_of_right_ne_nil _ (List.cons_ne_nil y [])
      have hab : a ++ b ≠ [] := List.append_ne_nil_of_left_ne_nil ha b
      rw [List.cons_append, parse_cons hw x hab, parse_cons hw x ha]
      rcases hone with hnone | ⟨s', set', hr, hw'⟩
      · unfold Control.andThen
        rw [hnone]
        simp only [hnone]
      · rw [hr]
        exact parseControlStream_append mem a b hw'

end Loop

/-! ## Frames -/

/-- A frame on the control stream, its type and length in `head` in any encoding. -/
structure ControlFrame where
  frameType : Nat
  head : List UInt8
  payload : List UInt8
  header : frameHeaderOf head = some (frameType, payload.length, head.length)

def ControlFrame.bytes (f : ControlFrame) : List UInt8 := f.head ++ f.payload

/-- The state at the start of a frame. -/
structure UniState.AtFrame (s : UniState) : Prop where
  frameType : s.currentFrameType = none
  length : s.currentFrameLength = none
  read : s.currentFrameRead = 0
  frame : s.currentFrame = none
  header : s.frameHeader = []

section Frames

variable {mem : Mem} {s : UniState} {set : Settings}

theorem UniState.AtFrame.waits (h : s.AtFrame) : s.Waits where
  header := by rw [h.header]; rfl
  start _ := h.length
  inside n hn := by rw [h.length] at hn; cases hn

theorem UniState.reset_atFrame (h : s.frameHeader = []) : s.reset.AtFrame := ⟨rfl, rfl, rfl, rfl, h⟩

/-- Content of a frame that is skipped, or for which there is memory. -/
theorem take_start {length : Nat} {a : List UInt8} (hread : s.currentFrameRead = 0) (hframe : s.currentFrame = none)
    (ha : a.length ≤ length)
    (hroom : s.isCurrentFrameIgnored = true ∨ (length ≤ 0x10000 ∧ mem.malloc length = true)) :
    takeContent mem s length a =
      ({ s with
          currentFrame := if s.isCurrentFrameIgnored = false ∧ 0 < length then some a else none
          currentFrameRead := a.length }, some []) := by
  have hava : s.available length a = a.length := by
    unfold UniState.available
    rw [hread]
    split
    · omega
    · rfl
  unfold takeContent
  rw [hread]
  by_cases hpos : 0 < length
  · rw [if_pos hpos]
    by_cases hi : s.isCurrentFrameIgnored = true
    · rw [if_pos hi, if_neg (fun h => Bool.false_ne_true (h.1.symm.trans hi))]
      unfold skipFrameContent
      rw [hava, hread, Nat.zero_add, List.drop_length, ← hframe]
    · obtain ⟨hle, hmalloc⟩ := hroom.resolve_left hi
      rw [if_neg hi, if_pos ⟨Bool.eq_false_iff.2 hi, hpos⟩]
      unfold loadFrameContent
      rw [if_neg (Nat.not_lt.2 hle), hframe, if_pos hmalloc, hava, hread, Nat.zero_add, List.drop_length,
        List.take_length,
        Option.none_or]
      rfl
  · have hnil : a = [] := List.length_eq_zero_iff.1 (by omega)
    subst hnil
    rw [if_neg hpos, if_neg (fun h => hpos h.2), ← hframe, List.length_nil, ← hread]

/-- Content short of its end, or all of it. -/
theorem content_start {length : Nat} {a : List UInt8} (hread : s.currentFrameRead = 0) (hframe : s.currentFrame = none)
    (ha : a.length ≤ length)
    (hroom : s.isCurrentFrameIgnored = true ∨ (length ≤ 0x10000 ∧ mem.malloc length = true)) :
    (a.length < length ∧ ∃ s', roundContent mem s set length a = ⟨s', set, some [], 0⟩) ∨
      (a.length = length ∧ roundContent mem s set length a =
        endFrame mem { s with
          currentFrame := if s.isCurrentFrameIgnored = false ∧ 0 < length then some a else none
          currentFrameRead := a.length } set (some [])) := by
  unfold roundContent
  rw [take_start hread hframe ha hroom]
  simp only
  rcases Nat.lt_or_eq_of_le ha with hlt | heq
  · rw [if_neg (Nat.not_le.2 hlt)]
    exact .inl ⟨hlt, _, rfl⟩
  · rw [if_pos heq.ge]
    exact .inr ⟨heq, rfl⟩

/-- The state at the end of a frame. -/
def UniState.ended (s : UniState) (f : ControlFrame) : UniState :=
  { (s.accepting f.frameType).sized f.payload.length with
    currentFrame :=
      if (s.accepting f.frameType).isCurrentFrameIgnored = false ∧ 0 < f.payload.length then some f.payload else none
    currentFrameRead := f.payload.length }

/-- A part of a frame header is held back. -/
theorem frame_header_none {q : List UInt8} (hs : s.AtFrame) (hq : frameHeaderOf q = none)
    (hok : ∀ frameType c, Varint.decode q = some (frameType, c) → typeError set frameType = none) :
    ∃ s', parseControlStream mem s set q = ⟨s', set, some [], 0⟩ := by
  by_cases hnil : q = []
  · exact ⟨s, by rw [hnil, parse_nil]⟩
  have hx : s.frameHeader ++ q = q := by rw [hs.header, List.nil_append]
  rw [parseControlStream_step hs.waits hnil]
  cases hdec : Varint.decode q with
  | none =>
    rw [round_type_none hs.frameType hnil (hx.symm ▸ hdec)]
    exact ⟨_, rfl⟩
  | some r =>
    obtain ⟨frameType, c⟩ := r
    have hlength : (s.accepting frameType).currentFrameLength = none := hs.length
    rw [round_type_some hs.frameType hs.waits hnil (hx.symm ▸ hdec), hok frameType c hdec, hx]
    by_cases hlnil : q.drop c = []
    · simp only [hlnil, length_nil hlength]
      exact ⟨_, rfl⟩
    · have hdec2 : Varint.decode (q.drop c) = none := by
        unfold frameHeaderOf at hq
        rw [hdec] at hq
        exact Option.map_eq_none_iff.1 hq
      simp only [length_none hlength hlnil hdec2]
      exact ⟨_, rfl⟩

/-- Behind a frame header comes the content. -/
theorem frame_header_some {q : List UInt8} (hs : s.AtFrame) {frameType length w : Nat}
    (hq : frameHeaderOf q = some (frameType, length, w)) (hok : typeError set frameType = none) :
    parseControlStream mem s set q =
      (roundContent mem ((s.accepting frameType).sized length) set length (q.drop w)).goOn mem := by
  obtain ⟨c, d, h1, h2, rfl⟩ := frameHeaderOf_some hq
  obtain ⟨hd, hdle⟩ := Varint.decode_bounds h2
  have hlnil : q.drop c ≠ [] := List.ne_nil_of_length_pos (by omega)
  have hnil : q ≠ [] := fun h => hlnil (by rw [h, List.drop_nil])
  have hx : s.frameHeader ++ q = q := by rw [hs.header, List.nil_append]
  have hlength : (s.accepting frameType).currentFrameLength = none := hs.length
  rw [parseControlStream_step hs.waits hnil, round_type_some hs.frameType hs.waits hnil (hx.symm ▸ h1), hok, hx]
  simp only
  rw [length_some hlength Varint.decode_nil hlnil h2]
  have hcontent : ((s.accepting frameType).frameHeader ++ q.drop c).drop d = q.drop (c + d) := List.drop_drop
  rw [hcontent]

/-- A part of an acceptable frame changes nothing of the settings, and the whole frame comes to its end. -/
theorem frame_upTo (f : ControlFrame) (hs : s.AtFrame) (hok : typeError set f.frameType = none)
    (hroom : (s.accepting f.frameType).isCurrentFrameIgnored = true ∨
      (f.payload.length ≤ 0x10000 ∧ mem.malloc f.payload.length = true)) {q : List UInt8} (hq : q <+: f.bytes) :
    (q.length < f.bytes.length ∧ ∃ s', parseControlStream mem s set q = ⟨s', set, some [], 0⟩) ∨
      (q = f.bytes ∧ parseControlStream mem s set q = (endFrame mem (s.ended f) set (some [])).goOn mem) := by
  have hheader : frameHeaderOf f.bytes = some (f.frameType, f.payload.length, f.head.length) :=
    frameHeaderOf_append f.header f.payload
  have hshort : q ≠ f.bytes → q.length < f.bytes.length :=
    fun hne => Nat.lt_of_le_of_ne hq.length_le fun heq => hne (hq.eq_of_length heq)
  cases hdec : frameHeaderOf q with
  | none =>
    refine .inl ⟨hshort ?_, frame_header_none hs hdec ?_⟩
    · rintro rfl
      rw [hheader] at hdec
      cases hdec
    · intro frameType c h1
      obtain ⟨c', d, h1', -, -⟩ := frameHeaderOf_some hheader
      have htype : frameType = f.frameType := congrArg Prod.fst (Varint.decode_agree hq h1 h1')
      rw [htype]
      exact hok
  | some r =>
    -- the header is whole, and what stands behind it is a part of the payload
    have hr := frameHeaderOf_agree hq hdec hheader
    subst hr
    obtain ⟨-, hle⟩ := frameHeaderOf_bounds hdec
    obtain ⟨a, rfl⟩ : ∃ a, q = f.head ++ a := by
      obtain ⟨a, ha⟩ := List.prefix_of_prefix_length_le (List.prefix_append f.head f.payload) hq hle
      exact ⟨a, ha.symm⟩
    have ha : a <+: f.payload := (List.prefix_append_right_inj f.head).1 hq
    rw [frame_header_some hs hdec hok, List.drop_left]
    have hread : ((s.accepting f.frameType).sized f.payload.length).currentFrameRead = 0 := hs.read
    have hframe : ((s.accepting f.frameType).sized f.payload.length).currentFrame = none := hs.frame
    rcases @content_start mem _ set _ _ hread hframe ha.length_le hroom with ⟨hlt, s', hcontent⟩ | ⟨heq, hcontent⟩
    · refine .inl ⟨?_, s', congrArg (Control.goOn mem) hcontent⟩
      unfold ControlFrame.bytes
      rw [List.length_append, List.length_append]
      omega
    · have hwhole : a = f.payload := ha.eq_of_length heq
      subst hwhole
      exact .inr ⟨rfl, congrArg (Control.goOn mem) hcontent⟩

/-- A frame the parser skips once it has the settings. -/
def ControlFrame.Follows (f : ControlFrame) : Prop :=
  f.frameType ≠ h3zeroFrameSettings ∧ f.frameType ≠ h3zeroFrameData ∧ f.frameType ≠ h3zeroFrameHeader ∧
    f.frameType ≠ h3zeroFramePushPromise ∧ f.frameType ≠ h3zeroFrameWebtransportStream

/-- The bytes of frames. -/
def framesBytes (fs : List ControlFrame) : List UInt8 := (fs.map ControlFrame.bytes).flatten

theorem prefix_split {q a b : List UInt8} (h : q <+: a ++ b) : q <+: a ∨ ∃ q', q = a ++ q' ∧ q' <+: b := by
  rcases List.prefix_or_prefix_of_prefix h (List.prefix_append a b) with hq | ⟨q', rfl⟩
  · exact .inl hq
  · exact .inr ⟨q', rfl, (List.prefix_append_right_inj a).1 h⟩

/-- Frames behind the settings, up to any byte, change nothing of the settings. -/
theorem follow_upTo : ∀ {fs : List ControlFrame} {s : UniState} {q : List UInt8}, (∀ f ∈ fs, f.Follows) → s.AtFrame →
    set.settingsReceived = true → q <+: framesBytes fs →
    ∃ s', parseControlStream mem s set q = ⟨s', set, some [], 0⟩
  | [], s, q, _, _, _, hq => by
    rw [List.prefix_nil.1 hq]
    exact ⟨s, rfl⟩
  | f :: fs, s, q, hall, hs, hset, hq => by
    obtain ⟨hne, hother⟩ := hall f List.mem_cons_self
    have hok : typeError set f.frameType = none := by
      unfold typeError
      rw [if_neg fun h => hne h.2, if_neg fun h => h.1 hset, if_neg (by tauto)]
    have hignored : (s.accepting f.frameType).isCurrentFrameIgnored = true := by
      show (s.isCurrentFrameIgnored || decide (f.frameType ≠ h3zeroFrameSettings)) = true
      rw [decide_eq_true hne, Bool.or_true]
    have hend : (endFrame mem (s.ended f) set (some [])).goOn mem = ⟨(s.ended f).reset, set, some [], 0⟩ := by
      have htype : ¬ (s.ended f).currentFrameType = some h3zeroFrameSettings := fun h => hne (Option.some.inj h)
      unfold endFrame
      rw [if_neg htype]
      rfl
    have hcases := fun {q} => @frame_upTo mem s set f hs hok (.inl hignored) q
    rcases prefix_split hq with hq | ⟨q', rfl, hq'⟩
    · rcases hcases hq with ⟨-, hr⟩ | ⟨-, hr⟩
      · exact hr
      · exact ⟨_, hr.trans hend⟩
    · rcases hcases (List.prefix_refl _) with ⟨hlt, -⟩ | ⟨-, hr⟩
      · exact absurd hlt (lt_irrefl _)
      · rw [parseControlStream_append mem _ q' hs.waits, hr, hend]
        exact follow_upTo (fun g hg => hall g (List.mem_cons_of_mem f hg)) (UniState.reset_atFrame rfl) hset hq'

end Frames

/-! ## A control stream -/

/-- A control stream as a client sends it: its type, SETTINGS that decode, and frames that may follow. -/
structure SettingsStream (mem : Mem) where
  streamType : List UInt8
  settings : ControlFrame
  frames : List ControlFrame
  decoded : Settings
  control : Varint.decode streamType = some (h3zeroStreamTypeControl, streamType.length)
  isSettings : settings.frameType = h3zeroFrameSettings
  room : settings.payload.length ≤ 0x10000 ∧ mem.malloc settings.payload.length = true
  nonempty : settings.payload ≠ []
  decodes : settingsComponentsDecode mem.framesVarintDecode .zero settings.payload = (decoded, true)
  follows : ∀ f ∈ frames, f.Follows

namespace SettingsStream

variable {mem : Mem} (S : SettingsStream mem)

/-- The bytes up to the end of the SETTINGS frame. -/
def start : List UInt8 := S.streamType ++ S.settings.bytes

def bytes : List UInt8 := S.start ++ framesBytes S.frames

/-- The settings received. -/
def received : Settings := { S.decoded with settingsReceived := true }

theorem bytes_eq : S.bytes = S.streamType ++ (S.settings.bytes ++ framesBytes S.frames) := List.append_assoc ..

theorem decode_bytes : Varint.decode S.bytes = some (h3zeroStreamTypeControl, S.streamType.length) := by
  rw [S.bytes_eq]
  exact Varint.decode_append S.control _

/-- SETTINGS, up to any byte of them and behind. -/
theorem control_upTo {s : UniState} (hs : s.AtFrame) (hi : s.isCurrentFrameIgnored = false) {q : List UInt8}
    (hq : q <+: S.settings.bytes ++ framesBytes S.frames) :
    ∃ s', parseControlStream mem s .zero q =
      ⟨s', if S.settings.bytes.length ≤ q.length then S.received else .zero, some [], 0⟩ := by
  have htype := S.isSettings
  have hok : typeError .zero S.settings.frameType = none := by rw [htype]; rfl
  have hload : (s.accepting S.settings.frameType).isCurrentFrameIgnored = false := by
    show (s.isCurrentFrameIgnored || decide (S.settings.frameType ≠ h3zeroFrameSettings)) = false
    rw [hi, htype]
    rfl
  have hpos : 0 < S.settings.payload.length := List.length_pos_of_ne_nil S.nonempty
  have hend : (endFrame mem (s.ended S.settings) .zero (some [])).goOn mem =
      ⟨(s.ended S.settings).reset, S.received, some [], 0⟩ := by
    have hset : (s.ended S.settings).currentFrameType = some h3zeroFrameSettings := congrArg some htype
    have hframe : (s.ended S.settings).currentFrame = some S.settings.payload := if_pos ⟨hload, hpos⟩
    unfold endFrame
    rw [if_pos hset, hframe]
    simp only [S.decodes, if_true]
    rfl
  have hcases := fun {q} => @frame_upTo mem s .zero S.settings hs hok (.inr S.room) q
  rcases prefix_split hq with hq | ⟨q', rfl, hq'⟩
  · rcases hcases hq with ⟨hlt, s', hr⟩ | ⟨heq, hr⟩
    · exact ⟨s', by rw [hr, if_neg (Nat.not_le.2 hlt)]⟩
    · exact ⟨_, by rw [hr, hend, heq, if_pos le_rfl]⟩
  · rcases hcases (List.prefix_refl _) with ⟨hlt, -⟩ | ⟨-, hr⟩
    · exact absurd hlt (lt_irrefl _)
    · obtain ⟨s', hr'⟩ := @follow_upTo mem S.received S.frames (s.ended S.settings).reset q' S.follows
        (UniState.reset_atFrame rfl) rfl hq'
      refine ⟨s', ?_⟩
      rw [parseControlStream_append mem _ q' hs.waits, hr, hend, if_pos (by rw [List.length_append]; omega)]
      exact hr'

end SettingsStream

/-! ## Streams in chunks -/

section Unidir

variable {mem : Mem} {s : UniState} {set : Settings} {bytes : List UInt8}

theorem content_streamType (length : Nat) : (roundContent mem s set length bytes).state.streamType = s.streamType := by
  have htake : (takeContent mem s length bytes).1.streamType = s.streamType := by
    rcases take_cases mem s length bytes with ⟨-, h⟩ | ⟨frame, k, h, -⟩
    · rw [h]
    · rw [h]
  unfold roundContent
  generalize takeContent mem s length bytes = r at htake
  obtain ⟨s', rest⟩ := r
  simp only at htake ⊢
  split
  · rw [(endFrame_cases mem s' set rest).1]
    exact htake
  · exact htake

theorem length_streamType : (roundLength mem s set bytes).state.streamType = s.streamType := by
  unfold roundLength
  split
  · exact content_streamType _
  · simp only
    split
    · rfl
    · exact content_streamType _

theorem round_streamType : (controlRound mem s set bytes).state.streamType = s.streamType := by
  unfold controlRound
  split
  · exact length_streamType
  · simp only
    split
    · rfl
    · split
      · rfl
      · exact length_streamType

theorem controlLoop_streamType : ∀ (n : Nat) (s : UniState) (set : Settings) (bytes : List UInt8),
    (controlLoop mem n s set bytes).state.streamType = s.streamType
  | 0, _, _, _ => rfl
  | n + 1, s, set, bytes => by
    have hround := @round_streamType mem s set bytes
    unfold controlLoop
    split
    · rfl
    · generalize controlRound mem s set bytes = r at hround
      obtain ⟨s', set', rest, code⟩ := r
      cases rest with
      | none => exact hround
      | some rest => exact (controlLoop_streamType n s' set' rest).trans hround

/-- The state behind the type of the stream. -/
def UniState.onType (streamType : Nat) : UniState :=
  if streamType = h3zeroStreamTypeControl then { UniState.fresh with streamType := some streamType }.reset
  else { UniState.fresh with streamType := some streamType }

/-- The type of the stream is not whole yet. -/
theorem unidir_none {x : List UInt8} (h : Varint.decode (x ++ bytes) = none) :
    parseRemoteUnidirStream mem (UniState.fresh.holding x) set bytes =
      ⟨UniState.fresh.holding (x ++ bytes), set, some [], 0⟩ := by
  unfold parseRemoteUnidirStream
  by_cases hb : bytes = []
  · subst hb
    rw [List.append_nil]
    rfl
  · simp only [UniState.fresh, UniState.holding, varintFromStream_none hb none h]

/-- The bytes complete the type of the stream. -/
theorem unidir_some {x : List UInt8} (hx : Varint.decode x = none) {streamType c : Nat}
    (h : Varint.decode (x ++ bytes) = some (streamType, c)) :
    parseRemoteUnidirStream mem (UniState.fresh.holding x) set bytes =
      parseTyped mem (.onType streamType) set streamType ((x ++ bytes).drop c) := by
  have hb : bytes ≠ [] := by
    rintro rfl
    rw [List.append_nil, hx] at h
    cases h
  unfold parseRemoteUnidirStream
  simp only [UniState.fresh, UniState.holding, varintFromStream_some hb hx none h]
  rfl

theorem fresh_none (h : Varint.decode bytes = none) :
    parseRemoteUnidirStream mem .fresh set bytes = ⟨UniState.fresh.holding bytes, set, some [], 0⟩ :=
  unidir_none (x := []) h

theorem fresh_some {streamType c : Nat} (h : Varint.decode bytes = some (streamType, c)) :
    parseRemoteUnidirStream mem .fresh set bytes = parseTyped mem (.onType streamType) set streamType (bytes.drop c) :=
  unidir_some (x := []) Varint.decode_nil h

theorem unidir_typed {streamType : Nat} (h : s.streamType = some streamType) :
    parseRemoteUnidirStream mem s set bytes = parseTyped mem s set streamType bytes := by
  unfold parseRemoteUnidirStream
  rw [h]

/-- The bytes received of a stream do not make it a control stream. -/
def NotControl (bytes : List UInt8) : Prop := ∀ c, Varint.decode bytes ≠ some (h3zeroStreamTypeControl, c)

theorem NotControl.left {a b : List UInt8} (h : NotControl (a ++ b)) : NotControl a :=
  fun c hc => h c (Varint.decode_append hc b)

theorem notControl_nil : NotControl [] := fun _ h => (Option.some_ne_none _ h.symm).elim

theorem notControl_of_decode {streamType c : Nat} (h : Varint.decode bytes = some (streamType, c))
    (ht : streamType ≠ h3zeroStreamTypeControl) : NotControl bytes := by
  intro c' h'
  rw [h] at h'
  exact ht (congrArg Prod.fst (Option.some.inj h'))

/-- A stream of another type, behind `bytes`. -/
def UniState.Other (s : UniState) (bytes : List UInt8) : Prop :=
  (Varint.decode bytes = none ∧ s = UniState.fresh.holding bytes) ∨
    ∃ streamType, streamType ≠ h3zeroStreamTypeControl ∧ s.streamType = some streamType

theorem streamId_streamType (s : UniState) (bytes : List UInt8) :
    (wtParseControlStreamId s bytes).1.streamType = s.streamType := by
  unfold wtParseControlStreamId
  split
  · rfl
  · rfl

theorem typed_other {streamType : Nat} (ht : streamType ≠ h3zeroStreamTypeControl)
    (hs : s.streamType = some streamType) :
    (parseTyped mem s set streamType bytes).settings = set ∧
      (parseTyped mem s set streamType bytes).state.streamType = some streamType := by
  unfold parseTyped
  rw [if_neg ht]
  split
  · exact ⟨rfl, (streamId_streamType s bytes).trans hs⟩
  · exact ⟨rfl, hs⟩

/-- More bytes of a stream of another type leave the settings alone. -/
theorem unidir_other {x : List UInt8} (hs : s.Other x) (h : NotControl (x ++ bytes)) :
    (parseRemoteUnidirStream mem s set bytes).settings = set ∧
      (parseRemoteUnidirStream mem s set bytes).state.Other (x ++ bytes) := by
  rcases hs with ⟨hx, rfl⟩ | ⟨t, ht, hs⟩
  · cases hdec : Varint.decode (x ++ bytes) with
    | none =>
      rw [unidir_none hdec]
      exact ⟨rfl, .inl ⟨hdec, rfl⟩⟩
    | some r =>
      obtain ⟨t, c⟩ := r
      have ht : t ≠ h3zeroStreamTypeControl := fun heq => h c (by rw [hdec, heq])
      have hon : (UniState.onType t).streamType = some t := by
        unfold UniState.onType
        rw [if_neg ht]
      obtain ⟨hset, htype⟩ := @typed_other mem (.onType t) set ((x ++ bytes).drop c) t ht hon
      rw [unidir_some hx hdec]
      exact ⟨hset, .inr ⟨t, ht, htype⟩⟩
  · obtain ⟨hset, htype⟩ := @typed_other mem s set bytes t ht hs
    rw [unidir_typed hs]
    exact ⟨hset, .inr ⟨t, ht, htype⟩⟩

end Unidir

namespace SettingsStream

variable {mem : Mem} (S : SettingsStream mem)

/-- The stream up to any byte: the settings are there from the end of SETTINGS on. -/
theorem unidir_upTo {p : List UInt8} (hp : p <+: S.bytes) :
    ∃ s', parseRemoteUnidirStream mem .fresh .zero p =
      ⟨s', if S.start.length ≤ p.length then S.received else .zero, some [], 0⟩ := by
  have hlength : S.start.length = S.streamType.length + S.settings.bytes.length := List.length_append
  cases hdec : Varint.decode p with
  | none =>
    have hshort : p.length < S.streamType.length := by
      by_contra hge
      obtain ⟨q, hq⟩ := List.prefix_of_prefix_length_le (List.prefix_append _ _) (S.bytes_eq ▸ hp)
        (Nat.le_of_not_lt hge)
      rw [← hq, Varint.decode_append S.control q] at hdec
      cases hdec
    rw [if_neg (by omega)]
    exact ⟨_, fresh_none hdec⟩
  | some r =>
    have hr := Varint.decode_agree hp hdec S.decode_bytes
    subst hr
    obtain ⟨-, hle⟩ := Varint.decode_bounds hdec
    have hq : p.drop S.streamType.length <+: S.settings.bytes ++ framesBytes S.frames := by
      have hdrop := hp.drop S.streamType.length
      rwa [S.bytes_eq, List.drop_left] at hdrop
    obtain ⟨s', hs'⟩ := S.control_upTo (s := .onType h3zeroStreamTypeControl) (UniState.reset_atFrame rfl) rfl hq
    have hiff : S.settings.bytes.length ≤ p.length - S.streamType.length ↔ S.start.length ≤ p.length := by omega
    rw [List.length_drop] at hs'
    simp only [hiff] at hs'
    exact ⟨s', (fresh_some hdec).trans hs'⟩

/-- The stream may be cut anywhere. -/
theorem unidir_append {p c : List UInt8} (hp : p ++ c <+: S.bytes) :
    parseRemoteUnidirStream mem .fresh .zero (p ++ c) =
      parseRemoteUnidirStream mem (parseRemoteUnidirStream mem .fresh .zero p).state
        (parseRemoteUnidirStream mem .fresh .zero p).settings c := by
  cases hdec : Varint.decode p with
  | none =>
    rw [fresh_none hdec]
    cases hdec' : Varint.decode (p ++ c) with
    | none => exact (fresh_none hdec').trans (unidir_none hdec').symm
    | some r => exact (fresh_some hdec').trans (unidir_some hdec hdec').symm
  | some r =>
    -- the type is whole, and it is that of a control stream
    obtain ⟨t, n⟩ := r
    have hdec' := Varint.decode_append hdec c
    obtain ⟨-, hle⟩ := Varint.decode_bounds hdec
    obtain ⟨s', hs'⟩ := S.unidir_upTo ((List.prefix_append p c).trans hp)
    have ht : t = h3zeroStreamTypeControl := congrArg Prod.fst (Varint.decode_agree hp hdec' S.decode_bytes)
    subst ht
    have hfirst : parseRemoteUnidirStream mem .fresh .zero p =
        parseControlStream mem (.onType h3zeroStreamTypeControl) .zero (p.drop n) := fresh_some hdec
    have hwaits : (UniState.onType h3zeroStreamTypeControl).Waits := UniState.reset_waits Varint.decode_nil
    have htype : (parseRemoteUnidirStream mem .fresh .zero p).state.streamType = some h3zeroStreamTypeControl := by
      rw [hfirst]
      exact controlLoop_streamType _ _ _ _
    calc parseRemoteUnidirStream mem .fresh .zero (p ++ c)
        = parseControlStream mem (.onType h3zeroStreamTypeControl) .zero ((p ++ c).drop n) := fresh_some hdec'
      _ = (parseRemoteUnidirStream mem .fresh .zero p).andThen mem c := by
          rw [List.drop_append_of_le_length hle, parseControlStream_append mem _ c hwaits, hfirst]
      _ = parseControlStream mem (parseRemoteUnidirStream mem .fresh .zero p).state
            (parseRemoteUnidirStream mem .fresh .zero p).settings c := by
          unfold Control.andThen
          rw [hs']
      _ = parseRemoteUnidirStream mem (parseRemoteUnidirStream mem .fresh .zero p).state
            (parseRemoteUnidirStream mem .fresh .zero p).settings c := (unidir_typed htype).symm

end SettingsStream

end Mquic.H3
