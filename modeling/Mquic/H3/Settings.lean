/-
What an end says of itself (h3zero_common.c): `h3zero_settings_encode`, `h3zero_settings_decode`, and the three streams
that `h3zero_protocol_init` opens. The settings behind their length come back as they were (`settings_round_trip`); the
other end has them as soon as the control stream has come so far, whatever comes between (`init_received`).
-/
import Mquic.H3.Arrival
import Mquic.H3.Connect
import Mquic.Lib.Room

namespace Mquic.H3

open Mquic.Server.Lifecycle (State Cnx)
open Room (Writer Writes)
open Keyed (onKey)

def h3zeroStreamTypeQpackEncoder : Nat := 2
def h3zeroStreamTypeQpackDecoder : Nat := 3

/-- `UINT64_MAX`, of a setting that is not sent. -/
def uint64Max : Nat := 2 ^ 64 - 1

/-! ## Encoding -/

/-- `picoquic_frames_varint_encode`, into a buffer of `cap` bytes. -/
def framesVarintEncode (enc : VarintEncode) (cap v : Nat) : Writer UInt8 := fun out =>
  let w := enc (cap - out.length) v
  if w = [] then none else some (out ++ w)

/-- `h3zero_settings_component_encode`. -/
def settingsComponentEncode (enc : VarintEncode) (cap key value default : Nat) : Writer UInt8 := fun out =>
  if value ≠ default then framesVarintEncode enc cap key out >>= framesVarintEncode enc cap value else some out

/-- The components, as `h3zero_settings_encode` writes them one after another. -/
def settingsComponentsEncode (enc : VarintEncode) (cap : Nat) (set : Settings) : Writer UInt8 := fun out =>
  settingsComponentEncode enc cap h3zeroSettingHeaderTableSize set.tableSize uint64Max out >>=
    settingsComponentEncode enc cap h3zeroQpackBlockedStreams set.blockedStreams uint64Max >>=
    settingsComponentEncode enc cap h3zeroSettingsEnableConnectProtocol set.enableConnectProtocol.toNat 0 >>=
    settingsComponentEncode enc cap h3zeroSettingH3Datagram set.h3Datagram.toNat 0 >>=
    settingsComponentEncode enc cap h3zeroSettingsWebtransportMaxSessions set.webtransportMaxSessions 0

/-- `h3zero_settings_encode`, from behind `out` in a buffer of `cap` bytes. -/
def settingsEncode (enc : VarintEncode) (cap : Nat) (set : Settings) : Writer UInt8 := fun out =>
  -- the length is first written for all of the buffer
  framesVarintEncode enc cap h3zeroFrameSettings out >>=
    Room.framed (framesVarintEncode enc) cap (cap - out.length) (settingsComponentsEncode enc cap set)

/-! ## Decoding -/

/-- `h3zero_settings_decode`: the settings, and the bytes from the returned pointer on. It is not called without a
byte. `varlen` and `varint` are `picoquic_frames_varlen_decode` and `picoquic_frames_varint_decode`. -/
def settingsDecode (varlen varint : Varint.Reader) (bytes : List UInt8) : Settings × Option (List UInt8) :=
  if bytes.head? ≠ some 0x04 then (.zero, none)
  else
    match varlen.read (bytes.drop 1) with
    | none => (.zero, none)
    | some (headerLength, c) =>
      let content := (bytes.drop 1).drop c
      if headerLength > content.length then (.zero, none)
      else
        let (set, whole) := settingsComponentsDecode varint .zero (content.take headerLength)
        (set, if whole then some (content.drop headerLength) else none)

/-! ## What the frame says -/

/-- A component: the bytes of its key, and those of its value. -/
structure Component where
  key : Nat
  value : Nat
  keyBytes : List UInt8
  valueBytes : List UInt8
  readsKey : Varint.decode keyBytes = some (key, keyBytes.length)
  readsValue : Varint.decode valueBytes = some (value, valueBytes.length)

def Component.bytes (x : Component) : List UInt8 := x.keyBytes ++ x.valueBytes

/-- The bytes of components in a row. -/
def componentsBytes (xs : List Component) : List UInt8 := (xs.map Component.bytes).flatten

/-- What components in a row set. -/
def Settings.components (set : Settings) (xs : List Component) : Settings :=
  xs.foldl (fun set x => set.component x.key x.value) set

section Components

variable {varint : Varint.Reader}

theorem componentsDecode_cons (hvarint : varint.Rfc9000) (set : Settings) (x : Component) (rest : List UInt8) :
    settingsComponentsDecode varint set (x.bytes ++ rest) =
      settingsComponentsDecode varint (set.component x.key x.value) rest := by
  have hkey : varint.read (x.bytes ++ rest) = some (x.key, x.keyBytes.length) := by
    unfold Component.bytes
    rw [hvarint, List.append_assoc]
    exact Varint.decode_append x.readsKey _
  have hdrop : (x.bytes ++ rest).drop x.keyBytes.length = x.valueBytes ++ rest := by
    unfold Component.bytes
    rw [List.append_assoc, List.drop_left]
  have hvalue : varint.read ((x.bytes ++ rest).drop x.keyBytes.length) = some (x.value, x.valueBytes.length) := by
    rw [hvarint, hdrop]
    exact Varint.decode_append x.readsValue _
  rw [settingsComponentsDecode_some hkey hvalue, hdrop, List.drop_left]

/-- Components in a row are read one after another. -/
theorem componentsDecode_bytes (hvarint : varint.Rfc9000) (set : Settings) (xs : List Component) :
    settingsComponentsDecode varint set (componentsBytes xs) = (set.components xs, true) := by
  induction xs generalizing set with
  | nil => exact settingsComponentsDecode_nil varint set
  | cons x xs ih =>
    show settingsComponentsDecode varint set (x.bytes ++ componentsBytes xs) = _
    rw [componentsDecode_cons hvarint, ih]
    rfl

/-- What is read whole is components in a row. -/
theorem componentsDecode_whole (hvarint : varint.Rfc9000) {set set' : Settings} {bytes : List UInt8}
    (h : settingsComponentsDecode varint set bytes = (set', true)) :
    ∃ xs, bytes = componentsBytes xs ∧ set' = set.components xs := by
  induction set, bytes using settingsComponentsDecode.induct varint with
  | case1 set =>
    rw [settingsComponentsDecode_nil] at h
    exact ⟨[], rfl, (congrArg Prod.fst h).symm⟩
  | case2 set bytes hne hkey =>
    rw [settingsComponentsDecode, if_neg hne] at h
    split at h
    · cases h
    · rename_i hsome
      rw [hkey] at hsome
      cases hsome
  | case3 set bytes hne key c hkey hvalue =>
    rw [settingsComponentsDecode, if_neg hne] at h
    split at h
    · cases h
    · rename_i hsome
      rw [hkey] at hsome
      cases hsome
      rw [hvalue] at h
      cases h
  -- a pair, with the others behind it
  | case4 set bytes hne key c hkey value d hvalue ih =>
    rw [settingsComponentsDecode_some hkey hvalue] at h
    obtain ⟨xs, hrest, hset⟩ := ih h
    obtain ⟨-, hc⟩ := varint.bounds hkey
    obtain ⟨-, hd⟩ := varint.bounds hvalue
    have hreadsKey : Varint.decode (bytes.take c) = some (key, (bytes.take c).length) := by
      rw [decode_take (hvarint _ ▸ hkey) le_rfl, List.length_take_of_le hc]
    have hreadsValue :
        Varint.decode ((bytes.drop c).take d) = some (value, ((bytes.drop c).take d).length) := by
      rw [decode_take (hvarint _ ▸ hvalue) le_rfl, List.length_take_of_le hd]
    refine ⟨⟨key, value, _, _, hreadsKey, hreadsValue⟩ :: xs, ?_, hset⟩
    show bytes = (bytes.take c ++ (bytes.drop c).take d) ++ componentsBytes xs
    rw [← hrest, List.append_assoc, List.take_append_drop, List.take_append_drop]

end Components

/-- A SETTINGS frame: one byte for its type, the bytes of the length, and the components. -/
structure SettingsFrame where
  lengthBytes : List UInt8
  components : List Component
  readsLength : Varint.decode lengthBytes = some ((componentsBytes components).length, lengthBytes.length)

def SettingsFrame.bytes (f : SettingsFrame) : List UInt8 := 0x04 :: (f.lengthBytes ++ componentsBytes f.components)

section Frame

variable {varlen varint : Varint.Reader}

theorem settingsDecode_frame (hvarlen : varlen.Rfc9000) (hvarint : varint.Rfc9000) (f : SettingsFrame)
    (rest : List UInt8) :
    settingsDecode varlen varint (f.bytes ++ rest) = (Settings.zero.components f.components, some rest) := by
  have hlength : varlen.read (f.lengthBytes ++ (componentsBytes f.components ++ rest)) =
      some ((componentsBytes f.components).length, f.lengthBytes.length) :=
    (hvarlen _).trans (Varint.decode_append f.readsLength _)
  have hbytes : f.bytes ++ rest = 0x04 :: (f.lengthBytes ++ (componentsBytes f.components ++ rest)) := by
    unfold SettingsFrame.bytes
    rw [List.cons_append, List.append_assoc]
  have htype : ¬ (0x04 :: (f.lengthBytes ++ (componentsBytes f.components ++ rest))).head? ≠ some (0x04 : UInt8) :=
    not_not.2 rfl
  rw [hbytes]
  unfold settingsDecode
  rw [if_neg htype]
  simp only [List.drop_succ_cons, List.drop_zero, hlength, List.drop_left]
  rw [if_neg (by rw [List.length_append]; omega), List.take_left, componentsDecode_bytes hvarint]
  rfl

/-- What is accepted is a SETTINGS frame: the settings are those of its components, one after another, and the bytes
returned are those behind it. -/
theorem settingsDecode_accepts_iff (hvarlen : varlen.Rfc9000) (hvarint : varint.Rfc9000) {bytes rest : List UInt8}
    {set : Settings} : settingsDecode varlen varint bytes = (set, some rest) ↔
      ∃ f : SettingsFrame, bytes = f.bytes ++ rest ∧ set = Settings.zero.components f.components := by
  constructor
  · intro h
    unfold settingsDecode at h
    split at h
    · cases h
    · rename_i htype
      cases bytes with
      | nil => exact absurd nofun htype
      | cons b bytes =>
        obtain rfl := Option.some.inj (not_not.1 htype)
        simp only [List.drop_succ_cons, List.drop_zero] at h
        split at h
        · cases h
        · rename_i n c hlength
          split at h
          · cases h
          · -- the content is there in full, and its pairs are all of it
            rename_i hroom
            generalize hdec : settingsComponentsDecode varint .zero ((bytes.drop c).take n) = r at h
            obtain ⟨set', whole⟩ := r
            cases whole with
            | false => cases h
            | true =>
              obtain ⟨hset, hrest⟩ := Prod.mk.inj h
              obtain ⟨xs, hxs, hset'⟩ := componentsDecode_whole hvarint hdec
              obtain ⟨-, hc⟩ := varlen.bounds hlength
              have hn : (componentsBytes xs).length = n := by
                rw [← hxs, List.length_take_of_le (Nat.le_of_not_gt hroom)]
              have hreads : Varint.decode (bytes.take c) =
                  some ((componentsBytes xs).length, (bytes.take c).length) := by
                rw [decode_take (hvarlen _ ▸ hlength) le_rfl, List.length_take_of_le hc, hn]
              refine ⟨⟨bytes.take c, xs, hreads⟩, ?_, hset ▸ hset'⟩
              show 0x04 :: bytes = 0x04 :: (bytes.take c ++ componentsBytes xs) ++ rest
              rw [← hxs, ← Option.some.inj hrest, List.cons_append, List.append_assoc, List.take_append_drop,
                List.take_append_drop]
  · rintro ⟨f, rfl, rfl⟩
    exact settingsDecode_frame hvarlen hvarint f rest

/-- One component, of an unknown key in two bytes, and a byte behind the frame. -/
theorem settingsDecode_accepts_unknown :
    settingsDecode .decoder .decoder [0x04, 0x03, 0x40, 0x21, 0x05, 0xAA] = (.zero, some [0xAA]) ↔
      ∃ f : SettingsFrame, [0x04, 0x03, 0x40, 0x21, 0x05, 0xAA] = f.bytes ++ [0xAA] ∧
        Settings.zero = Settings.zero.components f.components :=
  settingsDecode_accepts_iff Varint.Reader.decoder_rfc9000 Varint.Reader.decoder_rfc9000

end Frame

/-! ## The round trip -/

/-- A component in the shortest encoding. -/
def Component.shortest (key value : Nat) (hk : key < 2 ^ 62) (hv : value < 2 ^ 62) : Component where
  key := key
  value := value
  keyBytes := Varint.encode key
  valueBytes := Varint.encode value
  readsKey := by simpa using Varint.decode_encode hk []
  readsValue := by simpa using Varint.decode_encode hv []

/-- The component of a setting, if it is sent. -/
def componentOf (key value default : Nat) (hk : key < 2 ^ 62) (hv : value = default ∨ value < 2 ^ 62) :
    List Component :=
  if h : value = default then [] else [.shortest key value hk (hv.resolve_left h)]

/-- What is written of a setting, if anything is. -/
def componentText (key value default : Nat) : List UInt8 :=
  if value ≠ default then Varint.encode key ++ Varint.encode value else []

/-- What is written of the settings. -/
def Settings.text (set : Settings) : List UInt8 :=
  componentText h3zeroSettingHeaderTableSize set.tableSize uint64Max ++
    componentText h3zeroQpackBlockedStreams set.blockedStreams uint64Max ++
    componentText h3zeroSettingsEnableConnectProtocol set.enableConnectProtocol.toNat 0 ++
    componentText h3zeroSettingH3Datagram set.h3Datagram.toNat 0 ++
    componentText h3zeroSettingsWebtransportMaxSessions set.webtransportMaxSessions 0

/-- The values that varints can carry, or that are not sent. -/
structure Settings.Sendable (set : Settings) : Prop where
  tableSize : set.tableSize = uint64Max ∨ set.tableSize < 2 ^ 62
  blockedStreams : set.blockedStreams = uint64Max ∨ set.blockedStreams < 2 ^ 62
  maxSessions : set.webtransportMaxSessions < 2 ^ 62

/-- The settings as the other end has them: `UINT64_MAX` is not sent. -/
def Settings.seen (set : Settings) : Settings :=
  { set with
    tableSize := if set.tableSize = uint64Max then 0 else set.tableSize
    blockedStreams := if set.blockedStreams = uint64Max then 0 else set.blockedStreams
    settingsReceived := false }

section Encode

variable {enc : VarintEncode} {cap : Nat} {set : Settings}

theorem writes_varint (henc : enc.Shortest) {v : Nat} (hv : v < 2 ^ 62) :
    Writes cap (framesVarintEncode enc cap v) (Varint.encode v) := by
  intro out hout
  unfold framesVarintEncode
  rw [henc _ _ hv, VarintEncode.shortest, Varint.encode_length]
  by_cases hroom : out.length + Varint.size v ≤ cap
  · rw [if_pos (show Varint.size v ≤ cap - out.length by omega), if_pos hroom]
    exact if_neg (Varint.encode_ne_nil v)
  · rw [if_neg (show ¬ Varint.size v ≤ cap - out.length by omega), if_neg hroom]
    rfl

theorem writes_component (henc : enc.Shortest) {key value default : Nat} (hk : key < 2 ^ 62)
    (hv : value = default ∨ value < 2 ^ 62) :
    Writes cap (settingsComponentEncode enc cap key value default) (componentText key value default) := by
  unfold settingsComponentEncode componentText
  by_cases hd : value = default
  · simp only [hd, ne_eq, not_true_eq_false, if_false]
    exact Room.writes_nothing cap
  · simp only [hd, ne_eq, not_false_eq_true, if_true]
    exact (writes_varint henc hk).comp (writes_varint henc (hv.resolve_left hd))

theorem bool_lt (b : Bool) : b.toNat < 2 ^ 62 := (Bool.toNat_lt b).trans (by decide)

theorem writes_components (henc : enc.Shortest) (h : set.Sendable) :
    Writes cap (settingsComponentsEncode enc cap set) set.text := by
  have hpart := fun {key value default : Nat} => @writes_component enc cap henc key value default
  exact ((((hpart (by decide) h.tableSize).comp (hpart (by decide) h.blockedStreams)).comp
    (hpart (by decide) (.inr (bool_lt _)))).comp (hpart (by decide) (.inr (bool_lt _)))).comp
    (hpart (by decide) (.inr h.maxSessions))

/-- The frame, in the shortest encodings. -/
def Settings.frame (set : Settings) : List UInt8 := 0x04 :: (Varint.encode set.text.length ++ set.text)

/-- The frame is written where there is room for it behind the longest length. -/
theorem settingsEncode_eq (henc : enc.Shortest) (hcap : cap < 2 ^ 62) (h : set.Sendable) {out : List UInt8}
    (hout : out.length ≤ cap) :
    settingsEncode enc cap set out =
      if out.length + 1 + Varint.size (cap - out.length) + set.text.length ≤ cap then some (out ++ set.frame)
      else none := by
  have htype : Varint.encode h3zeroFrameSettings = [0x04] := by decide
  have hlen : (out ++ [(0x04 : UInt8)]).length = out.length + 1 := List.length_append
  unfold settingsEncode
  rw [writes_varint henc (by decide) out hout, htype, List.length_singleton]
  by_cases hroom : out.length + 1 ≤ cap
  · rw [if_pos hroom]
    show Room.framed (framesVarintEncode enc) cap (cap - out.length) (settingsComponentsEncode enc cap set)
      (out ++ [0x04]) = _
    have hmono : ∀ n ≤ cap - out.length, (Varint.encode n).length ≤ (Varint.encode (cap - out.length)).length := by
      intro n hn
      rw [Varint.encode_length, Varint.encode_length]
      exact Varint.size_mono hn (by omega)
    have hframed := Room.framed_eq (H := Varint.encode) (fun _ n hn => writes_varint henc (by omega)) hmono
      (writes_components henc h) (hlen ▸ hroom) (by omega)
    rw [hframed, hlen, Varint.encode_length]
    unfold Settings.frame
    rw [List.append_assoc, List.append_assoc]
    rfl
  · rw [if_neg hroom, if_neg (by omega)]
    rfl

end Encode

/-- The components sent. -/
def Settings.sent (set : Settings) (h : set.Sendable) : List Component :=
  componentOf h3zeroSettingHeaderTableSize set.tableSize uint64Max (by decide) h.tableSize ++
    componentOf h3zeroQpackBlockedStreams set.blockedStreams uint64Max (by decide) h.blockedStreams ++
    componentOf h3zeroSettingsEnableConnectProtocol set.enableConnectProtocol.toNat 0 (by decide) (.inr (bool_lt _)) ++
    componentOf h3zeroSettingH3Datagram set.h3Datagram.toNat 0 (by decide) (.inr (bool_lt _)) ++
    componentOf h3zeroSettingsWebtransportMaxSessions set.webtransportMaxSessions 0 (by decide) (.inr h.maxSessions)

theorem componentsBytes_append (xs ys : List Component) :
    componentsBytes (xs ++ ys) = componentsBytes xs ++ componentsBytes ys := by
  unfold componentsBytes
  rw [List.map_append, List.flatten_append]

theorem Settings.components_append (set : Settings) (xs ys : List Component) :
    set.components (xs ++ ys) = (set.components xs).components ys := List.foldl_append

theorem componentOf_bytes {key value default : Nat} (hk : key < 2 ^ 62) (hv : value = default ∨ value < 2 ^ 62) :
    componentsBytes (componentOf key value default hk hv) = componentText key value default := by
  unfold componentOf componentText
  by_cases h : value = default
  · rw [dif_pos h, if_neg (not_not.2 h)]
    rfl
  · rw [dif_neg h, if_pos h]
    exact List.append_nil _

theorem componentOf_sets (set : Settings) {key value default : Nat} (hk : key < 2 ^ 62)
    (hv : value = default ∨ value < 2 ^ 62) :
    set.components (componentOf key value default hk hv) =
      if value = default then set else set.component key value := by
  unfold componentOf
  by_cases h : value = default
  · rw [dif_pos h, if_pos h]
    rfl
  · rw [dif_neg h, if_neg h]
    rfl

section Sent

variable {set : Settings} {value : Nat}

/-- A field that one component sets keeps its value where the component is not sent. -/
theorem sets_field {α : Type} {key default : Nat} (put : α → Settings) {old new : α} (hold : put old = set)
    (hnew : put new = set.component key value) :
    (if value = default then set else set.component key value) = put (if value = default then old else new) := by
  rw [apply_ite put, hold, hnew]

theorem sets_tableSize : (if value = uint64Max then set else set.component h3zeroSettingHeaderTableSize value) =
    { set with tableSize := if value = uint64Max then set.tableSize else value } :=
  sets_field (fun v => { set with tableSize := v }) rfl rfl

theorem sets_blockedStreams : (if value = uint64Max then set else set.component h3zeroQpackBlockedStreams value) =
    { set with blockedStreams := if value = uint64Max then set.blockedStreams else value } :=
  sets_field (fun v => { set with blockedStreams := v }) rfl rfl

theorem sets_enableConnect : (if value = 0 then set else set.component h3zeroSettingsEnableConnectProtocol value) =
    { set with enableConnectProtocol := if value = 0 then set.enableConnectProtocol else decide (value % 2 = 1) } :=
  sets_field (fun v => { set with enableConnectProtocol := v }) rfl rfl

theorem sets_h3Datagram : (if value = 0 then set else set.component h3zeroSettingH3Datagram value) =
    { set with h3Datagram := if value = 0 then set.h3Datagram else decide (value % 2 = 1) } :=
  sets_field (fun v => { set with h3Datagram := v }) rfl rfl

theorem sets_maxSessions : (if value = 0 then set else set.component h3zeroSettingsWebtransportMaxSessions value) =
    { set with webtransportMaxSessions := if value = 0 then set.webtransportMaxSessions else value } :=
  sets_field (fun v => { set with webtransportMaxSessions := v }) rfl rfl

theorem sent_bytes (h : set.Sendable) : componentsBytes (set.sent h) = set.text := by
  unfold Settings.sent Settings.text
  simp only [componentsBytes_append, componentOf_bytes]

theorem sent_sets (h : set.Sendable) : Settings.zero.components (set.sent h) = set.seen := by
  have hnumber : ∀ v : Nat, (if v = 0 then 0 else v) = v := by
    intro v
    split_ifs with h0
    · exact h0.symm
    · rfl
  have hflag : ∀ b : Bool, (if b.toNat = 0 then false else decide (b.toNat % 2 = 1)) = b := by
    rintro (_ | _)
    · rfl
    · rfl
  unfold Settings.sent Settings.seen
  simp only [Settings.components_append, componentOf_sets, sets_tableSize, sets_blockedStreams, sets_enableConnect,
    sets_h3Datagram, sets_maxSessions]
  simp only [Settings.zero, hnumber, hflag]

theorem text_length_le (set : Settings) : set.text.length ≤ 80 := by
  have hpart : ∀ key value default, (componentText key value default).length ≤ 16 := by
    intro key value default
    have hkey := Varint.size_le key
    have hvalue := Varint.size_le value
    unfold componentText
    split_ifs
    · rw [List.length_append, Varint.encode_length, Varint.encode_length]
      omega
    · exact Nat.zero_le _
  unfold Settings.text
  have h1 := hpart h3zeroSettingHeaderTableSize set.tableSize uint64Max
  have h2 := hpart h3zeroQpackBlockedStreams set.blockedStreams uint64Max
  have h3 := hpart h3zeroSettingsEnableConnectProtocol set.enableConnectProtocol.toNat 0
  have h4 := hpart h3zeroSettingH3Datagram set.h3Datagram.toNat 0
  have h5 := hpart h3zeroSettingsWebtransportMaxSessions set.webtransportMaxSessions 0
  simp only [List.length_append]
  omega

theorem frame_decodes {varlen varint : Varint.Reader} (hvarlen : varlen.Rfc9000) (hvarint : varint.Rfc9000)
    (h : set.Sendable) (rest : List UInt8) :
    settingsDecode varlen varint (set.frame ++ rest) = (set.seen, some rest) := by
  have hlength := Varint.decode_encode ((text_length_le set).trans_lt (by decide : 80 < 2 ^ 62)) []
  rw [List.append_nil] at hlength
  have hframe := settingsDecode_frame hvarlen hvarint
    ⟨Varint.encode set.text.length, set.sent h, by rw [sent_bytes, hlength, Varint.encode_length]⟩ rest
  unfold SettingsFrame.bytes at hframe
  simp only [sent_bytes, sent_sets] at hframe
  exact hframe

end Sent

/-- Settings come back as they were sent, whatever is behind them; and they are written just where there is room for
them behind the length of all the space there is. -/
theorem settings_round_trip {enc : VarintEncode} (henc : enc.Shortest) {varlen varint : Varint.Reader}
    (hvarlen : varlen.Rfc9000) (hvarint : varint.Rfc9000) {cap : Nat} (hcap : cap < 2 ^ 62) {set : Settings}
    (h : set.Sendable) {out : List UInt8} (hout : out.length ≤ cap) :
    settingsEncode enc cap set out =
        (if out.length + 1 + Varint.size (cap - out.length) + set.text.length ≤ cap then some (out ++ set.frame)
          else none) ∧
      ∀ rest, settingsDecode varlen varint (set.frame ++ rest) = (set.seen, some rest) :=
  ⟨settingsEncode_eq henc hcap h hout, frame_decodes hvarlen hvarint h⟩

/-- No dynamic table, and datagrams. -/
def datagramSettings : Settings := { Settings.zero with tableSize := uint64Max, h3Datagram := true }

theorem settings_round_trip_datagram :
    settingsEncode .shortest 32 datagramSettings [] = some [4, 4, 7, 0, 0x33, 1] ∧
      settingsDecode .decoder .decoder [4, 4, 7, 0, 0x33, 1] =
        ({ Settings.zero with h3Datagram := true }, some []) := by
  have hframe : datagramSettings.frame = [4, 4, 7, 0, 0x33, 1] := by decide
  obtain ⟨hencode, hdecode⟩ := @settings_round_trip .shortest VarintEncode.shortest_shortest .decoder .decoder
    Varint.Reader.decoder_rfc9000 Varint.Reader.decoder_rfc9000 32 (by decide) datagramSettings
    ⟨.inl rfl, .inr (by decide), by decide⟩ [] (by decide)
  rw [hframe] at hencode hdecode
  exact ⟨hencode.trans (if_pos (by decide)), hdecode []⟩

/-! ## The first streams -/

/-- What picoquic answers while the streams are opened, one after another: the id, and what the calls that send and that
set the priority return. -/
structure InitEnv where
  nextLocalStreamId : Nat → Nat
  addToStream : Nat → Int
  setStreamPriority : Nat → Int

/-- What has been returned so far, and the streams with what was sent on them. -/
abbrev Opened := Int × List (Nat × List UInt8)

/-- Opens the `k`-th stream with `bytes` on it, if nothing has failed yet. -/
def openStream (q : InitEnv) (k : Nat) (bytes : List UInt8) (r : Opened) : Opened :=
  if r.1 ≠ 0 then r
  else if q.addToStream k ≠ 0 then (q.addToStream k, r.2)
  else (q.setStreamPriority k, r.2 ++ [(q.nextLocalStreamId k, bytes)])

/-- The settings of an end, by its `max_datagram_frame_size`. -/
def initSettings (maxDatagramFrameSize : Nat) : Settings :=
  let settings := { Settings.zero with enableConnectProtocol := true }
  if maxDatagramFrameSize > 0 then { settings with h3Datagram := true, webtransportMaxSessions := 1 } else settings

/-- `h3zero_protocol_init`. -/
def h3zeroProtocolInit (enc : VarintEncode) (q : InitEnv) (maxDatagramFrameSize : Nat) : Opened :=
  match settingsEncode enc 256 (initSettings maxDatagramFrameSize) [UInt8.ofNat h3zeroStreamTypeControl] with
  | none => (h3zeroInternalError, [])
  | some buffer =>
    openStream q 2 [UInt8.ofNat h3zeroStreamTypeQpackDecoder]
      (openStream q 1 [UInt8.ofNat h3zeroStreamTypeQpackEncoder] (openStream q 0 buffer (0, [])))

/-- The bytes on the control stream. -/
def initControl (maxDatagramFrameSize : Nat) : List UInt8 := 0 :: (initSettings maxDatagramFrameSize).frame

theorem openStream_done {q : InitEnv} {k : Nat} {bytes : List UInt8} {r : Opened}
    (h : (openStream q k bytes r).1 = 0) :
    r.1 = 0 ∧ (openStream q k bytes r).2 = r.2 ++ [(q.nextLocalStreamId k, bytes)] := by
  unfold openStream at h ⊢
  by_cases hr : r.1 ≠ 0
  · rw [if_pos hr] at h
    exact absurd h hr
  · rw [if_neg hr] at h ⊢
    by_cases ha : q.addToStream k ≠ 0
    · rw [if_pos ha] at h
      exact absurd h ha
    · rw [if_neg ha]
      exact ⟨not_not.1 hr, rfl⟩

section Init

variable {enc : VarintEncode} {q : InitEnv} {m : Nat}

theorem initSettings_sendable (m : Nat) : (initSettings m).Sendable := by
  unfold initSettings
  split_ifs
  · exact ⟨.inr (by decide), .inr (by decide), by decide⟩
  · exact ⟨.inr (by decide), .inr (by decide), by decide⟩

theorem initSettings_seen (m : Nat) : (initSettings m).seen = initSettings m := by
  unfold initSettings
  split_ifs
  · rfl
  · rfl

/-- The settings fit. -/
theorem init_encode (henc : enc.Shortest) (m : Nat) :
    settingsEncode enc 256 (initSettings m) [0] = some (initControl m) := by
  have hroom := text_length_le (initSettings m)
  have hsize := Varint.size_le (256 - 1)
  rw [settingsEncode_eq henc (by decide) (initSettings_sendable m) (by decide),
    if_pos (by rw [List.length_singleton]; omega)]
  rfl

/-- Where nothing fails, the three streams are opened. -/
theorem init_done (henc : enc.Shortest) (h : (h3zeroProtocolInit enc q m).1 = 0) :
    (h3zeroProtocolInit enc q m).2 =
      [(q.nextLocalStreamId 0, initControl m), (q.nextLocalStreamId 1, [2]), (q.nextLocalStreamId 2, [3])] := by
  have hencode : settingsEncode enc 256 (initSettings m) [UInt8.ofNat h3zeroStreamTypeControl] = some (initControl m) :=
    init_encode henc m
  unfold h3zeroProtocolInit at h ⊢
  rw [hencode] at h ⊢
  obtain ⟨h2, hs2⟩ := openStream_done h
  obtain ⟨h1, hs1⟩ := openStream_done h2
  obtain ⟨-, hs0⟩ := openStream_done h1
  rw [hs2, hs1, hs0]
  rfl

theorem init_text_ne_nil (m : Nat) : (initSettings m).text ≠ [] := by
  unfold initSettings
  split_ifs
  · decide
  · decide

theorem init_text_decodes {varint : Varint.Reader} (hvarint : varint.Rfc9000) (m : Nat) :
    settingsComponentsDecode varint .zero (initSettings m).text = (initSettings m, true) := by
  rw [← sent_bytes (initSettings_sendable m), componentsDecode_bytes hvarint, sent_sets, initSettings_seen]

theorem init_text_room (m : Nat) : (initSettings m).text.length ≤ 0x10000 := (text_length_le _).trans (by decide)

theorem init_header (m : Nat) :
    frameHeaderOf (Varint.encode h3zeroFrameSettings ++ Varint.encode (initSettings m).text.length) =
      some (h3zeroFrameSettings, (initSettings m).text.length,
        (Varint.encode h3zeroFrameSettings ++ Varint.encode (initSettings m).text.length).length) :=
  frameHeaderOf_encode (by decide) ((init_text_room m).trans_lt (by decide))

theorem decode_zero : Varint.decode [0] = some (h3zeroStreamTypeControl, [(0 : UInt8)].length) := by decide

/-- The control stream, as the other end reads it. -/
def initStream (m : Nat) (mem : Mem) (hmem : ∀ n ≤ 0x10000, mem.malloc n = true)
    (hvarint : mem.framesVarintDecode.Rfc9000) : SettingsStream mem where
  streamType := [0]
  settings :=
    { frameType := h3zeroFrameSettings
      head := Varint.encode h3zeroFrameSettings ++ Varint.encode (initSettings m).text.length
      payload := (initSettings m).text
      header := init_header m }
  frames := []
  decoded := initSettings m
  control := decode_zero
  isSettings := rfl
  room := ⟨init_text_room m, hmem _ (init_text_room m)⟩
  nonempty := init_text_ne_nil m
  decodes := init_text_decodes hvarint m
  follows := List.forall_mem_nil _

theorem initStream_start (m : Nat) (mem : Mem) (hmem : ∀ n ≤ 0x10000, mem.malloc n = true)
    (hvarint : mem.framesVarintDecode.Rfc9000) : (initStream m mem hmem hvarint).start = initControl m := by
  have htype : Varint.encode h3zeroFrameSettings = [0x04] := by decide
  show [0] ++ (Varint.encode h3zeroFrameSettings ++ _ ++ _) = _
  rw [htype]
  rfl

theorem initStream_bytes (m : Nat) (mem : Mem) (hmem : ∀ n ≤ 0x10000, mem.malloc n = true)
    (hvarint : mem.framesVarintDecode.Rfc9000) : (initStream m mem hmem hvarint).bytes = initControl m :=
  (List.append_nil _).trans (initStream_start m mem hmem hvarint)

theorem notControl_part {sid t : Nat} {b : UInt8} {es : List StreamEvent} (h : Varint.decode [b] = some (t, 1))
    (ht : t ≠ h3zeroStreamTypeControl) (hes : bytesOf sid es <+: [b]) : NotControl (bytesOf sid es) := by
  obtain ⟨rest, hrest⟩ := hes
  exact NotControl.left (b := rest) (hrest ▸ notControl_of_decode h ht)

/-- The settings of the other end are there from the last byte of its control stream on, unless a CONNECT came
before; until then there are none. It does not matter how the bytes of the streams are cut, or what comes between. The
loops on the requests among them end by themselves. -/
theorem init_received (henc : enc.Shortest) (h : (h3zeroProtocolInit enc q m).1 = 0)
    (hids : isUni (q.nextLocalStreamId 0) = true) {env : Env} (hmem : ∀ n ≤ 0x10000, env.mem.malloc n = true)
    (hvarint : env.mem.framesVarintDecode.Rfc9000) {s : State} {c : Cnx} (hc : s.callback c = .h3)
    {es : List StreamEvent}
    (hsent : ∀ p ∈ (h3zeroProtocolInit enc q m).2, bytesOf p.1 es <+: p.2)
    (hothers : ∀ sid, isUni sid = true → (∀ p ∈ (h3zeroProtocolInit enc q m).2, p.1 ≠ sid) →
      NotControl (bytesOf sid es)) :
    (((Connection.init s).run env c es).settings =
      if (initControl m).length ≤ (bytesOf (q.nextLocalStreamId 0) (upToConnect env s c es).1).length then
        { initSettings m with settingsReceived := true }
      else .zero) ∧
    ∀ (sid : Nat) (l : ServerLoop) (bytes : List UInt8) (n : Nat), 2 * bytes.length + 1 ≤ n →
      serverLoop env sid n l bytes = serverData env sid l bytes := by
  refine ⟨?_, fun _ _ _ _ hn => serverData_rounds hn⟩
  rw [init_done henc h] at hsent hothers
  have hcontrol := hsent (q.nextLocalStreamId 0, initControl m) (by simp)
  have hone : OneControl (q.nextLocalStreamId 0) es := by
    intro sid huni hne
    by_cases h1 : sid = q.nextLocalStreamId 1
    · exact notControl_part (t := 2) (by decide) (by decide) (h1 ▸ hsent (q.nextLocalStreamId 1, [2]) (by simp))
    · by_cases h2 : sid = q.nextLocalStreamId 2
      · exact notControl_part (t := 3) (by decide) (by decide) (h2 ▸ hsent (q.nextLocalStreamId 2, [3]) (by simp))
      · refine hothers sid huni fun p hp => ?_
        simp only [List.mem_cons, List.not_mem_nil, or_false] at hp
        rcases hp with rfl | rfl | rfl
        · exact Ne.symm hne
        · exact Ne.symm h1
        · exact Ne.symm h2
  have hrun := run_settings hc (initStream m env.mem hmem hvarint) hids
    ((initStream_bytes m env.mem hmem hvarint).symm ▸ hcontrol) hone
  rw [initStream_start] at hrun
  exact hrun

end Init

/-- The client's unidirectional streams, nothing refused. -/
def InitEnv.client : InitEnv := ⟨fun k => 2 + 4 * k, fun _ => 0, fun _ => 0⟩

/-- The control stream in two pieces, the encoder's stream between them. -/
def initEvents : List StreamEvent :=
  [(2, ⟨(initControl 1).take 7, false⟩), (6, ⟨[2], false⟩), (2, ⟨(initControl 1).drop 7, false⟩)]

theorem initEvents_other {sid : Nat} (h2 : 2 ≠ sid) (h6 : 6 ≠ sid) : bytesOf sid initEvents = [] := by
  have hnone : initEvents.filter (fun e => decide (e.1 = sid)) = [] := by
    simp [initEvents, h2, h6]
  unfold bytesOf onKey
  rw [hnone]
  rfl

theorem init_received_in_pieces : ((Connection.init (State.init 0)).run .ample 0 initEvents).settings =
    { initSettings 1 with settingsReceived := true } := by
  have hdone := @init_done .shortest .client 1 VarintEncode.shortest_shortest rfl
  have hall : (initControl 1).length ≤ (bytesOf 2 (upToConnect .ample (State.init 0) 0 initEvents).1).length := by
    decide +kernel
  refine (init_received (q := .client) VarintEncode.shortest_shortest rfl rfl (fun _ _ => rfl)
    Varint.Reader.decoder_rfc9000 rfl ?_ ?_).1.trans
    (if_pos hall)
  · intro p hp
    rw [hdone] at hp
    simp only [List.mem_cons, List.not_mem_nil, or_false] at hp
    rcases hp with rfl | rfl | rfl
    · exact ⟨[], by decide +kernel⟩
    · exact ⟨[], by decide +kernel⟩
    · exact ⟨[3], by decide +kernel⟩
  · intro sid _ hp
    rw [hdone] at hp
    rw [initEvents_other (hp (2, initControl 1) (by simp [InitEnv.client])) (hp (6, [2]) (by simp [InitEnv.client]))]
    exact notControl_nil

end Mquic.H3
