/-
The CONNECT request of h3zero_client.c: a header block of five fields, each a zero byte and two strings behind
their varint lengths (h3zero_qpack.c), and what the QPACK parser of h3zero.c reads in it. The parser takes the
name of the second byte on for a Huffman string and what follows for a value of 116 bytes, so the request's own
fields are read only where they happen to be field lines behind byte 122.
-/
import Mquic.H3.Connect
import Mquic.H3.Lines

namespace Mquic.H3

/-! ## The encoder -/

/-- `quic_varint_len`. -/
def quicVarintLen (v : Nat) : Nat :=
  if v < 1 <<< 6 then 1 else if v < 1 <<< 14 then 2 else if v < 1 <<< 30 then 4 else 8

/-- `h3zero_qpack_enc_header`, behind the bytes `out` of a buffer of `cap` bytes. -/
def qpackEncHeader (enc : VarintEncode) (cap : Nat) (name value out : List UInt8) : Option (List UInt8) :=
  let needed := 1 + quicVarintLen name.length + name.length + quicVarintLen value.length + value.length
  if cap - out.length < needed then none
  else
    (writeVarint enc cap (out ++ [0x00]) name.length).bind fun out =>
      (writeVarint enc cap (out ++ name) value.length).map (· ++ value)

/-- The fields of the request. -/
def connectFields (serverName path : List UInt8) : List (List UInt8 × List UInt8) :=
  [(ascii ":method", ascii "CONNECT"), (ascii ":protocol", ascii "webtransport"), (ascii ":scheme", ascii "https"),
    (ascii ":path", path), (ascii ":authority", serverName)]

/-- `hbuf`, a buffer of 1024 bytes. -/
def connectBlock (enc : VarintEncode) (serverName path : List UInt8) : Option (List UInt8) :=
  (connectFields serverName path).foldlM (fun out field => qpackEncHeader enc 1024 field.1 field.2 out) []

/-- `h3zero_client_create_connect_request`: the bytes given to `picoquic_add_to_stream`. -/
def createConnectRequest (enc : VarintEncode) (serverName path : List UInt8) : Option (List UInt8) :=
  (connectBlock enc serverName path).bind fun block =>
    if block.length = 0 ∨ block.length > 1024 then none else headersFrame enc 1050 block

/-! ## What is encoded -/

/-- A field as it is encoded. -/
def fieldBytes (field : List UInt8 × List UInt8) : List UInt8 :=
  0x00 :: (Varint.encode field.1.length ++ field.1 ++ Varint.encode field.2.length ++ field.2)

theorem quicVarintLen_eq (v : Nat) : quicVarintLen v = Varint.size v := by
  unfold quicVarintLen Varint.size Varint.tag
  simp only [Nat.one_shiftLeft]
  split_ifs <;> rfl

/-- A field is encoded if there is room for it. -/
theorem qpackEncHeader_eq {enc : VarintEncode} (henc : enc.Shortest) {cap : Nat} (hcap : cap < 2 ^ 62)
    (name value out : List UInt8) :
    qpackEncHeader enc cap name value out =
      if cap - out.length < (fieldBytes (name, value)).length then none
      else some (out ++ fieldBytes (name, value)) := by
  have hlength : (fieldBytes (name, value)).length =
      1 + Varint.size name.length + name.length + Varint.size value.length + value.length := by
    simp only [fieldBytes, List.length_cons, List.length_append, Varint.encode_length]
    omega
  unfold qpackEncHeader
  simp only [quicVarintLen_eq, ← hlength]
  by_cases hroom : cap - out.length < (fieldBytes (name, value)).length
  · rw [if_pos hroom, if_pos hroom]
  · have hname : (out ++ [0x00]).length + Varint.size name.length ≤ cap := by
      rw [List.length_append, List.length_singleton]
      omega
    have hvalue : (out ++ [0x00] ++ Varint.encode name.length ++ name).length + Varint.size value.length ≤ cap := by
      simp only [List.length_append, List.length_singleton, Varint.encode_length]
      omega
    rw [if_neg hroom, if_neg hroom, writeVarint_eq henc (by omega) hname, Option.bind_some,
      writeVarint_eq henc (by omega) hvalue, Option.map_some]
    simp only [fieldBytes, List.append_assoc, List.cons_append, List.nil_append]

/-- A block that is built holds the fields in order. -/
theorem foldlM_fields {enc : VarintEncode} (henc : enc.Shortest) {cap : Nat} (hcap : cap < 2 ^ 62) :
    ∀ {fields : List (List UInt8 × List UInt8)} {out block : List UInt8},
      fields.foldlM (fun out field => qpackEncHeader enc cap field.1 field.2 out) out = some block →
      block = out ++ fields.flatMap fieldBytes
  | [], out, block, h => by
    cases h
    simp
  | field :: fields, out, block, h => by
    rw [List.foldlM_cons, qpackEncHeader_eq henc hcap] at h
    split at h
    · cases h
    · rw [foldlM_fields henc hcap h, List.flatMap_cons, List.append_assoc]

theorem connectBlock_eq {enc : VarintEncode} (henc : enc.Shortest) {serverName path block : List UInt8}
    (h : connectBlock enc serverName path = some block) :
    block = (connectFields serverName path).flatMap fieldBytes := by
  rw [foldlM_fields henc (by norm_num) h, List.nil_append]

/-- The encoder succeeds with the frame around its block. -/
theorem createConnectRequest_eq {enc : VarintEncode} (henc : enc.Shortest) {serverName path frame : List UInt8}
    (h : createConnectRequest enc serverName path = some frame) :
    ∃ block, connectBlock enc serverName path = some block ∧
      frame = Varint.encode h3zeroFrameHeader ++ Varint.encode block.length ++ block := by
  obtain ⟨block, hblock, hframe⟩ := Option.bind_eq_some_iff.1 h
  split at hframe
  · cases hframe
  · rename_i hlen
    have hsize := Varint.size_le block.length
    rw [headersFrame_eq henc (by omega) (by omega)] at hframe
    cases hframe
    exact ⟨block, hblock, rfl⟩

/-! ## What is read -/

/-- The section prefix of a request, as the parser takes it, and the first four bytes behind it. -/
def requestHead : List UInt8 := [0, 7, 0x3A, 0x6D, 0x65, 0x74]

theorem connectFields_head (serverName path : List UInt8) :
    ∃ tl, (connectFields serverName path).flatMap fieldBytes = requestHead ++ tl := ⟨_, rfl⟩

/-- The colon of the first name is the opcode of a literal with a Huffman name of two bytes, and the next byte
the length of its value: 116 bytes are skipped, and nothing is stored. -/
theorem parseFieldLine_head (mem : Mem) (tl : List UInt8) (parts : HeaderParts) :
    parseFieldLine mem 0x3A (0x3A :: 0x6D :: 0x65 :: 0x74 :: tl) parts =
      if tl.length < 116 then (none, parts) else (some (tl.drop 116), parts) := by
  have hname : getInterestingHeaderType [0x6D, 0x65] true = .unknown := by decide
  have hname' : qpackIntDecode 0x07 (0x3A :: 0x6D :: 0x65 :: 0x74 :: tl) = (some (0x6D :: 0x65 :: 0x74 :: tl), 2) := rfl
  have hvalue : qpackIntDecode 0x7F (0x74 :: tl) = (some tl, 116) := rfl
  unfold parseFieldLine
  rw [if_neg (by decide), if_neg (by decide), if_pos (by decide), hname']
  simp only [List.length_cons, List.take_succ_cons, List.take_zero, List.drop_succ_cons, List.drop_zero]
  rw [if_neg (by omega)]
  have hhuffman : (0x3A : UInt8).toNat.testBit 3 = true := by decide
  rw [hhuffman, hname]
  unfold parseQpackHeaderValue
  simp only [hvalue, HeaderParts.store]

theorem parse_head (mem : Mem) (tl : List UInt8) :
    parseQpackHeaderFrame mem (requestHead ++ tl) =
      if tl.length < 116 then (none, .zero) else parseFieldLines mem (tl.length + 3) (tl.drop 116) .zero := by
  have hbase : qpackIntDecode 0x7F (7 :: 0x3A :: 0x6D :: 0x65 :: 0x74 :: tl) =
      (some (0x3A :: 0x6D :: 0x65 :: 0x74 :: tl), 7) := rfl
  show parseQpackHeaderFrame mem (0 :: 7 :: 0x3A :: 0x6D :: 0x65 :: 0x74 :: tl) = _
  rw [parseQpackHeaderFrame, if_neg (by decide : ¬ (0 : UInt8) ≠ 0), hbase]
  show parseFieldLines mem (tl.length + 3 + 1) (0x3A :: 0x6D :: 0x65 :: 0x74 :: tl) .zero = _
  rw [parseFieldLines, parseFieldLine_head]
  by_cases hlen : tl.length < 116
  · rw [if_pos hlen, if_pos hlen]
  · rw [if_neg hlen, if_neg hlen]

/-- A request is read to its last byte just when what stands behind byte 122 is field lines in a row. -/
theorem request_parse_iff {mem : Mem} {serverName path : List UInt8} {parts : HeaderParts} :
    parseQpackHeaderFrame mem ((connectFields serverName path).flatMap fieldBytes) = (some [], parts) ↔
      122 ≤ ((connectFields serverName path).flatMap fieldBytes).length ∧
        ∃ lines, IsFieldLines (((connectFields serverName path).flatMap fieldBytes).drop 122) lines ∧
          storeLines mem lines .zero = some parts := by
  obtain ⟨tl, htl⟩ := connectFields_head serverName path
  have hlength : (requestHead ++ tl).length = 6 + tl.length := List.length_append
  have hdrop : (requestHead ++ tl).drop 122 = tl.drop 116 := rfl
  rw [htl, parse_head, hlength, hdrop]
  by_cases hlen : tl.length < 116
  · rw [if_pos hlen]
    constructor
    · nofun
    · rintro ⟨hge, -⟩
      omega
  · have hfuel : (tl.drop 116).length ≤ tl.length + 3 := by
      rw [List.length_drop]
      omega
    rw [if_neg hlen, parseFieldLines_iff hfuel]
    constructor
    · rintro ⟨-, hlines⟩
      exact ⟨by omega, hlines⟩
    · rintro ⟨-, hlines⟩
      exact ⟨rfl, hlines⟩

/-- The parts of a CONNECT request for `path`. -/
def HeaderParts.AreConnect (parts : HeaderParts) (path : List UInt8) : Prop :=
  parts.method = .connect ∧ parts.protocol = some (ascii "webtransport") ∧ parts.path = some path

/-- The parser undoes the encoder. -/
def Undone (mem : Mem) (block path : List UInt8) : Prop :=
  ∃ parts, parseQpackHeaderFrame mem block = (some [], parts) ∧ parts.AreConnect path

/-- The request is read back just when, behind its first 122 bytes, it is field lines that say so. -/
theorem request_undone_iff {enc : VarintEncode} (henc : enc.Shortest) (mem : Mem) {serverName path frame : List UInt8}
    (hframe : createConnectRequest enc serverName path = some frame) :
    ∃ block, connectBlock enc serverName path = some block ∧
      (Undone mem block path ↔ 122 ≤ block.length ∧ ∃ lines parts, IsFieldLines (block.drop 122) lines ∧
        storeLines mem lines .zero = some parts ∧ parts.AreConnect path) := by
  obtain ⟨block, hblock, -⟩ := createConnectRequest_eq henc hframe
  refine ⟨block, hblock, ?_⟩
  unfold Undone
  rw [connectBlock_eq henc hblock]
  simp only [request_parse_iff]
  constructor
  · rintro ⟨parts, ⟨hlen, lines, hlines, hs⟩, hparts⟩
    exact ⟨hlen, lines, parts, hlines, hs, hparts⟩
  · rintro ⟨hlen, lines, parts, hlines, hs, hparts⟩
    exact ⟨parts, ⟨hlen, lines, hlines, hs⟩, hparts⟩

/-- A name that puts three field lines behind byte 122: `CONNECT` from the static table, `:protocol` as a literal,
and the static path `/`. -/
def lineName : List UInt8 :=
  List.replicate 43 0x61 ++ [0xCF, 0x27, 0x02] ++ ascii ":protocol" ++ [0x0C] ++ ascii "webtransport" ++ [0xC1]

theorem lineName_undone_iff :
    ∃ block, connectBlock .shortest lineName (ascii "/") = some block ∧
      (Undone .ample block (ascii "/") ↔ 122 ≤ block.length ∧ ∃ lines parts, IsFieldLines (block.drop 122) lines ∧
        storeLines .ample lines .zero = some parts ∧ parts.AreConnect (ascii "/")) :=
  request_undone_iff VarintEncode.shortest_shortest .ample rfl

/-- There the condition holds. -/
example : ∃ block, connectBlock .shortest lineName (ascii "/") = some block ∧ Undone .ample block (ascii "/") :=
  ⟨_, rfl, ⟨.connect, some (ascii "/"), none, 0, .none, some (ascii "webtransport")⟩, rfl, rfl, rfl, rfl⟩

/-- The request for a plain name is sent, and not read back. -/
theorem plainName_unread :
    ∃ frame block, createConnectRequest .shortest (ascii "example.com") (ascii "/camera") = some frame ∧
      connectBlock .shortest (ascii "example.com") (ascii "/camera") = some block ∧
      ¬ Undone .ample block (ascii "/camera") := by
  refine ⟨_, _, rfl, rfl, ?_⟩
  have hshort : ((connectFields (ascii "example.com") (ascii "/camera")).flatMap fieldBytes).length < 122 := by decide
  rintro ⟨parts, hparse, -⟩
  exact absurd (request_parse_iff.1 hparse).1 (Nat.not_le.2 hshort)

end Mquic.H3
