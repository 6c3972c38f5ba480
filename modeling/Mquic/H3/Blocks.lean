/-
Header blocks (h3zero.c): the functions that write the blocks of requests and responses, in a buffer, and the parser
that reads them. A block is written just where it fits, and is read back as the request or the response it is of; a
short buffer makes one kind of block that is not.
-/
import Mquic.H3.Lines
import Mquic.H3.Response
import Mquic.Lib.Room

namespace Mquic.H3

open Room (Writer Writes whenSome writes_nothing writes_copy writes_whenSome)

/-! ## Writing -/

/-- `h3zero_qpack_name_encode`. -/
def qpackNameEncode (cap : Nat) (pre mask : UInt8) (name : List UInt8) : Writer UInt8 := fun out =>
  qpackCodeEncode cap pre mask name.length out >>= fun out =>
    if out.length + name.length > cap then none else some (out ++ name)

/-- `h3zero_qpack_literal_plus_name_encode`. -/
def qpackLiteralPlusNameEncode (cap : Nat) (name val : List UInt8) : Writer UInt8 := fun out =>
  qpackNameEncode cap 0x20 0x07 name out >>= qpackCodeEncode cap 0x00 0x7F val.length >>= fun out =>
    if out.length + val.length > cap then none else some (out ++ val)

def h3zeroQpackCodeConnect : Nat := 15
def h3zeroQpackCodeGet : Nat := 17
def h3zeroQpackCodePost : Nat := 20
def h3zeroQpackCodePath : Nat := 1
def h3zeroQpackAuthority : Nat := 0
def h3zeroQpackSchemeHttps : Nat := 23
def h3zeroQpackRange : Nat := 55
def h3zeroQpackUserAgent : Nat := 95
def h3zeroQpackOrigin : Nat := 90

/-- `h3zero_create_connect_header_frame`; a C string is its bytes, `none` is `NULL`. -/
def createConnectHeaderFrame (cap : Nat) (authority : Option (List UInt8)) (path : List UInt8)
    (protocol origin uaString : Option (List UInt8)) : Option (List UInt8) :=
  if 2 > cap then none
  else
    qpackCodeEncode cap 0xC0 0x3F h3zeroQpackCodeConnect [0, 0] >>=
      qpackCodeEncode cap 0xC0 0x3F h3zeroQpackSchemeHttps >>=
      qpackLiteralPlusRefEncode cap h3zeroQpackCodePath path >>=
      whenSome (qpackLiteralPlusNameEncode cap (ascii ":protocol")) protocol >>=
      whenSome (qpackLiteralPlusRefEncode cap h3zeroQpackAuthority) authority >>=
      whenSome (qpackLiteralPlusRefEncode cap h3zeroQpackOrigin) origin >>=
      whenSome (qpackLiteralPlusRefEncode cap h3zeroQpackUserAgent) uaString

/-- `if (range_length > 0)`. -/
def rangeOf (range : List UInt8) : Option (List UInt8) := if range.length > 0 then some range else none

/-- `h3zero_create_post_header_frame_ex`. -/
def createPostHeaderFrameEx (cap : Nat) (path range : List UInt8) (host : Option (List UInt8))
    (contentType : ContentType) (uaString : Option (List UInt8)) : Option (List UInt8) :=
  if 2 > cap then none
  else
    qpackCodeEncode cap 0xC0 0x3F h3zeroQpackCodePost [0, 0] >>=
      qpackCodeEncode cap 0xC0 0x3F h3zeroQpackSchemeHttps >>=
      qpackLiteralPlusRefEncode cap h3zeroQpackCodePath path >>=
      whenSome (qpackLiteralPlusRefEncode cap h3zeroQpackAuthority) host >>=
      whenSome (qpackLiteralPlusRefEncode cap h3zeroQpackRange) (rangeOf range) >>=
      whenSome (qpackLiteralPlusRefEncode cap h3zeroQpackUserAgent) uaString >>=
      encodeContentType cap contentType

/-- `h3zero_create_request_header_frame_ex`. -/
def createRequestHeaderFrameEx (cap : Nat) (path range : List UInt8) (host uaString : Option (List UInt8)) :
    Option (List UInt8) :=
  if 2 > cap then none
  else
    qpackCodeEncode cap 0xC0 0x3F h3zeroQpackCodeGet [0, 0] >>=
      qpackCodeEncode cap 0xC0 0x3F h3zeroQpackSchemeHttps >>=
      qpackLiteralPlusRefEncode cap h3zeroQpackCodePath path >>=
      whenSome (qpackLiteralPlusRefEncode cap h3zeroQpackAuthority) host >>=
      whenSome (qpackLiteralPlusRefEncode cap h3zeroQpackRange) (rangeOf range) >>=
      whenSome (qpackLiteralPlusRefEncode cap h3zeroQpackUserAgent) uaString

/-- `h3zero_create_response_header_frame_ex`. -/
def createResponseHeaderFrameEx (cap : Nat) (docType : ContentType) (serverString : Option (List UInt8)) :
    Option (List UInt8) :=
  if 2 > cap then none
  else
    qpackCodeEncode cap 0xC0 0x3F h3zeroQpackCode200 [0, 0] >>=
      whenSome (qpackLiteralPlusRefEncode cap h3zeroQpackServer) serverString >>= fun out =>
        if docType ≠ .none then encodeContentType cap docType out else some out

/-- `h3zero_create_error_frame`, with a code of three characters. -/
def createErrorFrameEx (cap : Nat) (c0 c1 c2 : UInt8) (serverString : Option (List UInt8)) : Option (List UInt8) :=
  if 2 > cap then none
  else
    (if [c0, c1, c2] = ascii "404" then qpackCodeEncode cap 0xC0 0x3F h3zeroQpackCode404 [0, 0]
      else
        -- where the code does not fit it is left out
        (qpackCodeEncode cap 0x50 0x0F h3zeroQpackCode404 [0, 0]).map fun out =>
          if out.length + 4 ≤ cap then out ++ [3, c0, c1, c2] else out) >>=
      whenSome (qpackLiteralPlusRefEncode cap h3zeroQpackServer) serverString >>= fun out =>
        if [c0, c1, c2] = ascii "405" then
          qpackLiteralPlusRefEncode cap h3zeroQpackAllowGet (ascii "GET, POST, CONNECT") out
        else some out

/-! ## What is written -/

/-- The bytes of a value, without Huffman coding. -/
def valueBytes (val : List UInt8) : List UInt8 := PrefixInt.encode 7 0x00 val.length ++ val

/-- The bytes of a field line, without Huffman coding. -/
def FieldLine.bytes : FieldLine → List UInt8
  | .indexed index => PrefixInt.encode 6 0xC0 index
  | .nameRef index _ val => PrefixInt.encode 4 0x50 index ++ valueBytes val
  | .literal _ name _ val => PrefixInt.encode 3 0x20 name.length ++ name ++ valueBytes val

/-- The block of these lines. -/
def blockOf (lines : List FieldLine) : List UInt8 := [0, 0] ++ lines.flatMap FieldLine.bytes

theorem or_low {n : Nat} {b : UInt8} (hb : 2 ^ n ∣ b.toNat) {x : Nat} (hx : x < 2 ^ n) :
    b ||| UInt8.ofNat x = UInt8.ofNat (b.toNat + x) := by
  obtain ⟨m, hm⟩ := hb
  have hlt := b.toNat_lt
  rw [← UInt8.toNat_inj, UInt8.toNat_or, UInt8.toNat_ofNat', UInt8.toNat_ofNat']
  by_cases hn : n ≤ 8
  · have hx8 : x % 2 ^ 8 = x := by
      have hle := Nat.pow_le_pow_right Nat.two_pos hn
      exact Nat.mod_eq_of_lt (by omega)
    have hor : b.toNat ||| x = b.toNat + x := by
      rw [hm]
      exact (Nat.two_pow_add_eq_or_of_lt hx m).symm
    have hsum : b.toNat + x < 2 ^ 8 := by
      rw [← hor]
      exact Nat.or_lt_two_pow hlt (by omega)
    rw [hx8, hor, Nat.mod_eq_of_lt hsum]
  · have hpow : 2 ^ 8 ≤ 2 ^ n := Nat.pow_le_pow_right Nat.two_pos (by omega)
    have hm0 : m = 0 := by
      by_contra hne
      have hge := Nat.le_mul_of_pos_right (2 ^ n) (Nat.pos_of_ne_zero hne)
      omega
    rw [hm, hm0, Nat.mul_zero, Nat.zero_or, Nat.zero_add]

theorem intEncodeRest_eq : ∀ (room v : Nat), qpackIntEncodeRest room v =
    if (PrefixInt.groups v).length ≤ room then some (PrefixInt.groups v) else none
  | 0, v => by
    by_cases h : v < 128
    · rw [PrefixInt.groups_lt h]
      rfl
    · rw [PrefixInt.groups_ge h]
      rfl
  | room + 1, v => by
    rw [qpackIntEncodeRest]
    by_cases h : v < 128
    · rw [if_neg (Nat.not_le.2 h), PrefixInt.groups_lt h, if_pos (by simp)]
    · have hand : v &&& 0x7F = v % 128 := Nat.and_two_pow_sub_one_eq_mod v 7
      have hor : 0x80 ||| v % 128 = 128 + v % 128 :=
        (Nat.two_pow_add_eq_or_of_lt (i := 7) (Nat.mod_lt v (by omega)) 1).symm
      have hshift : v >>> 7 = v / 128 := Nat.shiftRight_eq_div_pow v 7
      rw [if_pos (Nat.le_of_not_lt h), PrefixInt.groups_ge h, intEncodeRest_eq, hand, hor, hshift, List.length_cons]
      by_cases hlen : (PrefixInt.groups (v / 128)).length ≤ room
      · rw [if_pos hlen, if_pos (Nat.succ_le_succ hlen)]
        rfl
      · rw [if_neg hlen, if_neg (by omega)]
        rfl

section Writing

variable {cap : Nat}

theorem code_writes (n : Nat) (pre mask : UInt8) (hmask : mask.toNat = 2 ^ n - 1) (hpre : 2 ^ n ∣ pre.toNat)
    (code : Nat) : Writes cap (qpackCodeEncode cap pre mask code) (PrefixInt.encode n pre code) := by
  intro out _
  have hpos := Nat.two_pow_pos n
  have hor : pre ||| mask = UInt8.ofNat (pre.toNat + (2 ^ n - 1)) := by
    rw [← or_low hpre (by omega), ← hmask, UInt8.ofNat_toNat]
  unfold qpackCodeEncode PrefixInt.encode
  rw [hmask]
  by_cases hfull : out.length + 1 > cap
  · rw [if_pos hfull, if_neg]
    split_ifs
    · simp only [List.length_singleton]
      omega
    · simp only [List.length_cons]
      omega
  · rw [if_neg hfull]
    by_cases hshort : code < 2 ^ n - 1
    · rw [if_pos hshort, if_pos hshort, if_pos (by simpa using Nat.le_of_not_lt hfull), or_low hpre (by omega)]
    · rw [if_neg hshort, if_neg hshort, intEncodeRest_eq, List.length_cons, hor]
      by_cases hlen : (PrefixInt.groups (code - (2 ^ n - 1))).length ≤ cap - (out.length + 1)
      · rw [if_pos hlen, if_pos (by omega)]
        rfl
      · rw [if_neg hlen, if_neg (by omega)]
        rfl

theorem indexed_writes (index : Nat) :
    Writes cap (qpackCodeEncode cap 0xC0 0x3F index) (FieldLine.indexed index).bytes :=
  code_writes 6 0xC0 0x3F rfl ⟨3, rfl⟩ index

theorem value_writes (val : List UInt8) : Writes cap (fun out =>
    qpackCodeEncode cap 0x00 0x7F val.length out >>= fun out =>
      if out.length + val.length > cap then none else some (out ++ val)) (valueBytes val) :=
  (code_writes 7 0x00 0x7F rfl ⟨0, rfl⟩ val.length).comp (writes_copy cap val)

theorem ref_writes (code : Nat) (val : List UInt8) :
    Writes cap (qpackLiteralPlusRefEncode cap code val) (FieldLine.nameRef code false val).bytes := by
  have h : Writes cap _ _ := (code_writes 4 0x50 0x0F rfl ⟨5, rfl⟩ code).comp (value_writes val)
  intro out hout
  rw [FieldLine.bytes, ← h out hout]
  unfold qpackLiteralPlusRefEncode
  rw [bind_assoc]

theorem name_writes (name val : List UInt8) :
    Writes cap (qpackLiteralPlusNameEncode cap name val) (FieldLine.literal false name false val).bytes := by
  have h : Writes cap _ _ := ((code_writes 3 0x20 0x07 rfl ⟨4, rfl⟩ name.length).comp (writes_copy cap name)).comp
    (value_writes val)
  intro out hout
  rw [FieldLine.bytes, ← h out hout]
  unfold qpackLiteralPlusNameEncode qpackNameEncode
  rw [bind_assoc]

end Writing

/-! ## Reading it back -/

/-- A line without Huffman coding. -/
def FieldLine.Raw : FieldLine → Prop
  | .indexed index => index < 2 ^ 62
  | .nameRef index isHuffman _ => index < 2 ^ 62 ∧ isHuffman = false
  | .literal nameHuffman _ isHuffman _ => nameHuffman = false ∧ isHuffman = false

/-- One with lengths that a prefixed integer holds. -/
def FieldLine.Plain : FieldLine → Prop
  | .indexed index => index < 2 ^ 62
  | .nameRef index isHuffman val => index < 2 ^ 62 ∧ isHuffman = false ∧ val.length < 2 ^ 62
  | .literal nameHuffman name isHuffman val =>
    nameHuffman = false ∧ name.length < 2 ^ 62 ∧ isHuffman = false ∧ val.length < 2 ^ 62

section Reading

variable {mem : Mem} {cap : Nat}

theorem encode_encodes9 {n v : Nat} {b : UInt8} (hn : n ≤ 8) (hb : 2 ^ n ∣ b.toNat) (hv : v < 2 ^ 62) :
    PrefixInt.Encodes n 9 (PrefixInt.encode n b v) v :=
  PrefixInt.encode_encodes hn hb (lt_of_lt_of_le hv (by norm_num))

theorem value_isValue {val : List UInt8} (h : val.length < 2 ^ 62) : IsValue (valueBytes val) false val := by
  have henc := encode_encodes9 (n := 7) (b := 0x00) (by omega) ⟨0, rfl⟩ h
  obtain ⟨x, tl, heq, hx⟩ := PrefixInt.encode_cons 7 0x00 val.length
  have hbit : (UInt8.ofNat ((0x00 : UInt8).toNat + x)).toNat.testBit 7 = false := by
    rw [UInt8.toNat_ofNat', Nat.mod_eq_of_lt (by simp; omega)]
    exact Nat.testBit_lt_two_pow (by simp; omega)
  rw [heq] at henc
  have hvalue := IsValue.mk _ tl val henc
  rw [hbit] at hvalue
  rwa [valueBytes, heq]

theorem bytes_isFieldLine {line : FieldLine} (h : line.Plain) : IsFieldLine line.bytes line := by
  have hkind : ∀ {n x : Nat} (b m : UInt8), (∀ x < 2 ^ n, (UInt8.ofNat (b.toNat + x)) &&& m = b) →
      x ≤ 2 ^ n - 1 → UInt8.ofNat (b.toNat + x) &&& m = b := by
    intro n x b m hall hx
    have hpos := Nat.two_pow_pos n
    exact hall x (by omega)
  cases line with
  | indexed index =>
    have henc := encode_encodes9 (n := 6) (b := 0xC0) (by omega) ⟨3, rfl⟩ h
    obtain ⟨x, tl, heq, hx⟩ := PrefixInt.encode_cons 6 0xC0 index
    rw [FieldLine.bytes, heq]
    exact .indexed _ tl index (hkind 0xC0 0xC0 (by decide) hx) (heq ▸ henc)
  | nameRef index isHuffman val =>
    obtain ⟨hindex, rfl, hval⟩ := h
    have henc := encode_encodes9 (n := 4) (b := 0x50) (by omega) ⟨5, rfl⟩ hindex
    obtain ⟨x, tl, heq, hx⟩ := PrefixInt.encode_cons 4 0x50 index
    rw [FieldLine.bytes, heq]
    exact .nameRef _ tl index (hkind 0x50 0xD0 (by decide) hx) (heq ▸ henc) (value_isValue hval)
  | literal nameHuffman name isHuffman val =>
    obtain ⟨rfl, hname, rfl, hval⟩ := h
    have henc := encode_encodes9 (n := 3) (b := 0x20) (by omega) ⟨4, rfl⟩ hname
    obtain ⟨x, tl, heq, hx⟩ := PrefixInt.encode_cons 3 0x20 name.length
    have hbit : ∀ x < 2 ^ 3, (UInt8.ofNat ((0x20 : UInt8).toNat + x)).toNat.testBit 3 = false := by decide
    have hline := IsFieldLine.literal _ tl name (hkind 0x20 0xE0 (by decide) hx) (heq ▸ henc) (value_isValue hval)
    rw [hbit x (by omega)] at hline
    rwa [FieldLine.bytes, heq]

theorem bytes_isFieldLines : ∀ {lines : List FieldLine}, (∀ line ∈ lines, line.Plain) →
    IsFieldLines (lines.flatMap FieldLine.bytes) lines
  | [], _ => .nil
  | line :: lines, h => by
    rw [List.flatMap_cons]
    exact .cons (bytes_isFieldLine (h line List.mem_cons_self))
      (bytes_isFieldLines fun line hline => h line (List.mem_cons_of_mem _ hline))

/-- The parser reads a block of plain lines to its end, and stores what they say. -/
theorem parse_blockOf {lines : List FieldLine} (h : ∀ line ∈ lines, line.Plain) {parts : HeaderParts}
    (hs : storeLines mem lines .zero = some parts) : parseQpackHeaderFrame mem (blockOf lines) = (some [], parts) :=
  (parseFieldLines_iff (le_refl _)).2 ⟨rfl, lines, bytes_isFieldLines h, hs⟩

/-- Lines that fit into a buffer are short enough. -/
theorem plain_of_fits {lines : List FieldLine} (hcap : cap < 2 ^ 62) (hfit : (blockOf lines).length ≤ cap)
    (h : ∀ line ∈ lines, line.Raw) : ∀ line ∈ lines, line.Plain := by
  intro line hline
  have hlen : line.bytes.length ≤ cap := by
    have hsub := (List.sublist_flatten_of_mem (List.mem_map_of_mem (f := FieldLine.bytes) hline)).length_le
    rw [← List.flatMap_def] at hsub
    unfold blockOf at hfit
    rw [List.length_append] at hfit
    omega
  have hline' := h line hline
  cases line with
  | indexed index => exact hline'
  | nameRef index isHuffman val =>
    simp only [FieldLine.bytes, valueBytes, List.length_append] at hlen
    exact ⟨hline'.1, hline'.2, by omega⟩
  | literal nameHuffman name isHuffman val =>
    simp only [FieldLine.bytes, valueBytes, List.length_append] at hlen
    exact ⟨hline'.1, by omega, hline'.2, by omega⟩

end Reading

/-! ## Requests -/

/-- A request with its header fields. -/
inductive RequestBlock where
  | connect (authority : Option (List UInt8)) (path : List UInt8) (protocol origin uaString : Option (List UInt8))
  | post (path range : List UInt8) (host : Option (List UInt8)) (contentType : ContentType)
      (uaString : Option (List UInt8))
  | get (path range : List UInt8) (host uaString : Option (List UInt8))

/-- The function that writes its block into `cap` bytes. -/
def RequestBlock.create (cap : Nat) : RequestBlock → Option (List UInt8)
  | .connect authority path protocol origin ua => createConnectHeaderFrame cap authority path protocol origin ua
  | .post path range host contentType ua => createPostHeaderFrameEx cap path range host contentType ua
  | .get path range host ua => createRequestHeaderFrameEx cap path range host ua

/-- The place of a content type in the static table. -/
def contentTypeIndex (t : ContentType) : Option Nat :=
  qpackStatic.findIdx? fun e => e.header = .contentType ∧ e.enumAsInt = t.code

/-- A literal under a name of the static table, if there is a value. -/
def refLine (index : Nat) (val : Option (List UInt8)) : List FieldLine := val.toList.map (.nameRef index false)

/-- The lines of its block; a content type that the static table does not have cannot be written. -/
def RequestBlock.lines : RequestBlock → Option (List FieldLine)
  | .connect authority path protocol origin ua =>
    some ([.indexed h3zeroQpackCodeConnect, .indexed h3zeroQpackSchemeHttps, .nameRef h3zeroQpackCodePath false path] ++
      protocol.toList.map (.literal false (ascii ":protocol") false) ++ refLine h3zeroQpackAuthority authority ++
      refLine h3zeroQpackOrigin origin ++ refLine h3zeroQpackUserAgent ua)
  | .post path range host contentType ua =>
    (contentTypeIndex contentType).map fun index =>
      [.indexed h3zeroQpackCodePost, .indexed h3zeroQpackSchemeHttps, .nameRef h3zeroQpackCodePath false path] ++
        refLine h3zeroQpackAuthority host ++ refLine h3zeroQpackRange (rangeOf range) ++
        refLine h3zeroQpackUserAgent ua ++ [.indexed index]
  | .get path range host ua =>
    some ([.indexed h3zeroQpackCodeGet, .indexed h3zeroQpackSchemeHttps, .nameRef h3zeroQpackCodePath false path] ++
      refLine h3zeroQpackAuthority host ++ refLine h3zeroQpackRange (rangeOf range) ++ refLine h3zeroQpackUserAgent ua)

/-- What the peer's parser is to find. -/
def RequestBlock.parts : RequestBlock → HeaderParts
  | .connect _ path protocol _ _ =>
    { HeaderParts.zero with method := .connect, path := some path, protocol := protocol }
  | .post path range _ contentType _ =>
    { HeaderParts.zero with method := .post, path := some path, range := rangeOf range, contentType := contentType }
  | .get path range _ _ => { HeaderParts.zero with method := .get, path := some path, range := rangeOf range }

section Requests

variable {cap : Nat}

theorem flatMap_toList {β : Type} (L : β → FieldLine) (o : Option β) :
    (o.toList.map L).flatMap FieldLine.bytes = o.elim [] fun v => (L v).bytes := by
  cases o with
  | none => rfl
  | some v => exact List.append_nil _

theorem lines_of_writes {f : Writer UInt8} {lines : List FieldLine} {w : List UInt8}
    (h : Writes cap f w) (hw : w = lines.flatMap FieldLine.bytes) :
    (if 2 > cap then none else f [0, 0]) = if (blockOf lines).length ≤ cap then some (blockOf lines) else none := by
  subst hw
  unfold blockOf
  by_cases hcap : 2 > cap
  · rw [if_pos hcap, if_neg]
    simp only [List.length_append, List.length_cons, List.length_nil]
    omega
  · rw [if_neg hcap, h [0, 0] (Nat.le_of_not_lt hcap), List.length_append]

theorem contentType_writes (cap : Nat) (t : ContentType) :
    (contentTypeIndex t = none → ∀ out, encodeContentType cap t out = none) ∧
      ∀ index, contentTypeIndex t = some index →
        Writes cap (encodeContentType cap t) (FieldLine.indexed index).bytes := by
  constructor
  · intro h out
    unfold contentTypeIndex at h
    unfold encodeContentType
    rw [h]
  · intro index h out hout
    rw [← indexed_writes index out hout]
    unfold contentTypeIndex at h
    unfold encodeContentType
    rw [h]

/-- A request's function writes the block of its lines, just where that fits. -/
theorem create_eq (r : RequestBlock) : r.create cap =
    r.lines.bind fun lines => if (blockOf lines).length ≤ cap then some (blockOf lines) else none := by
  cases r with
  | connect authority path protocol origin ua =>
    refine lines_of_writes ((((((indexed_writes _).comp (indexed_writes _)).comp (ref_writes _ path)).comp
      (writes_whenSome (name_writes _) protocol)).comp (writes_whenSome (ref_writes _) authority)).comp
      (writes_whenSome (ref_writes _) origin) |>.comp (writes_whenSome (ref_writes _) ua)) ?_
    simp only [refLine, List.flatMap_append, flatMap_toList, List.flatMap_cons, List.flatMap_nil, List.append_nil,
      List.append_assoc]
  | post path range host contentType ua =>
    obtain ⟨hno, hindex⟩ := contentType_writes cap contentType
    cases ht : contentTypeIndex contentType with
    | none =>
      -- a type without a code is refused behind whatever was written
      have hnone : ∀ o : Option (List UInt8), o >>= encodeContentType cap contentType = none := by
        intro o
        cases o with
        | none => rfl
        | some out => exact hno ht out
      simp only [RequestBlock.create, createPostHeaderFrameEx, hnone, ite_self, RequestBlock.lines, ht, Option.map_none,
        Option.bind_none]
    | some index =>
      simp only [RequestBlock.lines, ht, Option.map_some, Option.bind_some]
      refine lines_of_writes ((((((indexed_writes _).comp (indexed_writes _)).comp (ref_writes _ path)).comp
        (writes_whenSome (ref_writes _) host)).comp (writes_whenSome (ref_writes _) (rangeOf range))).comp
        (writes_whenSome (ref_writes _) ua) |>.comp (hindex index ht)) ?_
      simp only [refLine, List.flatMap_append, flatMap_toList, List.flatMap_cons, List.flatMap_nil, List.append_nil,
        List.append_assoc]
  | get path range host ua =>
    refine lines_of_writes ((((((indexed_writes _).comp (indexed_writes _)).comp (ref_writes _ path)).comp
      (writes_whenSome (ref_writes _) host)).comp (writes_whenSome (ref_writes _) (rangeOf range))).comp
      (writes_whenSome (ref_writes _) ua)) ?_
    simp only [refLine, List.flatMap_append, flatMap_toList, List.flatMap_cons, List.flatMap_nil, List.append_nil,
      List.append_assoc]

/-- A content type of the static table is found there. -/
theorem contentType_store (mem : Mem) {t : ContentType} {index : Nat} (h : contentTypeIndex t = some index) :
    index < 2 ^ 62 ∧ ∀ parts : HeaderParts, parts.contentType = .none →
      (FieldLine.indexed index).store mem parts = some { parts with contentType := t } := by
  have hall : ∀ t : ContentType, contentTypeIndex t = none ∨ ∃ index e, contentTypeIndex t = some index ∧
      index < qpackStatic.length ∧ qpackStatic[index]? = some e ∧ e.header = .contentType ∧
      ContentType.ofCode e.enumAsInt = t := by
    intro t
    cases t
    all_goals first
      | exact .inl rfl
      | exact .inr ⟨_, _, rfl, by decide, rfl, rfl, rfl⟩
  rcases hall t with hno | ⟨i, e, hi, hlt, he, hheader, hcode⟩
  · rw [hno] at h
    cases h
  · cases h.symm.trans hi
    refine ⟨lt_trans hlt (by decide), fun parts hparts => ?_⟩
    have hat : staticAt mem index = e := by
      unfold staticAt
      rw [List.getD_eq_getElem?_getD, he]
      rfl
    show (if index > qpackStatic.length then none else parts.storeStatic mem (staticAt mem index)) = _
    rw [if_neg (Nat.not_lt.2 (Nat.le_of_lt hlt)), hat]
    unfold HeaderParts.storeStatic
    rw [hheader]
    simp only [hparts, ne_eq, not_true_eq_false, if_false, hcode]

section Store

variable {mem : Mem} {parts : HeaderParts}

/-- Lines that say nothing that the parser keeps. -/
theorem store_ignored {index : Nat} (hindex : index < qpackStatic.length)
    (h : ∀ v, parts.store mem (staticAt mem index).header v = some parts) (o : Option (List UInt8)) :
    storeLines mem (refLine index o) parts = some parts := by
  cases o with
  | none => rfl
  | some v =>
    have hstore : (FieldLine.nameRef index false v).store mem parts = some parts := by
      rw [FieldLine.store, if_neg (by omega)]
      exact h _
    show (FieldLine.nameRef index false v).store mem parts >>= pure = some parts
    rw [hstore]
    rfl

theorem store_authority (o : Option (List UInt8)) :
    storeLines mem (refLine h3zeroQpackAuthority o) parts = some parts :=
  store_ignored (by decide) (fun _ => rfl) o

theorem store_origin (o : Option (List UInt8)) : storeLines mem (refLine h3zeroQpackOrigin o) parts = some parts :=
  store_ignored (by decide) (fun _ => rfl) o

theorem store_userAgent (o : Option (List UInt8)) :
    storeLines mem (refLine h3zeroQpackUserAgent o) parts = some parts :=
  store_ignored (by decide) (fun _ => rfl) o

theorem store_range (hm : ∀ v : List UInt8, mem.malloc (v.length + 1) = true) (hr : parts.range = none)
    (o : Option (List UInt8)) :
    storeLines mem (refLine h3zeroQpackRange o) parts = some { parts with range := o } := by
  cases o with
  | none => exact congrArg some (by rw [← hr])
  | some v =>
    have hstore : (FieldLine.nameRef h3zeroQpackRange false v).store mem parts =
        (parseQpackHeaderValueString mem parts.range v).map fun v => { parts with range := some v } := rfl
    show (FieldLine.nameRef h3zeroQpackRange false v).store mem parts >>= pure = _
    rw [hstore, hr, parseQpackHeaderValueString, if_neg (by simp), if_pos (hm v)]
    rfl

theorem store_protocol (hm : ∀ v : List UInt8, mem.malloc (v.length + 1) = true) (hr : parts.protocol = none)
    (o : Option (List UInt8)) :
    storeLines mem (o.toList.map (.literal false (ascii ":protocol") false)) parts =
      some { parts with protocol := o } := by
  cases o with
  | none => exact congrArg some (by rw [← hr])
  | some v =>
    have hstore : (FieldLine.literal false (ascii ":protocol") false v).store mem parts =
        (parseQpackHeaderValueString mem parts.protocol v).map fun v => { parts with protocol := some v } := rfl
    show (FieldLine.literal false (ascii ":protocol") false v).store mem parts >>= pure = _
    rw [hstore, hr, parseQpackHeaderValueString, if_neg (by simp), if_pos (hm v)]
    rfl

theorem storeLines_append (as bs : List FieldLine) :
    storeLines mem (as ++ bs) parts = (storeLines mem as parts).bind fun p => storeLines mem bs p :=
  List.foldlM_append

/-- The lines all requests begin with. -/
theorem store_start (hm : ∀ v : List UInt8, mem.malloc (v.length + 1) = true) {code : Nat} {m : Method}
    (hcode : (FieldLine.indexed code).store mem .zero = some { HeaderParts.zero with method := m })
    (path : List UInt8) :
    storeLines mem [.indexed code, .indexed h3zeroQpackSchemeHttps, .nameRef h3zeroQpackCodePath false path] .zero =
      some { HeaderParts.zero with method := m, path := some path } := by
  show ((FieldLine.indexed code).store mem .zero >>= fun p => (FieldLine.indexed h3zeroQpackSchemeHttps).store mem p >>=
    fun p => (FieldLine.nameRef h3zeroQpackCodePath false path).store mem p >>= pure) = _
  rw [hcode]
  show (parseQpackHeaderValueString mem none path).map _ >>= pure = _
  rw [parseQpackHeaderValueString, if_neg (by simp), if_pos (hm path)]
  rfl

end Store

/-- The lines of a request say what it is. -/
theorem request_store {mem : Mem} (hm : ∀ v : List UInt8, mem.malloc (v.length + 1) = true) {r : RequestBlock}
    {lines : List FieldLine} (h : r.lines = some lines) : storeLines mem lines .zero = some r.parts := by
  cases r with
  | connect authority path protocol origin ua =>
    cases h
    rw [storeLines_append, storeLines_append, storeLines_append, storeLines_append, store_start hm rfl path,
      Option.bind_some, store_protocol hm rfl, Option.bind_some, store_authority, Option.bind_some, store_origin,
      Option.bind_some, store_userAgent]
    rfl
  | post path range host contentType ua =>
    obtain ⟨index, hindex, rfl⟩ := Option.map_eq_some_iff.1 h
    rw [storeLines_append, storeLines_append, storeLines_append, storeLines_append, store_start hm rfl path,
      Option.bind_some, store_authority, Option.bind_some, store_range hm rfl, Option.bind_some, store_userAgent,
      Option.bind_some]
    show (FieldLine.indexed index).store mem _ >>= pure = _
    rw [(contentType_store mem hindex).2 _ rfl]
    rfl
  | get path range host ua =>
    cases h
    rw [storeLines_append, storeLines_append, storeLines_append, store_start hm rfl path, Option.bind_some,
      store_authority, Option.bind_some, store_range hm rfl, Option.bind_some, store_userAgent]
    rfl

theorem refLine_raw {index : Nat} (hindex : index < 2 ^ 62) (o : Option (List UInt8)) :
    ∀ line ∈ refLine index o, line.Raw := by
  intro line hline
  obtain ⟨v, -, rfl⟩ := List.mem_map.1 hline
  exact ⟨hindex, rfl⟩

theorem request_raw {r : RequestBlock} {lines : List FieldLine} (h : r.lines = some lines) :
    ∀ line ∈ lines, line.Raw := by
  have hstart : ∀ (code : Nat) (path : List UInt8), code < 2 ^ 62 → ∀ line ∈ [FieldLine.indexed code,
      .indexed h3zeroQpackSchemeHttps, .nameRef h3zeroQpackCodePath false path], line.Raw := by
    intro code path hcode line hline
    simp only [List.mem_cons, List.not_mem_nil, or_false] at hline
    rcases hline with rfl | rfl | rfl
    · exact hcode
    · exact (by decide : h3zeroQpackSchemeHttps < 2 ^ 62)
    · exact ⟨(by decide : h3zeroQpackCodePath < 2 ^ 62), rfl⟩
  have happend : ∀ {as bs : List FieldLine}, (∀ line ∈ as, line.Raw) → (∀ line ∈ bs, line.Raw) →
      ∀ line ∈ as ++ bs, line.Raw := fun ha hb line hline => (List.mem_append.1 hline).elim (ha line) (hb line)
  cases r with
  | connect authority path protocol origin ua =>
    cases h
    refine happend (happend (happend (happend (hstart _ path (by decide)) fun line hline => ?_)
      (refLine_raw (by decide) authority)) (refLine_raw (by decide) origin)) (refLine_raw (by decide) ua)
    obtain ⟨v, -, rfl⟩ := List.mem_map.1 hline
    exact ⟨rfl, rfl⟩
  | post path range host contentType ua =>
    obtain ⟨index, hindex, rfl⟩ := Option.map_eq_some_iff.1 h
    refine happend (happend (happend (happend (hstart _ path (by decide)) (refLine_raw (by decide) host))
      (refLine_raw (by decide) _)) (refLine_raw (by decide) ua)) fun line hline => ?_
    rw [List.mem_singleton.1 hline]
    exact (contentType_store .ample hindex).1
  | get path range host ua =>
    cases h
    exact happend (happend (happend (hstart _ path (by decide)) (refLine_raw (by decide) host))
      (refLine_raw (by decide) _)) (refLine_raw (by decide) ua)

/-- A block that is written where it fits is read back as what its lines say. -/
theorem fits_undone {mem : Mem} (hcap : cap < 2 ^ 62) {o : Option (List FieldLine)} {parts : HeaderParts}
    (hraw : ∀ lines, o = some lines → ∀ line ∈ lines, line.Raw)
    (hstore : ∀ lines, o = some lines → storeLines mem lines .zero = some parts) {w : Option (List UInt8)}
    (hw : w = o.bind fun lines => if (blockOf lines).length ≤ cap then some (blockOf lines) else none) :
    (w = none ↔ ∀ lines ∈ o, cap < (blockOf lines).length) ∧
      ∀ block ∈ w, block.length ≤ cap ∧ parseQpackHeaderFrame mem block = (some [], parts) := by
  subst hw
  cases o with
  | none =>
    exact ⟨⟨fun _ _ h => (Option.not_mem_none _ h).elim, fun _ => rfl⟩, fun _ h => (Option.not_mem_none _ h).elim⟩
  | some lines =>
    rw [Option.bind_some]
    by_cases hfit : (blockOf lines).length ≤ cap
    · rw [if_pos hfit]
      refine ⟨⟨fun h => (Option.some_ne_none _ h).elim, fun h => absurd hfit (Nat.not_le.2 (h lines rfl))⟩,
        fun block hb => ?_⟩
      cases hb
      exact ⟨hfit, parse_blockOf (plain_of_fits hcap hfit (hraw lines rfl)) (hstore lines rfl)⟩
    · rw [if_neg hfit]
      refine ⟨⟨fun _ block hb => ?_, fun _ => rfl⟩, fun _ h => (Option.not_mem_none _ h).elim⟩
      cases hb
      exact Nat.not_le.1 hfit

/-- For every request and every size of the buffer: the block is refused just where its lines do not fit or its content
type has no code; else it is inside the buffer, and the parser reads it to its end as the request it was made of. -/
theorem requests_undone {mem : Mem} (hm : ∀ n, mem.malloc n = true) {cap : Nat} (hcap : cap < 2 ^ 62)
    (r : RequestBlock) :
    (r.create cap = none ↔ ∀ lines ∈ r.lines, cap < (blockOf lines).length) ∧
      ∀ block ∈ r.create cap, block.length ≤ cap ∧ parseQpackHeaderFrame mem block = (some [], r.parts) := by
  exact fits_undone hcap (fun lines hl => request_raw hl) (fun lines hl => request_store (fun v => hm _) hl)
    (create_eq r)

/-- A CONNECT with everything in it. -/
def fullConnect : RequestBlock :=
  .connect (some (ascii "mquic")) (ascii "/camera") (some (ascii "webtransport")) (some (ascii "here")) none

theorem fullConnect_undone :
    (fullConnect.create 51).isSome = true ∧ fullConnect.create 50 = none ∧
      ((fullConnect.create 51 = none ↔ ∀ lines ∈ fullConnect.lines, 51 < (blockOf lines).length) ∧
        ∀ block ∈ fullConnect.create 51, block.length ≤ 51 ∧
          parseQpackHeaderFrame .ample block = (some [], fullConnect.parts)) :=
  ⟨by decide, by decide, requests_undone (fun _ => rfl) (by norm_num) fullConnect⟩

end Requests

/-! ## Responses -/

/-- A response with its header fields. -/
inductive ResponseBlock where
  | ok (docType : ContentType) (serverString : Option (List UInt8))
  | error (c0 c1 c2 : UInt8) (serverString : Option (List UInt8))

/-- The function that writes its block into `cap` bytes. -/
def ResponseBlock.create (cap : Nat) : ResponseBlock → Option (List UInt8)
  | .ok docType server => createResponseHeaderFrameEx cap docType server
  | .error c0 c1 c2 server => createErrorFrameEx cap c0 c1 c2 server

/-- The line of an error's status. -/
def statusLine (c0 c1 c2 : UInt8) : FieldLine :=
  if [c0, c1, c2] = ascii "404" then .indexed h3zeroQpackCode404 else .nameRef h3zeroQpackCode404 false [c0, c1, c2]

/-- What stands behind the server's name. -/
def allowLine (c0 c1 c2 : UInt8) : List FieldLine :=
  if [c0, c1, c2] = ascii "405" then [.nameRef h3zeroQpackAllowGet false (ascii "GET, POST, CONNECT")] else []

/-- The lines of its block; a content type that the static table does not have cannot be written. -/
def ResponseBlock.lines : ResponseBlock → Option (List FieldLine)
  | .ok docType server =>
    if docType = .none then some ([.indexed h3zeroQpackCode200] ++ refLine h3zeroQpackServer server)
    else (contentTypeIndex docType).map fun index =>
      [.indexed h3zeroQpackCode200] ++ refLine h3zeroQpackServer server ++ [.indexed index]
  | .error c0 c1 c2 server =>
    some ([statusLine c0 c1 c2] ++ refLine h3zeroQpackServer server ++ allowLine c0 c1 c2)

/-- What the peer's parser is to find. -/
def ResponseBlock.parts : ResponseBlock → HeaderParts
  | .ok docType _ => { HeaderParts.zero with status := 200, contentType := docType }
  | .error c0 c1 c2 _ => { HeaderParts.zero with status := parseStatus [c0, c1, c2] 0 }

/-- There is room for what names the status, but none for its digits, and nothing that follows fails for want of it. -/
def ResponseBlock.Cut (cap : Nat) : ResponseBlock → Prop
  | .ok _ _ => False
  | .error c0 c1 c2 server =>
    [c0, c1, c2] ≠ ascii "404" ∧ [c0, c1, c2] ≠ ascii "405" ∧
      (server = none ∧ 4 ≤ cap ∧ cap < 8 ∨ server = some [] ∧ cap = 7)

section Responses

variable {cap : Nat}

/-- A reference to an entry whose index takes two bytes. -/
theorem encode_index {index : Nat} (hlow : 15 ≤ index) (hhigh : index < 143) :
    PrefixInt.encode 4 0x50 index = [0x5F, UInt8.ofNat (index - 15)] := by
  unfold PrefixInt.encode
  rw [if_neg (by omega), PrefixInt.groups_lt (by omega)]
  rfl

theorem statusName_eq (out : List UInt8) (hout : out.length ≤ cap) :
    qpackCodeEncode cap 0x50 0x0F h3zeroQpackCode404 out =
      if out.length + 2 ≤ cap then some (out ++ [0x5F, 0x0C]) else none := by
  have hbytes : PrefixInt.encode 4 0x50 h3zeroQpackCode404 = [0x5F, 0x0C] := encode_index (by decide) (by decide)
  rw [code_writes 4 0x50 0x0F rfl ⟨5, rfl⟩ h3zeroQpackCode404 out hout, hbytes]
  rfl

theorem refBytes_length (index : Nat) (v : List UInt8) (hindex : 15 ≤ index) :
    3 + v.length ≤ (FieldLine.nameRef index false v).bytes.length ∧
      (v = [] → index < 143 → (FieldLine.nameRef index false v).bytes.length = 3) := by
  have hpos : ∀ n, 1 ≤ (PrefixInt.groups n).length := by
    intro n
    rw [PrefixInt.groups]
    split_ifs <;> simp
  have hlen : 1 ≤ (PrefixInt.encode 7 0x00 v.length).length := by
    unfold PrefixInt.encode
    split_ifs <;> simp
  unfold FieldLine.bytes valueBytes
  rw [List.length_append, List.length_append]
  unfold PrefixInt.encode at hlen ⊢
  rw [if_neg (by omega), List.length_cons]
  constructor
  · have hgroups := hpos (index - (2 ^ 4 - 1))
    omega
  · rintro rfl hlt
    rw [PrefixInt.groups_lt (by omega)]
    rfl

/-- The literal of the allowed methods does not fit into a few bytes. -/
theorem allow_none (hcap : cap < 8) {out : List UInt8} (hout : out.length ≤ cap) :
    qpackLiteralPlusRefEncode cap h3zeroQpackAllowGet (ascii "GET, POST, CONNECT") out = none := by
  have hlen := (refBytes_length h3zeroQpackAllowGet (ascii "GET, POST, CONNECT") (by decide)).1
  have h18 : (ascii "GET, POST, CONNECT").length = 18 := by decide
  rw [ref_writes _ _ out hout, if_neg (by omega)]

/-- Where the digits are left out: what the short buffer comes to. -/
theorem error_short {c0 c1 c2 : UInt8} (h404 : [c0, c1, c2] ≠ ascii "404") (hlow : 4 ≤ cap) (hcap : cap < 8)
    (server : Option (List UInt8)) :
    createErrorFrameEx cap c0 c1 c2 server =
      if [c0, c1, c2] ≠ ascii "405" ∧ (server = none ∨ server = some [] ∧ cap = 7) then
        some ([0, 0, 0x5F, 0x0C] ++ server.elim [] fun _ => [0x5F, 0x4D, 0x00])
      else none := by
  -- only an empty server name fits behind the status name
  have hserver : ∀ v : List UInt8, qpackLiteralPlusRefEncode cap h3zeroQpackServer v [0, 0, 0x5F, 0x0C] =
      if v = [] ∧ cap = 7 then some [0, 0, 0x5F, 0x0C, 0x5F, 0x4D, 0x00] else none := by
    intro v
    obtain ⟨hlen, hnil⟩ := refBytes_length h3zeroQpackServer v (by decide)
    have h4 : ([0, 0, 0x5F, 0x0C] : List UInt8).length = 4 := rfl
    rw [ref_writes _ _ _ (h4 ▸ hlow)]
    by_cases hv : v = [] ∧ cap = 7
    · obtain ⟨rfl, rfl⟩ := hv
      have hbytes : (FieldLine.nameRef h3zeroQpackServer false []).bytes = [0x5F, 0x4D, 0x00] := by
        show PrefixInt.encode 4 0x50 h3zeroQpackServer ++ valueBytes [] = _
        rw [encode_index (by decide) (by decide)]
        rfl
      rw [hbytes]
      rfl
    · rw [if_neg hv, if_neg]
      intro hle
      have hv0 : v.length = 0 := by omega
      exact hv ⟨List.length_eq_zero_iff.1 hv0, by omega⟩
  unfold createErrorFrameEx
  rw [if_neg (by omega), if_neg h404, statusName_eq _ (by simp; omega), if_pos (by simpa using hlow), Option.map_some,
    if_neg (by simp; omega)]
  cases server with
  | none =>
    show (if [c0, c1, c2] = ascii "405" then _ else some _) = _
    by_cases h405 : [c0, c1, c2] = ascii "405"
    · rw [if_pos h405, if_neg (fun h => h.1 h405), allow_none hcap (by simpa using hlow)]
    · rw [if_neg h405, if_pos ⟨h405, .inl rfl⟩]
      rfl
  | some v =>
    show (qpackLiteralPlusRefEncode cap h3zeroQpackServer v [0, 0, 0x5F, 0x0C] >>= _) = _
    rw [hserver]
    by_cases hv : v = [] ∧ cap = 7
    · obtain ⟨rfl, rfl⟩ := hv
      rw [if_pos ⟨rfl, rfl⟩]
      show (if [c0, c1, c2] = ascii "405" then _ else some _) = _
      by_cases h405 : [c0, c1, c2] = ascii "405"
      · rw [if_pos h405, if_neg (fun h => h.1 h405), allow_none hcap (by simp)]
      · rw [if_neg h405, if_pos ⟨h405, .inr ⟨rfl, rfl⟩⟩]
        rfl
    · rw [if_neg hv, if_neg]
      · rfl
      · rintro ⟨-, hno | ⟨hnil, h7⟩⟩
        · cases hno
        · exact hv ⟨Option.some.inj hnil, h7⟩

/-- A response's function writes the block of its lines, just where that fits, or in a short buffer a part of it. -/
theorem response_eq (r : ResponseBlock) (hcut : ¬ r.Cut cap) : r.create cap =
    r.lines.bind fun lines => if (blockOf lines).length ≤ cap then some (blockOf lines) else none := by
  cases r with
  | ok docType server =>
    have hname : Writes cap _ _ :=
      (indexed_writes h3zeroQpackCode200).comp (writes_whenSome (ref_writes h3zeroQpackServer) server)
    obtain ⟨hno, hindex⟩ := contentType_writes cap docType
    unfold ResponseBlock.create createResponseHeaderFrameEx ResponseBlock.lines
    by_cases hd : docType = .none
    · simp only [hd, ne_eq, not_true_eq_false, if_true, if_false]
      refine lines_of_writes (hname.comp (writes_nothing cap)) ?_
      simp only [refLine, List.flatMap_append, flatMap_toList, List.flatMap_cons, List.flatMap_nil, List.append_nil]
    · simp only [hd, ne_eq, not_false_eq_true, if_true, if_false]
      cases ht : contentTypeIndex docType with
      | none =>
        simp only [hno ht]
        -- a type without a code is refused whatever stands before it
        have hnone : ∀ o : Option (List UInt8), (o >>= fun _ => (none : Option (List UInt8))) = none := by
          intro o
          cases o <;> rfl
        rw [hnone, ite_self]
        rfl
      | some index =>
        refine lines_of_writes (hname.comp (hindex index ht)) ?_
        simp only [refLine, List.flatMap_append, flatMap_toList, List.flatMap_cons, List.flatMap_nil, List.append_nil]
  | error c0 c1 c2 server =>
    have hallow : Writes cap (fun out => if [c0, c1, c2] = ascii "405" then
        qpackLiteralPlusRefEncode cap h3zeroQpackAllowGet (ascii "GET, POST, CONNECT") out else some out)
          ((allowLine c0 c1 c2).flatMap FieldLine.bytes) := by
      unfold allowLine
      by_cases h405 : [c0, c1, c2] = ascii "405"
      · simp only [if_pos h405, List.flatMap_cons, List.flatMap_nil, List.append_nil]
        exact ref_writes _ _
      · simp only [if_neg h405]
        exact writes_nothing cap
    have hname : Writes cap _ _ := writes_whenSome (ref_writes h3zeroQpackServer) server
    simp only [ResponseBlock.create, ResponseBlock.lines, Option.bind_some]
    by_cases h404 : [c0, c1, c2] = ascii "404"
    · have hall := ((indexed_writes h3zeroQpackCode404).comp hname).comp hallow
      rw [statusLine, if_pos h404, ← lines_of_writes hall (by
        simp only [refLine, List.flatMap_append, flatMap_toList, List.flatMap_cons, List.flatMap_nil,
          List.append_nil])]
      unfold createErrorFrameEx
      rw [if_pos h404]
    · have hbytes : (FieldLine.nameRef h3zeroQpackCode404 false [c0, c1, c2]).bytes = [0x5F, 0x0C, 3, c0, c1, c2] := by
        show PrefixInt.encode 4 0x50 h3zeroQpackCode404 ++ valueBytes [c0, c1, c2] = _
        rw [encode_index (by decide) (by decide)]
        rfl
      -- room for the status line with its digits, or too little of it
      by_cases hroom : 8 ≤ cap
      · have hall := ((ref_writes h3zeroQpackCode404 [c0, c1, c2]).comp hname).comp hallow
        rw [statusLine, if_neg h404, ← lines_of_writes hall (by
          simp only [refLine, List.flatMap_append, flatMap_toList, List.flatMap_cons, List.flatMap_nil,
            List.append_nil])]
        have hout : ([0, 0] : List UInt8).length ≤ cap := by simp only [List.length_cons, List.length_nil]; omega
        have hdigits : (qpackCodeEncode cap 0x50 0x0F h3zeroQpackCode404 [0, 0]).map
            (fun out => if out.length + 4 ≤ cap then out ++ [3, c0, c1, c2] else out) =
              qpackLiteralPlusRefEncode cap h3zeroQpackCode404 [c0, c1, c2] [0, 0] := by
          rw [statusName_eq _ hout, ref_writes _ _ _ hout, hbytes]
          simp only [List.length_cons, List.length_nil]
          rw [if_pos (by omega), if_pos (by omega), Option.map_some]
          simp only [List.length_append, List.length_cons, List.length_nil]
          rw [if_pos (by omega)]
          rfl
        unfold createErrorFrameEx
        rw [if_neg h404, hdigits]
      · have hlong : ¬ (blockOf ([statusLine c0 c1 c2] ++ refLine h3zeroQpackServer server ++
            allowLine c0 c1 c2)).length ≤ cap := by
          unfold blockOf
          rw [statusLine, if_neg h404, List.flatMap_append, List.flatMap_append, List.flatMap_cons, hbytes]
          simp only [List.length_append, List.length_cons]
          omega
        rw [if_neg hlong]
        by_cases hlow : 4 ≤ cap
        · rw [error_short h404 hlow (by omega), if_neg]
          rintro ⟨h405, hserver⟩
          refine hcut ⟨h404, h405, ?_⟩
          rcases hserver with rfl | hserver
          · exact .inl ⟨rfl, hlow, by omega⟩
          · exact .inr hserver
        · unfold createErrorFrameEx
          by_cases h2 : 2 > cap
          · rw [if_pos h2]
          · rw [if_neg h2, if_neg h404, statusName_eq _ (by simp; omega), if_neg (by simp; omega)]
            rfl

/-- The lines of a response say what it is. -/
theorem response_store (mem : Mem) {r : ResponseBlock} {lines : List FieldLine} (h : r.lines = some lines) :
    storeLines mem lines .zero = some r.parts := by
  have hserver : ∀ (parts : HeaderParts) (o : Option (List UInt8)),
      storeLines mem (refLine h3zeroQpackServer o) parts = some parts :=
    fun _ o => store_ignored (by decide) (fun _ => rfl) o
  -- the status line says it all: the server's name is ignored
  have hstart : ∀ {line : FieldLine} {parts : HeaderParts}, line.store mem .zero = some parts →
      ∀ o, storeLines mem ([line] ++ refLine h3zeroQpackServer o) .zero = some parts := by
    intro line parts hline o
    rw [storeLines_append]
    show ((line.store mem .zero >>= pure).bind fun p => storeLines mem (refLine h3zeroQpackServer o) p) = _
    rw [hline]
    exact hserver parts o
  have h200 : (FieldLine.indexed h3zeroQpackCode200).store mem .zero = some { HeaderParts.zero with status := 200 } :=
    rfl
  cases r with
  | ok docType server =>
    simp only [ResponseBlock.lines] at h
    split_ifs at h with hnone
    · cases h
      rw [hstart h200, hnone]
      rfl
    · obtain ⟨index, hindex, rfl⟩ := Option.map_eq_some_iff.1 h
      rw [storeLines_append, hstart h200, Option.bind_some]
      show (FieldLine.indexed index).store mem _ >>= pure = _
      rw [(contentType_store mem hindex).2 _ rfl]
      rfl
  | error c0 c1 c2 server =>
    cases h
    have hstatus : (statusLine c0 c1 c2).store mem .zero =
        some { HeaderParts.zero with status := parseStatus [c0, c1, c2] 0 } := by
      unfold statusLine
      split_ifs with h404
      · rw [h404]
        rfl
      · rfl
    rw [storeLines_append, hstart hstatus, Option.bind_some]
    unfold allowLine
    split_ifs
    · rfl
    · rfl

theorem response_raw {r : ResponseBlock} {lines : List FieldLine} (h : r.lines = some lines) :
    ∀ line ∈ lines, line.Raw := by
  have h200 : (FieldLine.indexed h3zeroQpackCode200).Raw := (by decide : h3zeroQpackCode200 < 2 ^ 62)
  have hserver : ∀ o, ∀ line ∈ refLine h3zeroQpackServer o, line.Raw := refLine_raw (by decide)
  cases r with
  | ok docType server =>
    simp only [ResponseBlock.lines] at h
    split_ifs at h
    · cases h
      exact List.forall_mem_append.2 ⟨List.forall_mem_singleton.2 h200, hserver server⟩
    · obtain ⟨index, hindex, rfl⟩ := Option.map_eq_some_iff.1 h
      refine List.forall_mem_append.2 ⟨List.forall_mem_append.2 ⟨List.forall_mem_singleton.2 h200, hserver server⟩, ?_⟩
      exact List.forall_mem_singleton.2 (contentType_store .ample hindex).1
  | error c0 c1 c2 server =>
    cases h
    have hstatus : (statusLine c0 c1 c2).Raw := by
      unfold statusLine
      split_ifs
      · exact (by decide : h3zeroQpackCode404 < 2 ^ 62)
      · exact ⟨by decide, rfl⟩
    refine List.forall_mem_append.2 ⟨List.forall_mem_append.2 ⟨List.forall_mem_singleton.2 hstatus, hserver server⟩, ?_⟩
    unfold allowLine
    split_ifs
    · exact List.forall_mem_singleton.2 ⟨by decide, rfl⟩
    · exact fun line hline => nomatch hline

/-- For every response and every size of the buffer: unless the digits of the status are cut off, the block is refused
just where its lines do not fit, and else the parser reads it to its end as the response it was made of; where they are
cut off, a block comes out all the same, and the parser refuses it. -/
theorem responses_undone (mem : Mem) {cap : Nat} (hcap : cap < 2 ^ 62) (r : ResponseBlock) :
    (¬ r.Cut cap →
      (r.create cap = none ↔ ∀ lines ∈ r.lines, cap < (blockOf lines).length) ∧
        ∀ block ∈ r.create cap, block.length ≤ cap ∧ parseQpackHeaderFrame mem block = (some [], r.parts)) ∧
    (r.Cut cap →
      ∃ block, r.create cap = some block ∧ block.length ≤ cap ∧ (parseQpackHeaderFrame mem block).1 = none) := by
  constructor
  · intro hcut
    exact fits_undone hcap (fun lines hl => response_raw hl) (fun lines hl => response_store mem hl)
      (response_eq r hcut)
  · intro hcut
    cases r with
    | ok docType server => exact hcut.elim
    | error c0 c1 c2 server =>
      obtain ⟨h404, h405, ⟨rfl, hlow, hcap8⟩ | ⟨rfl, rfl⟩⟩ := hcut
      · refine ⟨[0, 0, 0x5F, 0x0C], ?_, hlow, rfl⟩
        show createErrorFrameEx cap c0 c1 c2 none = _
        rw [error_short h404 hlow hcap8, if_pos ⟨h405, .inl rfl⟩]
        rfl
      · refine ⟨[0, 0, 0x5F, 0x0C, 0x5F, 0x4D, 0x00], ?_, le_refl 7, rfl⟩
        show createErrorFrameEx 7 c0 c1 c2 (some []) = _
        rw [error_short h404 (by decide) (by decide), if_pos ⟨h405, .inr ⟨rfl, rfl⟩⟩]
        rfl

/-- A response whose digits are cut off in six bytes. -/
theorem teapot_undone :
    ((ResponseBlock.error 0x34 0x31 0x38 none).Cut 6 ∧ ¬ (ResponseBlock.error 0x34 0x31 0x38 none).Cut 8) ∧
      ((¬ (ResponseBlock.error 0x34 0x31 0x38 none).Cut 6 →
        ((ResponseBlock.error 0x34 0x31 0x38 none).create 6 = none ↔
            ∀ lines ∈ (ResponseBlock.error 0x34 0x31 0x38 none).lines, 6 < (blockOf lines).length) ∧
          ∀ block ∈ (ResponseBlock.error 0x34 0x31 0x38 none).create 6, block.length ≤ 6 ∧
            parseQpackHeaderFrame .ample block = (some [], (ResponseBlock.error 0x34 0x31 0x38 none).parts)) ∧
      ((ResponseBlock.error 0x34 0x31 0x38 none).Cut 6 →
        ∃ block, (ResponseBlock.error 0x34 0x31 0x38 none).create 6 = some block ∧ block.length ≤ 6 ∧
          (parseQpackHeaderFrame .ample block).1 = none)) :=
  ⟨⟨⟨by decide, by decide, .inl ⟨rfl, by decide, by decide⟩⟩, fun h => by simp [ResponseBlock.Cut] at h⟩,
    responses_undone .ample (by norm_num) _⟩

end Responses

end Mquic.H3
