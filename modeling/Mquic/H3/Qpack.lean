/-
The QPACK parser of h3zero.c, which server and client share: prefixed integers, the static table, the
Huffman decoder, and the parser of a header block. Blocks use the static table only.
-/
import Mquic.Lib.Varint
import Mathlib.Tactic

namespace Mquic.H3

/-- The bytes of an ASCII string of the source. -/
def ascii (s : String) : List UInt8 := s.toList.map fun c => UInt8.ofNat c.toNat

theorem ascii_length (s : String) : (ascii s).length = s.length := by
  rw [ascii, List.length_map, String.length_toList]

/-! ## Enumerations -/

/-- `http_header_enum_t`. -/
inductive HttpHeader where
  | unknown | pseudoAuthority | pseudoPath | age | contentDisposition | contentLength | cookie | date | etag
  | ifModifiedSince | ifNoneMatch | lastModified | link | location | referer | setCookie | pseudoMethod
  | pseudoScheme | pseudoStatus | pseudoProtocol | accept | acceptEncoding | acceptRanges
  | accessControlAllowHeaders | accessControlAllowOrigin | cacheControl | contentEncoding | contentType | range
  | strictTransportSecurity | vary | xContentTypeOptions | xXssProtection | acceptLanguage
  | accessControlAllowCredentials | accessControlAllowMethods | accessControlExposeHeaders
  | accessControlRequestHeaders | accessControlRequestMethod | altSvc | authorization | contentSecurityPolicy
  | earlyData | expectCt | forwarded | ifRange | origin | purpose | server | timingAllowOrigin
  | upgradeInsecureRequests | userAgent | xForwardedFor | xFrameOptions
deriving DecidableEq

/-- `h3zero_method_enum`. -/
inductive Method where
  | none | notSupported | connect | delete | get | head | options | post | put
deriving DecidableEq

/-- The values of the enumeration. -/
def Method.all : List Method := [.none, .notSupported, .connect, .delete, .get, .head, .options, .post, .put]

/-- The enumeration as `int`, and back. -/
def Method.code (m : Method) : Nat := Method.all.idxOf m

def Method.ofCode (n : Nat) : Method := Method.all.getD n .notSupported

/-- `h3zero_content_type_enum`. -/
inductive ContentType where
  | none | notSupported | textHtml | textPlain | imageGif | imageJpeg | imagePng | dnsMessage | javascript | json
  | wwwFormUrlencoded | textCss
deriving DecidableEq

def ContentType.all : List ContentType :=
  [.none, .notSupported, .textHtml, .textPlain, .imageGif, .imageJpeg, .imagePng, .dnsMessage, .javascript, .json,
    .wwwFormUrlencoded, .textCss]

def ContentType.code (t : ContentType) : Nat := ContentType.all.idxOf t

def ContentType.ofCode (n : Nat) : ContentType := ContentType.all.getD n .notSupported

theorem Method.ofCode_code (m : Method) : Method.ofCode m.code = m := by cases m <;> rfl

theorem ContentType.ofCode_code (t : ContentType) : ContentType.ofCode t.code = t := by cases t <;> rfl

/-! ## The static table -/

/-- `h3zero_qpack_static_t`, without the index. -/
structure StaticEntry where
  header : HttpHeader
  content : Option String
  enumAsInt : Nat
deriving DecidableEq

/-- `qpack_static`. -/
def qpackStatic : List StaticEntry := [
  ⟨.pseudoAuthority, none, 0⟩,
  ⟨.pseudoPath, some "/", 0⟩,
  ⟨.age, some "0", 0⟩,
  ⟨.contentDisposition, none, 0⟩,
  ⟨.contentLength, some "0", 0⟩,
  ⟨.cookie, none, 0⟩,
  ⟨.date, none, 0⟩,
  ⟨.etag, none, 0⟩,
  ⟨.ifModifiedSince, none, 0⟩,
  ⟨.ifNoneMatch, none, 0⟩,
  ⟨.lastModified, none, 0⟩,
  ⟨.link, none, 0⟩,
  ⟨.location, none, 0⟩,
  ⟨.referer, none, 0⟩,
  ⟨.setCookie, none, 0⟩,
  ⟨.pseudoMethod, some "CONNECT", Method.connect.code⟩,
  ⟨.pseudoMethod, some "DELETE", Method.delete.code⟩,
  ⟨.pseudoMethod, some "GET", Method.get.code⟩,
  ⟨.pseudoMethod, some "HEAD", Method.head.code⟩,
  ⟨.pseudoMethod, some "OPTIONS", Method.options.code⟩,
  ⟨.pseudoMethod, some "POST", Method.post.code⟩,
  ⟨.pseudoMethod, some "PUT", Method.put.code⟩,
  ⟨.pseudoScheme, some "http", 0⟩,
  ⟨.pseudoScheme, some "https", 0⟩,
  ⟨.pseudoStatus, some "103", 103⟩,
  ⟨.pseudoStatus, some "200", 200⟩,
  ⟨.pseudoStatus, some "304", 304⟩,
  ⟨.pseudoStatus, some "404", 404⟩,
  ⟨.pseudoStatus, some "503", 503⟩,
  ⟨.accept, some "*/*", 0⟩,
  ⟨.accept, some "application/dns-message", 0⟩,
  ⟨.acceptEncoding, some "gzip, deflate, br", 0⟩,
  ⟨.acceptRanges, some "bytes", 0⟩,
  ⟨.accessControlAllowHeaders, some "cache-control", 0⟩,
  ⟨.accessControlAllowHeaders, some "content-type", 0⟩,
  ⟨.accessControlAllowOrigin, some "*", 0⟩,
  ⟨.cacheControl, some "max-age=0", 0⟩,
  ⟨.cacheControl, some "max-age=2592000", 0⟩,
  ⟨.cacheControl, some "max-age=604800", 0⟩,
  ⟨.cacheControl, some "no-cache", 0⟩,
  ⟨.cacheControl, some "no-store", 0⟩,
  ⟨.cacheControl, some "public, max-age=31536000", 0⟩,
  ⟨.contentEncoding, some "br", 0⟩,
  ⟨.contentEncoding, some "gzip", 0⟩,
  ⟨.contentType, some "application/dns-message", ContentType.dnsMessage.code⟩,
  ⟨.contentType, some "application/javascript", ContentType.javascript.code⟩,
  ⟨.contentType, some "application/json", ContentType.json.code⟩,
  ⟨.contentType, some "application/x-www-form-urlencoded", ContentType.wwwFormUrlencoded.code⟩,
  ⟨.contentType, some "image/gif", ContentType.imageGif.code⟩,
  ⟨.contentType, some "image/jpeg", ContentType.imageJpeg.code⟩,
  ⟨.contentType, some "image/png", ContentType.imagePng.code⟩,
  ⟨.contentType, some "text/css", ContentType.textCss.code⟩,
  ⟨.contentType, some "text/html; charset=utf-8", ContentType.textHtml.code⟩,
  ⟨.contentType, some "text/plain", ContentType.textPlain.code⟩,
  ⟨.contentType, some "text/plain;charset=utf-8", ContentType.textPlain.code⟩,
  ⟨.range, some "bytes=0-", 0⟩,
  ⟨.strictTransportSecurity, some "max-age=31536000", 0⟩,
  ⟨.strictTransportSecurity, some "max-age=31536000; includesubdomains", 0⟩,
  ⟨.strictTransportSecurity, some "max-age=31536000; includesubdomains; preload", 0⟩,
  ⟨.vary, some "accept-encoding", 0⟩,
  ⟨.vary, some "origin", 0⟩,
  ⟨.xContentTypeOptions, some "nosniff", 0⟩,
  ⟨.xXssProtection, some "1; mode=block", 0⟩,
  ⟨.pseudoStatus, some "100", 100⟩,
  ⟨.pseudoStatus, some "204", 204⟩,
  ⟨.pseudoStatus, some "206", 206⟩,
  ⟨.pseudoStatus, some "302", 302⟩,
  ⟨.pseudoStatus, some "400", 400⟩,
  ⟨.pseudoStatus, some "403", 403⟩,
  ⟨.pseudoStatus, some "421", 421⟩,
  ⟨.pseudoStatus, some "425", 425⟩,
  ⟨.pseudoStatus, some "500", 500⟩,
  ⟨.acceptLanguage, none, 0⟩,
  ⟨.accessControlAllowCredentials, some "FALSE", 0⟩,
  ⟨.accessControlAllowCredentials, some "TRUE", 0⟩,
  ⟨.accessControlAllowHeaders, some "*", 0⟩,
  ⟨.accessControlAllowMethods, some "get", 0⟩,
  ⟨.accessControlAllowMethods, some "get, post, options", 0⟩,
  ⟨.accessControlAllowMethods, some "options", 0⟩,
  ⟨.accessControlExposeHeaders, some "content-length", 0⟩,
  ⟨.accessControlRequestHeaders, some "content-type", 0⟩,
  ⟨.accessControlRequestMethod, some "get", 0⟩,
  ⟨.accessControlRequestMethod, some "post", 0⟩,
  ⟨.altSvc, some "clear", 0⟩,
  ⟨.authorization, none, 0⟩,
  ⟨.contentSecurityPolicy, some "script-src 'none'; object-src 'none'; base-uri 'none'", 0⟩,
  ⟨.earlyData, some "1", 0⟩,
  ⟨.expectCt, none, 0⟩,
  ⟨.forwarded, none, 0⟩,
  ⟨.ifRange, none, 0⟩,
  ⟨.origin, none, 0⟩,
  ⟨.purpose, some "prefetch", 0⟩,
  ⟨.server, none, 0⟩,
  ⟨.timingAllowOrigin, some "*", 0⟩,
  ⟨.upgradeInsecureRequests, some "1", 0⟩,
  ⟨.userAgent, none, 0⟩,
  ⟨.xForwardedFor, none, 0⟩,
  ⟨.xFrameOptions, some "deny", 0⟩,
  ⟨.xFrameOptions, some "sameorigin", 0⟩]

/-- What the parsers depend on outside their code: whether `malloc` of a size succeeds, what memory holds behind the
static table, and `picoquic_frames_varint_decode`. -/
structure Mem where
  malloc : Nat → Bool
  behind : StaticEntry
  framesVarintDecode : Varint.Reader

/-- Every `malloc` succeeds, and varints are read as RFC 9000 says. -/
def Mem.ample : Mem := ⟨fun _ => true, ⟨.unknown, none, 0⟩, .decoder⟩

/-- `qpack_static[index]`, for the indices the parser lets through: it compares with `>`, so that one lies
behind the table. -/
def staticAt (mem : Mem) (index : Nat) : StaticEntry := qpackStatic.getD index mem.behind

/-- `strlen` bytes of an entry's content. -/
def StaticEntry.bytes (e : StaticEntry) : List UInt8 := ascii (e.content.getD "")

/-! ## Prefixed integers -/

/-- The loop of `h3zero_qpack_int_decode`; `none` unless it ends with `complete` set. -/
def intDecodeLoop : List UInt8 → Nat → Nat → Option (List UInt8 × Nat)
  | [], _, _ => none
  | b :: bytes, shift, v =>
    if shift < 62 then
      let v := v ||| (b &&& 0x7F).toNat <<< shift
      if b &&& 0x80 = 0 then some (bytes, v) else intDecodeLoop bytes (shift + 7) v
    else none

/-- `h3zero_qpack_int_decode`: the rest of the bytes (`none` for `NULL`) and `*val`. -/
def qpackIntDecode (mask : UInt8) : List UInt8 → Option (List UInt8) × Nat
  | [] => (none, 0)
  | b :: bytes =>
    let val := (b &&& mask).toNat
    if val = mask.toNat then
      match intDecodeLoop bytes 0 0 with
      | some (rest, v) => (some rest, v + mask.toNat)
      | none => (none, val)
    else (some bytes, val)

/-! ## Huffman decoding -/

/-- `h3zero_qpack_huffman_bit`. -/
def huffmanBit : List Nat := [
  249, 50, 115, 39, 38, 79, 147, 39, 38, 100, 249, 50, 114, 100, 242, 100, 228, 228, 206, 77, 52, 228, 204,
  203, 202, 114, 102, 79, 147, 39, 76, 156, 153, 62, 76, 156, 156, 153, 62, 76, 156, 153, 60, 154, 100, 242,
  102, 79, 147, 39, 38, 83, 228, 201, 201, 147, 211, 39, 38, 79, 38, 78, 76, 178]

/-- `h3zero_qpack_huffman_val`. -/
def huffmanVal : List Nat := [
  44, 16, 8, 4, 2, 48, 49, 2, 50, 97, 4, 2, 99, 101, 2, 105, 111, 12, 4, 2, 115, 116, 4, 2, 32, 37, 2, 45,
  46, 8, 4, 2, 47, 51, 2, 52, 53, 4, 2, 54, 55, 2, 56, 57, 36, 16, 8, 4, 2, 61, 65, 2, 95, 98, 4, 2, 100,
  102, 2, 103, 104, 8, 4, 2, 108, 109, 2, 110, 112, 4, 2, 114, 117, 4, 2, 58, 66, 2, 67, 68, 32, 16, 8, 4, 2,
  69, 70, 2, 71, 72, 4, 2, 73, 74, 2, 75, 76, 8, 4, 2, 77, 78, 2, 79, 80, 4, 2, 81, 82, 2, 83, 84, 16, 8, 4,
  2, 85, 86, 2, 87, 89, 4, 2, 106, 107, 2, 113, 118, 8, 4, 2, 119, 120, 2, 121, 122, 8, 4, 2, 38, 42, 2, 44,
  59, 4, 2, 88, 90, 8, 4, 2, 33, 34, 2, 40, 41, 6, 2, 63, 2, 39, 43, 6, 2, 124, 2, 35, 62, 8, 4, 2, 0, 36, 2,
  64, 91, 4, 2, 93, 126, 4, 2, 94, 125, 4, 2, 60, 96, 2, 123, 30, 10, 4, 2, 92, 195, 2, 208, 2, 128, 130, 8,
  4, 2, 131, 162, 2, 184, 194, 4, 2, 224, 226, 4, 2, 153, 161, 2, 167, 172, 46, 16, 8, 4, 2, 176, 177, 2,
  179, 209, 4, 2, 216, 217, 2, 227, 229, 14, 6, 2, 230, 2, 129, 132, 4, 2, 133, 134, 2, 136, 146, 8, 4, 2,
  154, 156, 2, 160, 163, 4, 2, 164, 169, 2, 170, 173, 40, 16, 8, 4, 2, 178, 181, 2, 185, 186, 4, 2, 187, 189,
  2, 190, 196, 8, 4, 2, 198, 228, 2, 232, 233, 8, 4, 2, 1, 135, 2, 137, 138, 4, 2, 139, 140, 2, 141, 143, 32,
  16, 8, 4, 2, 147, 149, 2, 150, 151, 4, 2, 152, 155, 2, 157, 158, 8, 4, 2, 165, 166, 2, 168, 174, 4, 2, 175,
  180, 2, 182, 183, 22, 8, 4, 2, 188, 191, 2, 197, 231, 6, 2, 239, 2, 9, 142, 4, 2, 144, 145, 2, 148, 159,
  20, 8, 4, 2, 171, 206, 2, 215, 225, 4, 2, 236, 237, 4, 2, 199, 207, 2, 234, 235, 34, 16, 8, 4, 2, 192, 193,
  2, 200, 201, 4, 2, 202, 205, 2, 210, 213, 8, 4, 2, 218, 219, 2, 238, 240, 4, 2, 242, 243, 2, 255, 2, 203,
  204, 32, 16, 8, 4, 2, 211, 212, 2, 214, 221, 4, 2, 222, 223, 2, 241, 244, 8, 4, 2, 245, 246, 2, 247, 248,
  4, 2, 250, 251, 2, 252, 253, 30, 14, 6, 2, 254, 2, 2, 3, 4, 2, 4, 5, 2, 6, 7, 8, 4, 2, 8, 11, 2, 12, 14, 4,
  2, 15, 16, 2, 17, 18, 16, 8, 4, 2, 19, 20, 2, 21, 23, 4, 2, 24, 25, 2, 26, 27, 8, 4, 2, 28, 29, 2, 30, 31,
  4, 2, 127, 220, 2, 249, 4, 2, 10, 13, 2, 22]

/-- Bit `index` of `h3zero_qpack_huffman_bit`: the code so far is an index, not a terminal. -/
def huffmanIndex (index : Nat) : Bool := (huffmanBit.getD (index >>> 3) 0).testBit (7 - (index &&& 7))

/-- The bits of the input, most significant first. -/
def huffmanBits (bytes : List UInt8) : List Bool :=
  bytes.flatMap fun b => [7, 6, 5, 4, 3, 2, 1, 0].map b.toNat.testBit

/-- The loop of `hzero_qpack_huffman_decode`: whether it ended on ones only, and the octets. A terminal is
stored with the bit that reaches it, since index 0 is no terminal. -/
def huffmanLoop (maxDecoded : Nat) : List Bool → Nat → Bool → List UInt8 → Bool × List UInt8
  | [], _, wasAllOnes, decoded => (wasAllOnes, decoded)
  | bit :: bits, index, wasAllOnes, decoded =>
    let index' := if bit then index + huffmanVal.getD index 0 else index + 1
    let ones := wasAllOnes && bit
    if index' ≥ 512 then (ones, decoded)
    else if huffmanIndex index' then huffmanLoop maxDecoded bits index' ones decoded
    else if decoded.length < maxDecoded then
      huffmanLoop maxDecoded bits 0 true (decoded ++ [UInt8.ofNat (huffmanVal.getD index' 0)])
    else (true, decoded)

/-- `hzero_qpack_huffman_decode`: the octets, or `none` where it returns -1. -/
def huffmanDecode (maxDecoded : Nat) (bytes : List UInt8) : Option (List UInt8) :=
  let (ok, decoded) := huffmanLoop maxDecoded (huffmanBits bytes) 0 true []
  if ok then some decoded else none

/-- The string that stands for `raw`: its Huffman decoding if it is marked so and decodes, else `raw`. -/
def deHuff (isHuffman : Bool) (raw : List UInt8) : List UInt8 :=
  if isHuffman then (huffmanDecode 256 raw).getD raw else raw

/-! ## Header values -/

/-- `h3zero_header_parts_t`: strings with their lengths, `none` for `NULL`. -/
structure HeaderParts where
  method : Method
  path : Option (List UInt8)
  range : Option (List UInt8)
  status : Int
  contentType : ContentType
  protocol : Option (List UInt8)
deriving DecidableEq

/-- The parts after `memset`. -/
def HeaderParts.zero : HeaderParts := ⟨.none, none, none, 0, .none, none⟩

/-- `h3zero_get_method_by_name`. -/
def getMethodByName (name : List UInt8) : Method :=
  match ((qpackStatic.drop 15).take 7).find? (·.bytes = name) with
  | some e => Method.ofCode e.enumAsInt
  | none => .notSupported

/-- `h3zero_get_content_type_by_name`. -/
def getContentTypeByName (name : List UInt8) : ContentType :=
  match ((qpackStatic.drop 44).take 11).find? (·.bytes = name) with
  | some e => ContentType.ofCode e.enumAsInt
  | none => .notSupported

/-- `h3zero_parse_status`, on a 32-bit `int`. -/
def parseStatus : List UInt8 → Int → Int
  | [], val => val
  | c :: content, val =>
    if 0x30 ≤ c ∧ c ≤ 0x39 then parseStatus content ((val * 10 + (c.toNat - 0x30)).bmod (2 ^ 32)) else -1

/-- `h3zero_parse_qpack_header_value_string`: the new field, or `none` where it returns `NULL`. -/
def parseQpackHeaderValueString (mem : Mem) (field : Option (List UInt8)) (decoded : List UInt8) :
    Option (List UInt8) :=
  if field.isSome then none
  else if mem.malloc (decoded.length + 1) then some decoded
  else none

/-- The switch of `h3zero_parse_qpack_header_value`: the parts with the value stored, or `none` where `bytes`
becomes `NULL`. A second value of a kind is refused. -/
def HeaderParts.store (mem : Mem) (header : HttpHeader) (decoded : List UInt8) (parts : HeaderParts) :
    Option HeaderParts :=
  match header with
  | .pseudoMethod => if parts.method ≠ .none then none else some { parts with method := getMethodByName decoded }
  | .contentType =>
    if parts.contentType ≠ .none then none else some { parts with contentType := getContentTypeByName decoded }
  | .pseudoStatus => if parts.status ≠ 0 then none else some { parts with status := parseStatus decoded 0 }
  | .pseudoPath => (parseQpackHeaderValueString mem parts.path decoded).map fun v => { parts with path := some v }
  | .range => (parseQpackHeaderValueString mem parts.range decoded).map fun v => { parts with range := some v }
  | .pseudoProtocol =>
    (parseQpackHeaderValueString mem parts.protocol decoded).map fun v => { parts with protocol := some v }
  | _ => some parts

/-- `h3zero_parse_qpack_header_value`: the rest of the bytes (`none` for `NULL`) and the parts. -/
def parseQpackHeaderValue (mem : Mem) (header : HttpHeader) (bytes : List UInt8) (parts : HeaderParts) :
    Option (List UInt8) × HeaderParts :=
  match bytes with
  | [] => (none, parts)
  | b :: _ =>
    let isHuffman := b.toNat.testBit 7
    match qpackIntDecode 0x7F bytes with
    | (none, _) => (none, parts)
    | (some bytes, vLength) =>
      if bytes.length < vLength then (none, parts)
      else
        match parts.store mem header (deHuff isHuffman (bytes.take vLength)) with
        | none => (none, parts)
        | some parts => (some (bytes.drop vLength), parts)

/-- `interesting_header_name` and `interesting_header`. -/
def interestingHeader : List (String × HttpHeader) :=
  [(":method", .pseudoMethod), (":path", .pseudoPath), (":status", .pseudoStatus), ("content-type", .contentType),
    (":protocol", .pseudoProtocol), ("origin", .origin), ("range", .range)]

/-- `h3zero_get_interesting_header_type`. -/
def getInterestingHeaderType (name : List UInt8) (isHuffman : Bool) : HttpHeader :=
  match interestingHeader.find? (fun e => ascii e.1 = deHuff isHuffman name) with
  | some e => e.2
  | none => .unknown

/-! ## Header blocks -/

/-- The switch on an index into the static table: the parts with the entry's value, or `none` where `bytes`
becomes `NULL`. -/
def HeaderParts.storeStatic (mem : Mem) (e : StaticEntry) (parts : HeaderParts) : Option HeaderParts :=
  match e.header with
  | .pseudoMethod =>
    if parts.method ≠ .none then none else some { parts with method := Method.ofCode e.enumAsInt }
  | .contentType =>
    if parts.contentType ≠ .none then none else some { parts with contentType := ContentType.ofCode e.enumAsInt }
  | .pseudoStatus => if parts.status ≠ 0 then none else some { parts with status := e.enumAsInt }
  | .pseudoPath =>
    if parts.path.isSome then none
    else if mem.malloc (e.bytes.length + 1) then some { parts with path := some e.bytes }
    else none
  | _ => some parts

/-- One round of the loop of `h3zero_parse_qpack_header_frame`, on bytes that begin with `b`. -/
def parseFieldLine (mem : Mem) (b : UInt8) (bytes : List UInt8) (parts : HeaderParts) :
    Option (List UInt8) × HeaderParts :=
  if b &&& 0xC0 = 0xC0 then
    -- an index cut short still stores the entry it stands for, 63
    let (rest, sIndex) := qpackIntDecode 0x3F bytes
    if sIndex > qpackStatic.length then (none, parts)
    else
      match parts.storeStatic mem (staticAt mem sIndex) with
      | none => (none, parts)
      | some parts => (rest, parts)
  else if b &&& 0xD0 = 0x50 then
    match qpackIntDecode 0x0F bytes with
    | (none, _) => (none, parts)
    | (some bytes, sIndex) =>
      if sIndex > qpackStatic.length then (none, parts)
      else parseQpackHeaderValue mem (staticAt mem sIndex).header bytes parts
  else if b &&& 0xE0 = 0x20 then
    let isHuffman := b.toNat.testBit 3
    match qpackIntDecode 0x07 bytes with
    | (none, _) => (none, parts)
    | (some bytes, nLength) =>
      if bytes.length < nLength then (none, parts)
      else
        parseQpackHeaderValue mem (getInterestingHeaderType (bytes.take nLength) isHuffman) (bytes.drop nLength) parts
  else (none, parts)

/-- The loop, for at most `fuel` rounds; every round takes a byte. -/
def parseFieldLines (mem : Mem) : Nat → List UInt8 → HeaderParts → Option (List UInt8) × HeaderParts
  | _, [], parts => (some [], parts)
  | 0, _ :: _, parts => (none, parts)
  | fuel + 1, b :: bytes, parts =>
    match parseFieldLine mem b (b :: bytes) parts with
    | (none, parts) => (none, parts)
    | (some rest, parts) => parseFieldLines mem fuel rest parts

/-- `h3zero_parse_qpack_header_frame`: the rest of the bytes (`none` for `NULL`) and the parts. -/
def parseQpackHeaderFrame (mem : Mem) : List UInt8 → Option (List UInt8) × HeaderParts
  | [] => (none, .zero)
  | b :: bytes =>
    if b ≠ 0 then (none, .zero)
    else
      match qpackIntDecode 0x7F bytes with
      | (none, _) => (none, .zero)
      | (some rest, _) => parseFieldLines mem rest.length rest .zero

end Mquic.H3
