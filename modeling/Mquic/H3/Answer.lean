/-
Answers to requests (h3zero_common.c): `h3zero_process_request_frame` with all its methods, the sends that picoquic
polls for behind it, and what the client's parser takes from the stream. In every run of polls a client in any chunks
has the header and the part of the body that was sent, and its check at the end of the stream passes just where the
body is complete.
-/
import Mquic.H3.Blocks
import Mquic.H3.Connect

namespace Mquic.H3.Answer

/-! ## The request's stream -/

/-- A path callback, by what its calls give: at the end of a POST the 512 bytes of `post_response` and the length it
returns, on a CONNECT what it queues itself and what it returns. -/
structure PathCallback where
  response : List UInt8
  postFin : Nat
  queued : List UInt8
  connect : Int
  response_length : response.length = 512
  postFin_lt : postFin < 2 ^ 64

/-- What the functions call, and the path table. -/
structure Env where
  /-- `picoquic_varint_encode`. -/
  varint : VarintEncode
  /-- `h3zero_server_parse_path` as `h3zero_common.c` declares and calls it: the length and the file, `none` where it
  fails. `h3zero_server_min.c` defines another function of that name, with other parameters, which calls path callbacks
  and sets neither; of a GET that goes to it nothing is said. -/
  parsePath : Option (List UInt8) → Option (Nat × Option (List UInt8))
  /-- `picoquic_file_open`, with the bytes of the file. -/
  fileOpen : List UInt8 → Option (List UInt8)
  table : List (List UInt8 × PathCallback)
  /-- `picoquic_add_to_stream_with_ctx` returns 0. -/
  accepts : Bool

/-- The fields of `h3zero_stream_ctx_t` that answering uses; `file` is what `F` has left to read. -/
structure StreamCtx where
  method : Method
  path : Option (List UInt8)
  callback : Option PathCallback
  postReceived : Nat
  echoLength : Nat
  echoSent : Nat
  filePath : Option (List UInt8)
  file : Option (List UInt8)
  isUpgraded : Bool

/-- The stream: its context, what picoquic was given for it, and whether the context is still in the tree. A callback
that does not return 0 ends the connection. -/
structure Stream where
  ctx : StreamCtx
  written : List UInt8
  fin : Bool
  reset : Bool
  active : Bool
  found : Bool
  failed : Bool

/-! ## Content -/

/-- `h3zero_server_default_page`. -/
def serverDefaultPage : List UInt8 := ascii
  ("<!DOCTYPE HTML PUBLIC \"-//IETF//DTD HTML 2.0//EN\">\r\n<HTML>\r\n<HEAD>\r\n<TITLE>" ++
    "Picoquic HTTP 3 service" ++ "</TITLE>\r\n</HEAD><BODY>\r\n" ++ "<h1>Simple HTTP 3 Responder</h1>\r\n" ++
    "<p>GET / or GET /index.html returns this text</p>\r\n" ++
    "<p>Get /NNNNN returns txt document of length NNNNN bytes(decimal)</p>\r\n" ++
    "<p>Any other command will result in an error, and an empty response.</p>\r\n" ++
    "<h1>Enjoy!</h1>\r\n" ++ "</BODY></HTML>\r\n")

/-- `h3zero_server_post_response_page`, with `post_received` cast to `int` for `%d`. -/
def serverPostResponsePage (postReceived : Nat) : List UInt8 :=
  ascii ("<!DOCTYPE HTML PUBLIC \"-//IETF//DTD HTML 2.0//EN\">\r\n<HTML>\r\n<HEAD>\r\n<TITLE>" ++
    "Picoquic POST Response" ++ "</TITLE>\r\n</HEAD><BODY>\r\n" ++ "<h1>POST successful</h1>\r\n" ++ "<p>Received ") ++
    ascii (toString ((postReceived : Int).bmod (2 ^ 32))) ++ ascii (" bytes.\r\n" ++ "</BODY></HTML>\r\n")

/-- What stands behind the last dot of a path, if that is not its first byte. -/
def extension (path : List UInt8) : Option (List UInt8) :=
  match path.reverse.findIdx? (· = 0x2E) with
  | none => none
  | some n => if n + 1 = path.length then none else some (path.drop (path.length - n))

/-- `h3zero_get_content_type_by_path`. -/
def getContentTypeByPath (path : Option (List UInt8)) : ContentType :=
  match path.bind extension with
  | none => .textPlain
  | some ext =>
    if ext = ascii "html" ∨ ext = ascii "htm" then .textHtml
    else if ext = ascii "gif" then .imageGif
    else if ext = ascii "jpg" ∨ ext = ascii "jpeg" then .imageJpeg
    else if ext = ascii "png" then .imagePng
    else if ext = ascii "js" then .javascript
    else if ext = ascii "json" then .json
    else if ext = ascii "css" then .textCss
    else .textPlain

/-! ## `h3zero_process_request_frame` -/

/-- What the methods prepare: the context, what a callback queued, the header block (`none` for `NULL`), and
`response_length` with the bytes it is of. -/
structure Prepared where
  ctx : StreamCtx
  queued : List UInt8
  block : Option (List UInt8)
  length : Nat
  content : List UInt8

/-- The entry of the path table, by `h3zero_find_path_item`; a path that is `NULL` has no bytes. -/
def Env.item (env : Env) (ctx : StreamCtx) : Option PathCallback :=
  ((findPathItem (ctx.path.getD []) (env.table.map Prod.fst)).bind fun n => env.table[n]?).map Prod.snd

def prepareGet (env : Env) (ctx : StreamCtx) : Prepared :=
  match env.parsePath ctx.path with
  | none => ⟨ctx, [], createErrorFrame 1021 "404", 0, serverDefaultPage⟩
  | some (echoLength, filePath) =>
    ⟨{ ctx with echoLength := echoLength, filePath := filePath }, [],
      createResponseHeaderFrame 1021 (if echoLength = 0 then .textHtml else getContentTypeByPath filePath),
      if echoLength = 0 then serverDefaultPage.length else echoLength, serverDefaultPage⟩

/-- The path callback of a POST: that of its data, or of its path where there was none. -/
def postCallback (env : Env) (ctx : StreamCtx) : Option PathCallback :=
  if ctx.callback.isNone ∧ ctx.postReceived = 0 then env.item ctx else ctx.callback

def preparePost (env : Env) (ctx : StreamCtx) : Prepared :=
  let block := createResponseHeaderFrame 1021 (if ctx.echoLength = 0 then .textHtml else .textPlain)
  match postCallback env ctx with
  | some f => ⟨{ ctx with callback := some f }, [], block, f.postFin, f.response⟩
  | none =>
    let page := serverPostResponsePage ctx.postReceived
    ⟨ctx, [], block, page.length, page⟩

def prepareConnect (env : Env) (ctx : StreamCtx) : Prepared :=
  match ctx.callback with
  | some _ => ⟨ctx, [], some [], 0, serverDefaultPage⟩
  | none =>
    match env.item ctx with
    | none => ⟨ctx, [], createErrorFrame 1021 "404", 0, serverDefaultPage⟩
    | some f =>
      let ctx := { ctx with callback := some f }
      if f.connect ≠ 0 then ⟨ctx, f.queued, createErrorFrame 1021 "501", 0, serverDefaultPage⟩
      else ⟨{ ctx with isUpgraded := true }, f.queued, createResponseHeaderFrame 1021 .none, 0, serverDefaultPage⟩

def prepare (env : Env) (ctx : StreamCtx) : Prepared :=
  match ctx.method with
  | .get => prepareGet env ctx
  | .post => preparePost env ctx
  | .connect => prepareConnect env ctx
  | _ => ⟨ctx, [], createErrorFrame 1021 "501", 0, serverDefaultPage⟩

/-- The DATA frame behind `used` bytes of the buffer, and whether the stream can end there. -/
def dataFrame (env : Env) (p : Prepared) (used : Nat) (isFin : Bool) : Option (List UInt8 × Bool) :=
  if p.length = 0 then some ([], isFin)
  else
    let ld := if used + 2 < 1024 then env.varint (1024 - (used + 1)) p.length else []
    if ld = [] then none
    else
      let start := UInt8.ofNat h3zeroFrameData :: ld
      if p.ctx.echoLength ≠ 0 then some (start, isFin)
      -- a large response is not put here
      else if p.length > 512 then some (start, false)
      else if used + start.length + p.length > 1024 then none
      else some (start ++ p.content.take p.length, isFin)

/-- A stream that is reset, behind what a callback queued. -/
def Prepared.resetStream (p : Prepared) : Stream := ⟨p.ctx, p.queued, false, true, false, true, false⟩

/-- The frame around a header block, its length in the two bytes that were kept for it. -/
def headersOf (block : List UInt8) : List UInt8 :=
  UInt8.ofNat h3zeroFrameHeader :: (UInt8.ofNat (block.length >>> 8) ||| 0x40) :: UInt8.ofNat (block.length &&& 0xFF) ::
    block

/-- The end of the function. -/
def finish (env : Env) (p : Prepared) : Stream :=
  match p.block with
  | none => p.resetStream
  | some block =>
    match dataFrame env p (headersOf block).length (p.ctx.echoLength = 0 && !p.ctx.isUpgraded) with
    | none => p.resetStream
    | some (data, isFin) =>
      if env.accepts then
        ⟨p.ctx, p.queued ++ (headersOf block ++ data), isFin, false, p.ctx.echoLength ≠ 0 ∨ p.length > 512, true, false⟩
      else p.resetStream

/-- `h3zero_process_request_frame`. -/
def processRequest (env : Env) (ctx : StreamCtx) : Stream := finish env (prepare env ctx)

/-! ## Sends -/

/-- What a path callback provides when it is polled: at most `space` bytes, whether they are the last, whether there is
more, and what it returns. -/
structure Provided where
  bytes : List UInt8
  isFin : Bool
  isStillActive : Bool
  ret : Int

/-- `h3zero_prepare_to_send_buffer`, with `echo_length`, `echo_sent` and `F` of the stream. -/
def prepareToSendBuffer (space : Nat) (s : Stream) : Stream :=
  if s.ctx.echoSent < s.ctx.echoLength then
    let left := s.ctx.echoLength - s.ctx.echoSent
    let available := if left > space then space else left
    let isFin := !decide (left > space)
    match s.ctx.file with
    | some content =>
      if (content.take available).length ≠ available then { s with failed := true }
      else
        { s with
          ctx := { s.ctx with echoSent := s.ctx.echoSent + available, file := some (content.drop available) }
          written := s.written ++ content.take available
          fin := isFin
          active := !isFin }
    | none =>
      { s with
        ctx := { s.ctx with echoSent := s.ctx.echoSent + available }
        written := s.written ++ List.replicate available 0x5A
        fin := isFin
        active := !isFin }
  else s

/-- `h3zero_prepare_to_send` on a server. -/
def prepareToSend (env : Env) (space : Nat) (s : Stream) : Stream :=
  match s.ctx.file, s.ctx.filePath with
  | none, some path =>
    match env.fileOpen path with
    | none => { s with failed := true }
    | some content => prepareToSendBuffer space { s with ctx := { s.ctx with file := some content } }
  | _, _ => prepareToSendBuffer space s

/-- `h3zero_callback_prepare_to_send` on a server. -/
def callbackPrepareToSend (env : Env) (space : Nat) (provided : Provided) (s : Stream) : Stream :=
  if s.found = false then { s with reset := true }
  else
    match s.ctx.callback with
    | some _ =>
      { s with
        written := s.written ++ provided.bytes
        fin := provided.isFin
        active := provided.isStillActive
        failed := provided.ret ≠ 0 }
    | none =>
      let s := prepareToSend env space s
      if s.ctx.echoSent ≥ s.ctx.echoLength then { s with found := false } else s

/-- picoquic polls an active stream that has not ended. -/
def Stream.Polled (s : Stream) : Prop := s.active = true ∧ s.fin = false ∧ s.reset = false ∧ s.failed = false

instance (s : Stream) : Decidable s.Polled := inferInstanceAs (Decidable (_ ∧ _))

/-- A turn of picoquic with some space for the stream. -/
def turn (env : Env) (s : Stream) (call : Nat × Provided) : Stream :=
  if s.Polled then callbackPrepareToSend env call.1 call.2 s else s

/-- The stream of a request after some turns. -/
def run (env : Env) (ctx : StreamCtx) (calls : List (Nat × Provided)) : Stream :=
  calls.foldl (turn env) (processRequest env ctx)

/-! ## The answer -/

/-- What a request is to be answered with. Of the body, `length` bytes are announced. -/
structure Page where
  status : Int
  contentType : ContentType
  body : List UInt8
  length : Nat

/-- What there is to send of a file, or without one. -/
def Env.source (env : Env) (filePath : Option (List UInt8)) (length : Nat) : List UInt8 :=
  match filePath with
  | some path => (env.fileOpen path).getD []
  | none => List.replicate length 0x5A

def answer (env : Env) (ctx : StreamCtx) : Page :=
  match ctx.method with
  | .get =>
    match env.parsePath ctx.path with
    | none => ⟨404, .none, [], 0⟩
    | some (0, _) => ⟨200, .textHtml, serverDefaultPage, serverDefaultPage.length⟩
    | some (n + 1, filePath) => ⟨200, getContentTypeByPath filePath, env.source filePath (n + 1), n + 1⟩
  | .post =>
    match postCallback env ctx with
    | some f => ⟨200, .textHtml, f.response.take f.postFin, f.postFin⟩
    | none =>
      ⟨200, .textHtml, serverPostResponsePage ctx.postReceived, (serverPostResponsePage ctx.postReceived).length⟩
  | .connect => ⟨404, .none, [], 0⟩
  | _ => ⟨501, .none, [], 0⟩

/-- A new request that no application answers itself: a CONNECT is to an unknown path, and a callback of a POST has no
more than `post_response` holds. -/
structure Served (env : Env) (ctx : StreamCtx) : Prop where
  varint : env.varint.Shortest
  accepts : env.accepts = true
  echoLength : ctx.echoLength = 0
  echoSent : ctx.echoSent = 0
  file : ctx.file = none
  isUpgraded : ctx.isUpgraded = false
  get : ctx.method = .get → ctx.callback = none ∧ ∀ n filePath, env.parsePath ctx.path = some (n, filePath) → n < 2 ^ 62
  post : ctx.method = .post → ∀ f, postCallback env ctx = some f → f.postFin ≤ 512
  connect : ctx.method = .connect → ctx.callback = none ∧ env.item ctx = none

/-! ## Header blocks -/

/-- A block that says this status and type. -/
structure IsHeader (block : List UInt8) (status : Int) (t : ContentType) : Prop where
  pos : block ≠ []
  short : block.length ≤ 64
  parses : ∀ mem, parseQpackHeaderFrame mem block =
    (some [], { HeaderParts.zero with status := status, contentType := t })

theorem ok_header {t : ContentType} (ht : contentTypeIndex t ≠ none) :
    ∃ block, createResponseHeaderFrame 1021 t = some block ∧ IsHeader block 200 t := by
  have hfits : ∃ block, createResponseHeaderFrame 1021 t = some block ∧ block ≠ [] ∧ block.length ≤ 64 := by
    have hall : ∀ t : ContentType, contentTypeIndex t = none ∨
        ∃ block ∈ createResponseHeaderFrame 1021 t, block ≠ [] ∧ block.length ≤ 64 := by
      intro t
      cases t
      all_goals decide
    exact (hall t).resolve_left ht
  obtain ⟨block, hblock, hne, hlen⟩ := hfits
  refine ⟨block, hblock, hne, hlen, fun mem => ?_⟩
  exact ((fits_undone (by norm_num) (fun lines hl => response_raw hl) (fun lines hl => response_store mem hl)
    (@response_eq 1021 (.ok t (some h3zeroUserAgentString)) id)).2 block hblock).2

theorem served_type (path : Option (List UInt8)) : contentTypeIndex (getContentTypeByPath path) ≠ none := by
  unfold getContentTypeByPath
  split
  · decide
  · split_ifs
    all_goals decide

theorem error_header : ∃ block, createErrorFrame 1021 "404" = some block ∧ IsHeader block 404 .none :=
  ⟨_, rfl, nofun, by decide, fun _ => rfl⟩

theorem unsupported_header : ∃ block, createErrorFrame 1021 "501" = some block ∧ IsHeader block 501 .none :=
  ⟨_, rfl, nofun, by decide, fun _ => rfl⟩

/-! ## What is prepared -/

theorem defaultPage_length : serverDefaultPage.length = 386 := by
  unfold serverDefaultPage
  simp only [ascii_length, String.length_append]
  rfl

theorem decimal_length (i : Int) (h : i.natAbs < 10 ^ 10) : (toString i).length ≤ 11 := by
  show (Int.repr i).length ≤ 11
  cases i with
  | ofNat n =>
    have hlen := Nat.repr_length n 10 (by decide) h
    show (Nat.repr n).length ≤ 11
    omega
  | negSucc n =>
    have hlen := Nat.repr_length (n + 1) 10 (by decide) h
    show (("-" : String) ++ Nat.repr (n + 1)).length ≤ 11
    rw [String.length_append]
    show 1 + _ ≤ 11
    omega

/-- The page for a POST is no longer than its buffer. -/
theorem postPage_length (n : Nat) : (serverPostResponsePage n).length ≤ 512 := by
  have hlow := @Int.le_bmod (n : Int) (2 ^ 32) (by decide)
  have hhigh := @Int.bmod_lt (n : Int) (2 ^ 32) (by decide)
  have hdigits := decimal_length ((n : Int).bmod (2 ^ 32)) (by omega)
  have hhead : "<!DOCTYPE HTML PUBLIC \"-//IETF//DTD HTML 2.0//EN\">\r\n<HTML>\r\n<HEAD>\r\n<TITLE>".length +
      "Picoquic POST Response".length + "</TITLE>\r\n</HEAD><BODY>\r\n".length +
      "<h1>POST successful</h1>\r\n".length + "<p>Received ".length = 160 := rfl
  have htail : " bytes.\r\n".length + "</BODY></HTML>\r\n".length = 25 := rfl
  unfold serverPostResponsePage
  simp only [List.length_append, ascii_length, String.length_append]
  omega

/-- What is prepared for a request that h3zero answers. -/
structure Prepares (env : Env) (p : Prepared) (a : Page) : Prop where
  queued : p.queued = []
  header : ∃ block, p.block = some block ∧ IsHeader block a.status a.contentType
  length : p.length = a.length
  isUpgraded : p.ctx.isUpgraded = false
  content : p.ctx.echoLength = 0 ∧ a.length ≤ 512 ∧ p.content.take a.length = a.body ∧ a.body.length = a.length ∨
    0 < a.length ∧ a.length < 2 ^ 62 ∧ p.ctx.echoLength = a.length ∧ p.ctx.echoSent = 0 ∧ p.ctx.callback = none ∧
      p.ctx.file = none ∧ a.body = env.source p.ctx.filePath a.length

theorem prepare_served {env : Env} {ctx : StreamCtx} (h : Served env ctx) :
    Prepares env (prepare env ctx) (answer env ctx) := by
  have hnothing : ∀ {block : Option (List UInt8)} {status : Int},
      (∃ b, block = some b ∧ IsHeader b status .none) →
        Prepares env ⟨ctx, [], block, 0, serverDefaultPage⟩ ⟨status, .none, [], 0⟩ := fun hb =>
    ⟨rfl, hb, rfl, h.isUpgraded, .inl ⟨h.echoLength, Nat.zero_le _, rfl, rfl⟩⟩
  -- a page of at most 512 bytes goes out with the header
  have hpage : ∀ {p : StreamCtx} {page : List UInt8}, p.echoLength = 0 → p.isUpgraded = false → page.length ≤ 512 →
      Prepares env ⟨p, [], createResponseHeaderFrame 1021 .textHtml, page.length, page⟩
        ⟨200, .textHtml, page, page.length⟩ := fun hecho hup hlen =>
    ⟨rfl, ok_header (by decide), rfl, hup, .inl ⟨hecho, hlen, List.take_length, rfl⟩⟩
  unfold prepare answer
  cases hm : ctx.method with
  | get =>
    simp only
    obtain ⟨hcallback, hlt⟩ := h.get hm
    unfold prepareGet
    rcases hp : env.parsePath ctx.path with - | ⟨n | n, filePath⟩
    · exact hnothing error_header
    · have hlen : serverDefaultPage.length ≤ 512 := defaultPage_length ▸ (by decide : 386 ≤ 512)
      simp only [if_true]
      generalize serverDefaultPage = page at hlen ⊢
      exact hpage rfl h.isUpgraded hlen
    · exact ⟨rfl, ok_header (served_type filePath), rfl, h.isUpgraded, .inr ⟨Nat.succ_pos n, hlt _ _ hp, rfl,
        h.echoSent, hcallback, h.file, rfl⟩⟩
  | post =>
    simp only
    unfold preparePost
    simp only [if_pos h.echoLength]
    cases hcallback : postCallback env ctx with
    | none =>
      have hlen := postPage_length ctx.postReceived
      exact hpage h.echoLength h.isUpgraded hlen
    | some f =>
      have hle := h.post hm f hcallback
      refine ⟨rfl, ok_header (t := .textHtml) (by decide), rfl, h.isUpgraded, .inl ⟨h.echoLength, hle, rfl, ?_⟩⟩
      rw [List.length_take, f.response_length, Nat.min_eq_left hle]
  | connect =>
    simp only
    obtain ⟨hcallback, hitem⟩ := h.connect hm
    unfold prepareConnect
    rw [hcallback, hitem]
    exact hnothing error_header
  | none | notSupported | delete | head | options | put => exact hnothing unsupported_header

/-- Only a GET has the length and the file of its path. -/
theorem prepare_echoLength {env : Env} {ctx : StreamCtx} (h : Served env ctx) (hget : ctx.method ≠ .get) :
    (prepare env ctx).ctx.echoLength = 0 := by
  unfold prepare
  cases hm : ctx.method with
  | get => exact absurd hm hget
  | post =>
    simp only
    unfold preparePost
    cases postCallback env ctx with
    | none => exact h.echoLength
    | some f => exact h.echoLength
  | connect =>
    obtain ⟨hcallback, hitem⟩ := h.connect hm
    simp only
    unfold prepareConnect
    rw [hcallback, hitem]
    exact h.echoLength
  | none | notSupported | delete | head | options | put => exact h.echoLength

/-! ## What is written -/

/-- The DATA frame with the first `k` bytes of the body. -/
def Page.sent (a : Page) (k : Nat) : List UInt8 :=
  if a.length = 0 then [] else UInt8.ofNat h3zeroFrameData :: Varint.encode a.length ++ a.body.take k

/-- Where the rest of the body comes from. -/
def Source (env : Env) (ctx : StreamCtx) (a : Page) (k : Nat) : Prop :=
  match ctx.file with
  | some content => content = a.body.drop k
  | none =>
    match ctx.filePath with
    | some path => k = 0 ∧ a.body = (env.fileOpen path).getD []
    | none => a.body = List.replicate a.length 0x5A

/-- A stream on which `k` bytes of the body went out. -/
structure Serving (env : Env) (block : List UInt8) (a : Page) (s : Stream) (k : Nat) : Prop where
  le : k ≤ a.length
  has : k ≤ a.body.length
  written : s.written = headersOf block ++ a.sent k
  reset : s.reset = false
  fin : s.fin = decide (k = a.length)
  failed : s.failed = true → a.body.length < a.length
  more : k < a.length → s.active = true ∧ s.found = true ∧ s.ctx.callback = none ∧ s.ctx.echoLength = a.length ∧
    s.ctx.echoSent = k ∧ Source env s.ctx a k

section Serve

variable {env : Env} {block : List UInt8} {a : Page} {s : Stream} {k : Nat}

theorem Page.sent_take (hpos : 0 < a.length) (n : Nat) :
    a.sent (k + n) = a.sent k ++ (a.body.drop k).take n := by
  unfold Page.sent
  rw [if_neg (by omega), if_neg (by omega), List.take_add, List.append_assoc]

/-- The data frame's start, in the room that is left behind the header block. -/
theorem dataFrame_eq (henc : env.varint.Shortest) {p : Prepared} {used : Nat} (hused : used ≤ 67) (isFin : Bool)
    (hpos : p.length ≠ 0) (hlt : p.length < 2 ^ 62) :
    dataFrame env p used isFin =
      let start := UInt8.ofNat h3zeroFrameData :: Varint.encode p.length
      if p.ctx.echoLength ≠ 0 then some (start, isFin)
      else if p.length > 512 then some (start, false)
      else some (start ++ p.content.take p.length, isFin) := by
  have hsize := Varint.size_le p.length
  have hvarint : (if used + 2 < 1024 then env.varint (1024 - (used + 1)) p.length else []) =
      Varint.encode p.length := by
    rw [if_pos (by omega), henc _ _ hlt, VarintEncode.shortest, if_pos (by omega)]
  unfold dataFrame
  simp only [if_neg hpos, hvarint, if_neg (Varint.encode_ne_nil _)]
  by_cases hecho : p.ctx.echoLength ≠ 0
  · rw [if_pos hecho, if_pos hecho]
  · rw [if_neg hecho, if_neg hecho]
    by_cases hlarge : p.length > 512
    · rw [if_pos hlarge, if_pos hlarge]
    · rw [if_neg hlarge, if_neg hlarge, if_neg]
      rw [List.length_cons, Varint.encode_length]
      omega

/-- The first write: all of a short body, nothing of a long one. -/
theorem finish_serving (henc : env.varint.Shortest) (haccepts : env.accepts = true) {p : Prepared}
    (hp : Prepares env p a) :
    ∃ block, IsHeader block a.status a.contentType ∧
      ∃ k, Serving env block a (finish env p) k ∧ (p.ctx.echoLength = 0 → k = a.length) := by
  obtain ⟨block, hblock, hheader⟩ := hp.header
  refine ⟨block, hheader, ?_⟩
  have hused : (headersOf block).length ≤ 67 := by
    have hshort := hheader.short
    unfold headersOf
    simp only [List.length_cons]
    omega
  unfold finish
  simp only [hblock, hp.queued, hp.isUpgraded, haccepts, if_true, List.nil_append, Bool.not_false, Bool.and_true]
  -- a body that fits goes out here; of a longer one only the frame header
  rcases hp.content with ⟨hecho, hle, hbody, hlen⟩ | ⟨hpos, hlt, hecho, hsent, hcallback, hfile, hsource⟩
  · refine ⟨a.length, ?_⟩
    have hdata : dataFrame env p (headersOf block).length (decide (p.ctx.echoLength = 0)) =
        some (a.sent a.length, true) := by
      unfold Page.sent
      by_cases h0 : a.length = 0
      · rw [if_pos h0, dataFrame, if_pos (hp.length.trans h0), hecho]
        rfl
      · rw [if_neg h0, dataFrame_eq henc hused _ (hp.length ▸ h0) (by rw [hp.length]; omega)]
        simp only [hecho, hp.length, ne_eq, not_true_eq_false, if_false, Nat.not_lt.2 hle, hbody, decide_true]
        rw [List.take_of_length_le hlen.le]
    rw [hdata]
    refine ⟨?_, fun _ => rfl⟩
    exact ⟨le_refl _, hlen.ge, rfl, rfl, (decide_eq_true rfl).symm, nofun, fun h => absurd h (Nat.lt_irrefl _)⟩
  · refine ⟨0, ?_⟩
    have hne : p.ctx.echoLength ≠ 0 := by omega
    have hdata : dataFrame env p (headersOf block).length (decide (p.ctx.echoLength = 0)) = some (a.sent 0, false) := by
      unfold Page.sent
      rw [if_neg (by omega), dataFrame_eq henc hused _ (by rw [hp.length]; omega) (by rw [hp.length]; omega)]
      simp only [if_pos hne, hp.length, List.take_zero, List.append_nil, decide_eq_false hne]
    rw [hdata]
    refine ⟨?_, fun h0 => absurd h0 hne⟩
    refine ⟨Nat.zero_le _, Nat.zero_le _, rfl, rfl, (decide_eq_false (by omega)).symm, nofun, fun _ => ?_⟩
    refine ⟨decide_eq_true (.inl hne), rfl, hcallback, hecho, hsent, ?_⟩
    unfold Source
    rw [hfile]
    unfold Env.source at hsource
    cases hpath : p.ctx.filePath with
    | none => rw [hpath] at hsource; exact hsource
    | some path => rw [hpath] at hsource; exact ⟨rfl, hsource⟩

/-! ## Turns -/

/-- A file that cannot be read further ends the connection. -/
theorem Serving.fail (h : Serving env block a s k) (hshort : a.body.length < a.length) :
    Serving env block a { s with failed := true } k where
  le := h.le
  has := h.has
  written := h.written
  reset := h.reset
  fin := h.fin
  failed := fun _ => hshort
  more := h.more

/-- A send of bytes that are there. -/
theorem Serving.advance (h : Serving env block a s k) (hlt : k < a.length) {n : Nat} (hn : n ≤ a.length - k)
    (hhas : k + n ≤ a.body.length) (file : Option (List UInt8))
    (hsource : Source env { s.ctx with echoSent := s.ctx.echoSent + n, file := file } a (k + n)) {isFin : Bool}
    (hfin : isFin = decide (k + n = a.length)) :
    Serving env block a
      { s with
        ctx := { s.ctx with echoSent := s.ctx.echoSent + n, file := file }
        written := s.written ++ (a.body.drop k).take n
        fin := isFin
        active := !isFin } (k + n) where
  le := by omega
  has := hhas
  written := by rw [h.written, Page.sent_take (by omega), List.append_assoc]
  reset := h.reset
  fin := hfin
  failed := h.failed
  more := fun hmore => by
    obtain ⟨-, hfound, hcallback, hecho, hsent, -⟩ := h.more hlt
    refine ⟨?_, hfound, hcallback, hecho, congrArg (· + n) hsent, hsource⟩
    rw [hfin, decide_eq_false (by omega)]
    rfl

/-- One send from a file that is open, or of filler. -/
theorem buffer_serving (h : Serving env block a s k) (hlt : k < a.length)
    (hopen : s.ctx.file = none → s.ctx.filePath = none) (space : Nat) :
    (prepareToSendBuffer space s = { s with failed := true } ∧ a.body.length < a.length) ∨
      ((prepareToSendBuffer space s).failed = s.failed ∧
        (prepareToSendBuffer space s).ctx.echoLength = a.length ∧
        (prepareToSendBuffer space s).ctx.echoSent = k + min space (a.length - k) ∧
        Serving env block a (prepareToSendBuffer space s) (k + min space (a.length - k))) := by
  obtain ⟨hactive, hfound, hcallback, hecho, hsent, hsource⟩ := h.more hlt
  have hmin : (if a.length - k > space then space else a.length - k) = min space (a.length - k) := by
    split_ifs <;> omega
  have hfin : (!decide (a.length - k > space)) = decide (k + min space (a.length - k) = a.length) := by
    rw [← decide_not]
    exact decide_eq_decide.2 (by omega)
  have hle := h.has
  unfold prepareToSendBuffer
  simp only [hecho, hsent, if_pos hlt, hmin]
  generalize hn : min space (a.length - k) = n at hfin
  have hnle : n ≤ a.length - k := hn ▸ Nat.min_le_right _ _
  cases hfile : s.ctx.file with
  | some content =>
    have hcontent : content = a.body.drop k := by
      unfold Source at hsource
      rw [hfile] at hsource
      exact hsource
    subst hcontent
    simp only [List.length_take, List.length_drop]
    -- a file that ends too early fails the connection
    by_cases hshort : min n (a.body.length - k) ≠ n
    · exact .inl ⟨if_pos hshort, by omega⟩
    · have hhas : k + n ≤ a.body.length := by omega
      rw [if_neg hshort]
      refine .inr ⟨rfl, rfl, rfl, ?_⟩
      have hnext := h.advance hlt hnle hhas (some ((a.body.drop k).drop n)) (by
        unfold Source
        simp only [List.drop_drop]) hfin
      simp only [hsent, hecho] at hnext
      exact hnext
  | none =>
    have hbody : a.body = List.replicate a.length 0x5A := by
      unfold Source at hsource
      rw [hfile, hopen hfile] at hsource
      exact hsource
    have hhas : k + n ≤ a.body.length := by
      rw [hbody, List.length_replicate]
      omega
    have hfill : List.replicate n (0x5A : UInt8) = (a.body.drop k).take n := by
      rw [hbody, List.drop_replicate, List.take_replicate, Nat.min_eq_left hnle]
    refine .inr ⟨rfl, rfl, rfl, ?_⟩
    have hnext := h.advance hlt hnle hhas none (by
      unfold Source
      simp only [hopen hfile]
      exact hbody) hfin
    simp only [hsent, hecho, ← hfill] at hnext
    exact hnext

/-- The file is opened by the first send. -/
theorem open_serving (h : Serving env block a s k) (hlt : k < a.length) (space : Nat) :
    (prepareToSend env space s = { s with failed := true } ∧ a.body.length < a.length) ∨
      ∃ t, prepareToSend env space s = prepareToSendBuffer space t ∧ Serving env block a t k ∧
        t.failed = s.failed ∧ (t.ctx.file = none → t.ctx.filePath = none) := by
  obtain ⟨hactive, hfound, hcallback, hecho, hsent, hsource⟩ := h.more hlt
  unfold Source at hsource
  unfold prepareToSend
  cases hfile : s.ctx.file with
  | some content => exact .inr ⟨s, rfl, h, rfl, fun hno => by rw [hfile] at hno; cases hno⟩
  | none =>
    cases hpath : s.ctx.filePath with
    | none => exact .inr ⟨s, rfl, h, rfl, fun _ => hpath⟩
    | some path =>
      rw [hfile, hpath] at hsource
      obtain ⟨rfl, hbody⟩ := hsource
      cases hopen : env.fileOpen path with
      | none =>
        rw [hopen] at hbody
        refine .inl ⟨?_, ?_⟩
        · simp only [hopen]
        · rw [hbody]
          exact hlt
      | some content =>
        rw [hopen] at hbody
        refine .inr ⟨{ s with ctx := { s.ctx with file := some content } }, ?_, ?_, rfl, nofun⟩
        · simp only [hopen]
        · exact { h with more := fun _ => ⟨hactive, hfound, hcallback, hecho, hsent, hbody.symm⟩ }

/-- The context goes with the last byte. -/
theorem Serving.delete (h : Serving env block a s k) (hecho : s.ctx.echoLength = a.length)
    (hsent : s.ctx.echoSent = k) :
    Serving env block a (if s.ctx.echoSent ≥ s.ctx.echoLength then { s with found := false } else s) k := by
  by_cases hend : s.ctx.echoSent ≥ s.ctx.echoLength
  · rw [if_pos hend]
    exact { h with more := fun hlt => absurd hlt (by omega) }
  · rw [if_neg hend]
    exact h

/-- What a poll does: the connection ends because the file is missing or too short, or as much goes out as there is
room for. -/
theorem poll_serving (h : Serving env block a s k) (hlt : k < a.length) (space : Nat) (provided : Provided) :
    ((callbackPrepareToSend env space provided s).failed = true ∧
        Serving env block a (callbackPrepareToSend env space provided s) k) ∨
      ((callbackPrepareToSend env space provided s).failed = s.failed ∧
        Serving env block a (callbackPrepareToSend env space provided s) (k + min space (a.length - k))) := by
  obtain ⟨hactive, hfound, hcallback, hecho, hsent, -⟩ := h.more hlt
  unfold callbackPrepareToSend
  rw [hfound, if_neg Bool.false_ne_true.symm]
  simp only [hcallback]
  have hkept : ∀ t : Stream, (if t.ctx.echoSent ≥ t.ctx.echoLength then { t with found := false } else t).failed =
      t.failed := by
    intro t
    split_ifs <;> rfl
  rcases open_serving h hlt space with ⟨heq, hshort⟩ | ⟨t, heq, ht, hsame, hopen⟩
  · rw [heq]
    exact .inl ⟨hkept _, (h.fail hshort).delete hecho hsent⟩
  · obtain ⟨-, -, -, htecho, htsent, -⟩ := ht.more hlt
    rw [heq]
    rcases buffer_serving ht hlt hopen space with ⟨hfail, hshort⟩ | ⟨hfailed, hlength, hnext, hserving⟩
    · rw [hfail]
      exact .inl ⟨hkept _, (ht.fail hshort).delete htecho htsent⟩
    · exact .inr ⟨(hkept _).trans (hfailed.trans hsame), hserving.delete hlength hnext⟩

theorem turn_serving (h : Serving env block a s k) (call : Nat × Provided) :
    ∃ k', k ≤ k' ∧ Serving env block a (turn env s call) k' ∧
      (1 ≤ call.1 → k < k' ∨ (turn env s call).fin = true ∨ (turn env s call).failed = true) := by
  unfold turn
  by_cases hpolled : s.Polled
  · rw [if_pos hpolled]
    obtain ⟨-, hfin, -, -⟩ := hpolled
    have hlt : k < a.length := by
      have hle := h.le
      rw [h.fin, decide_eq_false_iff_not] at hfin
      omega
    rcases poll_serving h hlt call.1 call.2 with ⟨hfailed, hserving⟩ | ⟨-, hserving⟩
    · exact ⟨k, le_refl k, hserving, fun _ => .inr (.inr hfailed)⟩
    · exact ⟨_, Nat.le_add_right _ _, hserving, fun hspace => .inl (by omega)⟩
  · rw [if_neg hpolled]
    refine ⟨k, le_refl k, h, fun _ => .inr ?_⟩
    by_contra hno
    obtain ⟨hfin, hfailed⟩ := not_or.1 hno
    rw [Bool.not_eq_true] at hfin hfailed
    have hlt : k < a.length := by
      have hle := h.le
      have hne := h.fin
      rw [hfin] at hne
      have hne' := of_decide_eq_false hne.symm
      omega
    exact hpolled ⟨(h.more hlt).1, hfin, h.reset, hfailed⟩

theorem turns_ended (h : ¬ s.Polled) : ∀ calls : List (Nat × Provided), calls.foldl (turn env) s = s
  | [] => rfl
  | call :: calls => by
    have hturn : turn env s call = s := if_neg h
    rw [List.foldl_cons, hturn]
    exact turns_ended h calls

/-- In every run of turns; and each with room for a byte brings the end nearer. -/
theorem turns_serving : ∀ (calls : List (Nat × Provided)) {s : Stream} {k : Nat}, Serving env block a s k →
    ∃ k', Serving env block a (calls.foldl (turn env) s) k' ∧
      ((∀ call ∈ calls, 1 ≤ call.1) → k + calls.length ≤ k' ∨ (calls.foldl (turn env) s).fin = true ∨
        (calls.foldl (turn env) s).failed = true)
  | [], s, k, h => ⟨k, h, fun _ => .inl (le_refl k)⟩
  | call :: calls, s, k, h => by
    obtain ⟨k₁, -, h₁, hstep⟩ := turn_serving h call
    obtain ⟨k₂, h₂, hrest⟩ := turns_serving calls h₁
    refine ⟨k₂, h₂, fun hall => ?_⟩
    rw [List.foldl_cons, List.length_cons]
    obtain ⟨hspace, htail⟩ := List.forall_mem_cons.1 hall
    have hends : (turn env s call).fin = true ∨ (turn env s call).failed = true →
        ((calls.foldl (turn env) (turn env s call)).fin = true ∨
          (calls.foldl (turn env) (turn env s call)).failed = true) := by
      intro hended
      have hstill : ¬ (turn env s call).Polled := by
        rintro ⟨-, hfin, -, hfailed⟩
        rw [hfin, hfailed] at hended
        simp at hended
      rw [turns_ended hstill]
      exact hended
    rcases hstep hspace with hlt | hended
    · rcases hrest htail with hmore | hended
      · exact .inl (by omega)
      · exact .inr hended
    · exact .inr (hends hended)

/-- At its end a stream has FIN where the body has as many bytes as were announced, and else its connection failed. -/
theorem Serving.ends (h : Serving env block a s k) (hended : a.length ≤ k ∨ s.fin = true ∨ s.failed = true) :
    (a.length ≤ a.body.length → s.fin = true ∧ s.failed = false) ∧
      (a.body.length < a.length → s.fin = false ∧ s.failed = true) := by
  have hle := h.le
  have hhas := h.has
  have hfin : s.fin = true ↔ k = a.length := by rw [h.fin, decide_eq_true_iff]
  constructor
  · intro hall
    have hfailed : ¬ s.failed = true := fun hf => absurd (h.failed hf) (Nat.not_lt.2 hall)
    refine ⟨?_, Bool.eq_false_iff.2 hfailed⟩
    rcases hended with hmore | hf | hf
    · exact hfin.2 (by omega)
    · exact hf
    · exact absurd hf hfailed
  · intro hless
    have hopen : ¬ s.fin = true := fun hf => by
      have hk := hfin.1 hf
      omega
    refine ⟨Bool.eq_false_iff.2 hopen, ?_⟩
    rcases hended with hmore | hf | hf
    · exact absurd (hfin.2 (by omega)) hopen
    · exact absurd hf hopen
    · exact hf

end Serve

/-! ## The client -/

/-- `h3zero_process_h3_client_data` at the end of a stream without a callback: the data of the stream, or the error the
connection is closed with. -/
def clientEnd (rx : Rx) : Except Nat (List UInt8) :=
  if rx.state.currentFrameRead < rx.state.currentFrameLength then .error h3zeroFrameError else .ok rx.data

section Receive

variable {mem : Mem} {block : List UInt8} {a : Page}

theorem headersOf_header {block : List UInt8} (h : block.length ≤ 64) :
    headersOf block = (headersOf block).take 3 ++ block ∧
      frameHeaderOf ((headersOf block).take 3) = some (h3zeroFrameHeader, block.length, 3) := by
  have hall : ∀ n ≤ 64, frameHeaderOf [UInt8.ofNat h3zeroFrameHeader, UInt8.ofNat (n >>> 8) ||| 0x40,
      UInt8.ofNat (n &&& 0xFF)] = some (h3zeroFrameHeader, n, 3) := by decide
  exact ⟨rfl, hall _ h⟩

/-- The stream behind a DATA frame's start. -/
def inData (parts : HeaderParts) (n : Nat) (l : List UInt8) (length : Nat) : DataStreamState :=
  (Rx.headed parts n).state.started l h3zeroFrameData length

/-- Some of the content of the one DATA frame behind the header. -/
theorem receive_data (mem : Mem) (parts : HeaderParts) (n : Nat) {l content : List UInt8} {length : Nat}
    (hl : frameHeaderOf l = some (h3zeroFrameData, length, l.length)) (hle : content.length ≤ length) :
    ∃ rx, receive mem (.headed parts n) (l ++ content) = .ok rx ∧ rx.state.header = parts ∧ rx.data = content ∧
      rx.state.currentFrameRead = content.length ∧ rx.state.currentFrameLength = length := by
  have hlne : l ≠ [] := by
    rintro rfl
    cases hl
  have hwaits : (inData parts n l length).Waits := waits_of_parsed rfl
  have hstart : parseDataStream mem (Rx.headed parts n).state l = ⟨inData parts n l length, some [], 0, 0⟩ := by
    rw [parse_header (Rx.headed parts n).waits rfl hlne]
    have hread : (Rx.headed parts n).state.frameHeader ++ l = l := rfl
    rw [hread, DataStreamState.afterHeader_some hl, List.take_length, List.drop_length]
    rfl
  -- the frame header first, the content behind it
  have hfirst : receive mem (.headed parts n) l = .ok ⟨inData parts n l length, [], hwaits⟩ := by
    rw [receive_step hlne, call_ok hstart hwaits]
    exact receive_nil mem _
  rw [receive_append, hfirst]
  show ∃ rx, receive mem ⟨inData parts n l length, [], hwaits⟩ content = .ok rx ∧ _
  by_cases hnil : content = []
  · subst hnil
    exact ⟨_, receive_nil mem _, rfl, rfl, rfl, rfl⟩
  · have havail : (inData parts n l length).available content.length = content.length := by
      rw [available_eq]
      exact Nat.min_eq_left hle
    have hcontent : ∃ s, parseDataStream mem (inData parts n l length) content = ⟨s, some content, content.length, 0⟩ ∧
        s.header = parts ∧ s.currentFrameRead = content.length ∧ s.currentFrameLength = length := by
      have hread : (inData parts n l length).currentFrameRead + content.length = content.length := Nat.zero_add _
      have htype : ¬ (inData parts n l length).currentFrameType = h3zeroFrameHeader :=
        (by decide : ¬ h3zeroFrameData = h3zeroFrameHeader)
      have hdata : (inData parts n l length).currentFrameType = h3zeroFrameData := rfl
      rw [parse_content rfl hnil]
      unfold parseContent
      simp only [havail, hread]
      rw [if_neg (by exact Bool.false_ne_true), if_neg htype, if_pos hdata]
      split_ifs
      · exact ⟨_, rfl, rfl, rfl, rfl⟩
      · exact ⟨_, rfl, rfl, rfl, rfl⟩
    obtain ⟨s, hparse, hheader, hread, hlength⟩ := hcontent
    have hs : s.Waits := by
      have hw := parseDataStream_waits mem hwaits content
      rw [hparse] at hw
      exact hw
    refine ⟨⟨s, content, hs⟩, ?_, hheader, rfl, hread, hlength⟩
    rw [receive_step hnil, call_ok hparse hs]
    simp only [List.take_length, List.drop_length, List.nil_append]
    exact receive_nil mem _

/-- What the client has of an answer of which `k` bytes of the body went out. -/
theorem receive_answer (hm : ∀ n, mem.malloc n = true) (hheader : IsHeader block a.status a.contentType)
    (hlt : a.length < 2 ^ 62) {k : Nat} (hle : k ≤ a.length) (hhas : k ≤ a.body.length) :
    ∃ rx, receive mem .fresh (headersOf block ++ a.sent k) = .ok rx ∧
      rx.state.header = { HeaderParts.zero with status := a.status, contentType := a.contentType } ∧
      rx.data = a.body.take k ∧
      clientEnd rx = if k = a.length then .ok (a.body.take a.length) else .error h3zeroFrameError := by
  obtain ⟨hsplit, hframe⟩ := headersOf_header hheader.short
  have hshort : block.length ≤ 0x10000 := hheader.short.trans (by decide)
  rw [hsplit, List.append_assoc, receive_headers mem hframe hheader.pos hshort, if_pos (hm _), hheader.parses mem,
    if_pos rfl]
  unfold Page.sent
  by_cases h0 : a.length = 0
  · rw [if_pos h0]
    have hk : k = 0 := by omega
    subst hk
    refine ⟨_, receive_nil mem _, rfl, rfl, ?_⟩
    unfold clientEnd
    rw [if_neg (by exact Nat.lt_irrefl _), if_pos h0.symm, h0]
    rfl
  · rw [if_neg h0]
    have htype : UInt8.ofNat h3zeroFrameData :: Varint.encode a.length =
        Varint.encode h3zeroFrameData ++ Varint.encode a.length := rfl
    have hlen : (a.body.take k).length = k := by rw [List.length_take, Nat.min_eq_left hhas]
    rw [htype]
    obtain ⟨rx, hreceive, hparts, hdata, hread, hlength⟩ := receive_data mem
      { HeaderParts.zero with status := a.status, contentType := a.contentType } block.length
      (frameHeaderOf_encode (by decide : h3zeroFrameData < 2 ^ 62) hlt) (hlen.le.trans hle)
    refine ⟨rx, hreceive, hparts, hdata, ?_⟩
    unfold clientEnd
    rw [hread, hlength, hlen, hdata]
    by_cases hk : k = a.length
    · rw [if_neg (by omega), if_pos hk, hk]
    · rw [if_pos (by omega), if_neg hk]

end Receive

/-! ## Runs -/

theorem run_serving {env : Env} {ctx : StreamCtx} (h : Served env ctx) (calls : List (Nat × Provided)) :
    ∃ block k, IsHeader block (answer env ctx).status (answer env ctx).contentType ∧ (answer env ctx).length < 2 ^ 62 ∧
      Serving env block (answer env ctx) (run env ctx calls) k ∧
      ((∀ call ∈ calls, 1 ≤ call.1) → calls.length ≤ k ∨ (run env ctx calls).fin = true ∨
        (run env ctx calls).failed = true) := by
  have hprepares := prepare_served h
  obtain ⟨block, hheader, k₀, hfirst, -⟩ := finish_serving h.varint h.accepts hprepares
  obtain ⟨k, hserving, hprogress⟩ := turns_serving calls hfirst
  refine ⟨block, k, hheader, ?_, hserving, fun hall => ?_⟩
  · rcases hprepares.content with ⟨-, hle, -⟩ | ⟨-, hlt, -⟩
    · omega
    · exact hlt
  · rcases hprogress hall with hmore | hended
    · exact .inl (by omega)
    · exact .inr hended

/-- The context of a GET. -/
def StreamCtx.ofGet (path : Option (List UInt8)) : StreamCtx := ⟨.get, path, none, 0, 0, 0, none, none, false⟩

theorem get_served {env : Env} (henc : env.varint.Shortest) (haccepts : env.accepts = true)
    {path : Option (List UInt8)} (hlt : ∀ n filePath, env.parsePath path = some (n, filePath) → n < 2 ^ 62) :
    Served env (.ofGet path) where
  varint := henc
  accepts := haccepts
  echoLength := rfl
  echoSent := rfl
  file := rfl
  isUpgraded := rfl
  get := fun _ => ⟨rfl, hlt⟩
  post := nofun
  connect := nofun

/-- The stream of a GET is never reset, and in every run of turns a client with its bytes in any chunks has the header
of the answer and what was sent of its body; where the stream ends behind them, its check passes just if the server
ended it, with all that was announced. As many turns with room as there are bytes announced end it: with all of them if
the file has them, else with the connection. -/
theorem gets_answered {env : Env} (henc : env.varint.Shortest) (haccepts : env.accepts = true)
    {path : Option (List UInt8)} (hlt : ∀ n filePath, env.parsePath path = some (n, filePath) → n < 2 ^ 62) {mem : Mem}
    (hm : ∀ n, mem.malloc n = true) (calls : List (Nat × Provided)) {chunks : List (List UInt8)}
    (hchunks : chunks.flatten = (run env (.ofGet path) calls).written) :
    (run env (.ofGet path) calls).reset = false ∧
      (∃ rx, receiveAll mem .fresh chunks = .ok rx ∧
        rx.state.header = { HeaderParts.zero with
          status := (answer env (.ofGet path)).status
          contentType := (answer env (.ofGet path)).contentType } ∧
        rx.data <+: (answer env (.ofGet path)).body ∧
        clientEnd rx = if (run env (.ofGet path) calls).fin = true then
            .ok ((answer env (.ofGet path)).body.take (answer env (.ofGet path)).length)
          else .error h3zeroFrameError) ∧
      ((∀ call ∈ calls, 1 ≤ call.1) → (answer env (.ofGet path)).length ≤ calls.length →
        ((answer env (.ofGet path)).length ≤ (answer env (.ofGet path)).body.length →
          (run env (.ofGet path) calls).fin = true ∧ (run env (.ofGet path) calls).failed = false) ∧
        ((answer env (.ofGet path)).body.length < (answer env (.ofGet path)).length →
          (run env (.ofGet path) calls).fin = false ∧ (run env (.ofGet path) calls).failed = true)) := by
  obtain ⟨block, k, hheader, hshort, hserving, hprogress⟩ := run_serving (get_served henc haccepts hlt) calls
  generalize answer env (.ofGet path) = a at hheader hshort hserving ⊢
  generalize run env (.ofGet path) calls = s at hserving hprogress hchunks ⊢
  refine ⟨hserving.reset, ?_, fun hspace henough => hserving.ends ?_⟩
  · obtain ⟨rx, hreceive, hparts, hdata, hend⟩ := receive_answer hm hheader hshort hserving.le hserving.has
    refine ⟨rx, ?_, hparts, ?_, ?_⟩
    · rw [receiveAll_eq, hchunks, hserving.written]
      exact hreceive
    · rw [hdata]
      exact List.take_prefix _ _
    · simp only [hend, hserving.fin, decide_eq_true_iff]
  · rcases hprogress hspace with hmore | hended
    · exact .inl (henough.trans hmore)
    · exact .inr hended

/-- A server with one file of eight bytes. -/
def readmeServer : Env where
  varint := .shortest
  parsePath := fun path => if path = some (ascii "/read.me") then some (8, some (ascii "www/read.css")) else none
  fileOpen := fun path => if path = ascii "www/read.css" then some (ascii "contents") else none
  table := []
  accepts := true

/-- Eight turns with room for three bytes. -/
def threeBytes : List (Nat × Provided) := List.replicate 8 (3, ⟨[], false, false, 0⟩)

/-- A POST of four bytes to a path without a callback. -/
def plainPost : StreamCtx := ⟨.post, some (ascii "/other"), none, 4, 0, 0, none, none, false⟩

theorem plainPost_served : Served readmeServer plainPost where
  varint := VarintEncode.shortest_shortest
  accepts := rfl
  echoLength := rfl
  echoSent := rfl
  file := rfl
  isUpgraded := rfl
  get := nofun
  post := fun _ f hf => by cases hf
  connect := nofun

def readmeRequest : StreamCtx := .ofGet (some (ascii "/read.me"))

theorem readme_answered :
    (run readmeServer readmeRequest threeBytes).reset = false ∧
      (∃ rx, receiveAll .ample .fresh ((run readmeServer readmeRequest threeBytes).written.map fun b => [b]) = .ok rx ∧
        rx.state.header = { HeaderParts.zero with
          status := (answer readmeServer readmeRequest).status
          contentType := (answer readmeServer readmeRequest).contentType } ∧
        rx.data <+: (answer readmeServer readmeRequest).body ∧
        clientEnd rx = if (run readmeServer readmeRequest threeBytes).fin = true then
            .ok ((answer readmeServer readmeRequest).body.take (answer readmeServer readmeRequest).length)
          else .error h3zeroFrameError) ∧
      ((∀ call ∈ threeBytes, 1 ≤ call.1) → (answer readmeServer readmeRequest).length ≤ threeBytes.length →
        ((answer readmeServer readmeRequest).length ≤ (answer readmeServer readmeRequest).body.length →
          (run readmeServer readmeRequest threeBytes).fin = true ∧
            (run readmeServer readmeRequest threeBytes).failed = false) ∧
        ((answer readmeServer readmeRequest).body.length < (answer readmeServer readmeRequest).length →
          (run readmeServer readmeRequest threeBytes).fin = false ∧
            (run readmeServer readmeRequest threeBytes).failed = true)) :=
  gets_answered VarintEncode.shortest_shortest rfl (fun n filePath hpath => by cases hpath; decide) (fun _ => rfl)
    threeBytes (by rw [← List.flatMap_def, List.flatMap_singleton', readmeRequest])

/-- All eight bytes of the file, in three sends. -/
example : (run readmeServer readmeRequest (threeBytes.take 3)).fin = true ∧
    (answer readmeServer readmeRequest).body = ascii "contents" ∧
    (answer readmeServer readmeRequest).contentType = .textCss := by decide

end Mquic.H3.Answer
