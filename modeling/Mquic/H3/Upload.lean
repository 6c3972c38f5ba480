/-
Requests with their bodies on a server (h3zero_common.c): `h3zero_process_h3_server_data` with the path callback of an
application, up to `h3zero_process_request_frame`. In whatever chunks a request comes, the application is told of it
once, is given the bytes of its body in order, and is told once that it ended, and the request is answered once.
-/
import Mquic.H3.Answer
import Mquic.H3.Callback

namespace Mquic.H3.Upload

open Answer (PathCallback StreamCtx Stream processRequest postCallback)

/-! ## The server's side of a stream -/

/-- A call of a path callback. -/
inductive AppEvent where
  | connect (path : List UInt8)
  | post (path : List UInt8)
  | postData (bytes : List UInt8)
  | postFin (bytes : List UInt8)
deriving DecidableEq

/-- What the functions call: the answering side, the stream prefixes, what a path callback returns on data after its
calls so far, and what picoquic answers to `picoquic_close` and `picoquic_reset_stream`. -/
structure Host where
  env : Answer.Env
  mem : Mem
  declared : Nat → Option PathCallback
  returns : List AppEvent → Int
  closes : Int
  resets : Int

/-- A stream with what the application was told of it and how it was answered. The method and the path are those of
the parser's state. -/
structure ServerStream where
  state : DataStreamState
  ctx : StreamCtx
  log : List AppEvent
  replies : List Stream
  waits : state.Waits

/-- A new stream. -/
def ServerStream.fresh : ServerStream :=
  ⟨.fresh, ⟨.none, none, none, 0, 0, 0, none, none, false⟩, [], [], DataStreamState.fresh_waits⟩

/-- The context with the method and path that were parsed. -/
def ServerStream.request (s : ServerStream) : StreamCtx :=
  { s.ctx with method := s.state.header.method, path := s.state.header.path }

/-- The path callback of the request's path. -/
def ServerStream.item (host : Host) (s : ServerStream) : Option PathCallback := host.env.item s.request

/-! ## Data -/

/-- Where the loop of `h3zero_process_h3_server_data` stands; `available` is `available_data`. -/
structure Loop where
  stream : ServerStream
  available : Nat
  ret : Int
  processComplete : Bool

/-- The callback for data: that of the session's prefix, or that of the path at the first data. -/
def bindCallback (host : Host) (l : Loop) : Loop :=
  let s := l.stream
  if s.state.isWebTransport then
    match s.ctx.callback with
    | some _ => l
    | none =>
      match host.declared s.state.controlStreamId with
      | none => { l with ret := host.resets }
      | some f => { l with stream := { s with ctx := { s.ctx with callback := some f } } }
  else if s.state.headerFound ∧ s.ctx.postReceived = 0 then
    match s.item host with
    | none => l
    | some f =>
      { l with
        stream := { s with
          ctx := { s.ctx with callback := some f }
          log := s.log ++ [.post (s.state.header.path.getD [])] } }
  else l

/-- Data of the stream, in a chunk that is `fin` or not. -/
def takeData (host : Host) (fin : Bool) (l : Loop) (data : List UInt8) : Loop :=
  let l := bindCallback host l
  let s := l.stream
  match s.ctx.callback with
  | some _ =>
    let isPost := s.state.header.method = .post
    let log := s.log ++ [if fin = true ∧ ¬ isPost then .postFin data else .postData data]
    if isPost then
      { l with
        stream := { s with log := log, ctx := { s.ctx with postReceived := s.ctx.postReceived + data.length } }
        ret := host.returns log }
    else { l with stream := { s with log := log }, ret := host.returns log, processComplete := true }
  | none => { l with stream := { s with ctx := { s.ctx with postReceived := s.ctx.postReceived + data.length } } }

/-- The parser's state of a stream, without its data. -/
def ServerStream.rx (s : ServerStream) : Rx := ⟨s.state, [], s.waits⟩

/-- The stream behind a call of the parser. -/
def ServerStream.parsed (host : Host) (s : ServerStream) (bytes : List UInt8) : ServerStream :=
  { s with
    state := (parseDataStream host.mem s.state bytes).state
    waits := parseDataStream_waits host.mem s.waits bytes }

/-- A round of the loop, with the bytes left, `none` after the `break`. -/
def serverRound (host : Host) (fin : Bool) (l : Loop) (bytes : List UInt8) : Loop × Option (List UInt8) :=
  let s := l.stream.parsed host bytes
  match call host.mem l.stream.rx bytes with
  | .error _ => ({ l with stream := s, available := 0, ret := host.closes }, none)
  | .ok (rx, rest) =>
    let l := { l with stream := s, available := rx.data.length }
    (if rx.data = [] then l else takeData host fin l rx.data, some rest)

/-- `while (bytes < bytes_max)`, `n` rounds of it. -/
def serverLoop (host : Host) (fin : Bool) : Nat → Loop → List UInt8 → Loop
  | 0, l, _ => l
  | n + 1, l, bytes =>
    if bytes = [] then l
    else
      match serverRound host fin l bytes with
      | (l, none) => l
      | (l, some rest) => serverLoop host fin n l rest

/-! ## Requests -/

/-- What the path callback is called with by `h3zero_process_request_frame`. -/
def requestEvents (env : Answer.Env) (ctx : StreamCtx) : List AppEvent :=
  let path := ctx.path.getD []
  match ctx.method with
  | .post =>
    (if ctx.callback.isNone ∧ ctx.postReceived = 0 ∧ (env.item ctx).isSome then [.post path] else []) ++
      if (postCallback env ctx).isSome then [.postFin []] else []
  | .connect => if ctx.callback.isNone ∧ (env.item ctx).isSome then [.connect path] else []
  | _ => []

def requestFrame (host : Host) (s : ServerStream) : ServerStream :=
  let reply := processRequest host.env s.request
  { s with ctx := reply.ctx, log := s.log ++ requestEvents host.env s.request, replies := s.replies ++ [reply] }

/-- `h3zero_process_h3_server_data`. Two rounds to a byte are enough. -/
def processH3ServerData (host : Host) (s : ServerStream) (d : StreamData) : ServerStream :=
  let l := serverLoop host d.fin (2 * d.bytes.length + 1) ⟨s, 0, 0, false⟩ d.bytes
  let s := l.stream
  if l.ret = 0 ∧ l.processComplete = false then
    if s.state.isWebTransport then
      if d.fin ∧ l.available = 0 ∧ s.ctx.callback.isSome then { s with log := s.log ++ [.postFin []] } else s
    else if d.fin ∨ s.state.header.method = .connect then
      -- without a header the stream is reset
      if s.state.headerFound then requestFrame host s else s
    else s
  else s

/-- `h3zero_callback_data` on a request. -/
def requestData (host : Host) (s : ServerStream) (d : StreamData) : ServerStream :=
  if s.ctx.isUpgraded then
    if s.ctx.callback.isSome then
      { s with log := s.log ++ [if d.fin then .postFin d.bytes else .postData d.bytes] }
    else s
  else processH3ServerData host s d

/-- A stream in chunks, the last of which ends it. -/
def deliver (host : Host) (chunks : List (List UInt8)) (last : List UInt8) : ServerStream :=
  requestData host (chunks.foldl (fun s c => requestData host s ⟨c, false⟩) .fresh) ⟨last, true⟩

/-! ## The header -/

/-- Data and a session are behind a header, and before it there is nothing in its parts. -/
structure Headed (s : DataStreamState) : Prop where
  session : s.isWebTransport = true → s.headerFound = true
  data : s.frameHeaderParsed = true → s.currentFrameType = h3zeroFrameData → s.headerFound = true
  unfound : s.headerFound = false → s.header = .zero

theorem Headed.fresh : Headed .fresh := ⟨nofun, nofun, fun _ => rfl⟩

/-- A header that was found stays. -/
def Keeps (s t : DataStreamState) : Prop :=
  s.headerFound = true → t.headerFound = true ∧ t.header = s.header ∧ t.isWebTransport = s.isWebTransport

theorem Keeps.refl (s : DataStreamState) : Keeps s s := fun h => ⟨h, rfl, rfl⟩

theorem Keeps.trans {s t u : DataStreamState} (hst : Keeps s t) (htu : Keeps t u) : Keeps s u := by
  intro hs
  obtain ⟨ht, hheader, hsession⟩ := hst hs
  obtain ⟨hu, hheader', hsession'⟩ := htu ht
  exact ⟨hu, hheader'.trans hheader, hsession'.trans hsession⟩

section Header

variable {mem : Mem} {s : DataStreamState} {bytes rest : List UInt8}

theorem startFrame_headed (hsession : s.isWebTransport = true → s.headerFound = true)
    (hunfound : s.headerFound = false → s.header = .zero) (h : (startFrame s bytes).rest = some rest) :
    Headed (startFrame s bytes).state ∧ Keeps s (startFrame s bytes).state ∧
      (startFrame s bytes).availableData = 0 := by
  revert h
  unfold startFrame
  by_cases hdata : s.currentFrameType = h3zeroFrameData
  · rw [if_pos hdata]
    split_ifs with hcheck
    · intro h
      cases h
    · intro _
      have hfound : s.headerFound = true := by
        cases hf : s.headerFound with
        | true => rfl
        | false => simp [hf] at hcheck
      exact ⟨⟨hsession, fun _ _ => hfound, hunfound⟩, Keeps.refl s, rfl⟩
  · rw [if_neg hdata]
    have hother : Headed s := ⟨hsession, fun _ ht => absurd ht hdata, hunfound⟩
    split_ifs with hheaders hcheck hlength hwt hfound
    all_goals intro _
    all_goals first
      | exact ⟨hother, Keeps.refl s, rfl⟩
      | exact ⟨⟨fun _ => rfl, fun _ _ => rfl, nofun⟩, fun hf => absurd hf hfound, rfl⟩

theorem waiting_headed (hs : Headed s) (hp : s.frameHeaderParsed = false) (x : List UInt8) :
    Headed (s.waiting x) ∧ Keeps s (s.waiting x) := by
  constructor
  · exact ⟨hs.session, fun hparsed => absurd (hp.symm.trans hparsed) Bool.false_ne_true, hs.unfound⟩
  · exact fun hf => ⟨hf, rfl, rfl⟩

theorem headerBytes_headed (hs : Headed s) (htype : s.currentFrameType = h3zeroFrameHeader) (n : Nat)
    (h : (parseHeaderBytes mem s n bytes).rest = some rest) :
    Headed (parseHeaderBytes mem s n bytes).state ∧ Keeps s (parseHeaderBytes mem s n bytes).state ∧
      (parseHeaderBytes mem s n bytes).availableData = 0 := by
  have hdata : ¬ s.currentFrameType = h3zeroFrameData := by
    rw [htype]
    decide
  revert h
  unfold parseHeaderBytes
  cases s.buffer mem with
  | none => exact nofun
  | some frame =>
    unfold endHeaderBytes
    by_cases hend : s.currentFrameRead + n ≥ s.currentFrameLength
    · by_cases hparsed : (parseQpackHeaderFrame mem (frame ++ bytes.take n)).1 = some []
      · simp only [if_pos hend, if_pos hparsed]
        exact fun _ => ⟨⟨fun _ => rfl, fun _ _ => rfl, nofun⟩, fun hf => ⟨rfl, if_pos hf, rfl⟩, trivial⟩
      · simp only [if_pos hend, if_neg hparsed]
        intro h
        cases h
    · simp only [if_neg hend]
      exact fun _ => ⟨⟨hs.session, fun _ ht => absurd ht hdata, hs.unfound⟩, fun hf => ⟨hf, rfl, rfl⟩, trivial⟩

theorem content_headed (hs : Headed s) (hp : s.frameHeaderParsed = true)
    (h : (parseContent mem s bytes).rest = some rest) :
    Headed (parseContent mem s bytes).state ∧ Keeps s (parseContent mem s bytes).state ∧
      (0 < (parseContent mem s bytes).availableData → (parseContent mem s bytes).state.headerFound = true) := by
  revert h
  unfold parseContent
  by_cases hwt : s.isWebTransport = true
  · rw [if_pos hwt]
    exact fun _ => ⟨hs, Keeps.refl s, fun _ => hs.session hwt⟩
  · rw [if_neg hwt]
    simp only
    split_ifs with hheader hdata hend hend
    · intro h
      obtain ⟨hheaded, hkeeps, hnone⟩ := headerBytes_headed hs hheader _ h
      refine ⟨hheaded, hkeeps, fun hpos => ?_⟩
      rw [hnone] at hpos
      exact absurd hpos (Nat.lt_irrefl 0)
    · have hfound := hs.data hp hdata
      exact fun _ => ⟨⟨hs.session, fun _ _ => hfound, hs.unfound⟩, fun hf => ⟨hf, rfl, rfl⟩, fun _ => hfound⟩
    · have hfound := hs.data hp hdata
      exact fun _ => ⟨⟨hs.session, fun _ _ => hfound, hs.unfound⟩, fun hf => ⟨hf, rfl, rfl⟩, fun _ => hfound⟩
    · exact fun _ => ⟨⟨hs.session, fun hparsed => absurd hparsed Bool.false_ne_true, hs.unfound⟩,
        fun hf => ⟨hf, rfl, rfl⟩, fun h0 => absurd h0 (Nat.lt_irrefl 0)⟩
    · exact fun _ => ⟨⟨hs.session, hs.data, hs.unfound⟩, fun hf => ⟨hf, rfl, rfl⟩,
        fun h0 => absurd h0 (Nat.lt_irrefl 0)⟩

theorem parse_headed (hw : s.Waits) (hs : Headed s) (h : (parseDataStream mem s bytes).rest = some rest) :
    Headed (parseDataStream mem s bytes).state ∧ Keeps s (parseDataStream mem s bytes).state ∧
      (0 < (parseDataStream mem s bytes).availableData → (parseDataStream mem s bytes).state.headerFound = true) := by
  by_cases hb : bytes = []
  · rw [parseDataStream, if_pos hb] at h
    cases h
  cases hp : s.frameHeaderParsed with
  | false =>
    rw [parse_header hw hp hb] at h ⊢
    cases hx : frameHeaderOf (s.frameHeader ++ bytes) with
    | none =>
      rw [DataStreamState.afterHeader_none hx]
      obtain ⟨hheaded, hkeeps⟩ := waiting_headed hs hp (s.frameHeader ++ bytes)
      exact ⟨hheaded, hkeeps, fun h0 => absurd h0 (Nat.lt_irrefl 0)⟩
    | some x =>
      rw [DataStreamState.afterHeader_some hx] at h ⊢
      obtain ⟨hheaded, hkeeps, hnone⟩ := startFrame_headed (by exact hs.session) (by exact hs.unfound) h
      refine ⟨hheaded, hkeeps, fun hpos => ?_⟩
      rw [hnone] at hpos
      exact absurd hpos (Nat.lt_irrefl 0)
  | true =>
    rw [parse_content hp hb] at h ⊢
    exact content_headed hs hp h

theorem call_headed {rx rx' : Rx} (hs : Headed rx.state) (h : call mem rx bytes = .ok (rx', rest)) :
    Headed rx'.state ∧ Keeps rx.state rx'.state ∧
      ∃ data, rx'.data = rx.data ++ data ∧ (data ≠ [] → rx'.state.headerFound = true) := by
  unfold call at h
  cases hrest : (parseDataStream mem rx.state bytes).rest with
  | none =>
    simp only [hrest] at h
    cases h
  | some left =>
    simp only [hrest] at h
    cases h
    obtain ⟨hheaded, hkeeps, hdata⟩ := parse_headed rx.waits hs hrest
    refine ⟨hheaded, hkeeps, _, rfl, fun hne => hdata ?_⟩
    by_contra h0
    rw [Nat.eq_zero_of_not_pos h0, List.take_zero] at hne
    exact hne rfl

/-- The data that came before does not matter to a call. -/
theorem call_data (rx : Rx) (bytes : List UInt8) : call mem rx bytes =
    (call mem ⟨rx.state, [], rx.waits⟩ bytes).map fun r => (⟨r.1.state, rx.data ++ r.1.data, r.1.waits⟩, r.2) := by
  unfold call
  cases hrest : (parseDataStream mem rx.state bytes).rest with
  | none => simp only [hrest, Except.map]
  | some left => simp only [hrest, Except.map, List.nil_append]

/-- What is received keeps the header, and only adds data. -/
theorem receive_headed {rx rx' : Rx} (hs : Headed rx.state) {bytes : List UInt8} (h : receive mem rx bytes = .ok rx') :
    Headed rx'.state ∧ Keeps rx.state rx'.state ∧ rx.data <+: rx'.data := by
  by_cases hb : bytes = []
  · subst hb
    rw [receive_nil] at h
    cases h
    exact ⟨hs, Keeps.refl _, List.prefix_refl _⟩
  · rw [receive_step hb] at h
    cases hc : call mem rx bytes with
    | error code =>
      rw [hc] at h
      cases h
    | ok r =>
      obtain ⟨rx₁, rest⟩ := r
      rw [hc] at h
      obtain ⟨hs₁, hk₁, data, hdata, -⟩ := call_headed hs hc
      have hless := call_todo hc
      obtain ⟨hs', hk', hgrown⟩ := receive_headed hs₁ h
      refine ⟨hs', hk₁.trans hk', List.IsPrefix.trans ?_ hgrown⟩
      rw [hdata]
      exact List.prefix_append _ _
termination_by todo rx bytes

end Header

/-! ## What the application is told -/

/-- The calls before the end, by the parts of the body they were for. -/
def uploadLog (item : Option PathCallback) (path : List UInt8) (parts : List (List UInt8)) : List AppEvent :=
  if parts = [] ∨ item.isNone then [] else .post path :: parts.map .postData

/-- A stream of which `data` was taken, for the path `path`. -/
structure Taken (host : Host) (item : Option PathCallback) (path : List UInt8) (data : List UInt8) (s : ServerStream) :
    Prop where
  callback : s.ctx = { ServerStream.fresh.ctx with
    callback := if data = [] then none else item
    postReceived := data.length }
  replies : s.replies = []
  log : ∃ parts : List (List UInt8), parts.flatten = data ∧ [] ∉ parts ∧ s.log = uploadLog item path parts

section Loop

variable {host : Host} {item : Option PathCallback} {path data : List UInt8}

theorem Taken.fresh : Taken host item path [] .fresh where
  callback := rfl
  replies := rfl
  log := ⟨[], rfl, List.not_mem_nil, rfl⟩

/-- Only the parser's state differs. -/
theorem Taken.parsed {s : ServerStream} (h : Taken host item path data s) (bytes : List UInt8) :
    Taken host item path data (s.parsed host bytes) :=
  ⟨h.callback, h.replies, h.log⟩

theorem flatten_nil_iff {parts : List (List UInt8)} (h : [] ∉ parts) : parts.flatten = [] ↔ parts = [] := by
  constructor
  · intro hnil
    cases parts with
    | nil => rfl
    | cons p ps =>
      rw [List.flatten_cons, List.append_eq_nil_iff] at hnil
      rw [hnil.1] at h
      exact absurd List.mem_cons_self h
  · rintro rfl
    rfl

/-- A part of the body of a POST. -/
theorem takeData_taken (hreturns : item ≠ none → ∀ log, host.returns log = 0) (fin : Bool) {l : Loop} (hret : l.ret = 0)
    (h : Taken host item path data l.stream) (hfound : l.stream.state.headerFound = true)
    (hsession : l.stream.state.isWebTransport = false) (hpost : l.stream.state.header.method = .post)
    (hpath : l.stream.state.header.path.getD [] = path) (hitem : l.stream.item host = item) {part : List UInt8}
    (hpart : part ≠ []) :
    (takeData host fin l part).ret = 0 ∧ (takeData host fin l part).processComplete = l.processComplete ∧
      (takeData host fin l part).stream.state = l.stream.state ∧
      Taken host item path (data ++ part) (takeData host fin l part).stream := by
  obtain ⟨parts, hparts, hnil, hlog⟩ := h.log
  have hne : data ++ part ≠ [] := fun hno => hpart (List.append_eq_nil_iff.1 hno).2
  have hparts' : (parts ++ [part]).flatten = data ++ part := by
    rw [List.flatten_append, hparts, List.flatten_singleton]
  have hnil' : [] ∉ parts ++ [part] := by
    rw [List.mem_append, List.mem_singleton]
    rintro (hmem | heq)
    · exact hnil hmem
    · exact hpart heq.symm
  have hsome : parts ++ [part] ≠ [] := List.append_ne_nil_of_right_ne_nil _ (List.cons_ne_nil _ _)
  have hlen : l.stream.ctx.postReceived = data.length := by rw [h.callback]
  have hcallback : l.stream.ctx.callback = if data = [] then none else item := by rw [h.callback]
  have hctx : ∀ f, { l.stream.ctx with callback := f, postReceived := l.stream.ctx.postReceived + part.length } =
      { ServerStream.fresh.ctx with callback := f, postReceived := (data ++ part).length } := by
    intro f
    rw [h.callback, List.length_append]
  cases item with
  | none =>
    have hbind : bindCallback host l = l := by
      unfold bindCallback
      simp only [hsession, Bool.false_eq_true, if_false, hitem]
      exact ite_self l
    have hnone : l.stream.ctx.callback = none := hcallback.trans (ite_self none)
    have hnext := hctx none
    unfold takeData
    simp only [hbind, hnone]
    refine ⟨hret, trivial, trivial, ?_, h.replies, parts ++ [part], hparts', hnil', ?_⟩
    · rw [if_neg hne, ← hnext, ← hnone]
    · refine hlog.trans ?_
      unfold uploadLog
      rw [if_pos (.inr rfl), if_pos (.inr rfl)]
  | some f =>
    -- the first part comes behind the call that tells of the request
    by_cases hdata : data = []
    · have hempty : parts = [] := (flatten_nil_iff hnil).1 (hparts.trans hdata)
      have hfirst : l.stream.state.headerFound = true ∧ l.stream.ctx.postReceived = 0 := by
        rw [hlen, hdata]
        exact ⟨hfound, rfl⟩
      have hbind : bindCallback host l = { l with stream := { l.stream with
          ctx := { l.stream.ctx with callback := some f }
          log := l.stream.log ++ [.post path] } } := by
        unfold bindCallback
        simp only [hsession, Bool.false_eq_true, if_false, if_pos hfirst, hitem, hpath]
      unfold takeData
      simp only [hbind, hpost, if_true, not_true_eq_false, and_false, if_false]
      refine ⟨hreturns (Option.some_ne_none f) _, trivial, trivial, ?_, h.replies, parts ++ [part], hparts', hnil', ?_⟩
      · rw [if_neg hne]
        exact hctx (some f)
      · rw [hempty] at hlog ⊢
        show l.stream.log ++ [.post path] ++ [.postData part] = _
        rw [hlog]
        rfl
    · have hlater : ¬ (l.stream.state.headerFound = true ∧ l.stream.ctx.postReceived = 0) := by
        rintro ⟨-, h0⟩
        exact hdata (List.length_eq_zero_iff.1 (hlen.symm.trans h0))
      have hbind : bindCallback host l = l := by
        unfold bindCallback
        simp only [hsession, Bool.false_eq_true, if_false, if_neg hlater]
      have hsome' : l.stream.ctx.callback = some f := hcallback.trans (if_neg hdata)
      have hne' : parts ≠ [] := fun hno => hdata (hparts.symm.trans ((flatten_nil_iff hnil).2 hno))
      have hor : ∀ ps : List (List UInt8), ps ≠ [] → ¬ (ps = [] ∨ (some f).isNone = true) := by
        rintro ps hps (hno | hno)
        · exact hps hno
        · cases hno
      unfold takeData
      simp only [hbind, hsome', hpost, if_true, not_true_eq_false, and_false, if_false]
      refine ⟨hreturns (Option.some_ne_none f) _, trivial, trivial, ?_, h.replies, parts ++ [part], hparts', hnil', ?_⟩
      · rw [if_neg hne, ← hctx (some f), ← hsome']
      · show l.stream.log ++ [.postData part] = _
        rw [hlog]
        unfold uploadLog
        rw [if_neg (hor _ hne'), if_neg (hor _ hsome), List.map_append]
        rfl

/-- The callback of a path in the table. -/
def itemOf (host : Host) (path : Option (List UInt8)) : Option PathCallback :=
  host.env.item { ServerStream.fresh.ctx with path := path }

theorem call_state {mem : Mem} {rx rx' : Rx} {bytes rest : List UInt8} (h : call mem rx bytes = .ok (rx', rest)) :
    rx'.state = (parseDataStream mem rx.state bytes).state := by
  unfold call at h
  simp only at h
  split at h
  · cases h
  · cases h
    rfl

theorem rx_congr {s t : DataStreamState} (h : s = t) (data : List UInt8) (hs : s.Waits) (ht : t.Waits) :
    (⟨s, data, hs⟩ : Rx) = ⟨t, data, ht⟩ := by
  subst h
  rfl

/-- The loop takes the data that is received, from a stream that is a POST or has none. -/
theorem serverLoop_taken {parts : HeaderParts}
    (hreturns : itemOf host parts.path ≠ none → ∀ log, host.returns log = 0) (fin : Bool) : ∀ (n : Nat)
    {l : Loop} {bytes data : List UInt8} {rx : Rx}, todo l.stream.rx bytes ≤ n →
    receive host.mem ⟨l.stream.state, data, l.stream.waits⟩ bytes = .ok rx → Headed l.stream.state →
    (rx.state.headerFound = true → rx.state.header = parts ∧ rx.state.isWebTransport = false) →
    (parts.method = .post ∨ rx.data = []) → l.ret = 0 →
    Taken host (itemOf host parts.path) (parts.path.getD []) data l.stream →
    (serverLoop host fin n l bytes).ret = 0 ∧ (serverLoop host fin n l bytes).processComplete = l.processComplete ∧
      (serverLoop host fin n l bytes).stream.state = rx.state ∧
      Taken host (itemOf host parts.path) (parts.path.getD []) rx.data (serverLoop host fin n l bytes).stream
  | n, l, [], data, rx, _, hreceive, _, _, _, hret, htaken => by
    rw [receive_nil] at hreceive
    cases hreceive
    have hstop : serverLoop host fin n l [] = l := by cases n <;> rfl
    rw [hstop]
    exact ⟨hret, rfl, rfl, htaken⟩
  | 0, l, b :: bs, data, rx, htodo, _, _, _, _, _, _ => by
    unfold todo at htodo
    rw [List.length_cons] at htodo
    omega
  | n + 1, l, b :: bs, data, rx, htodo, hreceive, hheaded, hfinal, hkind, hret, htaken => by
    have hne : b :: bs ≠ [] := List.cons_ne_nil b bs
    generalize hbytes : b :: bs = bytes at *
    rw [receive_step hne, call_data] at hreceive
    cases hcall : call host.mem l.stream.rx bytes with
    | error code =>
      have hcall' : call host.mem ⟨l.stream.state, [], l.stream.waits⟩ bytes = .error code := hcall
      rw [hcall'] at hreceive
      cases hreceive
    | ok r =>
      obtain ⟨rx₁, rest⟩ := r
      have hcall' : call host.mem ⟨l.stream.state, [], l.stream.waits⟩ bytes = .ok (rx₁, rest) := hcall
      rw [hcall'] at hreceive
      have hreceive₁ : receive host.mem ⟨rx₁.state, data ++ rx₁.data, rx₁.waits⟩ rest = .ok rx := hreceive
      obtain ⟨hheaded₁, -, part, hpart, hfound⟩ := call_headed (by exact hheaded) hcall
      have hpart' : rx₁.data = part := hpart
      have hstate : rx₁.state = (l.stream.parsed host bytes).state := call_state hcall
      have hless := call_todo hcall
      obtain ⟨-, hkeeps, hgrown⟩ := receive_headed (by exact hheaded₁) hreceive₁
      have hround : serverLoop host fin (n + 1) l bytes = serverLoop host fin n
          (if rx₁.data = [] then { l with stream := l.stream.parsed host bytes, available := rx₁.data.length }
            else takeData host fin { l with stream := l.stream.parsed host bytes, available := rx₁.data.length }
              rx₁.data) rest := by
        rw [serverLoop, if_neg hne]
        unfold serverRound
        simp only [hcall]
      rw [hround]
      -- whatever is done with the data, the parser goes on from its own state
      have hnext : ∀ {l₁ : Loop}, l₁.stream.state = (l.stream.parsed host bytes).state →
          todo l₁.stream.rx rest ≤ n ∧ Headed l₁.stream.state ∧
            receive host.mem ⟨l₁.stream.state, data ++ rx₁.data, l₁.stream.waits⟩ rest = .ok rx := by
        intro l₁ hl₁
        have hsame : l₁.stream.state = rx₁.state := hl₁.trans hstate.symm
        refine ⟨?_, hsame ▸ hheaded₁, ?_⟩
        · have hequal : todo l₁.stream.rx rest = todo rx₁ rest := by
            show 2 * rest.length + (if l₁.stream.state.frameHeaderParsed = true then 1 else 0) = _
            rw [hsame]
            rfl
          omega
        · rw [rx_congr hsame]
          exact hreceive₁
      by_cases hnone : rx₁.data = []
      · rw [if_pos hnone]
        obtain ⟨htodo₁, hheaded₂, hreceive₂⟩ := @hnext
          { l with stream := l.stream.parsed host bytes, available := rx₁.data.length } rfl
        rw [hnone, List.append_nil] at hreceive₂
        exact serverLoop_taken hreturns fin n htodo₁ hreceive₂ hheaded₂ hfinal hkind hret (htaken.parsed bytes)
      · rw [if_neg hnone]
        have hfound₁ : rx₁.state.headerFound = true := hfound (hpart' ▸ hnone)
        obtain ⟨hfound₂, hheader, hsession⟩ := hkeeps hfound₁
        obtain ⟨hparts, hnot⟩ := hfinal hfound₂
        have hpost : parts.method = .post := by
          refine hkind.resolve_right fun hempty => ?_
          rw [hempty] at hgrown
          exact hnone (List.append_eq_nil_iff.1 (List.prefix_nil.1 hgrown)).2
        have hheader₁ : (l.stream.parsed host bytes).state.header = parts := by
          rw [← hstate, ← hheader]
          exact hparts
        obtain ⟨hret₁, hcomplete, hstate₁, htaken₁⟩ := @takeData_taken host (itemOf host parts.path)
          (parts.path.getD []) data hreturns fin
          { l with stream := l.stream.parsed host bytes, available := rx₁.data.length } hret (htaken.parsed bytes)
          (hstate ▸ hfound₁) (hstate ▸ hsession ▸ hnot) (by rw [hheader₁]; exact hpost) (by rw [hheader₁])
          (by rw [← hheader₁]; rfl) rx₁.data hnone
        obtain ⟨htodo₁, hheaded₂, hreceive₂⟩ := hnext hstate₁
        obtain ⟨hret₂, hcomplete₂, hstate₂, htaken₂⟩ :=
          serverLoop_taken hreturns fin n htodo₁ hreceive₂ hheaded₂ hfinal hkind hret₁ htaken₁
        exact ⟨hret₂, hcomplete₂.trans hcomplete, hstate₂, htaken₂⟩

/-! ## Chunks -/

/-- A stream on which `rx` was received, a request with this header. -/
structure Receiving (host : Host) (parts : HeaderParts) (rx : Rx) (s : ServerStream) : Prop where
  state : s.state = rx.state
  headed : Headed rx.state
  taken : Taken host (itemOf host parts.path) (parts.path.getD []) rx.data s

/-- The request that is received in the end: neither a CONNECT nor a GET, and with a body only if it is a POST. -/
structure Whole (parts : HeaderParts) (rx : Rx) : Prop where
  found : rx.state.headerFound = true
  header : rx.state.header = parts
  session : rx.state.isWebTransport = false
  connect : parts.method ≠ .connect
  get : parts.method ≠ .get
  body : parts.method = .post ∨ rx.data = []

section Chunks

variable {parts : HeaderParts} {rx : Rx} {s : ServerStream}

theorem Receiving.fresh : Receiving host parts .fresh .fresh := ⟨rfl, Headed.fresh, Taken.fresh⟩

/-- What a chunk leaves before its end is looked at. -/
theorem chunk_loop (hreturns : itemOf host parts.path ≠ none → ∀ log, host.returns log = 0)
    (h : Receiving host parts rx s) {d : StreamData} {rx' : Rx}
    (hreceive : receive host.mem rx d.bytes = .ok rx')
    (hfinal : rx'.state.headerFound = true → rx'.state.header = parts ∧ rx'.state.isWebTransport = false)
    (hbody : parts.method = .post ∨ rx'.data = []) :
    ∃ l : Loop, serverLoop host d.fin (2 * d.bytes.length + 1) ⟨s, 0, 0, false⟩ d.bytes = l ∧ l.ret = 0 ∧
      l.processComplete = false ∧ Receiving host parts rx' l.stream := by
  have htodo : todo s.rx d.bytes ≤ 2 * d.bytes.length + 1 := by
    unfold todo
    split_ifs <;> omega
  have hreceive' : receive host.mem ⟨s.state, rx.data, s.waits⟩ d.bytes = .ok rx' := by
    rw [rx_congr h.state]
    exact hreceive
  obtain ⟨hret, hcomplete, hstate, htaken⟩ := @serverLoop_taken host parts hreturns d.fin _ ⟨s, 0, 0, false⟩ d.bytes
    rx.data rx' htodo hreceive' (by rw [h.state]; exact h.headed) hfinal hbody rfl h.taken
  exact ⟨_, rfl, hret, hcomplete, hstate, (receive_headed h.headed hreceive).1, htaken⟩

theorem Receiving.notUpgraded (h : Receiving host parts rx s) : s.ctx.isUpgraded = false := by
  rw [h.taken.callback]
  rfl

/-- A chunk that does not end the stream. -/
theorem chunk_receiving (hreturns : itemOf host parts.path ≠ none → ∀ log, host.returns log = 0)
    (h : Receiving host parts rx s) {bytes : List UInt8} {rx' : Rx}
    (hreceive : receive host.mem rx bytes = .ok rx')
    (hfinal : rx'.state.headerFound = true → rx'.state.header = parts ∧ rx'.state.isWebTransport = false)
    (hconnect : parts.method ≠ .connect) (hbody : parts.method = .post ∨ rx'.data = []) :
    Receiving host parts rx' (requestData host s ⟨bytes, false⟩) := by
  obtain ⟨l, hl, hret, hcomplete, hnext⟩ := @chunk_loop host parts rx s hreturns h ⟨bytes, false⟩ rx' hreceive hfinal
    hbody
  have hneither : rx'.state.isWebTransport = false ∧ rx'.state.header.method ≠ .connect := by
    cases hfound : rx'.state.headerFound with
    | true =>
      obtain ⟨hheader, hsession⟩ := hfinal hfound
      exact ⟨hsession, hheader ▸ hconnect⟩
    | false =>
      constructor
      · rw [← Bool.not_eq_true]
        intro hsession
        rw [hnext.headed.session hsession] at hfound
        cases hfound
      · rw [hnext.headed.unfound hfound]
        exact (by decide : HeaderParts.zero.method ≠ .connect)
  have hsame : requestData host s ⟨bytes, false⟩ = l.stream := by
    unfold requestData processH3ServerData
    rw [h.notUpgraded, if_neg Bool.false_ne_true]
    simp only [hl, hret, hcomplete, and_self, if_true, hnext.state, hneither.1, hneither.2, Bool.false_eq_true, or_self,
      if_false]
  rw [hsame]
  exact hnext

/-- The chunks before the last. -/
theorem chunks_receiving (hreturns : itemOf host parts.path ≠ none → ∀ log, host.returns log = 0)
    {last : List UInt8} {rx' : Rx} (hwhole : Whole parts rx') :
    ∀ (chunks : List (List UInt8)) {rx : Rx} {s : ServerStream}, Receiving host parts rx s →
    receive host.mem rx (chunks.flatten ++ last) = .ok rx' →
    ∃ rx₁, Receiving host parts rx₁ (chunks.foldl (fun s c => requestData host s ⟨c, false⟩) s) ∧
      receive host.mem rx₁ last = .ok rx'
  | [], rx, s, h, hreceive => ⟨rx, h, hreceive⟩
  | c :: cs, rx, s, h, hreceive => by
    rw [List.flatten_cons, List.append_assoc, receive_append] at hreceive
    cases hc : receive host.mem rx c with
    | error code =>
      rw [hc] at hreceive
      cases hreceive
    | ok rx₁ =>
      rw [hc] at hreceive
      have hrest : receive host.mem rx₁ (cs.flatten ++ last) = .ok rx' := hreceive
      obtain ⟨-, hkeeps, hgrown⟩ := receive_headed (receive_headed h.headed hc).1 hrest
      have hfinal : rx₁.state.headerFound = true → rx₁.state.header = parts ∧ rx₁.state.isWebTransport = false := by
        intro hfound
        obtain ⟨-, hheader, hsession⟩ := hkeeps hfound
        exact ⟨hheader.symm.trans hwhole.header, hsession.symm.trans hwhole.session⟩
      have hbody : parts.method = .post ∨ rx₁.data = [] := by
        refine hwhole.body.imp_right fun hempty => ?_
        rw [hempty] at hgrown
        exact List.prefix_nil.1 hgrown
      exact chunks_receiving hreturns hwhole cs (chunk_receiving hreturns h hc hfinal hwhole.connect hbody) hrest

/-- What an application is told of a request, by the parts of its body. -/
def told (method : Method) (item : Option PathCallback) (path : List UInt8) (parts : List (List UInt8)) :
    List AppEvent :=
  if method = .post ∧ item.isSome then .post path :: parts.map .postData ++ [.postFin []] else []

/-- The context a request is answered from. -/
def received (host : Host) (rx : Rx) : StreamCtx where
  method := rx.state.header.method
  path := rx.state.header.path
  callback := if rx.data = [] then none else itemOf host rx.state.header.path
  postReceived := rx.data.length
  echoLength := 0
  echoSent := 0
  filePath := none
  file := none
  isUpgraded := false

/-- The calls for the body and those at the end. -/
theorem told_end (host : Host) {rx : Rx} (hwhole : Whole rx.state.header rx) {body : List (List UInt8)}
    (hbody : body.flatten = rx.data) (hnil : [] ∉ body) :
    uploadLog (itemOf host rx.state.header.path) (rx.state.header.path.getD []) body ++
        requestEvents host.env (received host rx) =
      told rx.state.header.method (itemOf host rx.state.header.path) (rx.state.header.path.getD []) body := by
  have hempty : rx.data = [] ↔ body = [] := by rw [← hbody, flatten_nil_iff hnil]
  have hitem : host.env.item (received host rx) = itemOf host rx.state.header.path := rfl
  have hlen : (received host rx).postReceived = 0 ↔ body = [] := List.length_eq_zero_iff.trans hempty
  have hcallback : (received host rx).callback = if rx.data = [] then none else itemOf host rx.state.header.path := rfl
  have hmethod : (received host rx).method = rx.state.header.method := rfl
  by_cases hpost : rx.state.header.method = .post
  · unfold requestEvents postCallback
    rw [hmethod, hpost, hitem, hcallback]
    simp only [hlen]
    unfold uploadLog told
    generalize itemOf host rx.state.header.path = item
    cases item with
    | none => simp
    | some f =>
      by_cases hb : body = []
      · rw [hempty.2 hb]
        simp [hb, received]
      · have hdata : ¬ rx.data = [] := fun h => hb (hempty.1 h)
        simp [hb, hdata]
  · -- other methods come without a body and tell nobody
    have hnone : body = [] := hempty.1 (hwhole.body.resolve_left hpost)
    have hevents : requestEvents host.env (received host rx) = [] := by
      unfold requestEvents
      rw [hmethod]
      have hconnect := hwhole.connect
      split
      · exact absurd ‹_› hpost
      · exact absurd ‹_› hconnect
      · rfl
    rw [hevents, hnone]
    unfold told
    rw [if_neg (fun h => hpost h.1)]
    rfl

/-- A whole request in chunks is processed at its end. -/
theorem deliver_receiving (hreturns : itemOf host rx.state.header.path ≠ none → ∀ log, host.returns log = 0)
    {chunks : List (List UInt8)} {last : List UInt8}
    (hreceive : receive host.mem .fresh (chunks.flatten ++ last) = .ok rx) (hwhole : Whole rx.state.header rx) :
    ∃ s, deliver host chunks last = requestFrame host s ∧ Receiving host rx.state.header rx s ∧
      s.request = received host rx := by
  obtain ⟨rx₁, hreceiving, hlast⟩ := chunks_receiving hreturns hwhole chunks Receiving.fresh hreceive
  obtain ⟨l, hl, hret, hcomplete, hnext⟩ := @chunk_loop host _ rx₁ _ hreturns hreceiving ⟨last, true⟩ rx hlast
    (fun _ => ⟨rfl, hwhole.session⟩) hwhole.body
  refine ⟨l.stream, ?_, hnext, ?_⟩
  · unfold deliver
    generalize chunks.foldl (fun s c => requestData host s ⟨c, false⟩) .fresh = s at hreceiving hl
    unfold requestData processH3ServerData
    rw [hreceiving.notUpgraded, if_neg Bool.false_ne_true]
    simp only [hl, hret, hcomplete, and_self, if_true, hnext.state, hwhole.session, hwhole.found, Bool.false_eq_true,
      true_or, if_false]
  · unfold ServerStream.request
    rw [hnext.taken.callback, hnext.state]
    rfl

theorem deliver_replies (hreturns : itemOf host rx.state.header.path ≠ none → ∀ log, host.returns log = 0)
    {chunks : List (List UInt8)} {last : List UInt8}
    (hreceive : receive host.mem .fresh (chunks.flatten ++ last) = .ok rx) (hwhole : Whole rx.state.header rx) :
    (deliver host chunks last).replies = [processRequest host.env (received host rx)] := by
  obtain ⟨s, heq, hreceiving, hrequest⟩ := deliver_receiving hreturns hreceive hwhole
  rw [heq]
  show s.replies ++ [processRequest host.env s.request] = _
  rw [hreceiving.taken.replies, hrequest]
  rfl

end Chunks

end Loop

/-- In whatever chunks a whole request comes, it is answered once, at its end, and the application of a POST is told of
it once, is given its body in order, in parts that are not empty, and is told once that it ended. -/
theorem request_answered {host : Host} (hreturns : ∀ log, host.returns log = 0) {chunks : List (List UInt8)}
    {last : List UInt8} {rx : Rx} (hreceive : receive host.mem .fresh (chunks.flatten ++ last) = .ok rx)
    (hwhole : Whole rx.state.header rx) :
    (deliver host chunks last).replies = [processRequest host.env (received host rx)] ∧
      ∃ body : List (List UInt8), body.flatten = rx.data ∧ [] ∉ body ∧
        (deliver host chunks last).log =
          told rx.state.header.method (itemOf host rx.state.header.path) (rx.state.header.path.getD []) body := by
  obtain ⟨s, heq, hreceiving, hrequest⟩ := deliver_receiving (fun _ => hreturns) hreceive hwhole
  obtain ⟨body, hbody, hnil, hlog⟩ := hreceiving.taken.log
  refine ⟨deliver_replies (fun _ => hreturns) hreceive hwhole, body, hbody, hnil, ?_⟩
  rw [heq]
  show s.log ++ requestEvents host.env s.request = _
  rw [hlog, hrequest]
  exact told_end host hwhole hbody hnil

/-! ## Exchanges -/

/-- A HEADERS frame and a DATA frame. -/
def framesOf (block body : List UInt8) : List UInt8 :=
  Varint.encode h3zeroFrameHeader ++ Varint.encode block.length ++ (block ++
    (Varint.encode h3zeroFrameData ++ Varint.encode body.length ++ body))

/-- What the parser takes from them. -/
theorem receive_frames {mem : Mem} (hm : ∀ n, mem.malloc n = true) {block body : List UInt8} {parts : HeaderParts}
    (hparse : parseQpackHeaderFrame mem block = (some [], parts)) (hne : block ≠ []) (hle : block.length ≤ 0x10000)
    (hlt : body.length < 2 ^ 62) :
    ∃ rx, receive mem .fresh (framesOf block body) = .ok rx ∧ rx.state.headerFound = true ∧
      rx.state.header = parts ∧ rx.state.isWebTransport = false ∧ rx.data = body := by
  have hframe := frameHeaderOf_encode (by decide : h3zeroFrameHeader < 2 ^ 62) (lt_of_le_of_lt hle (by norm_num))
  have hdata := frameHeaderOf_encode (by decide : h3zeroFrameData < 2 ^ 62) hlt
  unfold framesOf
  rw [receive_headers mem hframe hne hle, if_pos (hm _), hparse, if_pos rfl]
  obtain ⟨rx, hreceive, hheader, hbody, -, -⟩ := Answer.receive_data mem parts block.length hdata (le_refl _)
  have hheaded : Headed (Rx.headed parts block.length).state := ⟨nofun, nofun, nofun⟩
  obtain ⟨-, hkeeps, -⟩ := receive_headed hheaded hreceive
  obtain ⟨hfound, -, hsession⟩ := hkeeps rfl
  exact ⟨rx, hreceive, hfound, hheader, hsession, hbody⟩

/-- An application at a path of its own. -/
def uploadHost : Host where
  env :=
    { varint := .shortest
      parsePath := fun _ => none
      fileOpen := fun _ => none
      table := [(ascii "/up", ⟨List.replicate 512 0, 0, [], 0, List.length_replicate, by norm_num⟩)]
      accepts := true }
  mem := .ample
  declared := fun _ => none
  returns := fun _ => 0
  closes := 0
  resets := 0

/-- The block of a POST to a path. -/
def postBlock (path : String) : List UInt8 :=
  (createPostHeaderFrameEx 200 (ascii path) [] none .textPlain none).getD []

theorem singletons_flatten (bytes : List UInt8) : (bytes.map fun b => [b]).flatten ++ [] = bytes := by
  rw [← List.flatMap_def, List.flatMap_singleton', List.append_nil]

theorem upload_answered :
    ∃ rx, receive uploadHost.mem .fresh (((framesOf (postBlock "/up") (ascii "body")).map fun b => [b]).flatten ++ []) =
        .ok rx ∧ rx.data = ascii "body" ∧ Whole rx.state.header rx ∧
      ((deliver uploadHost ((framesOf (postBlock "/up") (ascii "body")).map fun b => [b]) []).replies =
          [processRequest uploadHost.env (received uploadHost rx)] ∧
        ∃ body : List (List UInt8), body.flatten = rx.data ∧ [] ∉ body ∧
          (deliver uploadHost ((framesOf (postBlock "/up") (ascii "body")).map fun b => [b]) []).log =
            told rx.state.header.method (itemOf uploadHost rx.state.header.path)
              (rx.state.header.path.getD []) body) := by
  obtain ⟨rx, hreceive, hfound, hheader, hsession, hdata⟩ := @receive_frames uploadHost.mem (fun _ => rfl)
    (postBlock "/up") (ascii "body") _ rfl (by decide) (by decide) (by decide)
  rw [← singletons_flatten (framesOf (postBlock "/up") (ascii "body"))] at hreceive
  have hwhole : Whole rx.state.header rx :=
    ⟨hfound, rfl, hsession, by rw [hheader]; decide, by rw [hheader]; decide, .inl (by rw [hheader]; rfl)⟩
  exact ⟨rx, hreceive, hdata, hwhole, request_answered (fun _ => rfl) hreceive hwhole⟩

end Mquic.H3.Upload
