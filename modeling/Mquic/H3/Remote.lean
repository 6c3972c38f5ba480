/-
Streams that the peer opens (h3zero_common.c): `h3zero_process_remote_stream` with the stream prefixes that an
application has registered. What a unidirectional stream comes to is read off the bytes received of it, however they are
cut (`deliver_reads`); a bidirectional one must start with its own type, and in one piece.
-/
import Mquic.H3.Control

namespace Mquic.H3

/-! ## State -/

/-- `IS_BIDIR_STREAM_ID`. -/
def isBidirStreamId (sid : Nat) : Bool := sid &&& 2 = 0

/-- The registered prefixes: `h3zero_find_stream_prefix` by control stream id. A callback comes with its context. -/
abbrev Prefixes (κ : Type) := Nat → Option κ

/-- The fields of `h3zero_stream_ctx_t` of a remote stream; `pathCallback` comes with `path_callback_ctx`. -/
structure Remote (κ : Type) where
  state : UniState
  pathCallback : Option κ

/-- What a parser returns, with the bytes from the returned pointer on (`none` for `NULL`) and `*error_found`. -/
structure RemoteParse (κ : Type) where
  ctx : Remote κ
  settings : Settings
  rest : Option (List UInt8)
  errorFound : Nat

/-- What a call of `h3zero_process_remote_stream` finds: the settings of the connection at that time, the data, whether
it is the last, and what picoquic answers to `picoquic_stop_sending` and the callback returns. -/
structure Delivery where
  settings : Settings
  bytes : List UInt8
  fin : Bool
  stopRet : Int
  callbackRet : Int

/-- What a call does: the context and the settings behind it, the error of `picoquic_stop_sending` if that is called,
the callback with its data if that is called, and the return value. -/
structure Processed (κ : Type) where
  ctx : Remote κ
  settings : Settings
  stopSending : Option Nat
  posted : Option (κ × List UInt8 × Bool)
  ret : Int

namespace Remote

variable {κ : Type}

/-- A context as `h3zero_find_or_create_stream` leaves it. -/
def fresh : Remote κ := ⟨.fresh, none⟩

/-! ## Parsers -/

/-- `h3zero_wt_parse_control_stream_id`. -/
def wtParseControlStreamId (prefixes : Prefixes κ) (c : Remote κ) (bytes : List UInt8) :
    Remote κ × Option (List UInt8) :=
  match c.state.controlStreamId with
  | some _ => (c, some bytes)
  | none =>
    let (bytes, id, buffer) := varintFromStream bytes none c.state.frameHeader
    let state := { c.state with controlStreamId := id, frameHeader := buffer }
    match id with
    | none => ({ c with state := state }, some bytes)
    | some id =>
      match prefixes id with
      | none => ({ c with state := state }, none)
      | some callback => (⟨state, some callback⟩, some bytes)

/-- Behind the type of a bidirectional stream. -/
def bidirTyped (prefixes : Prefixes κ) (c : Remote κ) (bytes : List UInt8) : Remote κ × Option (List UInt8) :=
  if c.state.streamType = some h3zeroFrameWebtransportStream then wtParseControlStreamId prefixes c bytes else (c, none)

/-- `h3zero_parse_remote_bidir_stream`. -/
def parseRemoteBidirStream (prefixes : Prefixes κ) (c : Remote κ) (bytes : List UInt8) :
    Remote κ × Option (List UInt8) :=
  match c.state.streamType with
  | some _ => bidirTyped prefixes c bytes
  | none =>
    let (bytes, streamType, buffer) := varintFromStream bytes none c.state.frameHeader
    let c := { c with state := { c.state with streamType := streamType, frameHeader := buffer } }
    -- of a new context the frame type is 0, so an incomplete stream type is taken for a wrong one
    if c.state.currentFrameType = none then (c, some bytes) else bidirTyped prefixes c bytes

/-- The dispatch on the type of a unidirectional stream. -/
def uniTyped (mem : Mem) (prefixes : Prefixes κ) (c : Remote κ) (set : Settings) (streamType : Nat)
    (bytes : List UInt8) : RemoteParse κ :=
  if streamType = h3zeroStreamTypeControl then
    let r := parseControlStream mem c.state set bytes
    ⟨{ c with state := r.state }, r.settings, r.rest, r.errorFound⟩
  else if streamType = h3zeroStreamTypeWebtransport then
    let (c, rest) := wtParseControlStreamId prefixes c bytes
    ⟨c, set, rest, 0⟩
  -- push, QPACK and unknown streams are read and ignored
  else ⟨c, set, some [], 0⟩

/-- `h3zero_parse_remote_unidir_stream`. -/
def parseRemoteUnidirStream (mem : Mem) (prefixes : Prefixes κ) (c : Remote κ) (set : Settings)
    (bytes : List UInt8) : RemoteParse κ :=
  match c.state.streamType with
  | some streamType => uniTyped mem prefixes c set streamType bytes
  | none =>
    let (bytes, streamType, buffer) := varintFromStream bytes none c.state.frameHeader
    let state := { c.state with streamType := streamType, frameHeader := buffer }
    match streamType with
    | none => ⟨{ c with state := state }, set, some bytes, 0⟩
    | some streamType =>
      uniTyped mem prefixes { c with state := if streamType = h3zeroStreamTypeControl then state.reset else state } set
        streamType bytes

/-- `h3zero_post_data_or_fin`. -/
def postDataOrFin (c : Remote κ) (d : Delivery) (bytes : List UInt8) : Option (κ × List UInt8 × Bool) × Int :=
  match c.pathCallback with
  | some callback => (some (callback, bytes, d.fin), d.callbackRet)
  | none => (none, 0)

/-- The parser for the direction of the stream. -/
def parse (mem : Mem) (prefixes : Prefixes κ) (streamId : Nat) (c : Remote κ) (d : Delivery) : RemoteParse κ :=
  if isBidirStreamId streamId then
    let (c, rest) := parseRemoteBidirStream prefixes c d.bytes
    ⟨c, d.settings, rest, 0⟩
  else parseRemoteUnidirStream mem prefixes c d.settings d.bytes

/-- `h3zero_process_remote_stream` on a context that is not `NULL`. -/
def processRemoteStream (mem : Mem) (prefixes : Prefixes κ) (streamId : Nat) (c : Remote κ) (d : Delivery) :
    Processed κ :=
  let p := parse mem prefixes streamId c d
  match p.rest with
  | none => ⟨p.ctx, p.settings, some p.errorFound, none, d.stopRet⟩
  | some rest =>
    if rest ≠ [] ∨ d.fin = true then
      let (posted, ret) := postDataOrFin p.ctx d rest
      ⟨p.ctx, p.settings, none, posted, ret⟩
    else ⟨p.ctx, p.settings, none, none, 0⟩

/-- Where no prefix is registered, the parser of a unidirectional stream is the one of the server. -/
theorem parseRemoteUnidirStream_none (mem : Mem) (c : Remote κ) (set : Settings) (bytes : List UInt8) :
    parseRemoteUnidirStream mem (fun _ => none) c set bytes =
      let r := H3.parseRemoteUnidirStream mem c.state set bytes
      ⟨{ c with state := r.state }, r.settings, r.rest, r.errorFound⟩ := by
  have hid (c : Remote κ) (bytes : List UInt8) : wtParseControlStreamId (fun _ => none) c bytes =
      ({ c with state := (H3.wtParseControlStreamId c.state bytes).1 },
        (H3.wtParseControlStreamId c.state bytes).2) := by
    unfold wtParseControlStreamId H3.wtParseControlStreamId
    cases c.state.controlStreamId with
    | some id => rfl
    | none =>
      generalize varintFromStream bytes none c.state.frameHeader = r
      obtain ⟨rest, id, buffer⟩ := r
      cases id <;> rfl
  have htyped (c : Remote κ) (t : Nat) (bytes : List UInt8) : uniTyped mem (fun _ => none) c set t bytes =
      let r := parseTyped mem c.state set t bytes
      ⟨{ c with state := r.state }, r.settings, r.rest, r.errorFound⟩ := by
    unfold uniTyped parseTyped
    simp only [hid]
    split_ifs <;> rfl
  unfold parseRemoteUnidirStream H3.parseRemoteUnidirStream
  cases c.state.streamType with
  | some t => exact htyped c t bytes
  | none =>
    generalize varintFromStream bytes none c.state.frameHeader = r
    obtain ⟨rest, t, buffer⟩ := r
    cases t with
    | none => rfl
    | some t => exact htyped _ t rest

end Remote

/-! ## Deliveries -/

variable {κ : Type}

/-- The receiving end of a stream: its context, and the calls of its callback so far. -/
structure Peer (κ : Type) where
  ctx : Remote κ
  posted : List (κ × List UInt8 × Bool)

def Peer.fresh : Peer κ := ⟨.fresh, []⟩

/-- After one more delivery. -/
def Peer.receive (mem : Mem) (prefixes : Prefixes κ) (streamId : Nat) (p : Peer κ) (d : Delivery) : Peer κ :=
  let r := Remote.processRemoteStream mem prefixes streamId p.ctx d
  ⟨r.ctx, p.posted ++ r.posted.toList⟩

/-- A new stream after a list of deliveries. -/
def deliver (mem : Mem) (prefixes : Prefixes κ) (streamId : Nat) (ds : List Delivery) : Peer κ :=
  ds.foldl (Peer.receive mem prefixes streamId) .fresh

/-- The bytes of a list of deliveries. -/
def deliveredBytes (ds : List Delivery) : List UInt8 := (ds.map Delivery.bytes).flatten

/-- The bytes passed on. -/
def Peer.passed (p : Peer κ) : List UInt8 := (p.posted.map fun q => q.2.1).flatten

/-- The stream is bound to the callback, and `app` is what was passed on to it. -/
structure Peer.Recognised (p : Peer κ) (callback : κ) (app : List UInt8) : Prop where
  bound : p.ctx.pathCallback = some callback
  posted : ∀ q ∈ p.posted, q.1 = callback
  passed : p.passed = app

/-- What a parse leaves for the callback, if there is one. -/
def RemoteParse.handed (p : RemoteParse κ) : List UInt8 := if p.ctx.pathCallback.isSome then p.rest.getD [] else []

/-- A call stores the context that its parse leaves, and passes on what the parse leaves for the callback. -/
theorem process_parse (mem : Mem) (prefixes : Prefixes κ) (streamId : Nat) (c : Remote κ) (d : Delivery) :
    let r := Remote.parse mem prefixes streamId c d
    let x := Remote.processRemoteStream mem prefixes streamId c d
    x.ctx = r.ctx ∧ (x.posted.toList.map fun q => q.2.1).flatten = r.handed ∧
      ∀ q ∈ x.posted.toList, r.ctx.pathCallback = some q.1 := by
  intro r x
  have hx : x = match r.rest with
      | none => ⟨r.ctx, r.settings, some r.errorFound, none, d.stopRet⟩
      | some rest =>
        if rest ≠ [] ∨ d.fin = true then
          let (posted, ret) := Remote.postDataOrFin r.ctx d rest
          ⟨r.ctx, r.settings, none, posted, ret⟩
        else ⟨r.ctx, r.settings, none, none, 0⟩ := rfl
  rw [hx]
  clear hx x
  generalize r = r
  obtain ⟨ctx, set, rest, code⟩ := r
  unfold RemoteParse.handed Remote.postDataOrFin
  cases rest with
  | none => exact ⟨rfl, by split_ifs <;> rfl, List.forall_mem_nil _⟩
  | some rest =>
    by_cases hmore : rest ≠ [] ∨ d.fin = true
    · simp only [if_pos hmore]
      cases hcb : ctx.pathCallback with
      | none => exact ⟨trivial, rfl, List.forall_mem_nil _⟩
      | some callback =>
        refine ⟨trivial, by simp, fun q hq => ?_⟩
        rw [Option.toList_some, List.mem_singleton] at hq
        rw [hq]
    · -- no bytes are left, and these were not announced as the last
      have hnil : rest = [] := by
        by_contra hne
        exact hmore (.inl hne)
      simp only [if_neg hmore]
      exact ⟨trivial, by rw [hnil]; split_ifs <;> rfl, List.forall_mem_nil _⟩

section Receive

variable {mem : Mem} {prefixes : Prefixes κ} {streamId : Nat} {p : Peer κ} {d : Delivery} {r : RemoteParse κ}

/-- Without a callback nothing is passed on. -/
theorem receive_unbound (hr : Remote.parse mem prefixes streamId p.ctx d = r) (h : r.ctx.pathCallback = none) :
    p.receive mem prefixes streamId d = ⟨r.ctx, p.posted⟩ := by
  obtain ⟨hctx, -, htags⟩ := process_parse mem prefixes streamId p.ctx d
  rw [hr] at hctx htags
  have hnone : (Remote.processRemoteStream mem prefixes streamId p.ctx d).posted.toList = [] := by
    rw [List.eq_nil_iff_forall_not_mem]
    intro q hq
    have := htags q hq
    rw [h] at this
    cases this
  show (⟨(Remote.processRemoteStream mem prefixes streamId p.ctx d).ctx,
    p.posted ++ (Remote.processRemoteStream mem prefixes streamId p.ctx d).posted.toList⟩ : Peer κ) = _
  rw [hctx, hnone, List.append_nil]

/-- With a callback that callback is passed what the parse leaves. -/
theorem receive_bound (hr : Remote.parse mem prefixes streamId p.ctx d = r) :
    ∃ qs, p.receive mem prefixes streamId d = ⟨r.ctx, p.posted ++ qs⟩ ∧
      (qs.map fun q => q.2.1).flatten = r.handed ∧ ∀ q ∈ qs, r.ctx.pathCallback = some q.1 := by
  obtain ⟨hctx, hpassed, htags⟩ := process_parse mem prefixes streamId p.ctx d
  rw [hr] at hctx hpassed htags
  refine ⟨(Remote.processRemoteStream mem prefixes streamId p.ctx d).posted.toList, ?_, hpassed, htags⟩
  rw [← hctx]
  rfl

/-- What one more delivery keeps, of the bytes so far and the receiving end, holds of all deliveries. -/
theorem deliver_rule {P : List UInt8 → Peer κ → Prop} (h0 : P [] .fresh)
    (hstep : ∀ x p d, P x p → P (x ++ d.bytes) (p.receive mem prefixes streamId d)) (ds : List Delivery) :
    P (deliveredBytes ds) (deliver mem prefixes streamId ds) := by
  have hrun : ∀ (ds : List Delivery) {x : List UInt8} {p : Peer κ}, P x p →
      P (x ++ deliveredBytes ds) (ds.foldl (Peer.receive mem prefixes streamId) p) := by
    intro ds
    induction ds with
    | nil =>
      intro x p h
      rw [deliveredBytes, List.map_nil, List.flatten_nil, List.append_nil]
      exact h
    | cons d ds ih =>
      intro x p h
      have hcons : x ++ deliveredBytes (d :: ds) = x ++ d.bytes ++ deliveredBytes ds := by
        simp [deliveredBytes]
      rw [List.foldl_cons, hcons]
      exact ih (hstep x p d h)
  exact hrun ds h0

end Receive

/-! ## Unidirectional streams -/

/-- The context behind the type of a session's stream, with the bytes `y` of an incomplete control stream id. -/
def Remote.awaitingId (y : List UInt8) : Remote κ :=
  ⟨(UniState.onType h3zeroStreamTypeWebtransport).holding y, none⟩

/-- What a unidirectional stream has come to, by the bytes `x` received of it: the type is incomplete, or another one,
or the control stream id is incomplete, or the stream is bound to what is registered for that id. -/
inductive Reads (prefixes : Prefixes κ) (x : List UInt8) : Peer κ → Prop where
  | type (h : Varint.decode x = none) : Reads prefixes x ⟨⟨UniState.fresh.holding x, none⟩, []⟩
  | other {t c : Nat} {s : UniState} (h : Varint.decode x = some (t, c)) (ht : t ≠ h3zeroStreamTypeWebtransport)
    (hs : s.streamType = some t) : Reads prefixes x ⟨⟨s, none⟩, []⟩
  | session {c : Nat} (h : Varint.decode x = some (h3zeroStreamTypeWebtransport, c))
    (hid : Varint.decode (x.drop c) = none) :
    Reads prefixes x ⟨.awaitingId (x.drop c), []⟩
  | bound {c id n : Nat} {s : UniState} {posted : List (κ × List UInt8 × Bool)}
    (h : Varint.decode x = some (h3zeroStreamTypeWebtransport, c)) (hid : Varint.decode (x.drop c) = some (id, n))
    (hs : s.streamType = some h3zeroStreamTypeWebtransport) (hc : s.controlStreamId = some id)
    (hposted : ∀ q ∈ posted, prefixes id = some q.1)
    (hpassed : (posted.map fun q => q.2.1).flatten = if (prefixes id).isSome then (x.drop c).drop n else []) :
    Reads prefixes x ⟨⟨s, prefixes id⟩, posted⟩

theorem reads_nil (prefixes : Prefixes κ) : Reads prefixes [] Peer.fresh := .type Varint.decode_nil

section Unidir

variable {mem : Mem} {prefixes : Prefixes κ} {streamId : Nat} {p : Peer κ} {d : Delivery} {x y bytes : List UInt8}

/-- Behind the type: the control stream id stays incomplete, or it is found and the prefix for it looked up. -/
theorem wtParse_cases (prefixes : Prefixes κ) (hy : Varint.decode y = none) (bytes : List UInt8) :
    let r := Remote.wtParseControlStreamId prefixes (.awaitingId y) bytes
    (Varint.decode (y ++ bytes) = none ∧ r = (.awaitingId (y ++ bytes), some [])) ∨
      ∃ id n s, Varint.decode (y ++ bytes) = some (id, n) ∧ s.streamType = some h3zeroStreamTypeWebtransport ∧
        s.controlStreamId = some id ∧
          r = (⟨s, prefixes id⟩, if (prefixes id).isSome then some ((y ++ bytes).drop n) else none) := by
  intro r
  have hr : r = Remote.wtParseControlStreamId prefixes (.awaitingId y) bytes := rfl
  unfold Remote.wtParseControlStreamId Remote.awaitingId UniState.onType UniState.holding UniState.fresh at hr
  rw [if_neg (by decide)] at hr
  simp only at hr
  by_cases hb : bytes = []
  · subst hb
    rw [List.append_nil]
    exact .inl ⟨hy, hr⟩
  cases hdec : Varint.decode (y ++ bytes) with
  | none =>
    rw [varintFromStream_none hb none hdec] at hr
    exact .inl ⟨rfl, hr⟩
  | some q =>
    obtain ⟨id, n⟩ := q
    rw [varintFromStream_some hb hy none hdec] at hr
    simp only at hr
    refine .inr ⟨id, n, { UniState.onType h3zeroStreamTypeWebtransport with controlStreamId := some id }, rfl, rfl, rfl,
      hr.trans ?_⟩
    cases prefixes id <;> rfl

/-- The bytes behind the type, of which `y` were there before. -/
theorem reads_session {c : Nat} (hposted : p.posted = [])
    (hx : Varint.decode x = some (h3zeroStreamTypeWebtransport, c)) (hy : Varint.decode y = none)
    (hcat : x.drop c = y ++ bytes)
    (hparse : Remote.parse mem prefixes streamId p.ctx d =
      ⟨(Remote.wtParseControlStreamId prefixes (.awaitingId y) bytes).1, d.settings,
        (Remote.wtParseControlStreamId prefixes (.awaitingId y) bytes).2, 0⟩) :
    Reads prefixes x (p.receive mem prefixes streamId d) := by
  rcases wtParse_cases prefixes hy bytes with ⟨hdec, hr⟩ | ⟨id, n, s, hdec, hs, hc, hr⟩
  · rw [hr] at hparse
    rw [receive_unbound hparse rfl, hposted, ← hcat]
    exact .session hx (hcat ▸ hdec)
  · rw [hr] at hparse
    obtain ⟨qs, hrec, hpassed, htags⟩ := receive_bound hparse
    rw [hrec, hposted, List.nil_append]
    refine .bound hx (hcat ▸ hdec) hs hc htags ?_
    rw [hpassed, hcat]
    unfold RemoteParse.handed
    cases prefixes id <;> rfl

/-- One more piece of the stream. -/
theorem Reads.receive (hu : isBidirStreamId streamId = false) (h : Reads prefixes x p) (d : Delivery) :
    Reads prefixes (x ++ d.bytes) (p.receive mem prefixes streamId d) := by
  have hparse (c : Remote κ) : Remote.parse mem prefixes streamId c d =
      Remote.parseRemoteUnidirStream mem prefixes c d.settings d.bytes := by
    unfold Remote.parse
    rw [hu]
    rfl
  -- a stream of another type stays one
  have hother {t : Nat} (c : Remote κ) (bytes : List UInt8) (ht : t ≠ h3zeroStreamTypeWebtransport)
      (hc : c.pathCallback = none) (hs : c.state.streamType = some t) :
      ∃ s set rest code, Remote.uniTyped mem prefixes c d.settings t bytes = ⟨⟨s, none⟩, set, rest, code⟩ ∧
        s.streamType = some t := by
    unfold Remote.uniTyped
    by_cases hcontrol : t = h3zeroStreamTypeControl
    · rw [if_pos hcontrol, hc]
      exact ⟨_, _, _, _, rfl, (controlLoop_streamType _ _ _ _).trans hs⟩
    · rw [if_neg hcontrol, if_neg ht]
      exact ⟨c.state, d.settings, some [], 0, by rw [← hc], hs⟩
  cases h with
  | type hx =>
    have hstart := hparse ⟨UniState.fresh.holding x, none⟩
    unfold Remote.parseRemoteUnidirStream UniState.holding UniState.fresh at hstart
    simp only at hstart
    by_cases hb : d.bytes = []
    · rw [hb, varintFromStream_nil] at hstart
      rw [receive_unbound hstart rfl, hb, List.append_nil]
      exact .type hx
    cases hdec : Varint.decode (x ++ d.bytes) with
    | none =>
      rw [varintFromStream_none hb none hdec] at hstart
      rw [receive_unbound hstart rfl]
      exact .type hdec
    | some q =>
      obtain ⟨t, c⟩ := q
      rw [varintFromStream_some hb hx none hdec] at hstart
      simp only at hstart
      by_cases ht : t = h3zeroStreamTypeWebtransport
      · subst ht
        exact reads_session rfl hdec Varint.decode_nil (List.nil_append _).symm hstart
      · have hs : (if t = h3zeroStreamTypeControl then
            UniState.reset ⟨some t, none, some 0, some 0, 0, none, [], false⟩
            else ⟨some t, none, some 0, some 0, 0, none, [], false⟩).streamType = some t := by split_ifs <;> rfl
        obtain ⟨s', set, rest, code, hr, hs'⟩ := hother ⟨_, none⟩ ((x ++ d.bytes).drop c) ht rfl hs
        rw [receive_unbound (hstart.trans hr) rfl]
        exact .other hdec ht hs'
  | @other t c s hx ht hs =>
    obtain ⟨s', set, rest, code, hr, hs'⟩ := hother ⟨s, none⟩ d.bytes ht rfl hs
    have hgo := hparse ⟨s, none⟩
    unfold Remote.parseRemoteUnidirStream at hgo
    simp only [hs, hr] at hgo
    rw [receive_unbound hgo rfl]
    exact .other (Varint.decode_append hx d.bytes) ht hs'
  | @session c hx hid =>
    have hgo := hparse (.awaitingId (x.drop c))
    have hc : c ≤ x.length := (Varint.decode_bounds hx).2
    exact reads_session rfl (Varint.decode_append hx d.bytes) hid (List.drop_append_of_le_length hc) hgo
  | @bound c id n s posted hx hid hs hc hposted hpassed =>
    have hgo : Remote.parse mem prefixes streamId ⟨s, prefixes id⟩ d =
        ⟨⟨s, prefixes id⟩, d.settings, some d.bytes, 0⟩ := by
      rw [hparse]
      unfold Remote.parseRemoteUnidirStream Remote.uniTyped Remote.wtParseControlStreamId
      simp only [hs, hc]
      rfl
    obtain ⟨qs, hrec, hqs, htags⟩ :=
      @receive_bound κ mem prefixes streamId ⟨⟨s, prefixes id⟩, posted⟩ d _ hgo
    have hcx : c ≤ x.length := (Varint.decode_bounds hx).2
    have hdrop : (x ++ d.bytes).drop c = x.drop c ++ d.bytes := List.drop_append_of_le_length hcx
    have hn : n ≤ (x.drop c).length := (Varint.decode_bounds hid).2
    rw [hrec]
    refine .bound (Varint.decode_append hx d.bytes) (hdrop ▸ Varint.decode_append hid d.bytes) hs hc
      (fun q hq => (List.mem_append.1 hq).elim (hposted q) (htags q)) ?_
    rw [List.map_append, List.flatten_append, hpassed, hqs, hdrop, List.drop_append_of_le_length hn]
    unfold RemoteParse.handed
    cases prefixes id <;> rfl

/-- What has been received of a unidirectional stream decides, however it came. -/
theorem deliver_reads (mem : Mem) (prefixes : Prefixes κ) (hu : isBidirStreamId streamId = false) (ds : List Delivery) :
    Reads prefixes (deliveredBytes ds) (deliver mem prefixes streamId ds) :=
  deliver_rule (reads_nil prefixes) (fun _ _ d h => h.receive hu d) ds

/-- A unidirectional stream with the header of a session whose prefix is registered is recognised in any pieces. -/
theorem header_recognised (mem : Mem) (prefixes : Prefixes κ) (hu : isBidirStreamId streamId = false) {sessionId : Nat}
    (hid : sessionId < 2 ^ 62) {callback : κ} (hreg : prefixes sessionId = some callback) {app : List UInt8}
    {ds : List Delivery} (hds : deliveredBytes ds =
      Varint.encode h3zeroStreamTypeWebtransport ++ Varint.encode sessionId ++ app) :
    (deliver mem prefixes streamId ds).Recognised callback app := by
  have hreads := deliver_reads mem prefixes hu ds
  have htype : h3zeroStreamTypeWebtransport < 2 ^ 62 := by decide
  rw [hds, List.append_assoc] at hreads
  have hdrop : (Varint.encode h3zeroStreamTypeWebtransport ++ (Varint.encode sessionId ++ app)).drop
      (Varint.size h3zeroStreamTypeWebtransport) = Varint.encode sessionId ++ app :=
    List.drop_left' (Varint.encode_length _)
  have hx := Varint.decode_encode htype (Varint.encode sessionId ++ app)
  have hy := Varint.decode_encode hid app
  generalize deliver mem prefixes streamId ds = p at hreads
  cases hreads with
  | type h => rw [hx] at h; cases h
  | other h ht => rw [hx] at h; cases h; exact absurd rfl ht
  | session h h' => rw [hx] at h; cases h; rw [hdrop, hy] at h'; cases h'
  | bound h h' hs hc hposted hpassed =>
    rw [hx] at h
    cases h
    rw [hdrop, hy] at h'
    cases h'
    rw [hdrop, hreg, List.drop_left' (Varint.encode_length _)] at hpassed
    exact ⟨hreg, fun q hq => Option.some.inj ((hposted q hq).symm.trans hreg), hpassed⟩

/-- A unidirectional stream that has been recognised had a header: what is passed on is never all that came. -/
theorem not_recognised_all (mem : Mem) (prefixes : Prefixes κ) (hu : isBidirStreamId streamId = false) (callback : κ)
    (ds : List Delivery) : ¬(deliver mem prefixes streamId ds).Recognised callback (deliveredBytes ds) := by
  rintro ⟨hbound, -, hall⟩
  have hreads := deliver_reads mem prefixes hu ds
  unfold Peer.passed at hall
  generalize deliver mem prefixes streamId ds = p at hreads hbound hall
  cases hreads with
  | type h => cases hbound
  | other h ht => cases hbound
  | session h h' => cases hbound
  | @bound c id n s posted h h' hs hc hposted hpassed =>
    have hlt := congrArg List.length (hall.symm.trans hpassed)
    have hcpos := Varint.decode_bounds h
    have hsome : (prefixes id).isSome = true := by rw [show prefixes id = some callback from hbound]; rfl
    rw [if_pos hsome, List.length_drop, List.length_drop] at hlt
    omega

end Unidir

/-! ## Bidirectional streams -/

/-- A bidirectional stream that the bytes `x` do not make a stream of a session: it is not bound, and nothing was passed
on. -/
structure Unbound (x : List UInt8) (p : Peer κ) : Prop where
  callback : p.ctx.pathCallback = none
  posted : p.posted = []
  type : (Varint.decode x = none ∧ p.ctx.state.streamType = none ∧ p.ctx.state.frameHeader = x) ∨
    ∃ t c, Varint.decode x = some (t, c) ∧ p.ctx.state.streamType = some t

/-- The bytes are not those of a session's bidirectional stream. -/
def NotSession (x : List UInt8) : Prop := ∀ c, Varint.decode x ≠ some (h3zeroFrameWebtransportStream, c)

section Bidir

variable {mem : Mem} {prefixes : Prefixes κ} {streamId : Nat} {p : Peer κ} {x : List UInt8}

theorem bidirTyped_other {c : Remote κ} (h : c.state.streamType ≠ some h3zeroFrameWebtransportStream)
    (bytes : List UInt8) : Remote.bidirTyped prefixes c bytes = (c, none) := if_neg h

theorem Unbound.receive (hb : isBidirStreamId streamId = true) (h : Unbound x p) {d : Delivery}
    (hno : NotSession (x ++ d.bytes)) : Unbound (x ++ d.bytes) (p.receive mem prefixes streamId d) := by
  obtain ⟨hcb, hposted, htype⟩ := h
  have hparse : Remote.parse mem prefixes streamId p.ctx d =
      ⟨(Remote.parseRemoteBidirStream prefixes p.ctx d.bytes).1, d.settings,
        (Remote.parseRemoteBidirStream prefixes p.ctx d.bytes).2, 0⟩ := by
    unfold Remote.parse
    rw [hb]
    rfl
  -- it is enough that the parser leaves the callback alone and gets the type right
  suffices hctx : (Remote.parseRemoteBidirStream prefixes p.ctx d.bytes).1.pathCallback = none ∧
      ((Varint.decode (x ++ d.bytes) = none ∧
          (Remote.parseRemoteBidirStream prefixes p.ctx d.bytes).1.state.streamType = none ∧
          (Remote.parseRemoteBidirStream prefixes p.ctx d.bytes).1.state.frameHeader = x ++ d.bytes) ∨
        ∃ t c, Varint.decode (x ++ d.bytes) = some (t, c) ∧
          (Remote.parseRemoteBidirStream prefixes p.ctx d.bytes).1.state.streamType = some t) by
    rw [receive_unbound hparse hctx.1]
    exact ⟨hctx.1, hposted, hctx.2⟩
  unfold Remote.parseRemoteBidirStream
  rcases htype with ⟨hx, hst, hfh⟩ | ⟨t, c, hx, hst⟩
  · rw [hst, hfh]
    simp only
    by_cases hnil : d.bytes = []
    · -- no type, and the test of the frame type does not see it
      rw [hnil, varintFromStream_nil, List.append_nil]
      split_ifs
      · exact ⟨hcb, .inl ⟨hx, rfl, rfl⟩⟩
      · rw [bidirTyped_other (Option.some_ne_none _).symm]
        exact ⟨hcb, .inl ⟨hx, rfl, rfl⟩⟩
    cases hdec : Varint.decode (x ++ d.bytes) with
    | none =>
      rw [varintFromStream_none hnil none hdec]
      split_ifs
      · exact ⟨hcb, .inl ⟨rfl, rfl, rfl⟩⟩
      · rw [bidirTyped_other (Option.some_ne_none _).symm]
        exact ⟨hcb, .inl ⟨rfl, rfl, rfl⟩⟩
    | some q =>
      obtain ⟨t, c⟩ := q
      have ht : t ≠ h3zeroFrameWebtransportStream := fun heq => hno c (by rw [hdec, heq])
      rw [varintFromStream_some hnil hx none hdec]
      split_ifs
      · exact ⟨hcb, .inr ⟨t, c, rfl, rfl⟩⟩
      · rw [bidirTyped_other fun heq => ht (Option.some.inj heq)]
        exact ⟨hcb, .inr ⟨t, c, rfl, rfl⟩⟩
  · have hdec := Varint.decode_append hx d.bytes
    have ht : t ≠ h3zeroFrameWebtransportStream := fun heq => hno c (by rw [hdec, heq])
    rw [hst]
    simp only
    rw [bidirTyped_other (by rw [hst]; exact fun heq => ht (Option.some.inj heq))]
    exact ⟨hcb, .inr ⟨t, c, hdec, hst⟩⟩

/-- A bidirectional stream of another type is never bound. -/
theorem bidir_unbound (mem : Mem) (prefixes : Prefixes κ) (hb : isBidirStreamId streamId = true) {ds : List Delivery}
    (hno : NotSession (deliveredBytes ds)) : (deliver mem prefixes streamId ds).ctx.pathCallback = none := by
  have hfresh : Unbound [] (Peer.fresh : Peer κ) := ⟨rfl, rfl, .inl ⟨Varint.decode_nil, rfl, rfl⟩⟩
  have hunbound : NotSession (deliveredBytes ds) → Unbound (deliveredBytes ds) (deliver mem prefixes streamId ds) := by
    refine deliver_rule (P := fun x p => NotSession x → Unbound x p) (fun _ => hfresh) (fun x p d h hno => ?_) ds
    have hbefore : NotSession x := fun c hc => hno c (Varint.decode_append hc d.bytes)
    exact (h hbefore).receive hb hno
  exact (hunbound hno).callback

end Bidir

end Mquic.H3
