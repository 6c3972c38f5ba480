/-
The data events of a connection of the server under `h3zero_callback` (h3zero_common.c): its requests, as
`h3zero_process_h3_server_data` and `h3zero_process_request_frame` take them, and the client's unidirectional streams.
A CONNECT for the camera replaces the callback, and `camera_wt_callback` looks at no data.
-/
import Mquic.H3.Control
import Mquic.H3.Response
import Mquic.Lib.Keyed

namespace Mquic.H3

open Mquic.Server.Lifecycle (State Cnx Connect Callback cameraPathCallback)

/-! ## Requests -/

/-- What lies outside this code, for each stream: whether the response to a CONNECT can be queued and the threads
created, whether picoquic takes the reply, and what it answers to `picoquic_close` and `picoquic_reset_stream`. -/
structure Env where
  mem : Mem
  sent200 : Nat → Bool
  cameraCreated : Nat → Bool
  networkCreated : Nat → Bool
  accepts : Nat → Bool
  closes : Nat → Int
  resets : Nat → Int

def Env.connect (env : Env) (sid : Nat) : Connect :=
  ⟨sid, env.sent200 sid, env.cameraCreated sid, env.networkCreated sid⟩

/-- The fields of `h3zero_stream_ctx_t` of a request; `hasCallback` for `path_callback`, which only
`camera_path_callback` can be. -/
structure Request where
  state : DataStreamState
  hasCallback : Bool
  isUpgraded : Bool
  postReceived : Nat
  waits : state.Waits

/-- A new stream. -/
def Request.fresh : Request := ⟨.fresh, false, false, 0, DataStreamState.fresh_waits⟩

def Request.method (q : Request) : Method := q.state.header.method

def Request.path (q : Request) : List UInt8 := q.state.header.path.getD []

/-- `h3zero_find_path_item` finds the path. -/
def Request.found (q : Request) : Bool := (findPathItem q.path pathTable).isSome

/-- `h3zero_process_request_frame`, as far as the streamer context and the stream go. -/
def requestFrame (env : Env) (s : State) (c : Cnx) (sid : Nat) (q : Request) : State × Request :=
  match q.method with
  | .connect =>
    ((processRequestFrame s c ⟨q.path, q.hasCallback, q.isUpgraded⟩ (env.connect sid) (env.accepts sid)).1,
      if !q.hasCallback && q.found then
        { q with hasCallback := true, isUpgraded := (cameraPathCallback s c (env.connect sid)).2 = 0 }
      else q)
  | .post => (s, if !q.hasCallback && q.postReceived = 0 && q.found then { q with hasCallback := true } else q)
  | _ => (s, q)

/-- Where the loop of `h3zero_process_h3_server_data` stands. -/
structure ServerLoop where
  request : Request
  ret : Int
  processComplete : Bool

/-- The callback of a stream when data comes, and the return value. No stream prefix is declared. -/
def dataCallback (env : Env) (sid : Nat) (q : Request) (ret : Int) : Request × Int :=
  if q.state.isWebTransport then (q, if q.hasCallback then ret else env.resets sid)
  else if q.state.headerFound && q.postReceived = 0 then (if q.found then { q with hasCallback := true } else q, ret)
  else (q, ret)

/-- `available` bytes of data. `camera_path_callback` returns 0 on data. -/
def takeData (env : Env) (sid : Nat) (l : ServerLoop) (available : Nat) : ServerLoop :=
  let (q, ret) := dataCallback env sid l.request l.ret
  if q.hasCallback then
    if q.method = .post then ⟨{ q with postReceived := q.postReceived + available }, 0, l.processComplete⟩
    else ⟨q, 0, true⟩
  else ⟨{ q with postReceived := q.postReceived + available }, ret, l.processComplete⟩

/-- A round of the loop, with the bytes left, `none` after the `break`. -/
def serverRound (env : Env) (sid : Nat) (l : ServerLoop) (bytes : List UInt8) : ServerLoop × Option (List UInt8) :=
  let parsed := parseDataStream env.mem l.request.state bytes
  let q := { l.request with state := parsed.state, waits := parseDataStream_waits env.mem l.request.waits bytes }
  match parsed.rest with
  | none => ({ l with request := q, ret := env.closes sid }, none)
  | some rest =>
    (if parsed.availableData > 0 then takeData env sid { l with request := q } parsed.availableData
      else { l with request := q }, some (rest.drop parsed.availableData))

/-- The loop, `n` rounds of it. -/
def serverLoop (env : Env) (sid : Nat) : Nat → ServerLoop → List UInt8 → ServerLoop
  | 0, l, _ => l
  | n + 1, l, bytes =>
    if bytes = [] then l
    else
      match serverRound env sid l bytes with
      | (l, none) => l
      | (l, some rest) => serverLoop env sid n l rest

/-- The loop on a chunk. Two rounds to a byte are enough (`serverData_rounds`). -/
def serverData (env : Env) (sid : Nat) (l : ServerLoop) (bytes : List UInt8) : ServerLoop :=
  serverLoop env sid (2 * bytes.length + 1) l bytes

/-- The bytes of a data event, and whether it is `picoquic_callback_stream_fin`. -/
structure StreamData where
  bytes : List UInt8
  fin : Bool
deriving DecidableEq

/-- `h3zero_process_h3_server_data`. -/
def processH3ServerData (env : Env) (s : State) (c : Cnx) (sid : Nat) (q : Request) (d : StreamData) :
    State × Request :=
  let l := serverData env sid ⟨q, 0, false⟩ d.bytes
  if l.ret = 0 ∧ !l.processComplete then
    if l.request.state.isWebTransport then (s, l.request)
    else if d.fin ∨ l.request.method = .connect then
      -- without a header the stream is reset
      if l.request.state.headerFound then requestFrame env s c sid l.request else (s, l.request)
    else (s, l.request)
  else (s, l.request)

/-- `h3zero_callback_data` on a request; behind an upgrade the data goes to `camera_path_callback`. -/
def requestData (env : Env) (s : State) (c : Cnx) (sid : Nat) (q : Request) (d : StreamData) : State × Request :=
  if q.isUpgraded then (s, q) else processH3ServerData env s c sid q d

/-! ## The connection -/

/-- A data event: its stream, and the data. -/
abbrev StreamEvent := Nat × StreamData

/-- `IS_CLIENT_STREAM_ID` and `IS_BIDIR_STREAM_ID`. -/
def isRequest (sid : Nat) : Bool := sid &&& 1 = 0 && sid &&& 2 = 0

/-- A unidirectional stream of the client. -/
def isUni (sid : Nat) : Bool := sid &&& 1 = 0 && sid &&& 2 ≠ 0

/-- The streamer context, and of a connection the settings of its `h3zero_callback_ctx_t` and its streams. -/
structure Connection where
  server : State
  settings : Settings
  request : Nat → Request
  uni : Nat → UniState

/-- A connection at its first data event. -/
def Connection.init (s : State) : Connection := ⟨s, .zero, fun _ => .fresh, fun _ => .fresh⟩

/-- `h3zero_callback_data`. Stream contexts are created; a stream of the server's own has none here. -/
def h3zeroCallbackData (env : Env) (c : Cnx) (x : Connection) (e : StreamEvent) : Connection :=
  if isRequest e.1 then
    let (s, q) := requestData env x.server c e.1 (x.request e.1) e.2
    { x with server := s, request := Function.update x.request e.1 q }
  else if isUni e.1 then
    let r := parseRemoteUnidirStream env.mem (x.uni e.1) x.settings e.2.bytes
    { x with settings := r.settings, uni := Function.update x.uni e.1 r.state }
  else x

/-- A data event reaches the callback the connection has. -/
def Connection.receive (env : Env) (c : Cnx) (x : Connection) (e : StreamEvent) : Connection :=
  match x.server.callback c with
  | .h3 => h3zeroCallbackData env c x e
  | .wt => x
  | .closed => x

def Connection.run (env : Env) (c : Cnx) (x : Connection) (es : List StreamEvent) : Connection :=
  es.foldl (Connection.receive env c) x

/-! ## The loop -/

section Loop

variable {env : Env} {sid : Nat}

theorem takeData_state (l : ServerLoop) (n : Nat) : (takeData env sid l n).request.state = l.request.state := by
  have hcallback : ∀ (q : Request) (ret : Int), (dataCallback env sid q ret).1.state = q.state := by
    intro q ret
    unfold dataCallback
    split_ifs <;> rfl
  have hstate := hcallback l.request l.ret
  unfold takeData
  generalize dataCallback env sid l.request l.ret = r at hstate
  obtain ⟨q, ret⟩ := r
  simp only at hstate ⊢
  split_ifs <;> exact hstate

def Request.todo (q : Request) (bytes : List UInt8) : Nat :=
  2 * bytes.length + if q.state.frameHeaderParsed then 1 else 0

/-- Every round that does not leave the loop leaves less to do. -/
theorem serverRound_todo {l l' : ServerLoop} {bytes rest : List UInt8}
    (h : serverRound env sid l bytes = (l', some rest)) : l'.request.todo rest < l.request.todo bytes := by
  unfold serverRound at h
  simp only at h
  split at h
  · cases h
  · rename_i rest0 hrest
    have hlt := parse_todo l.request.waits hrest
    obtain ⟨hl, hr⟩ := Prod.mk.inj h
    have hstate : l'.request.state = (parseDataStream env.mem l.request.state bytes).state := by
      rw [← hl]
      split
      · exact takeData_state _ _
      · rfl
    rw [← Option.some.inj hr]
    unfold Request.todo
    rw [hstate, List.length_drop]
    exact hlt

/-- Enough rounds are as good as any more. -/
theorem serverLoop_enough : ∀ (n m : Nat) {l : ServerLoop} {bytes : List UInt8}, l.request.todo bytes ≤ n →
    l.request.todo bytes ≤ m → serverLoop env sid n l bytes = serverLoop env sid m l bytes
  | n, m, l, [], _, _ => by cases n <;> cases m <;> rfl
  | 0, _, l, b :: bs, hn, _ => by
    unfold Request.todo at hn
    rw [List.length_cons] at hn
    omega
  | _ + 1, 0, l, b :: bs, _, hm => by
    unfold Request.todo at hm
    rw [List.length_cons] at hm
    omega
  | n + 1, m + 1, l, b :: bs, hn, hm => by
    have hb : b :: bs ≠ [] := List.cons_ne_nil b bs
    unfold serverLoop
    rw [if_neg hb, if_neg hb]
    cases hround : serverRound env sid l (b :: bs) with
    | mk l' rest =>
      cases rest with
      | none => rfl
      | some rest =>
        have hlt := serverRound_todo hround
        exact serverLoop_enough n m (by omega) (by omega)

theorem todo_le (q : Request) (bytes : List UInt8) : q.todo bytes ≤ 2 * bytes.length + 1 := by
  unfold Request.todo
  split
  · omega
  · omega

/-- Any more rounds change nothing: the loop has consumed its bytes, or come to its `break`. -/
theorem serverData_rounds {l : ServerLoop} {bytes : List UInt8} {n : Nat} (hn : 2 * bytes.length + 1 ≤ n) :
    serverLoop env sid n l bytes = serverData env sid l bytes := by
  have htodo := todo_le l.request bytes
  exact serverLoop_enough n _ (htodo.trans hn) htodo

end Loop

/-! ## What an event does -/

/-- A data event of a request that hands a CONNECT to `camera_path_callback`. -/
def Request.hands (env : Env) (sid : Nat) (q : Request) (d : StreamData) : Bool :=
  let l := serverData env sid ⟨q, 0, false⟩ d.bytes
  !q.isUpgraded && l.ret = 0 && !l.processComplete && !l.request.state.isWebTransport && l.request.method = .connect &&
    l.request.state.headerFound && !l.request.hasCallback && l.request.found

theorem processRequestFrame_server (s : State) (c : Cnx) (stream : RequestStream) (r : Connect) (accepts : Bool) :
    (processRequestFrame s c stream r accepts).1 =
      if !stream.hasCallback && (findPathItem stream.path pathTable).isSome then (cameraPathCallback s c r).1
      else s := by
  unfold processRequestFrame
  by_cases hcallback : stream.hasCallback = true
  · rw [if_pos hcallback, if_neg (by rw [hcallback]; exact Bool.false_ne_true)]
  · rw [if_neg hcallback, Bool.eq_false_iff.2 hcallback, Bool.not_false, Bool.true_and]
    cases findPathItem stream.path pathTable with
    | none => rfl
    | some i =>
      simp only [Option.isSome_some, if_true]
      split
      · rfl
      · rfl

theorem requestFrame_server (env : Env) (s : State) (c : Cnx) (sid : Nat) (q : Request) :
    (requestFrame env s c sid q).1 =
      if q.method = .connect ∧ q.hasCallback = false ∧ q.found = true then (cameraPathCallback s c (env.connect sid)).1
      else s := by
  unfold requestFrame
  cases q.method with
  | connect =>
    simp only [processRequestFrame_server, true_and, Bool.and_eq_true, Bool.not_eq_true']
    rfl
  | none | notSupported | delete | get | head | options | post | put => rfl

/-- The streamer context changes by a CONNECT only. -/
theorem requestData_server (env : Env) (s : State) (c : Cnx) (sid : Nat) (q : Request) (d : StreamData) :
    (requestData env s c sid q d).1 =
      if q.hands env sid d then (cameraPathCallback s c (env.connect sid)).1 else s := by
  unfold requestData processH3ServerData Request.hands
  cases q.isUpgraded with
  | true => rfl
  | false =>
    generalize serverData env sid ⟨q, 0, false⟩ d.bytes = l
    simp only [Bool.not_false, Bool.true_and, Bool.false_eq_true, if_false, Bool.and_eq_true, decide_eq_true_eq,
      Bool.not_eq_true', and_assoc]
    by_cases hret : l.ret = 0 ∧ l.processComplete = false
    · rw [if_pos hret]
      cases hwt : l.request.state.isWebTransport with
      | true => simp
      | false =>
        by_cases hconnect : l.request.method = .connect
        · cases hfound : l.request.state.headerFound with
          | true => simp [hret.1, hret.2, hconnect, requestFrame_server]
          | false => simp
        · -- at its end a request of another method is answered
          simp only [hconnect, or_false, false_and, and_false, if_false, Bool.false_eq_true]
          split_ifs
          · rw [requestFrame_server, if_neg fun h => hconnect h.1]
          · rfl
          · rfl
    · rw [if_neg hret, if_neg fun h => hret ⟨h.1, h.2.1⟩]

end Mquic.H3
