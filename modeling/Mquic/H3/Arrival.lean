/-
Whether the order in which the streams of a connection arrive matters. What a request does up to its CONNECT, and what
the control stream leaves of the settings, depend on the bytes of the one stream only; but the CONNECT takes the
callback away, and what the control stream brings behind it is not read (`arrival_order_iff`).
-/
import Mquic.H3.Callback

namespace Mquic.H3

open Mquic.Server.Lifecycle (State Cnx Connect Callback cameraPathCallback connect_adopts)
open Keyed (onKey Interleaves cut)

/-! ## One event -/

/-- A request under `h3zero_callback`; other streams have none. -/
def requestStep (env : Env) (s : State) (c : Cnx) (sid : Nat) (q : Request) (d : StreamData) : Request :=
  if isRequest sid then (requestData env s c sid q d).2 else q

def requestStop (env : Env) (sid : Nat) (q : Request) (d : StreamData) : Bool := isRequest sid && q.hands env sid d

/-- The unidirectional streams, and the settings. -/
def uniStep (env : Env) (u : (Nat → UniState) × Settings) (e : StreamEvent) : (Nat → UniState) × Settings :=
  if isUni e.1 then
    let r := parseRemoteUnidirStream env.mem (u.1 e.1) u.2 e.2.bytes
    (Function.update u.1 e.1 r.state, r.settings)
  else u

theorem not_uni {sid : Nat} (h : isRequest sid = true) : isUni sid = false := by
  unfold isRequest isUni at *
  simp only [Bool.and_eq_true, decide_eq_true_eq] at h
  rw [h.2]
  simp

section Event

variable {env : Env} {c : Cnx} {x : Connection} {e : StreamEvent}

theorem callbackData_server : (h3zeroCallbackData env c x e).server =
    if requestStop env e.1 (x.request e.1) e.2 then (cameraPathCallback x.server c (env.connect e.1)).1
    else x.server := by
  unfold h3zeroCallbackData requestStop
  by_cases hr : isRequest e.1 = true
  · rw [if_pos hr, hr, Bool.true_and]
    exact requestData_server env x.server c e.1 (x.request e.1) e.2
  · rw [if_neg hr, Bool.eq_false_iff.2 hr, Bool.false_and, if_neg Bool.false_ne_true]
    split
    · rfl
    · rfl

theorem callbackData_request :
    (h3zeroCallbackData env c x e).request = Keyed.apply (requestStep env x.server c) x.request e := by
  unfold h3zeroCallbackData Keyed.apply requestStep
  by_cases hr : isRequest e.1 = true
  · rw [if_pos hr, if_pos hr]
  · rw [if_neg hr, if_neg hr, Function.update_eq_self]
    split
    · rfl
    · rfl

theorem callbackData_uni :
    ((h3zeroCallbackData env c x e).uni, (h3zeroCallbackData env c x e).settings) =
      uniStep env (x.uni, x.settings) e := by
  unfold h3zeroCallbackData uniStep
  by_cases hr : isRequest e.1 = true
  · rw [if_pos hr, if_neg (by rw [not_uni hr]; exact Bool.false_ne_true)]
  · rw [if_neg hr]
    split
    · rfl
    · rfl

theorem receive_h3 (h : x.server.callback c = .h3) : x.receive env c e = h3zeroCallbackData env c x e := by
  unfold Connection.receive
  rw [h]

end Event

/-! ## Runs -/

/-- The events before the first that hands a CONNECT over, and the stream of that one. Each request is judged by its
own events. -/
def upToConnect (env : Env) (s : State) (c : Cnx) (es : List StreamEvent) : List StreamEvent × Option Nat :=
  cut (requestStep env s c) (requestStop env) (fun _ => .fresh) es

/-- The bytes of a stream. -/
def bytesOf (sid : Nat) (es : List StreamEvent) : List UInt8 := ((onKey sid es).map StreamData.bytes).flatten

/-- The accepted session: the connection the streamer context belongs to, and the stream of its CONNECT. -/
def Connection.session (x : Connection) : Option Cnx × Nat := (x.server.cnx, x.server.controlStreamId)

/-- The streamer context after the CONNECT, if there was one. -/
def afterConnect (env : Env) (s : State) (c : Cnx) : Option Nat → State
  | none => s
  | some sid => (cameraPathCallback s c (env.connect sid)).1

section Run

variable {env : Env} {c : Cnx}

/-- No data is read behind a CONNECT. -/
theorem run_wt {x : Connection} (h : x.server.callback c = .wt) (es : List StreamEvent) : x.run env c es = x := by
  induction es with
  | nil => rfl
  | cons e es ih =>
    have hreceive : x.receive env c e = x := by
      unfold Connection.receive
      rw [h]
    show (x.receive env c e).run env c es = x
    rw [hreceive]
    exact ih

theorem connect_wt (s : State) (c : Cnx) (r : Connect) : (cameraPathCallback s c r).1.callback c = .wt := by
  rw [(connect_adopts s c r).2.1]
  exact Function.update_self ..

/-- What a run leaves: the unidirectional streams up to the CONNECT, and what the CONNECT did. -/
theorem run_cut : ∀ (es : List StreamEvent) {x : Connection}, x.server.callback c = .h3 →
    ((x.run env c es).uni, (x.run env c es).settings) =
        (cut (requestStep env x.server c) (requestStop env) x.request es).1.foldl (uniStep env) (x.uni, x.settings) ∧
      (x.run env c es).server =
        afterConnect env x.server c (cut (requestStep env x.server c) (requestStop env) x.request es).2
  | [], x, _ => ⟨rfl, rfl⟩
  | e :: es, x, h => by
    have hrun : x.run env c (e :: es) = (h3zeroCallbackData env c x e).run env c es := by
      rw [← receive_h3 h]
      rfl
    have hserver := @callbackData_server env c x e
    have huni := @callbackData_uni env c x e
    have hrequest := @callbackData_request env c x e
    rw [hrun]
    generalize h3zeroCallbackData env c x e = x' at hserver huni hrequest
    by_cases hstop : requestStop env e.1 (x.request e.1) e.2 = true
    · rw [if_pos hstop] at hserver
      have hwt : x'.server.callback c = .wt := by
        rw [hserver]
        exact connect_wt ..
      have hnone : uniStep env (x.uni, x.settings) e = (x.uni, x.settings) := by
        unfold uniStep
        rw [if_neg (by rw [not_uni (Bool.and_eq_true_iff.1 hstop).1]; exact Bool.false_ne_true)]
      rw [run_wt hwt, Keyed.cut_stop hstop, huni, hnone]
      exact ⟨rfl, hserver⟩
    · rw [if_neg hstop] at hserver
      obtain ⟨h1, h2⟩ := run_cut es (x := x') (hserver ▸ h)
      rw [hserver, hrequest] at h1 h2
      rw [Keyed.cut_go hstop, h1, h2, huni]
      exact ⟨rfl, rfl⟩

end Run

/-! ## The settings -/

theorem bytesOf_append (sid : Nat) (es fs : List StreamEvent) :
    bytesOf sid (es ++ fs) = bytesOf sid es ++ bytesOf sid fs := by
  unfold bytesOf
  rw [Keyed.onKey_append, List.map_append, List.flatten_append]

theorem bytesOf_snoc (sid : Nat) (es : List StreamEvent) (d : StreamData) :
    bytesOf sid (es ++ [(sid, d)]) = bytesOf sid es ++ d.bytes := by
  rw [bytesOf_append]
  unfold bytesOf
  rw [Keyed.onKey_self sid d []]
  exact congrArg _ (List.append_nil _)

theorem bytesOf_snoc_other {sid k : Nat} (h : k ≠ sid) (es : List StreamEvent) (d : StreamData) :
    bytesOf sid (es ++ [(k, d)]) = bytesOf sid es := by
  rw [bytesOf_append]
  unfold bytesOf
  rw [Keyed.onKey_other h d []]
  exact List.append_nil _

theorem bytesOf_mono (sid : Nat) {es fs : List StreamEvent} (h : es <+: fs) : bytesOf sid es <+: bytesOf sid fs := by
  obtain ⟨gs, rfl⟩ := h
  rw [bytesOf_append]
  exact List.prefix_append _ _

/-- Apart from its control stream, no stream of the client is of that type. -/
def OneControl (ctl : Nat) (es : List StreamEvent) : Prop :=
  ∀ sid, isUni sid = true → sid ≠ ctl → NotControl (bytesOf sid es)

theorem OneControl.mono {ctl : Nat} {es fs : List StreamEvent} (h : OneControl ctl fs) (hp : es <+: fs) :
    OneControl ctl es := by
  intro sid hs hne
  obtain ⟨t, ht⟩ := bytesOf_mono sid hp
  exact NotControl.left (b := t) (ht ▸ h sid hs hne)

section Settings

variable {env : Env}

/-- What the events leave of the unidirectional streams: the control stream as if it had come at once. -/
structure UniInv (env : Env) (ctl : Nat) (es : List StreamEvent) (u : (Nat → UniState) × Settings) : Prop where
  control : u.1 ctl = (parseRemoteUnidirStream env.mem .fresh .zero (bytesOf ctl es)).state
  settings : u.2 = (parseRemoteUnidirStream env.mem .fresh .zero (bytesOf ctl es)).settings
  others : ∀ sid, isUni sid = true → sid ≠ ctl → (u.1 sid).Other (bytesOf sid es)

theorem uniInv_nil (env : Env) (ctl : Nat) : UniInv env ctl [] (fun _ => .fresh, .zero) where
  control := congrArg Control.state (fresh_none Varint.decode_nil).symm
  settings := congrArg Control.settings (fresh_none Varint.decode_nil).symm
  others _ _ _ := .inl ⟨Varint.decode_nil, rfl⟩

theorem uniInv_step (S : SettingsStream env.mem) {ctl : Nat} (hctl : isUni ctl = true) {es : List StreamEvent}
    {e : StreamEvent} (hS : bytesOf ctl (es ++ [e]) <+: S.bytes) (hone : OneControl ctl (es ++ [e]))
    {u : (Nat → UniState) × Settings} (hu : UniInv env ctl es u) : UniInv env ctl (es ++ [e]) (uniStep env u e) := by
  obtain ⟨sid, d⟩ := e
  by_cases huni : isUni sid = true
  · have hstep : uniStep env u (sid, d) =
        (Function.update u.1 sid (parseRemoteUnidirStream env.mem (u.1 sid) u.2 d.bytes).state,
          (parseRemoteUnidirStream env.mem (u.1 sid) u.2 d.bytes).settings) := if_pos huni
    rw [hstep]
    -- the control stream itself, or one that must not be a second one
    by_cases hsid : sid = ctl
    · subst hsid
      rw [bytesOf_snoc] at hS
      have happend := S.unidir_append hS
      rw [← hu.control, ← hu.settings] at happend
      constructor
      · rw [bytesOf_snoc, happend]
        exact Function.update_self ..
      · rw [bytesOf_snoc, happend]
      · intro k hk hne
        rw [bytesOf_snoc_other (Ne.symm hne)]
        show (Function.update u.1 sid _ k).Other _
        rw [Function.update_of_ne hne]
        exact hu.others k hk hne
    · have hnot := hone sid huni hsid
      rw [bytesOf_snoc] at hnot
      obtain ⟨hset, hother⟩ :=
        @unidir_other env.mem (u.1 sid) u.2 d.bytes (bytesOf sid es) (hu.others sid huni hsid) hnot
      rw [hset]
      constructor
      · rw [bytesOf_snoc_other hsid, ← hu.control]
        exact Function.update_of_ne (Ne.symm hsid) ..
      · rw [bytesOf_snoc_other hsid]
        exact hu.settings
      · intro k hk hne
        show (Function.update u.1 sid _ k).Other _
        by_cases hks : k = sid
        · subst hks
          rw [bytesOf_snoc, Function.update_self]
          exact hother
        · rw [bytesOf_snoc_other (Ne.symm hks), Function.update_of_ne hks]
          exact hu.others k hk hne
  · have hstep : uniStep env u (sid, d) = u := if_neg huni
    have hbytes : ∀ k, isUni k = true → bytesOf k (es ++ [(sid, d)]) = bytesOf k es := by
      intro k hk
      have hne : sid ≠ k := fun heq => huni (heq ▸ hk)
      rw [bytesOf_snoc_other hne]
    rw [hstep]
    constructor
    · rw [hbytes ctl hctl]
      exact hu.control
    · rw [hbytes ctl hctl]
      exact hu.settings
    · intro k hk hne
      rw [hbytes k hk]
      exact hu.others k hk hne

theorem uniInv_run (S : SettingsStream env.mem) {ctl : Nat} (hctl : isUni ctl = true) (es : List StreamEvent)
    (hS : bytesOf ctl es <+: S.bytes) (hone : OneControl ctl es) :
    UniInv env ctl es (es.foldl (uniStep env) (fun _ => .fresh, .zero)) := by
  induction es using List.reverseRecOn with
  | nil => exact uniInv_nil env ctl
  | append_singleton es e ih =>
    have hp : es <+: es ++ [e] := List.prefix_append es [e]
    rw [List.foldl_append]
    exact uniInv_step S hctl hS hone (ih ((bytesOf_mono ctl hp).trans hS) (hone.mono hp))

end Settings

/-! ## The order of arrival -/

section Order

variable {env : Env} {c : Cnx} {s : State}

/-- The settings are those of the control stream if SETTINGS came whole before the CONNECT, and none otherwise. -/
theorem run_settings (hc : s.callback c = .h3) (S : SettingsStream env.mem) {ctl : Nat} (hctl : isUni ctl = true)
    {es : List StreamEvent} (hS : bytesOf ctl es <+: S.bytes) (hone : OneControl ctl es) :
    ((Connection.init s).run env c es).settings =
      if S.start.length ≤ (bytesOf ctl (upToConnect env s c es).1).length then S.received else .zero := by
  have hp : (upToConnect env s c es).1 <+: es := Keyed.cut_before es _
  have hSp := (bytesOf_mono ctl hp).trans hS
  have hinv := uniInv_run S hctl _ hSp (hone.mono hp)
  obtain ⟨hrun, -⟩ := @run_cut env c es (.init s) hc
  obtain ⟨s', hs'⟩ := S.unidir_upTo hSp
  calc ((Connection.init s).run env c es).settings
      = ((upToConnect env s c es).1.foldl (uniStep env) (fun _ => .fresh, .zero)).2 := congrArg Prod.snd hrun
    _ = (parseRemoteUnidirStream env.mem .fresh .zero (bytesOf ctl (upToConnect env s c es).1)).settings :=
        hinv.settings
    _ = _ := by rw [hs']

theorem run_server (hc : s.callback c = .h3) (es : List StreamEvent) :
    ((Connection.init s).run env c es).server = afterConnect env s c (upToConnect env s c es).2 :=
  (run_cut es (x := .init s) hc).2

theorem received_ne_zero {mem : Mem} (S : SettingsStream mem) : S.received ≠ .zero := by
  intro h
  exact Bool.false_ne_true (congrArg Settings.settingsReceived h).symm

theorem connect_streamId (s : State) (c : Cnx) (r : Connect) :
    (cameraPathCallback s c r).1.controlStreamId = r.streamId := by
  rcases Mquic.Server.Lifecycle.connect_cases s c r with ⟨-, h⟩ | ⟨-, h⟩ | ⟨-, h | ⟨-, h | h⟩⟩
  · rw [h]; rfl
  · rw [h]; rfl
  · rw [h]; rfl
  · rw [h]; rfl
  · rw [h]; rfl

theorem ite_inj {α : Type} {a b : α} (h : a ≠ b) {p q : Prop} [Decidable p] [Decidable q] :
    ((if p then a else b) = if q then a else b) ↔ (p ↔ q) := by
  by_cases hp : p
  · by_cases hq : q
    · simp [hp, hq]
    · simp [hp, hq, h]
  · by_cases hq : q
    · simp [hp, hq, h.symm]
    · simp [hp, hq]

/-- The sessions are the same exactly if the same CONNECT comes first. -/
theorem session_iff (hc : s.callback c = .h3) {I J : List StreamEvent} (h : Interleaves I J) :
    ((Connection.init s).run env c I).session = ((Connection.init s).run env c J).session ↔
      (upToConnect env s c I).2 = (upToConnect env s c J).2 := by
  have hsome : (upToConnect env s c I).2.isSome = (upToConnect env s c J).2.isSome := h.cut_isSome _
  unfold Connection.session
  rw [run_server hc I, run_server hc J]
  constructor
  · intro heq
    have hid := congrArg Prod.snd heq
    generalize (upToConnect env s c I).2 = a at hid hsome ⊢
    generalize (upToConnect env s c J).2 = b at hid hsome ⊢
    cases a with
    | none =>
      cases b with
      | none => rfl
      | some k => cases hsome
    | some j =>
      cases b with
      | none => cases hsome
      | some k =>
        have hjk : j = k :=
          calc j = (cameraPathCallback s c (env.connect j)).1.controlStreamId :=
              (connect_streamId s c (env.connect j)).symm
            _ = (cameraPathCallback s c (env.connect k)).1.controlStreamId := hid
            _ = k := connect_streamId s c (env.connect k)
        rw [hjk]
  · intro heq
    rw [heq]

/-- Two orders leave the same settings and the same session exactly if the same CONNECT comes first in both, and
SETTINGS came whole before it in both or in neither. -/
theorem arrival_order_iff (hc : s.callback c = .h3) (S : SettingsStream env.mem) {ctl : Nat} (hctl : isUni ctl = true)
    {I J : List StreamEvent} (h : Interleaves I J) (hS : bytesOf ctl I <+: S.bytes) (hone : OneControl ctl I) :
    (((Connection.init s).run env c I).settings = ((Connection.init s).run env c J).settings ∧
        ((Connection.init s).run env c I).session = ((Connection.init s).run env c J).session) ↔
      (upToConnect env s c I).2 = (upToConnect env s c J).2 ∧
        (S.start.length ≤ (bytesOf ctl (upToConnect env s c I).1).length ↔
          S.start.length ≤ (bytesOf ctl (upToConnect env s c J).1).length) := by
  have hbytes : ∀ sid, bytesOf sid J = bytesOf sid I := by
    intro sid
    unfold bytesOf
    rw [h sid]
  have hSJ : bytesOf ctl J <+: S.bytes := by
    rw [hbytes]
    exact hS
  have honeJ : OneControl ctl J := by
    intro sid hs hne
    rw [hbytes]
    exact hone sid hs hne
  rw [run_settings hc S hctl hS hone, run_settings hc S hctl hSJ honeJ, session_iff hc h, and_comm]
  exact and_congr_right fun _ => ite_inj (received_ne_zero S)

end Order

/-! ## A client's streams -/

/-- A control stream with SETTINGS_ENABLE_CONNECT_PROTOCOL. -/
def clientControl : SettingsStream .ample where
  streamType := [0]
  settings := ⟨h3zeroFrameSettings, [4, 2], [8, 1], by decide⟩
  frames := []
  decoded := { Settings.zero with enableConnectProtocol := true }
  control := by decide
  isSettings := rfl
  room := ⟨by decide, rfl⟩
  nonempty := List.cons_ne_nil _ _
  decodes := by
    have hkey : Mem.ample.framesVarintDecode.read [8, 1] = some (h3zeroSettingsEnableConnectProtocol, 1) := by decide
    have hvalue : Mem.ample.framesVarintDecode.read ([8, 1].drop 1) = some (1, 1) := by decide
    rw [settingsComponentsDecode_some hkey hvalue]
    exact settingsComponentsDecode_nil _ _
  follows := List.forall_mem_nil _

/-- Everything outside succeeds. -/
def Env.ample : Env := ⟨.ample, fun _ => true, fun _ => true, fun _ => true, fun _ => true, fun _ => 0, fun _ => 0⟩

def settingsEvent : StreamEvent := (2, ⟨[0, 4, 2, 8, 1], false⟩)

/-- A CONNECT for the camera, its method from the static table. -/
def connectEvent : StreamEvent := (0, ⟨[1, 12, 0, 0, 0xCF, 0x51, 7] ++ ascii "/camera", false⟩)

/-- The QPACK encoder's stream. -/
def qpackEvent : StreamEvent := (6, ⟨[2], false⟩)

theorem client_oneControl (es : List StreamEvent) (h6 : NotControl (bytesOf 6 es))
    (hes : ∀ e ∈ es, e.1 = 0 ∨ e.1 = 2 ∨ e.1 = 6) : OneControl 2 es := by
  intro sid hs hne
  by_cases hsid : sid = 6
  · exact hsid ▸ h6
  · have hnil : bytesOf sid es = [] := by
      have hnone : es.filter (fun e => decide (e.1 = sid)) = [] := by
        rw [List.filter_eq_nil_iff]
        intro e he heq
        have hkey := of_decide_eq_true heq
        rcases hes e he with h | h | h
        · rw [← hkey, h] at hs
          exact absurd hs (by decide)
        · exact hne (hkey.symm.trans h)
        · exact hsid (hkey.symm.trans h)
      unfold bytesOf onKey
      rw [hnone]
      rfl
    rw [hnil]
    exact notControl_nil

theorem qpack_notControl : NotControl (bytesOf 6 [qpackEvent, settingsEvent, connectEvent]) :=
  notControl_of_decode (show Varint.decode [2] = some (2, 1) by decide) (by decide)

theorem client_order :
    ((Connection.init (State.init 0)).run .ample 0 [qpackEvent, settingsEvent, connectEvent]).settings =
        ((Connection.init (State.init 0)).run .ample 0 [settingsEvent, qpackEvent, connectEvent]).settings ∧
      ((Connection.init (State.init 0)).run .ample 0 [qpackEvent, settingsEvent, connectEvent]).session =
        ((Connection.init (State.init 0)).run .ample 0 [settingsEvent, qpackEvent, connectEvent]).session :=
  (arrival_order_iff rfl clientControl (show isUni 2 = true from rfl) (Keyed.interleaves_swap (by decide) _ _ _)
    ⟨[], by decide⟩ (client_oneControl _ qpack_notControl (by decide))).2
    ⟨by decide +kernel, by decide +kernel⟩

/-- SETTINGS behind the CONNECT are lost. -/
theorem settings_behind_connect :
    ¬ ∀ (env : Env) (c : Cnx) (s : State) (S : SettingsStream env.mem) (ctl : Nat) (I J : List StreamEvent),
      s.callback c = .h3 → isUni ctl = true → Interleaves I J → bytesOf ctl I <+: S.bytes → OneControl ctl I →
      ((Connection.init s).run env c I).settings = ((Connection.init s).run env c J).settings ∧
        ((Connection.init s).run env c I).session = ((Connection.init s).run env c J).session := by
  intro hall
  have hone : ∀ I, I = [settingsEvent, connectEvent] ∨ I = [connectEvent, settingsEvent] → OneControl 2 I := by
    rintro I (rfl | rfl)
    · exact client_oneControl _ notControl_nil (by decide)
    · exact client_oneControl _ notControl_nil (by decide)
  have hsame := (hall .ample 0 (State.init 0) clientControl 2
    [settingsEvent, connectEvent] [connectEvent, settingsEvent]
    rfl rfl (Keyed.interleaves_swap (by decide) _ _ _) ⟨[], by decide⟩ (hone _ (.inl rfl))).1
  have hctl : isUni 2 = true := rfl
  rw [run_settings rfl clientControl hctl ⟨[], by decide⟩ (hone _ (.inl rfl)),
    run_settings rfl clientControl hctl ⟨[], by decide⟩ (hone _ (.inr rfl)), if_pos (by decide +kernel),
    if_neg (by decide +kernel)] at hsame
  exact received_ne_zero clientControl hsame

end Mquic.H3
