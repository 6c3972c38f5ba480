/-
What the events of one client do to the stream of another. All connections share one streamer context: a CONNECT on
any of them takes it over, and a stop on any connection that had its CONNECT lowers the flag for all.
-/
import Mquic.Server.Accept

namespace Mquic.Server.Lifecycle

open Network (maxPaths)

/-! ## What is claimed of a sequence of events -/

/-- The session started by the CONNECT of connection `A` is streaming. -/
def State.Streaming (s : State) (A : Cnx) : Prop := s.session = some A ∧ s.isSending = true

/-- What decides where the frames go: the connection, its session id, the bindings, and the flag. -/
structure Drive where
  cnx : Option Cnx
  controlStreamId : Nat
  bind : Fin maxPaths → Option Binding
  isSending : Bool

def State.drive (s : State) : Drive := ⟨s.cnx, s.controlStreamId, s.bind, s.isSending⟩

/-- The frames go to connection `A`, on streams opened on it. -/
def State.FramesGoTo (s : State) (A : Cnx) : Prop := s.cnx = some A ∧ ∀ i b, s.bind i = some b → b.cnx = A

/-- A sequence of events, each with its connection, as labels. -/
def labels (es : List (Cnx × Event)) : List Step := es.map fun e => .event e.1 e.2

/-- No connect, and no stop on a connection whose callback is `camera_wt_callback`. -/
def Harmless (s : State) (e : Cnx × Event) : Prop :=
  (∀ r, e.2 ≠ .connect r) ∧ (s.callback e.1 = .wt → e.2.stops = false)

/-! ## One event -/

section Events

variable {s s' : State}

/-- A harmless event leaves the stream alone and lets no connection change to or from `camera_wt_callback`. -/
theorem harmless_event {e : Cnx × Event} (he : Harmless s e) (h : step s (.event e.1 e.2) = some s') :
    s'.drive = s.drive ∧ ∀ c, s'.callback c = .wt ↔ s.callback c = .wt := by
  rcases deliver_cases h with ⟨r, hr, -, -⟩ | ⟨hcb, hst, -⟩ | ⟨hcb, -, rfl⟩ | ⟨-, -, rfl⟩
  · exact absurd hr (he.1 r)
  · have hno := he.2 hcb
    rw [hst] at hno
    cases hno
  · refine ⟨rfl, fun c => ?_⟩
    show Function.update s.callback e.1 Callback.closed c = .wt ↔ s.callback c = .wt
    rcases eq_or_ne c e.1 with rfl | hne
    · rw [Function.update_self, hcb]
      constructor <;> nofun
    · rw [Function.update_of_ne hne]
  · exact ⟨rfl, fun _ => Iff.rfl⟩

theorem harmless_congr {e : Cnx × Event} (hwt : ∀ c, s'.callback c = .wt ↔ s.callback c = .wt) :
    Harmless s' e ↔ Harmless s e := by
  unfold Harmless
  rw [hwt]

/-- The stream of `s` was taken over by a connection that had no CONNECT then, or stopped. -/
structure Spoiled (s t : State) : Prop where
  wt : ∀ c, s.callback c = .wt → t.callback c = .wt
  spoiled : (∃ c, t.cnx = some c ∧ s.callback c ≠ .wt) ∨ (t.cnx = s.cnx ∧ t.isSending = false)

theorem Spoiled.ne (h : Spoiled s s') (ho : Owned s) (hs : s.isSending = true) : s'.drive ≠ s.drive := by
  intro hd
  have hcnx : s'.cnx = s.cnx := congrArg Drive.cnx hd
  have hsend : s'.isSending = s.isSending := congrArg Drive.isSending hd
  rcases h.spoiled with ⟨c, hc, hwt⟩ | ⟨-, hdown⟩
  · exact hwt (ho.cnx c (hcnx.symm.trans hc))
  · rw [hsend, hs] at hdown
    cases hdown

/-- A connect on `c` keeps the others' callbacks. -/
theorem connect_keeps_wt (t : State) (c : Cnx) (r : Connect) {d : Cnx} (hd : t.callback d = .wt) :
    (cameraPathCallback t c r).1.callback d = .wt := by
  rw [(connect_adopts t c r).2.1]
  rcases eq_or_ne d c with rfl | hne
  · exact Function.update_self _ _ _
  · rwa [Function.update_of_ne hne]

/-- What a harmful event does. -/
theorem harmful_event {e : Cnx × Event} (he : ¬ Harmless s e) (h : step s (.event e.1 e.2) = some s') :
    Spoiled s s' := by
  rcases deliver_cases h with ⟨r, -, hcb, rfl⟩ | ⟨-, -, rfl⟩ | ⟨hcb, -, rfl⟩ | ⟨hno, hst, rfl⟩
  · refine ⟨fun d hd => connect_keeps_wt s e.1 r hd, .inl ⟨e.1, (connect_adopts s e.1 r).1, ?_⟩⟩
    rw [hcb]
    nofun
  · exact ⟨fun _ hd => hd, .inr ⟨rfl, rfl⟩⟩
  · -- not a connect, and the callback is not the one that stops
    refine absurd ⟨?_, fun hwt => ?_⟩ he
    · rintro r hr
      rw [hr] at h
      simp only [step, deliver, hcb, Option.some.injEq] at h
      have hc := congrArg (fun t => t.callback e.1) h
      simp only [(connect_adopts s e.1 r).2.1, Function.update_self] at hc
      cases hc
    · rw [hcb] at hwt
      cases hwt
  · exact absurd ⟨hno, hst⟩ he

/-- Nothing that follows gives the stream back. -/
theorem Spoiled.event {t t' : State} (h : Spoiled s t) {c : Cnx} {ev : Event} (hd : step t (.event c ev) = some t') :
    Spoiled s t' := by
  rcases deliver_cases hd with ⟨r, -, hcb, rfl⟩ | ⟨-, -, rfl⟩ | ⟨hcb, -, rfl⟩ | ⟨-, -, rfl⟩
  · refine ⟨fun d hd => connect_keeps_wt t c r (h.wt d hd), .inl ⟨c, (connect_adopts t c r).1, fun hwt => ?_⟩⟩
    have := h.wt c hwt
    rw [hcb] at this
    cases this
  · refine ⟨h.wt, ?_⟩
    rcases h.spoiled with hc | ⟨hc, -⟩
    · exact .inl hc
    · exact .inr ⟨hc, rfl⟩
  · refine ⟨fun d hwt => ?_, h.spoiled⟩
    have hne : d ≠ c := by
      rintro rfl
      rw [h.wt d hwt] at hcb
      cases hcb
    show Function.update t.callback c Callback.closed d = .wt
    rw [Function.update_of_ne hne]
    exact h.wt d hwt
  · exact h

theorem Spoiled.run {s : State} : ∀ (es : List (Cnx × Event)) {t t' : State}, Spoiled s t →
    Lts.run step t (labels es) = some t' → Spoiled s t'
  | [], _, _, hsp, h => by cases h; exact hsp
  | _ :: es, _, _, hsp, h => by
    obtain ⟨t1, h1, h2⟩ := Lts.run_cons_some h
    exact Spoiled.run es (hsp.event h1) h2

/-! ## Sequences of events -/

/-- While a stream is running, a sequence of events leaves it as it is exactly if each of them is harmless. -/
theorem drive_iff : ∀ (es : List (Cnx × Event)) {s s' : State}, Owned s → s.isSending = true →
    Lts.run step s (labels es) = some s' → (s'.drive = s.drive ↔ ∀ e ∈ es, Harmless s e)
  | [], s, s', _, _, h => by
    cases h
    simp
  | e :: es, s, s', ho, hs, h => by
    obtain ⟨s1, h1, h2⟩ := Lts.run_cons_some h
    by_cases he : Harmless s e
    · obtain ⟨hd, hwt⟩ := harmless_event he h1
      have hs1 : s1.isSending = true := (congrArg Drive.isSending hd).trans hs
      have ih := drive_iff es (ho.step h1) hs1 h2
      rw [← hd, ih]
      constructor
      · rintro hall x hx
        rcases List.mem_cons.1 hx with rfl | hx
        · exact he
        · exact (harmless_congr hwt).1 (hall x hx)
      · rintro hall x hx
        exact (harmless_congr hwt).2 (hall x (List.mem_cons_of_mem _ hx))
    · have hsp := Spoiled.run es (harmful_event he h1) h2
      constructor
      · exact fun hd => absurd hd (hsp.ne ho hs)
      · exact fun hall => absurd (hall e List.mem_cons_self) he

/-! ## Where the frames go -/

theorem FramesGoTo.openBinding {A : Cnx} (h : s.FramesGoTo A) (i : Fin maxPaths) (sid : Nat) :
    (s.openBinding i sid).FramesGoTo A := by
  obtain ⟨hcnx, hbind⟩ := h
  unfold State.openBinding
  split
  · rename_i c hc hnone
    obtain rfl : c = A := Option.some.inj (hc.symm.trans hcnx)
    refine ⟨hcnx, fun j b hb => ?_⟩
    have hb' : Function.update s.bind i (some ⟨sid, c⟩) j = some b := hb
    rcases eq_or_ne j i with rfl | hne
    · rw [Function.update_self] at hb'
      cases hb'
      rfl
    · rw [Function.update_of_ne hne] at hb'
      exact hbind j b hb'
  · exact ⟨hcnx, hbind⟩

/-- Only a connect turns the frames to another connection. -/
theorem FramesGoTo.step {A : Cnx} (h : s.FramesGoTo A) {e : Step} (hc : ∀ c r, e ≠ .event c (.connect r))
    (he : step s e = some s') : s'.FramesGoTo A := by
  cases step_moved he with
  | event hd =>
    rcases deliver_cases hd with ⟨r, rfl, -, -⟩ | ⟨-, -, rfl⟩ | ⟨-, -, rfl⟩ | ⟨-, -, rfl⟩
    · exact absurd rfl (hc _ r)
    · exact h
    · exact h
    · exact h
  | networkStart hk =>
    unfold State.start
    split
    · exact h
    · refine ⟨h.1, ?_⟩
      rintro i b hb
      cases hb
  | networkOpen => exact FramesGoTo.openBinding h _ _
  | cameraCheck | networkCheck | networkDisconnecting | networkLengthRefused | networkPayloadRefused
  | networkRound => exact h

/-- In a run without connects the frames keep going to the same connection, on streams opened on it. -/
theorem frames_keep_going {A : Cnx} {es : List Step} (h : s.FramesGoTo A)
    (hc : Lts.Meets step (fun _ e => ∀ c r, e ≠ .event c (.connect r)) s es) (hrun : Lts.run step s es = some s') :
    s'.FramesGoTo A :=
  Lts.inv_run (fun _ _ _ hi hc h => FramesGoTo.step hi hc h) es s s' h hc hrun

theorem reachable_owned {maxFrames : Nat} (h : Lts.Reachable step (State.init maxFrames) s) : Owned s :=
  h.inv (init_running maxFrames).owned fun _ _ _ hi he => Owned.step hi he

end Events

/-- In every reachable state in which a session is streaming, a sequence of events on any connections leaves the
connection, the session id, the bindings and the flag as they are, and so the frames on their way to connection
`A`, if and only if none is a connect, nor a stop on a connection that had its CONNECT. -/
theorem isolated_iff (maxFrames : Nat) {s s' : State} {A : Cnx} {es : List (Cnx × Event)}
    (hr : Lts.Reachable step (State.init maxFrames) s) (hs : s.Streaming A)
    (h : Lts.run step s (labels es) = some s') :
    (s'.drive = s.drive ∧ (s.FramesGoTo A → s'.FramesGoTo A)) ↔ ∀ e ∈ es, Harmless s e := by
  rw [← drive_iff es (reachable_owned hr) hs.2 h]
  constructor
  · exact And.left
  · intro hd
    refine ⟨hd, fun hto => ⟨(congrArg Drive.cnx hd).trans hto.1, fun i b hb => hto.2 i b ?_⟩⟩
    rw [← hb]
    exact (congrFun (congrArg Drive.bind hd) i).symm

/-- Connection 1 connects and streams. -/
def firstSession : List Step :=
  [.event 1 (.connect accepted), .networkStart 0, .networkOpen 0 firstPath 3, .networkCheck 0]

/-- Connections that never connected come to their end. -/
def strangers : List (Cnx × Event) := [(2, .streamReset), (2, .close), (3, .statelessReset)]

theorem strangers_isolated :
    (Lts.run step (State.init 10) (firstSession ++ labels strangers)).map (fun s => (s.cnx, s.isSending)) =
        some (some 1, true) ∧
      ∀ s s', Lts.run step (State.init 10) firstSession = some s → Lts.run step s (labels strangers) = some s' →
        s'.drive = s.drive := by
  refine ⟨by decide, fun s s' hs hs' => ?_⟩
  have hshown : (Lts.run step (State.init 10) firstSession).map
      (fun s => (s.session, s.isSending, s.callback 2, s.callback 3)) = some (some 1, true, .h3, .h3) := by decide
  rw [hs] at hshown
  simp only [Option.map_some, Option.some.injEq, Prod.mk.injEq] at hshown
  obtain ⟨hsession, hsend, h2, h3⟩ := hshown
  refine ((isolated_iff 10 ⟨firstSession, hs⟩ ⟨hsession, hsend⟩ hs').2 ?_).1
  simp [strangers, Harmless, h2, h3]

/-- A second client connects while the first one's session streams. -/
def intruder : List (Cnx × Event) := [(2, .connect accepted)]

/-- Its CONNECT takes the context over: session 1, connection 2, and a binding that is a stream of 1. -/
theorem intruder_takes_over :
    (Lts.run step (State.init 10) (firstSession ++ labels intruder)).map
        (fun s => (s.session, s.cnx, s.bind firstPath, s.isSending)) = some (some 1, some 2, some ⟨3, 1⟩, true) ∧
      ¬ ∀ maxFrames s s' A es, Lts.Reachable step (State.init maxFrames) s → s.Streaming A →
        (∀ e ∈ es, Prod.fst e ≠ A) → Lts.run step s (labels es) = some s' → s'.drive = s.drive := by
  have hrun : (Lts.run step (State.init 10) (firstSession ++ labels intruder)).map
      (fun s => (s.session, s.cnx, s.bind firstPath, s.isSending)) = some (some 1, some 2, some ⟨3, 1⟩, true) := by
    decide
  refine ⟨hrun, fun hall => ?_⟩
  obtain ⟨s', hs', hshown'⟩ := Option.map_eq_some_iff.1 hrun
  obtain ⟨s, hs, hrest⟩ := Lts.run_append_some hs'
  have hshown : (Lts.run step (State.init 10) firstSession).map (fun s => (s.session, s.isSending, s.cnx)) =
      some (some 1, true, some 1) := by decide
  rw [hs] at hshown
  simp only [Option.map_some, Option.some.injEq, Prod.mk.injEq] at hshown hshown'
  have hd := hall 10 s s' 1 intruder ⟨firstSession, hs⟩ ⟨hshown.1, hshown.2.1⟩ (by decide) hrest
  have hcnx : s'.cnx = s.cnx := congrArg Drive.cnx hd
  rw [hshown'.2.1, hshown.2.2] at hcnx
  cases hcnx

end Mquic.Server.Lifecycle
