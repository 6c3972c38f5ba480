/-
What the network thread puts on which stream. In every run in which each frame that is taken finds a stream
bound to the path chosen for it, all bytes go to streams that were opened before, and each such stream carries
the WebTransport header and whole records; at most the record the run ends inside is cut short.
-/
import Mquic.Server.Network

namespace Mquic.Server.Network

open Mquic.Codec

/-! ## What the writes amount to -/

/-- The streams whose header was accepted. -/
def opened (ws : List Write) : List Nat := (ws.filter fun w => w.opens && w.accepted).map (·.sid)

/-- The bytes accepted on a stream. -/
def written (ws : List Write) (sid : Nat) : List UInt8 :=
  ws.flatMap fun w => if w.accepted = true ∧ w.sid = sid then w.bytes else []

/-- Every write of bytes, the opening headers apart, goes to a stream opened before it. -/
def OnlyOpened (ws : List Write) : Prop :=
  ∀ pre w post, ws = pre ++ w :: post → w.bytes ≠ [] → w.opens = false → w.sid ∈ opened pre

/-- The part of a record that is out. -/
def Sending.sofar (x : Sending) : List UInt8 := quicVarintEncode x.fbSz ++ x.payload

/-- The bytes of an unfinished record that are on stream `sid`. -/
def unfinishedOn : Option Sending → Nat → List UInt8
  | some x, sid => if x.sid = sid then x.sofar else []
  | none, _ => []

/-- Stream `sid` carries the header, whole records, and the start of the unfinished one if it is there. -/
def RecordsOn (controlStreamId : Nat) (ws : List Write) (u : Option Sending) (sid : Nat) : Prop :=
  ∃ frames, (∀ f ∈ frames, IsFrame f) ∧ written ws sid = streamBytes controlStreamId frames ++ unfinishedOn u sid

/-- The record being sent, or the one the run ended inside. -/
def State.unfinished (s : State) : Option Sending :=
  match s.pc with
  | .payload x => some x
  | .piece x => some x
  | _ => s.cut

/-- The thread is on its way out and sends no further record. -/
def State.Ending (s : State) : Prop :=
  s.isSending = false ∧ (s.pc = .tail ∨ s.pc = .head ∨ s.pc = .finish ∨ s.pc = .over)

/-- What is claimed of a state: bytes go to opened streams only, these carry records, and a record stays cut
only in a thread on its way out. -/
structure State.Proper (s : State) : Prop where
  onlyOpened : OnlyOpened s.writes
  records : ∀ sid ∈ opened s.writes, RecordsOn s.controlStreamId s.writes s.unfinished sid
  cut : s.cut ≠ none → s.Ending

/-! ## Conditions on a step -/

/-- `ensure_stream_for_path` can open a stream for index `idx`. -/
def CanOpen (paths : Paths) (idx : Nat) (o : Opening) : Prop :=
  idx < paths.length ∧ (paths.at idx).bind Path.firstTuple = some true ∧ o.sid % 4 = 3 ∧ o.accepted = true

instance (paths : Paths) (idx : Nat) (o : Opening) : Decidable (CanOpen paths idx o) :=
  inferInstanceAs (Decidable (_ ∧ _))

/-- A frame is taken only when the index chosen for it has a binding that is ready or can be opened. -/
def FrameHasStream (s : State) : Step → Prop
  | .serve paths o (some _) =>
    match s.pc with
    | .serve idx => idx < maxPaths ∧ ((s.bind idx).ready = true ∨ CanOpen paths idx o)
    | _ => True
  | _ => True

instance (s : State) : ∀ e, Decidable (FrameHasStream s e)
  | .serve paths o (some _) =>
    match h : s.pc with
    | .serve idx =>
      decidable_of_iff (idx < maxPaths ∧ ((s.bind idx).ready = true ∨ CanOpen paths idx o))
        (by simp [FrameHasStream, h])
    | .pickFirst | .openFirst | .head | .pickProbe | .openProbe _ | .pickSend | .idle | .length _ | .payload _
    | .piece _ | .tail | .finish | .over => isTrue (by simp [FrameHasStream, h])
  | .serve _ _ none | .pickFirst _ | .openFirst _ _ _ | .head _ | .pickProbe _ _ | .openProbe _ _ _ | .pickSend _
  | .idle _ _ _ _ | .sendLength _ | .checkPayload _ | .sendPiece _ _ _ | .tail | .finish _ _
  | .stopRequest => isTrue trivial

/-- picoquic's answer to a step that may open a stream. -/
def Step.opening : Step → Option Opening
  | .openFirst _ o _ => some o
  | .openProbe _ o _ => some o
  | .serve _ o _ => some o
  | .idle _ o _ _ => some o
  | _ => none

/-- `picoquic_get_next_local_stream_id` names a stream on which nothing was sent. -/
def FreshId (s : State) (e : Step) : Prop := ∀ o ∈ e.opening, ∀ w ∈ s.writes, w.accepted = true → w.sid ≠ o.sid

instance (s : State) (e : Step) : Decidable (FreshId s e) := inferInstanceAs (Decidable (∀ o ∈ _, _))

/-! ## One more write -/

theorem opened_snoc (ws : List Write) (w : Write) :
    opened (ws ++ [w]) = opened ws ++ if w.opens = true ∧ w.accepted = true then [w.sid] else [] := by
  unfold opened
  rw [List.filter_append, List.map_append]
  by_cases h : w.opens = true ∧ w.accepted = true
  · simp [h]
  · rw [if_neg h, List.filter_cons_of_neg (by simpa using h)]
    rfl

theorem fresh_not_opened {ws : List Write} {o : Opening} (hf : ∀ w ∈ ws, w.accepted = true → w.sid ≠ o.sid) :
    o.sid ∉ opened ws := by
  rintro hmem
  obtain ⟨w, hw, he⟩ := List.mem_map.1 hmem
  obtain ⟨hw, hop⟩ := List.mem_filter.1 hw
  rw [Bool.and_eq_true] at hop
  exact hf w hw hop.2 he

theorem written_snoc (ws : List Write) (w : Write) (sid : Nat) :
    written (ws ++ [w]) sid = written ws sid ++ if w.accepted = true ∧ w.sid = sid then w.bytes else [] := by
  simp [written]

theorem OnlyOpened.snoc {ws : List Write} (h : OnlyOpened ws) {w : Write}
    (hw : w.bytes ≠ [] → w.opens = false → w.sid ∈ opened ws) : OnlyOpened (ws ++ [w]) := by
  rintro pre v post heq
  rcases List.eq_nil_or_concat post with rfl | ⟨post', v', rfl⟩
  · obtain ⟨rfl, rfl⟩ := List.append_singleton_inj.1 heq
    exact hw
  · have heq' : ws ++ [w] = (pre ++ v :: post') ++ [v'] := by simpa using heq
    exact h pre v post' (List.append_singleton_inj.1 heq').1

/-- The writes so far and the record being sent. -/
structure Streams (controlStreamId : Nat) (ws : List Write) (u : Option Sending) : Prop where
  onlyOpened : OnlyOpened ws
  records : ∀ sid ∈ opened ws, RecordsOn controlStreamId ws u sid
  unopened : ∀ sid ∉ opened ws, written ws sid = []
  inside : ∀ x ∈ u, x.sid ∈ opened ws ∧ 0 < x.fbSz ∧ x.fbSz ≤ frameBufferBytes ∧ x.payload.length ≤ x.fbSz

section Log

variable {S : Nat} {ws : List Write} {u : Option Sending}

theorem Streams.nil : Streams S [] none where
  onlyOpened := by rintro pre w post h; simp at h
  records := by rintro sid h; cases h
  unopened _ _ := rfl
  inside := nofun

/-- A write that adds no bytes and opens nothing. -/
theorem Streams.quiet (h : Streams S ws u) {w : Write} (hq : w.accepted = false ∨ (w.bytes = [] ∧ w.opens = false))
    (hw : w.bytes ≠ [] → w.opens = false → w.sid ∈ opened ws) : Streams S (ws ++ [w]) u := by
  have ho : opened (ws ++ [w]) = opened ws := by
    rw [opened_snoc, if_neg, List.append_nil]
    rcases hq with hq | hq
    · simp [hq]
    · simp [hq.2]
  have hwr : ∀ sid, written (ws ++ [w]) sid = written ws sid := by
    rintro sid
    rw [written_snoc]
    rcases hq with hq | hq
    · simp [hq]
    · simp [hq.1]
  constructor
  · exact h.onlyOpened.snoc hw
  · rintro sid hs
    rw [ho] at hs
    obtain ⟨frames, hf, he⟩ := h.records sid hs
    exact ⟨frames, hf, by rw [hwr, he]⟩
  · rintro sid hs
    rw [ho] at hs
    rw [hwr, h.unopened sid hs]
  · rintro x hx
    rw [ho]
    exact h.inside x hx

/-- An accepted header on a fresh stream. -/
theorem Streams.header (h : Streams S ws u) {w : Write} (ha : w.accepted = true) (hop : w.opens = true)
    (hb : w.bytes = wtHeader S) (hfresh : w.sid ∉ opened ws) : Streams S (ws ++ [w]) u := by
  have ho : opened (ws ++ [w]) = opened ws ++ [w.sid] := by rw [opened_snoc, if_pos ⟨hop, ha⟩]
  have hother : ∀ sid, sid ≠ w.sid → written (ws ++ [w]) sid = written ws sid := by
    rintro sid hne
    rw [written_snoc, if_neg (fun hc => hne hc.2.symm), List.append_nil]
  constructor
  · exact h.onlyOpened.snoc fun _ hf => absurd hop (by simp [hf])
  · rintro sid hs
    rcases eq_or_ne sid w.sid with rfl | hne
    · -- the unfinished record is on a stream opened before
      have hu : unfinishedOn u w.sid = [] := by
        cases u with
        | none => rfl
        | some x => exact if_neg (fun he : x.sid = w.sid => hfresh (he ▸ (h.inside x rfl).1))
      refine ⟨[], by simp, ?_⟩
      rw [written_snoc, if_pos ⟨ha, rfl⟩, h.unopened _ hfresh, hb, hu]
      simp [streamBytes, streamWrites]
    · have hs' : sid ∈ opened ws := by
        rw [ho] at hs
        rcases List.mem_append.1 hs with hs | hs
        · exact hs
        · exact absurd (List.mem_singleton.1 hs) hne
      obtain ⟨frames, hf, he⟩ := h.records sid hs'
      exact ⟨frames, hf, by rw [hother sid hne, he]⟩
  · rintro sid hs
    rw [ho, List.mem_append, not_or] at hs
    rw [hother sid (fun he => hs.2 (List.mem_singleton.2 he)), h.unopened sid hs.1]
  · rintro x hx
    obtain ⟨hx1, hx2⟩ := h.inside x hx
    rw [ho]
    exact ⟨List.mem_append_left _ hx1, hx2⟩

/-- Bytes accepted on an opened stream move the unfinished record on by as much. -/
theorem Streams.extend (h : Streams S ws u) {w : Write} {x : Sending} (ha : w.accepted = true)
    (hop : w.opens = false) (hsid : w.sid = x.sid) (hx : x.sid ∈ opened ws)
    (hsz : 0 < x.fbSz ∧ x.fbSz ≤ frameBufferBytes ∧ x.payload.length ≤ x.fbSz)
    (hgrow : ∀ sid, unfinishedOn (some x) sid = unfinishedOn u sid ++ if x.sid = sid then w.bytes else []) :
    Streams S (ws ++ [w]) (some x) := by
  have ho : opened (ws ++ [w]) = opened ws := by rw [opened_snoc, if_neg (by simp [hop]), List.append_nil]
  constructor
  · exact h.onlyOpened.snoc fun _ _ => hsid ▸ hx
  · rintro sid hs
    rw [ho] at hs
    obtain ⟨frames, hf, he⟩ := h.records sid hs
    refine ⟨frames, hf, ?_⟩
    rw [written_snoc, he, hgrow, List.append_assoc]
    simp only [ha, hsid, true_and]
  · rintro sid hs
    rw [ho] at hs
    have hne : w.sid ≠ sid := by
      rintro rfl
      exact hs (hsid ▸ hx)
    rw [written_snoc, if_neg (fun hc => hne hc.2), h.unopened sid hs, List.append_nil]
  · rintro y ⟨⟩
    rw [ho]
    exact ⟨hx, hsz⟩

/-- A record whose payload is out is a whole record. -/
theorem Streams.complete {x : Sending} (h : Streams S ws (some x)) (hdone : x.payload.length = x.fbSz) :
    Streams S ws none := by
  obtain ⟨hx, hpos, hle, -⟩ := h.inside x rfl
  refine ⟨h.onlyOpened, fun sid hs => ?_, h.unopened, nofun⟩
  obtain ⟨frames, hf, he⟩ := h.records sid hs
  by_cases hsid : x.sid = sid
  · refine ⟨frames ++ [x.payload], ?_, ?_⟩
    · rintro f hmem
      rcases List.mem_append.1 hmem with hmem | hmem
      · exact hf f hmem
      · rw [List.mem_singleton.1 hmem]
        constructor
        · omega
        · omega
    · rw [he, streamBytes_snoc, unfinishedOn, if_pos hsid, Sending.sofar, ← hdone]
      simp [unfinishedOn]
  · refine ⟨frames, hf, ?_⟩
    rw [he, unfinishedOn, if_neg hsid]
    rfl

end Log

/-- Empty writes that open nothing. -/
theorem Streams.fins {S : Nat} {u : Option Sending} : ∀ (fins ws : List Write), Streams S ws u →
    (∀ w ∈ fins, w.bytes = [] ∧ w.opens = false) → Streams S (ws ++ fins) u
  | [], ws, h, _ => by rwa [List.append_nil]
  | w :: fins, ws, h, hf => by
    have hw := hf w List.mem_cons_self
    have hrest := Streams.fins fins (ws ++ [w]) (h.quiet (.inr hw) fun hb => absurd hw.1 hb)
      fun v hv => hf v (List.mem_cons_of_mem _ hv)
    rwa [List.append_assoc] at hrest

/-! ## Opening a stream -/

/-- The part of the invariant that the place of the thread does not matter for. -/
structure Core (S : Nat) (s : State) (u : Option Sending) : Prop where
  session : s.controlStreamId = S
  streams : Streams S s.writes u
  bound : ∀ i < maxPaths, (s.bind i).ready = true → (s.bind i).sid ∈ opened s.writes

section Ensure

variable {S : Nat} {s : State} {u : Option Sending}

/-- A binding that can be opened is ready afterwards, and a ready one stays. -/
theorem ensure_ready {paths : Paths} {idx : Nat} {o : Opening} (hidx : idx < maxPaths)
    (h : (s.bind idx).ready = true ∨ CanOpen paths idx o) :
    ((ensureStreamForPath s paths idx o).1.bind idx).ready = true := by
  by_cases hready : (s.bind idx).ready = true
  · unfold ensureStreamForPath
    split
    · exact hready
    · simp [hready]
  · obtain ⟨hlen, hv, hu, ha⟩ := h.resolve_left hready
    obtain ⟨path, hp, hv⟩ := Option.bind_eq_some_iff.1 hv
    have hout : ¬ (paths.length ≤ idx ∨ maxPaths ≤ idx) := by omega
    simp [ensureStreamForPath, hout, hready, hp, hv, hu, ha, State.bound]

/-- Opening a stream leaves the thread where it is. -/
theorem ensure_frame (s : State) (paths : Paths) (idx : Nat) (o : Opening) :
    (ensureStreamForPath s paths idx o).1.cut = s.cut ∧
      (ensureStreamForPath s paths idx o).1.isSending = s.isSending := by
  rcases ensure_cases s paths idx o with h | ⟨path, -, h⟩ | ⟨path, -, h⟩ <;> rw [h] <;> exact ⟨rfl, rfl⟩

/-- More writes leave the bound streams opened. -/
theorem Core.bound_append (h : Core S s u) (ws : List Write) :
    ∀ i < maxPaths, (s.bind i).ready = true → (s.bind i).sid ∈ opened (s.writes ++ ws) := by
  intro i hi hr
  unfold opened
  rw [List.filter_append, List.map_append]
  exact List.mem_append_left _ (h.bound i hi hr)

theorem Core.write (h : Core S s u) {w : Write} (hq : w.accepted = false ∨ (w.bytes = [] ∧ w.opens = false))
    (hw : w.bytes ≠ [] → w.opens = false → w.sid ∈ opened s.writes) : Core S (s.write w) u := by
  constructor
  · exact h.session
  · exact h.streams.quiet hq hw
  · exact h.bound_append [w]

theorem Core.touch (h : Core S s u) (idx : Nat) (path : Option Path) (accepted : Bool) :
    Core S (touch s idx path accepted) u := h.write (.inr ⟨rfl, rfl⟩) fun hb => absurd rfl hb

theorem Core.ensure (h : Core S s u) (paths : Paths) (idx : Nat) {o : Opening}
    (hf : ∀ w ∈ s.writes, w.accepted = true → w.sid ≠ o.sid) : Core S (ensureStreamForPath s paths idx o).1 u := by
  rcases ensure_cases s paths idx o with he | ⟨path, ha, he⟩ | ⟨path, ⟨ha, -⟩, he⟩
  · rwa [he]
  · rw [he]
    exact h.write (.inl ha) fun _ ho => nomatch ho
  · rw [he]
    have hb : wtHeader s.controlStreamId = wtHeader S := by rw [h.session]
    constructor
    · exact h.session
    · exact h.streams.header ha rfl hb (fresh_not_opened hf)
    · -- the new binding names the new stream, the others streams opened before
      rintro i hi hr
      show (Function.update s.bind idx ⟨idx, o.sid, true⟩ i).sid ∈ opened (s.writes ++ [headerWrite s path o])
      rw [opened_snoc, if_pos ⟨rfl, ha⟩]
      rcases eq_or_ne i idx with rfl | hne
      · rw [Function.update_self]
        exact List.mem_append_right _ (List.mem_singleton.2 rfl)
      · have hr' : (Function.update s.bind idx ⟨idx, o.sid, true⟩ i).ready = true := hr
        rw [Function.update_of_ne hne] at hr' ⊢
        exact List.mem_append_left _ (h.bound i hi hr')

end Ensure

/-! ## The invariant -/

/-- The places where no record is being sent and none was cut. -/
def Pc.plain : Pc → Bool
  | .pickFirst | .openFirst | .pickProbe | .openProbe _ | .pickSend | .serve _ | .idle => true
  | _ => false

structure Inv (S : Nat) (s : State) : Prop where
  core : Core S s s.unfinished
  length : ∀ x, s.pc = .length x →
    x.sid ∈ opened s.writes ∧ 0 < x.fbSz ∧ x.fbSz ≤ frameBufferBytes ∧ x.payload = []
  cut : s.cut ≠ none → s.Ending

section Steps

variable {S : Nat} {s s' : State}

theorem enter_inv (allocated : Bool) (behind : Nat → MpBinding) (S maxFrames : Nat) :
    Inv S (State.enter allocated behind S maxFrames) where
  core := by
    refine ⟨rfl, Streams.nil, fun i hi hr => ?_⟩
    have : (if i < maxPaths then (⟨0, 0, false⟩ : MpBinding) else behind i).ready = true := hr
    rw [if_pos hi] at this
    cases this
  length := nofun
  cut h := absurd rfl h

theorem Inv.proper (h : Inv S s) : s.Proper where
  onlyOpened := h.core.streams.onlyOpened
  records sid hs := by
    rw [h.core.session]
    exact h.core.streams.records sid hs
  cut := h.cut

theorem Inv.no_cut (h : Inv S s) (hpc : ¬ (s.pc = .tail ∨ s.pc = .head ∨ s.pc = .finish ∨ s.pc = .over)) :
    s.cut = none := by
  by_contra hne
  exact hpc (h.cut hne).2

theorem unfinished_plain (hpc : s.pc.plain = true) : s.unfinished = s.cut := by
  unfold State.unfinished
  split
  · rename_i he
    rw [he] at hpc
    cases hpc
  · rename_i he
    rw [he] at hpc
    cases hpc
  · rfl

theorem Inv.of_plain (h : Inv S s) (hpc : s.pc.plain = true) : Core S s none ∧ s.cut = none := by
  have hcut : s.cut = none := h.no_cut (by rintro (h | h | h | h) <;> rw [h] at hpc <;> cases hpc)
  have hcore := h.core
  rw [unfinished_plain hpc, hcut] at hcore
  exact ⟨hcore, hcut⟩

theorem unfinished_ending (hpc : s.pc = .tail ∨ s.pc = .head ∨ s.pc = .finish ∨ s.pc = .over) :
    s.unfinished = s.cut := by
  rcases hpc with hpc | hpc | hpc | hpc <;> simp only [State.unfinished, hpc]

theorem Inv.of_ending (h : Inv S s) (hpc : s.pc = .tail ∨ s.pc = .head ∨ s.pc = .finish ∨ s.pc = .over) :
    Core S s s.cut ∧ (s.cut ≠ none → s.isSending = false) := by
  have hcore := h.core
  rw [unfinished_ending hpc] at hcore
  exact ⟨hcore, fun hne => (h.cut hne).1⟩

theorem Inv.of_sending (h : Inv S s) {x : Sending} (hpc : s.pc = .payload x ∨ s.pc = .piece x) :
    Core S s (some x) ∧ s.cut = none := by
  have hcore := h.core
  have hcut : s.cut = none := h.no_cut (by rcases hpc with hpc | hpc <;> rw [hpc] <;> simp)
  have hx : s.unfinished = some x := by rcases hpc with hpc | hpc <;> simp only [State.unfinished, hpc]
  rw [hx] at hcore
  exact ⟨hcore, hcut⟩

/-- The core does not depend on where the thread is. -/
theorem Core.congr {u : Option Sending} (h : Core S s u) (hc : s'.controlStreamId = s.controlStreamId)
    (hw : s'.writes = s.writes) (hb : s'.bind = s.bind) : Core S s' u :=
  ⟨hc.trans h.session, hw ▸ h.streams, by rw [hb, hw]; exact h.bound⟩

/-- The thread goes on to a place without a record. -/
theorem Core.to_plain (h : Core S s none) (hc : s'.controlStreamId = s.controlStreamId)
    (hw : s'.writes = s.writes) (hb : s'.bind = s.bind) (hcut : s'.cut = none) (hpc : s'.pc.plain = true) :
    Inv S s' where
  core := by
    rw [unfinished_plain hpc, hcut]
    exact h.congr hc hw hb
  length x hx := by rw [hx] at hpc; cases hpc
  cut hne := absurd hcut hne

/-- The thread goes on to the loop's end, its head or its way out. -/
theorem Core.to_ending {u : Option Sending} (h : Core S s u) (hu : s'.cut = u)
    (hc : s'.controlStreamId = s.controlStreamId)
    (hw : s'.writes = s.writes) (hb : s'.bind = s.bind) (hcut : s'.cut ≠ none → s'.isSending = false)
    (hpc : s'.pc = .tail ∨ s'.pc = .head ∨ s'.pc = .finish ∨ s'.pc = .over) : Inv S s' where
  core := by
    rw [unfinished_ending hpc, hu]
    exact h.congr hc hw hb
  length x hx := by rcases hpc with hpc | hpc | hpc | hpc <;> rw [hpc] at hx <;> cases hx
  cut hne := ⟨hcut hne, hpc⟩

/-! ## Choosing a path -/

theorem pickFirst_inv (hi : Inv S s) (hpc : s.pc = .pickFirst) (paths : Paths) : Inv S (pickFirst s paths) := by
  obtain ⟨hc, hcut⟩ := hi.of_plain (by rw [hpc]; rfl)
  exact hc.to_plain rfl rfl rfl hcut rfl

theorem openFirst_inv (hi : Inv S s) (hpc : s.pc = .openFirst) {paths : Paths} {o : Opening} {nowUs : Nat}
    (hf : ∀ w ∈ s.writes, w.accepted = true → w.sid ≠ o.sid) : Inv S (openFirst s paths o nowUs) := by
  obtain ⟨hc, hcut⟩ := hi.of_plain (by rw [hpc]; rfl)
  have hcut' : (openFirst s paths o nowUs).cut = none := (ensure_frame s paths s.curIdx o).1.trans hcut
  have hc' := hc.ensure paths s.curIdx hf
  exact hc'.to_ending hcut' rfl rfl rfl (fun hne => absurd hcut' hne) (.inr (.inl rfl))

theorem head_inv (hi : Inv S s) (hpc : s.pc = .head) (disconnecting : Bool) : Inv S (head s disconnecting) := by
  obtain ⟨hc, hcut⟩ := hi.of_ending (.inr (.inl hpc))
  by_cases hgo : (s.isSending && !disconnecting) = true
  · have hs : s.isSending = true := (Bool.and_eq_true _ _ ▸ hgo).1
    have hnone : s.cut = none := by
      by_contra hne
      rw [hcut hne] at hs
      cases hs
    rw [hnone] at hc
    unfold head
    rw [if_pos hgo]
    exact hc.to_plain rfl rfl rfl hnone rfl
  · unfold head
    rw [if_neg hgo]
    exact hc.to_ending rfl rfl rfl rfl hcut (.inr (.inr (.inl rfl)))

theorem pickProbe_inv (hi : Inv S s) (hpc : s.pc = .pickProbe) (paths : Paths) (nowUs : Nat) :
    Inv S (pickProbe s paths nowUs) := by
  obtain ⟨hc, hcut⟩ := hi.of_plain (by rw [hpc]; rfl)
  refine hc.to_plain rfl rfl rfl hcut ?_
  unfold pickProbe
  simp only
  split
  · rfl
  · rfl

theorem openProbe_inv (hi : Inv S s) {idx : Nat} (hpc : s.pc = .openProbe idx) {paths : Paths} {o : Opening}
    {accepted : Bool} (hf : ∀ w ∈ s.writes, w.accepted = true → w.sid ≠ o.sid) :
    Inv S (openProbe s paths idx o accepted) := by
  obtain ⟨hc, hcut⟩ := hi.of_plain (by rw [hpc]; rfl)
  have hcut' := (ensure_frame s paths idx o).1.trans hcut
  have hc' := hc.ensure paths idx hf
  unfold openProbe
  simp only
  split
  · exact (hc'.touch idx (paths.at idx) accepted).to_plain rfl rfl rfl hcut' rfl
  · exact hc'.to_plain rfl rfl rfl hcut' rfl

theorem pickSend_inv (hi : Inv S s) (hpc : s.pc = .pickSend) (paths : Paths) : Inv S (pickSend s paths) := by
  obtain ⟨hc, hcut⟩ := hi.of_plain (by rw [hpc]; rfl)
  exact hc.to_plain rfl rfl rfl hcut rfl

/-! ## Taking a frame -/

theorem serve_inv (hi : Inv S s) {idx : Nat} (hpc : s.pc = .serve idx) {paths : Paths} {o : Opening}
    {frame : Option Nat} (hf : ∀ w ∈ s.writes, w.accepted = true → w.sid ≠ o.sid) (hsz : ReadySize frame)
    (hs : FrameHasStream s (.serve paths o frame)) : Inv S (serve s paths idx o frame) := by
  obtain ⟨hc, hcut⟩ := hi.of_plain (by rw [hpc]; rfl)
  have hcut' := (ensure_frame s paths idx o).1.trans hcut
  have hc' := hc.ensure paths idx hf
  cases frame with
  | none => exact hc'.to_plain rfl rfl rfl hcut' rfl
  | some fbSz =>
    simp only [FrameHasStream, hpc] at hs
    refine ⟨?_, ?_, fun hne => absurd hcut' hne⟩
    · show Core S (serve s paths idx o (some fbSz)) (ensureStreamForPath s paths idx o).1.cut
      rw [hcut']
      exact hc'.congr rfl rfl rfl
    · rintro x ⟨⟩
      exact ⟨hc'.bound idx hs.1 (ensure_ready hs.1 hs.2), hsz.1, hsz.2, rfl⟩

theorem idle_inv (hi : Inv S s) (hpc : s.pc = .idle) {paths : Paths} {o : Opening} {accepted : Bool} {nowUs : Nat}
    (hf : ∀ w ∈ s.writes, w.accepted = true → w.sid ≠ o.sid) : Inv S (idle s paths o accepted nowUs) := by
  obtain ⟨hc, hcut⟩ := hi.of_plain (by rw [hpc]; rfl)
  have hend : ∀ t, Core S t none → t.cut = none → ∀ nowUs, Inv S { t with lastActivityUs := nowUs, pc := .tail } := by
    rintro t ht hct nowUs
    exact ht.to_ending hct rfl rfl rfl (fun hne => absurd hct hne) (.inl rfl)
  unfold idle
  split
  · split
    · exact hend _ (hc.touch s.curIdx s.curPath accepted) hcut nowUs
    · exact hend _ (hc.ensure paths s.curIdx hf) ((ensure_frame s paths s.curIdx o).1.trans hcut) nowUs
  · exact hend s hc hcut s.lastActivityUs

/-! ## Sending it -/

theorem sendLength_inv (hi : Inv S s) {x : Sending} (hpc : s.pc = .length x) (accepted : Bool) :
    Inv S (sendLength s x accepted) := by
  obtain ⟨hx, hpos, hle, hempty⟩ := hi.length x hpc
  have hcut : s.cut = none := hi.no_cut (by rw [hpc]; simp)
  have hc : Core S s none := by
    have := hi.core
    simp only [State.unfinished, hpc, hcut] at this
    exact this
  cases accepted with
  | true =>
    -- the record starts with its length, and nothing of its payload
    refine ⟨⟨hc.session, ?_, hc.bound_append _⟩, nofun, fun hne => absurd hcut hne⟩
    refine hc.streams.extend rfl rfl rfl hx ⟨hpos, hle, by rw [hempty]; exact Nat.zero_le _⟩ fun sid => ?_
    show (if x.sid = sid then x.sofar else []) = [] ++ if x.sid = sid then quicVarintEncode x.fbSz else []
    rw [Sending.sofar, hempty, List.append_nil, List.nil_append]
  | false =>
    have hc' : Core S (s.write (frameWrite x (quicVarintEncode x.fbSz) false)) none :=
      hc.write (.inl rfl) fun _ _ => hx
    exact hc'.to_ending hcut rfl rfl rfl (fun hne => absurd hcut hne) (.inr (.inr (.inl rfl)))

/-- A record that is left short is left by a thread that stops. -/
theorem leavePayload_inv {x : Sending} (hc : Core S s (some x)) (hcut : s.cut = none)
    (hstop : x.payload.length < x.fbSz → s.isSending = false) (nowUs : Nat) : Inv S (leavePayload s x nowUs) := by
  by_cases hlt : x.payload.length < x.fbSz
  · have hcut' : (leavePayload s x nowUs).cut = some x := if_pos hlt
    exact hc.to_ending hcut' rfl rfl rfl (fun _ => hstop hlt) (.inl rfl)
  · have hcut' : (leavePayload s x nowUs).cut = none := (if_neg hlt).trans hcut
    have hle := (hc.streams.inside x rfl).2.2.2
    have hc' : Core S s none := ⟨hc.session, hc.streams.complete (by omega), hc.bound⟩
    exact hc'.to_ending hcut' rfl rfl rfl (fun hne => absurd hcut' hne) (.inl rfl)

theorem checkPayload_inv (hi : Inv S s) {x : Sending} (hpc : s.pc = .payload x) (nowUs : Nat) :
    Inv S (checkPayload s x nowUs) := by
  obtain ⟨hc, hcut⟩ := hi.of_sending (.inl hpc)
  unfold checkPayload
  split
  · exact ⟨hc.congr rfl rfl rfl, nofun, fun hne => absurd hcut hne⟩
  · rename_i hout
    refine leavePayload_inv hc hcut (fun hlt => ?_) nowUs
    cases hs : s.isSending with
    | false => rfl
    | true => exact absurd ⟨hlt, hs⟩ hout

theorem sendPiece_inv (hi : Inv S s) {x : Sending} (hpc : s.pc = .piece x) {bytes : List UInt8} (accepted : Bool)
    (hlen : bytes.length = pieceLen (x.fbSz - x.payload.length)) (nowUs : Nat) :
    Inv S (sendPiece s x bytes accepted nowUs) := by
  obtain ⟨hc, hcut⟩ := hi.of_sending (.inr hpc)
  obtain ⟨hx, hpos, hle, hsent⟩ := hc.streams.inside x rfl
  cases accepted with
  | true =>
    have hpiece := pieceLen_le (x.fbSz - x.payload.length)
    have hadd : (x.add bytes).payload.length ≤ x.fbSz := by
      show (x.payload ++ bytes).length ≤ x.fbSz
      rw [List.length_append]
      omega
    refine ⟨⟨hc.session, ?_, hc.bound_append _⟩, nofun, fun hne => absurd hcut hne⟩
    refine hc.streams.extend rfl rfl rfl hx ⟨hpos, hle, hadd⟩ fun sid => ?_
    show (if x.sid = sid then quicVarintEncode x.fbSz ++ (x.payload ++ bytes) else []) =
      (if x.sid = sid then quicVarintEncode x.fbSz ++ x.payload else []) ++ if x.sid = sid then bytes else []
    split
    · rw [List.append_assoc]
    · rfl
  | false =>
    have hc' : Core S (s.write (frameWrite x bytes false)).stopped (some x) :=
      (hc.write (.inl rfl) fun _ _ => hx).congr rfl rfl rfl
    exact leavePayload_inv hc' hcut (fun _ => rfl) nowUs

/-! ## The end of a round and of the run -/

theorem tail_inv (hi : Inv S s) (hpc : s.pc = .tail) : Inv S (tail s) := by
  obtain ⟨hc, hcut⟩ := hi.of_ending (.inl hpc)
  refine hc.to_ending rfl rfl rfl rfl hcut ?_
  unfold tail
  by_cases hmax : s.maxFrames ≤ s.frameCount
  · exact .inr (.inr (.inl (if_pos hmax)))
  · exact .inr (.inl (if_neg hmax))

theorem finish_inv (hi : Inv S s) (hpc : s.pc = .finish) (paths : Paths) (accepted : Nat → Bool) :
    Inv S (finish s paths accepted) := by
  obtain ⟨hc, hcut⟩ := hi.of_ending (.inr (.inr (.inl hpc)))
  have hfins : ∀ w ∈ finishAllBindings s paths accepted, w.bytes = [] ∧ w.opens = false := by
    rintro w hw
    obtain ⟨i, -, rfl⟩ := List.mem_map.1 hw
    exact ⟨rfl, rfl⟩
  exact ⟨⟨hc.session, hc.streams.fins _ _ hfins, hc.bound_append _⟩, nofun,
    fun hne => ⟨hcut hne, .inr (.inr (.inr rfl))⟩⟩

theorem stopped_inv (hi : Inv S s) : Inv S s.stopped :=
  ⟨hi.core.congr rfl rfl rfl, hi.length, fun hne => ⟨rfl, (hi.cut hne).2⟩⟩

/-- Every step keeps the invariant, if picoquic's stream ids are fresh and each frame taken has a stream. -/
theorem step_inv (hi : Inv S s) {e : Step} (hc : FreshId s e ∧ FrameHasStream s e) (h : step s e = some s') :
    Inv S s' := by
  obtain ⟨hf, hs⟩ := hc
  cases step_moved h with
  | pickFirst hpc => exact pickFirst_inv hi hpc _
  | openFirst hpc => exact openFirst_inv hi hpc (hf _ rfl)
  | head hpc => exact head_inv hi hpc _
  | pickProbe hpc => exact pickProbe_inv hi hpc _ _
  | openProbe hpc => exact openProbe_inv hi hpc (hf _ rfl)
  | pickSend hpc => exact pickSend_inv hi hpc _
  | serve hpc hsz => exact serve_inv hi hpc (hf _ rfl) hsz hs
  | idle hpc => exact idle_inv hi hpc (hf _ rfl)
  | sendLength hpc => exact sendLength_inv hi hpc _
  | checkPayload hpc => exact checkPayload_inv hi hpc _
  | sendPiece hpc hlen => exact sendPiece_inv hi hpc _ hlen _
  | tail hpc => exact tail_inv hi hpc
  | finish hpc => exact finish_inv hi hpc _ _
  | stopRequest => exact stopped_inv hi

end Steps

/-! ## Runs -/

/-- In every run in which each frame taken has a stream, every byte goes to a stream opened before, each opened
stream carries the header of this session and whole records, and only a thread on its way out leaves a record
cut. picoquic is taken to hand out stream ids on which nothing was sent. -/
theorem frames_on_opened_streams (allocated : Bool) (behind : Nat → MpBinding) (controlStreamId maxFrames : Nat)
    {es : List Step} {s : State}
    (hfresh : Lts.Meets step FreshId (State.enter allocated behind controlStreamId maxFrames) es)
    (hstream : Lts.Meets step FrameHasStream (State.enter allocated behind controlStreamId maxFrames) es)
    (h : Lts.run step (State.enter allocated behind controlStreamId maxFrames) es = some s) :
    s.controlStreamId = controlStreamId ∧ s.Proper := by
  have hi : Inv controlStreamId s := Lts.inv_run (fun _ _ _ hi hc h => step_inv hi hc h) es _ s
    (enter_inv allocated behind controlStreamId maxFrames) (Lts.meets_and es _ hfresh hstream) h
  exact ⟨hi.core.session, hi.proper⟩

/-- A path table of one path. -/
def onePath (verified : Bool) : Paths := [some ⟨0, some verified, false, 0, 0⟩]

/-- No binding behind the array. -/
def nothing : Nat → MpBinding := fun _ => ⟨0, 0, false⟩

/-- A round that sends a frame of two bytes on the one path there is. -/
def oneFrame (paths : Paths) : List Step :=
  [.pickFirst paths, .openFirst paths ⟨3, true⟩ 1, .head false, .pickProbe paths 2, .pickSend paths,
    .serve paths ⟨7, true⟩ (some 2), .sendLength true, .checkPayload 3, .sendPiece [8, 9] true 4, .checkPayload 5,
    .tail]

theorem oneFrame_proper :
    (Lts.run step (State.enter true nothing 0 10) (oneFrame (onePath true))).map (fun s => written s.writes 3) =
        some [0x40, 0x54, 0, 2, 8, 9] ∧
      ∀ s, Lts.run step (State.enter true nothing 0 10) (oneFrame (onePath true)) = some s →
        s.controlStreamId = 0 ∧ s.Proper :=
  ⟨by decide, fun _ h => frames_on_opened_streams true nothing 0 10 (by decide) (by decide) h⟩

/-- While the only path is not verified no stream is opened, and the frame goes out on stream 0. -/
theorem oneFrame_unverified :
    (Lts.run step (State.enter true nothing 0 10) (oneFrame (onePath false))).map
        (fun s => (opened s.writes, written s.writes 0)) = some ([], [2, 8, 9]) ∧
      ¬ ∀ allocated behind controlStreamId maxFrames es s,
        Lts.Meets step FreshId (State.enter allocated behind controlStreamId maxFrames) es →
        Lts.run step (State.enter allocated behind controlStreamId maxFrames) es = some s → s.Proper := by
  have hrun : (Lts.run step (State.enter true nothing 0 10) (oneFrame (onePath false))).map (·.writes) =
      some [⟨some ⟨0, some false, false, 0, 0⟩, 0, [2], false, true, false⟩,
        ⟨some ⟨0, some false, false, 0, 0⟩, 0, [8, 9], false, true, false⟩] := by decide
  refine ⟨by decide, fun hall => ?_⟩
  obtain ⟨s, hs, hw⟩ := Option.map_eq_some_iff.1 hrun
  have hproper := hall true nothing 0 10 _ s (by decide) hs
  have hmem := hproper.onlyOpened [] _ _ hw (by decide) rfl
  cases hmem

end Mquic.Server.Network
