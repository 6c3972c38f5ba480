/-
Which records are on which stream. A run of the network thread keeps a list of the payloads it has sent whole, each with
its stream; every opened stream carries the header, its records of that list in order, and of the record in hand what
is out.
-/
import Mquic.Lib.Keyed
import Mquic.Server.Streams

namespace Mquic.Server.Network

open Keyed (onKey)

/-! ## The list of records -/

/-- The record that a step completes, with its stream. -/
def completes (s : State) : Step → List (Nat × List UInt8)
  | .checkPayload _ =>
    match s.pc with
    | .payload x => if x.fbSz ≤ x.payload.length then [(x.sid, x.payload)] else []
    | _ => []
  | _ => []

/-- A step of the thread, with the record it completes. -/
def recorded (y : State × List (Nat × List UInt8)) (e : Step) : Option (State × List (Nat × List UInt8)) :=
  (step y.1 e).map (·, y.2 ++ completes y.1 e)

/-- Each opened stream carries its records of `rs`, and its part of the unfinished one. -/
structure Carries (S : Nat) (rs : List (Nat × List UInt8)) (ws : List Write) (u : Option Sending) : Prop where
  bytes : ∀ sid ∈ opened ws, written ws sid = streamBytes S (onKey sid rs) ++ unfinishedOn u sid
  only : ∀ r ∈ rs, r.1 ∈ opened ws

theorem Carries.nil (S : Nat) : Carries S [] [] none := ⟨nofun, nofun⟩

/-- No record is on a stream that is not opened. -/
theorem Carries.unopened {S : Nat} {rs : List (Nat × List UInt8)} {ws : List Write} {u : Option Sending}
    (h : Carries S rs ws u) {sid : Nat} (hs : sid ∉ opened ws) : onKey sid rs = [] := by
  have hnone : rs.filter (fun r => r.1 = sid) = [] := by
    rw [List.filter_eq_nil_iff]
    intro r hr heq
    exact hs (of_decide_eq_true heq ▸ h.only r hr)
  unfold onKey
  rw [hnone]
  rfl

section Log

variable {S : Nat} {rs : List (Nat × List UInt8)} {ws : List Write} {u : Option Sending}

/-- A write that adds no bytes and opens nothing. -/
theorem Carries.quiet (h : Carries S rs ws u) {w : Write} (hq : w.accepted = false ∨ (w.bytes = [] ∧ w.opens = false)) :
    Carries S rs (ws ++ [w]) u := by
  have ho : opened (ws ++ [w]) = opened ws := by
    rw [opened_snoc, if_neg, List.append_nil]
    rcases hq with hq | hq
    · simp [hq]
    · simp [hq.2]
  have hwr : ∀ sid, written (ws ++ [w]) sid = written ws sid := by
    intro sid
    rw [written_snoc]
    rcases hq with hq | hq
    · simp [hq]
    · simp [hq.1]
  refine ⟨fun sid hs => ?_, fun r hr => ho ▸ h.only r hr⟩
  rw [ho] at hs
  rw [hwr, h.bytes sid hs]

theorem Carries.fins (h : Carries S rs ws u) : ∀ fins : List Write, (∀ w ∈ fins, w.bytes = [] ∧ w.opens = false) →
    Carries S rs (ws ++ fins) u := by
  intro fins
  induction fins generalizing ws with
  | nil => intro _; rwa [List.append_nil]
  | cons w fins ih =>
    intro hf
    have hrest := ih (h.quiet (.inr (hf w List.mem_cons_self))) fun v hv => hf v (List.mem_cons_of_mem _ hv)
    rwa [List.append_assoc] at hrest

/-- An accepted header on a stream on which nothing was sent. -/
theorem Carries.header (h : Carries S rs ws u) (hs : Streams S ws u) {w : Write} (ha : w.accepted = true)
    (hop : w.opens = true) (hb : w.bytes = wtHeader S) (hfresh : w.sid ∉ opened ws) : Carries S rs (ws ++ [w]) u := by
  have ho : opened (ws ++ [w]) = opened ws ++ [w.sid] := by rw [opened_snoc, if_pos ⟨hop, ha⟩]
  refine ⟨fun sid hsid => ?_, fun r hr => by rw [ho]; exact List.mem_append_left _ (h.only r hr)⟩
  by_cases he : w.sid = sid
  · subst he
    have hu : unfinishedOn u w.sid = [] := by
      cases u with
      | none => rfl
      | some x => exact if_neg fun he : x.sid = w.sid => hfresh (he ▸ (hs.inside x rfl).1)
    rw [written_snoc, if_pos ⟨ha, rfl⟩, hs.unopened _ hfresh, hb, hu, h.unopened hfresh]
    simp [streamBytes, streamWrites]
  · have hsid' : sid ∈ opened ws := by
      rw [ho] at hsid
      exact (List.mem_append.1 hsid).resolve_right fun h => he (List.mem_singleton.1 h).symm
    rw [written_snoc, if_neg fun hc => he hc.2, List.append_nil, h.bytes sid hsid']

/-- Accepted bytes of the record in hand. -/
theorem Carries.extend (h : Carries S rs ws u) {w : Write} {x : Sending} (ha : w.accepted = true)
    (hop : w.opens = false) (hsid : w.sid = x.sid)
    (hgrow : ∀ sid, unfinishedOn (some x) sid = unfinishedOn u sid ++ if x.sid = sid then w.bytes else []) :
    Carries S rs (ws ++ [w]) (some x) := by
  have ho : opened (ws ++ [w]) = opened ws := by rw [opened_snoc, if_neg (by simp [hop]), List.append_nil]
  refine ⟨fun sid hs => ?_, fun r hr => ho ▸ h.only r hr⟩
  rw [ho] at hs
  rw [written_snoc, h.bytes sid hs, hgrow, List.append_assoc]
  simp only [ha, hsid, true_and]

/-- The record in hand is whole. -/
theorem Carries.complete {x : Sending} (h : Carries S rs ws (some x)) (hx : x.sid ∈ opened ws)
    (hdone : x.payload.length = x.fbSz) : Carries S (rs ++ [(x.sid, x.payload)]) ws none := by
  refine ⟨fun sid hs => ?_, fun r hr => ?_⟩
  · rw [h.bytes sid hs, Keyed.onKey_append, unfinishedOn, unfinishedOn, List.append_nil]
    by_cases hsid : x.sid = sid
    · subst hsid
      rw [if_pos rfl, Keyed.onKey_self, show onKey x.sid [] = ([] : List (List UInt8)) from rfl, streamBytes_snoc,
        Sending.sofar, hdone]
    · rw [if_neg hsid, Keyed.onKey_other hsid, show onKey sid [] = ([] : List (List UInt8)) from rfl, List.append_nil,
        List.append_nil]
  · rcases List.mem_append.1 hr with hr | hr
    · exact h.only r hr
    · rw [List.mem_singleton.1 hr]
      exact hx

end Log

/-! ## Steps without a record -/

/-- The label is not about the record in hand. -/
def Step.frameless : Step → Bool
  | .sendLength _ | .checkPayload _ | .sendPiece _ _ _ => false
  | _ => true

theorem unfinished_eq_cut {s : State} (hp : ∀ x, s.pc ≠ .payload x) (hq : ∀ x, s.pc ≠ .piece x) :
    s.unfinished = s.cut := by
  unfold State.unfinished
  split
  · exact absurd ‹_› (hp _)
  · exact absurd ‹_› (hq _)
  · rfl

theorem frameless_unfinished {s s' : State} {e : Step} (hf : e.frameless = true) (h : step s e = some s') :
    s'.unfinished = s.unfinished := by
  -- outside the payload loop only a record that was cut is unfinished
  have hplain : ∀ {t : State}, t.cut = s.cut → (∀ x, s.pc ≠ .payload x) → (∀ x, s.pc ≠ .piece x) →
      (∀ x, t.pc ≠ .payload x) → (∀ x, t.pc ≠ .piece x) → t.unfinished = s.unfinished := by
    intro t hcut h1 h2 h3 h4
    rw [unfinished_eq_cut h3 h4, unfinished_eq_cut h1 h2, hcut]
  have hens : ∀ paths idx o, (ensureStreamForPath s paths idx o).1.cut = s.cut :=
    fun paths idx o => (ensure_frame s paths idx o).1
  cases step_moved h with
  | sendLength | checkPayload | sendPiece => cases hf
  | stopRequest => rfl
  | pickFirst hpc => exact hplain rfl (by simp [hpc]) (by simp [hpc]) nofun nofun
  | openFirst hpc => exact hplain (hens ..) (by simp [hpc]) (by simp [hpc]) nofun nofun
  | @head d hpc =>
    refine hplain rfl (by simp [hpc]) (by simp [hpc]) ?_ ?_ <;> unfold head <;> cases s.isSending && !d <;> nofun
  | pickProbe hpc =>
    refine hplain rfl (by simp [hpc]) (by simp [hpc]) ?_ ?_ <;> unfold pickProbe <;> simp only <;> split_ifs <;> nofun
  | openProbe hpc =>
    refine hplain ?_ (by simp [hpc]) (by simp [hpc]) nofun nofun
    unfold openProbe
    simp only
    split_ifs
    · exact hens ..
    · exact hens ..
  | pickSend hpc => exact hplain rfl (by simp [hpc]) (by simp [hpc]) nofun nofun
  | @serve _ _ frame _ hpc =>
    refine hplain (hens ..) (by simp [hpc]) (by simp [hpc]) ?_ ?_ <;> unfold serve <;> cases frame <;> nofun
  | idle hpc =>
    refine hplain ?_ (by simp [hpc]) (by simp [hpc]) ?_ ?_
    · unfold idle
      split_ifs
      · rfl
      · exact hens ..
      · rfl
    · unfold idle
      split_ifs <;> nofun
    · unfold idle
      split_ifs <;> nofun
  | tail hpc =>
    refine hplain rfl (by simp [hpc]) (by simp [hpc]) ?_ ?_ <;> unfold tail <;> simp only <;> split_ifs <;> nofun
  | finish hpc => exact hplain rfl (by simp [hpc]) (by simp [hpc]) nofun nofun

section Steps

variable {S : Nat} {rs : List (Nat × List UInt8)} {s s' : State} {u : Option Sending}

theorem Carries.ensure (h : Carries S rs s.writes u) (hc : Core S s u) (paths : Paths) (idx : Nat) {o : Opening}
    (hf : ∀ w ∈ s.writes, w.accepted = true → w.sid ≠ o.sid) :
    Carries S rs (ensureStreamForPath s paths idx o).1.writes u := by
  rcases ensure_cases s paths idx o with he | ⟨path, ha, he⟩ | ⟨path, ⟨ha, -⟩, he⟩
  · rwa [he]
  · rw [he]
    exact h.quiet (.inl ha)
  · rw [he]
    have hb : wtHeader s.controlStreamId = wtHeader S := by rw [hc.session]
    exact h.header hc.streams ha rfl hb (fresh_not_opened hf)

theorem Carries.touch (h : Carries S rs s.writes u) (idx : Nat) (path : Option Path) (accepted : Bool) :
    Carries S rs (Network.touch s idx path accepted).writes u := h.quiet (.inr ⟨rfl, rfl⟩)

/-- Other steps write at most headers and empty pieces. -/
theorem frameless_carries (h : Carries S rs s.writes u) (hc : Core S s u) {e : Step} (hf : e.frameless = true)
    (hfresh : FreshId s e) (hs : step s e = some s') : Carries S rs s'.writes u := by
  cases step_moved hs with
  | sendLength | checkPayload | sendPiece => cases hf
  | pickFirst | head | pickProbe | pickSend | tail | stopRequest => exact h
  | openFirst hpc => exact h.ensure hc _ _ (hfresh _ rfl)
  | @openProbe paths o accepted idx hpc =>
    have he := h.ensure hc paths idx (hfresh _ rfl)
    unfold openProbe
    simp only
    split_ifs
    · exact he.touch idx (paths.at idx) accepted
    · exact he
  | serve hpc hsz => exact h.ensure hc _ _ (hfresh _ rfl)
  | idle hpc =>
    unfold idle
    split_ifs
    · exact h.touch _ _ _
    · exact h.ensure hc _ _ (hfresh _ rfl)
    · exact h
  | finish hpc =>
    refine h.fins _ fun w hw => ?_
    obtain ⟨i, -, rfl⟩ := List.mem_map.1 hw
    exact ⟨rfl, rfl⟩

/-! ## Steps of the record in hand -/

theorem sendLength_carries (h : Carries S rs s.writes s.unfinished) (hi : Inv S s) {x : Sending}
    (hpc : s.pc = .length x) (accepted : Bool) :
    Carries S rs (sendLength s x accepted).writes (sendLength s x accepted).unfinished := by
  have hempty : x.payload = [] := (hi.length x hpc).2.2.2
  have hcut : s.unfinished = none := by
    rw [unfinished_eq_cut (by simp [hpc]) (by simp [hpc])]
    exact hi.no_cut (by simp [hpc])
  rw [hcut] at h
  have hs : s.cut = none := hi.no_cut (by simp [hpc])
  cases accepted with
  | true =>
    refine h.extend (x := x) rfl rfl rfl fun sid => ?_
    show (if x.sid = sid then x.sofar else []) = [] ++ if x.sid = sid then Codec.quicVarintEncode x.fbSz else []
    rw [Sending.sofar, hempty, List.append_nil, List.nil_append]
  | false =>
    have hu : (sendLength s x false).unfinished = none := hs
    rw [hu]
    exact h.quiet (.inl rfl)

theorem leavePayload_unfinished (s : State) (x : Sending) (nowUs : Nat) :
    (leavePayload s x nowUs).unfinished = if x.payload.length < x.fbSz then some x else s.cut := rfl

theorem sendPiece_carries (h : Carries S rs s.writes s.unfinished) {x : Sending} (hpc : s.pc = .piece x)
    (hlt : x.payload.length < x.fbSz) (bytes : List UInt8) (accepted : Bool) (nowUs : Nat) :
    Carries S rs (sendPiece s x bytes accepted nowUs).writes (sendPiece s x bytes accepted nowUs).unfinished := by
  have hx : s.unfinished = some x := by simp only [State.unfinished, hpc]
  rw [hx] at h
  cases accepted with
  | true =>
    refine h.extend (x := x.add bytes) rfl rfl rfl fun sid => ?_
    show (if x.sid = sid then Codec.quicVarintEncode x.fbSz ++ (x.payload ++ bytes) else []) =
      (if x.sid = sid then Codec.quicVarintEncode x.fbSz ++ x.payload else []) ++ if x.sid = sid then bytes else []
    split
    · rw [List.append_assoc]
    · rfl
  | false =>
    have hu : (sendPiece s x bytes false nowUs).unfinished = some x := (leavePayload_unfinished ..).trans (if_pos hlt)
    rw [hu]
    exact h.quiet (.inl rfl)

/-- The record is left whole, and then it is listed, or stays as it is. -/
theorem checkPayload_carries (h : Carries S rs s.writes s.unfinished) (hi : Inv S s) {x : Sending}
    (hpc : s.pc = .payload x) (nowUs : Nat) :
    Carries S (rs ++ if x.fbSz ≤ x.payload.length then [(x.sid, x.payload)] else []) (checkPayload s x nowUs).writes
      (checkPayload s x nowUs).unfinished := by
  have hx : s.unfinished = some x := by simp only [State.unfinished, hpc]
  obtain ⟨hcore, hcut⟩ := hi.of_sending (.inl hpc)
  obtain ⟨hsid, -, -, hle⟩ := hcore.streams.inside x rfl
  rw [hx] at h
  unfold checkPayload
  by_cases hwhole : x.fbSz ≤ x.payload.length
  · rw [if_pos hwhole, if_neg (by omega), leavePayload_unfinished, if_neg (Nat.not_lt.2 hwhole), hcut]
    exact h.complete hsid (le_antisymm hle hwhole)
  · rw [if_neg hwhole, List.append_nil]
    split
    · exact h
    · rw [leavePayload_unfinished, if_pos (Nat.not_le.1 hwhole)]
      exact h

/-- The thread's own invariant, that a piece is sent only of a record still short, and what the streams carry. -/
structure Recorded (S : Nat) (y : State × List (Nat × List UInt8)) : Prop where
  inv : Inv S y.1
  short : ∀ x, y.1.pc = .piece x → x.payload.length < x.fbSz
  frames : ∀ r ∈ y.2, IsFrame r.2
  carries : Carries S y.2 y.1.writes y.1.unfinished

theorem enter_recorded (allocated : Bool) (behind : Nat → MpBinding) (S maxFrames : Nat) :
    Recorded S (State.enter allocated behind S maxFrames, []) :=
  ⟨enter_inv allocated behind S maxFrames, nofun, nofun, .nil S⟩

/-- A record that is completed is one the camera can hand over. -/
theorem completes_frames (hi : Inv S s) {e : Step} : ∀ r ∈ completes s e, IsFrame r.2 := by
  intro r hr
  unfold completes at hr
  split at hr
  · split at hr
    · rename_i x hpc
      split at hr
      · rename_i hwhole
        obtain ⟨-, hpos, hle, -⟩ := (hi.of_sending (.inl hpc)).1.streams.inside x rfl
        have hlen := ((hi.of_sending (.inl hpc)).1.streams.inside x rfl).2.2.2
        rw [List.mem_singleton.1 hr]
        constructor
        · show 1 ≤ x.payload.length
          omega
        · show x.payload.length ≤ frameBufferBytes
          omega
      · cases hr
    · cases hr
  · cases hr

/-- A piece is due only behind a check. -/
theorem step_short {e : Step} (h : ∀ x, s.pc = .piece x → x.payload.length < x.fbSz) (hs : step s e = some s') :
    ∀ x, s'.pc = .piece x → x.payload.length < x.fbSz := by
  cases step_moved hs with
  | stopRequest => exact h
  | checkPayload hpc =>
    intro y hy
    unfold checkPayload at hy
    split at hy
    · rename_i hlt
      cases hy
      exact hlt.1
    · cases hy
  | pickFirst | openFirst | pickSend | finish => nofun
  | @head d => unfold head; cases s.isSending && !d <;> nofun
  | pickProbe => unfold pickProbe; simp only; split_ifs <;> nofun
  | openProbe => nofun
  | @serve _ _ frame => unfold serve; cases frame <;> nofun
  | idle => unfold idle; split_ifs <;> nofun
  | @sendLength accepted => unfold sendLength; cases accepted <;> nofun
  | @sendPiece _ accepted => unfold sendPiece; cases accepted <;> nofun
  | tail => unfold tail; simp only; split_ifs <;> nofun

/-- Every step keeps it, under the conditions of the thread's own invariant. -/
theorem recorded_kept {rs rs' : List (Nat × List UInt8)} {e : Step} (hr : Recorded S (s, rs))
    (hc : FreshId s e ∧ FrameHasStream s e) (h : recorded (s, rs) e = some (s', rs')) : Recorded S (s', rs') := by
  obtain ⟨t, hs, heq⟩ := Option.map_eq_some_iff.1 h
  cases heq
  refine ⟨step_inv hr.inv hc hs, step_short hr.short hs, fun r hmem => ?_, ?_⟩
  · rcases List.mem_append.1 hmem with hmem | hmem
    · exact hr.frames r hmem
    · exact completes_frames hr.inv r hmem
  cases hf : e.frameless with
  | true =>
    have hnone : completes s e = [] := by cases e <;> first | rfl | cases hf
    show Carries S (rs ++ completes s e) s'.writes s'.unfinished
    rw [hnone, List.append_nil, frameless_unfinished hf hs]
    exact frameless_carries hr.carries hr.inv.core hf hc.1 hs
  | false =>
    show Carries S (rs ++ completes s e) s'.writes s'.unfinished
    cases step_moved hs with
    | sendLength hpc =>
      rw [show completes s (.sendLength _) = [] from rfl, List.append_nil]
      exact sendLength_carries hr.carries hr.inv hpc _
    | sendPiece hpc hlen =>
      rw [show completes s (.sendPiece _ _ _) = [] from rfl, List.append_nil]
      exact sendPiece_carries hr.carries hpc (hr.short _ hpc) _ _ _
    | @checkPayload nowUs x hpc =>
      have hpc' : s.pc = .payload x := hpc
      rw [show completes s (.checkPayload nowUs) =
        if x.fbSz ≤ x.payload.length then [(x.sid, x.payload)] else [] by simp only [completes, hpc']]
      exact checkPayload_carries hr.carries hr.inv hpc nowUs
    | _ => cases hf

end Steps

end Mquic.Server.Network
