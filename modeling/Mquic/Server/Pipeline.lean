/-
The camera thread and the network thread as one system (quic_server.c): the frame that is taken is the one popped from
the hand-off, and each piece that is sent is read from its buffer when it is sent. What is on the streams are the JPEGs
that the camera published, each whole, at most once, and in the order of their publication.
-/
import Mquic.Server.Accounting
import Mquic.Server.Records

namespace Mquic.Server.Pipeline

open Network (opened written unfinishedOn Sending Pc Opening MpBinding)
open Handoff (Ledger)
open Keyed (onKey)

/-! ## State -/

/-- The hand-off with its books and the network thread with its records. As history the JPEGs published, in order, and
for each record the number of its publication. -/
structure State where
  hand : Handoff.State
  books : Ledger
  net : Network.State
  records : List (Nat × List UInt8)
  jpegs : List (List UInt8)
  numbers : List Nat

/-- Both threads at the head of their loops. -/
def State.enter (frameBuffer : Fin 2 → List UInt8) (allocated : Bool) (behind : Nat → MpBinding)
    (controlStreamId maxFrames : Nat) : State where
  hand := .init frameBuffer
  books := .init
  net := .enter allocated behind controlStreamId maxFrames
  records := []
  jpegs := []
  numbers := []

/-- The number of the frame popped last. -/
def lastPopped (l : Ledger) : Nat := (l.popped.getLast?.map (·.1)).getD 0

/-! ## Steps -/

/-- A step of either thread. -/
inductive Step where
  | camera (e : Handoff.Step)
  | network (e : Network.Step)

/-- The steps of the hand-off that are the camera's. -/
def ofCamera : Handoff.Step → Bool
  | .backlogCheck _ | .discard | .capture _ | .publish => true
  | .pop | .readPiece | .stop => false

/-- What `pop_ready_frame` finds. -/
def readyFrame (h : Handoff.State) : Option Nat :=
  if h.hasFrame h.readyIdx = true ∧ 0 < h.readySize h.readyIdx then some (h.readySize h.readyIdx) else none

/-- The piece of `frame_buffer[fb_idx]` that is due. -/
def nextPiece (h : Handoff.State) : List UInt8 :=
  match h.network with
  | .sending fbIdx fbSz sent _ _ => h.piece fbIdx fbSz sent
  | .idle => []

/-- The network thread takes the frame that is ready and sends the piece that is due. -/
def Agrees (h : Handoff.State) : Network.Step → Prop
  | .serve _ _ frame => frame = readyFrame h
  | .sendPiece bytes _ _ => bytes = nextPiece h
  | _ => True

instance (h : Handoff.State) : ∀ e, Decidable (Agrees h e)
  | .serve _ _ frame => inferInstanceAs (Decidable (frame = readyFrame h))
  | .sendPiece bytes _ _ => inferInstanceAs (Decidable (bytes = nextPiece h))
  | .pickFirst _ | .openFirst _ _ _ | .head _ | .pickProbe _ _ | .openProbe _ _ _ | .pickSend _ | .idle _ _ _ _
  | .sendLength _ | .checkPayload _ | .tail | .finish _ _ | .stopRequest => isTrue trivial

/-- The payload loop ends before the payload does. -/
def leavesShort (n : Network.State) : Bool :=
  match n.pc with
  | .payload x => x.payload.length < x.fbSz && !n.isSending
  | _ => false

/-- What a step of the network thread is to the hand-off. -/
def handPart (n : Network.State) : Network.Step → Option Handoff.Step
  | .serve _ _ _ => some .pop
  | .sendLength accepted => if accepted then none else some .stop
  | .checkPayload _ => if leavesShort n then some .stop else none
  | .sendPiece _ accepted _ => some (if accepted then .readPiece else .stop)
  | _ => none

/-- The JPEG that a step publishes. -/
def publishes (h : Handoff.State) : Handoff.Step → List (List UInt8)
  | .publish =>
    match h.camera with
    | .publish _ _ jpeg => [jpeg]
    | _ => []
  | _ => []

/-- A step of the system. -/
def step (s : State) : Step → Option State
  | .camera e =>
    if ofCamera e then
      (Handoff.book (s.hand, s.books) e).map fun h =>
        { s with hand := h.1, books := h.2, jpegs := s.jpegs ++ publishes s.hand e }
    else none
  | .network e =>
    if Agrees s.hand e then
      (Lts.perhaps Handoff.book (s.hand, s.books) (handPart s.net e)).bind fun h =>
        (Network.recorded (s.net, s.records) e).map fun n =>
          { s with
            hand := h.1
            books := h.2
            net := n.1
            records := n.2
            numbers := s.numbers ++ (Network.completes s.net e).map fun _ => lastPopped s.books }
    else none

/-- The conditions of the hand-off and of the network thread on their steps. -/
def Clear (s : State) : Step → Prop
  | .camera e => Handoff.DiscardsClear s.hand e
  | .network e => Network.FreshId s.net e ∧ Network.FrameHasStream s.net e

instance (s : State) : ∀ e, Decidable (Clear s e)
  | .camera e => inferInstanceAs (Decidable (Handoff.DiscardsClear s.hand e))
  | .network _ => inferInstanceAs (Decidable (_ ∧ _))

/-! ## What is claimed of a state -/

/-- The record the network thread has taken and not yet left. -/
def inHand : Pc → Option Sending
  | .length x | .payload x | .piece x => some x
  | _ => none

/-- Of `x` is out what its payload says, a part of the publication `k`. -/
def PartOf (jpegs : List (List UInt8)) (k : Nat) (x : Sending) : Prop :=
  ∃ jpeg, jpegs[k]? = some jpeg ∧ x.fbSz = jpeg.length ∧ x.payload <+: jpeg

/-- What is claimed of a state. Each opened stream is its header and its records, and the record in hand is at the end
of one of them; the records are publications, in order; every publication is a record, or in hand, or where the run
ended, or was given up, or is still pending. -/
structure Delivered (controlStreamId : Nat) (s : State) : Prop where
  streams : ∀ sid ∈ opened s.net.writes,
    written s.net.writes sid = streamBytes controlStreamId (onKey sid s.records) ++ unfinishedOn s.net.unfinished sid
  only : ∀ r ∈ s.records, r.1 ∈ opened s.net.writes
  whole : List.Forall₂ (fun r k => s.jpegs[k]? = some r.2) s.records s.numbers
  inOrder : s.numbers.Pairwise (· < ·)
  unfinished : ∀ x ∈ s.net.unfinished, ∃ k, (∀ j ∈ s.numbers, j < k) ∧ PartOf s.jpegs k x
  each : ∃ rest : List Nat, rest.length ≤ 1 ∧ (rest ≠ [] → inHand s.net.pc ≠ none ∨ s.net.Ending) ∧
    (s.numbers ++ rest ++ s.books.givenUp.map (·.number) ++ Handoff.pending (s.hand, s.books)).Perm
      (List.range s.jpegs.length)

/-! ## The publications -/

/-- The JPEGs published, against the hand-off and its books. -/
structure Tracked (h : Handoff.State) (l : Ledger) (jpegs : List (List UInt8)) : Prop where
  count : jpegs.length = l.published.length
  pending : h.hasFrame h.readyIdx = true → jpegs[l.number h.readyIdx]? = some (h.captured h.readyIdx)
  sending : ∀ i n sent payload captured, h.network = .sending i n sent payload captured →
    jpegs[lastPopped l]? = some captured

section Publications

variable {h h' : Handoff.State} {l : Ledger} {jpegs : List (List UInt8)}

theorem init_tracked (frameBuffer : Fin 2 → List UInt8) : Tracked (.init frameBuffer) .init [] :=
  ⟨rfl, nofun, nofun⟩

/-- Steps of the camera that publish nothing and leave the pending frame pending at most. -/
theorem Tracked.congr {l' : Ledger} (ht : Tracked h l jpegs)
    (hf : h'.hasFrame h'.readyIdx = true → h.hasFrame h.readyIdx = true) (hr : h'.readyIdx = h.readyIdx)
    (hcap : h'.captured = h.captured) (hnet : h'.network = h.network)
    (hl : l'.published = l.published ∧ l'.number = l.number ∧ l'.popped = l.popped) : Tracked h' l' jpegs := by
  obtain ⟨hpub, hnum, hpop⟩ := hl
  constructor
  · rw [hpub]
    exact ht.count
  · intro hp
    rw [hnum, hr, hcap]
    exact ht.pending (hf hp)
  · intro i n sent payload captured hn
    have hlast : lastPopped l' = lastPopped l := by unfold lastPopped; rw [hpop]
    rw [hlast]
    exact ht.sending i n sent payload captured (hnet ▸ hn)

theorem publish_tracked (ht : Tracked h l jpegs) {idx : Fin 2} {n : Nat} {jpeg : List UInt8}
    (hidx : idx = h.activeIdx) (hcam : h.camera = .publish idx n jpeg) :
    Tracked (Handoff.publish h idx n jpeg) (l.enter h .publish) (jpegs ++ publishes h .publish) := by
  subst hidx
  have hl : l.enter h .publish = { l with
      published := l.published ++ [(h.activeIdx, n)]
      number := Function.update l.number h.activeIdx l.published.length } := by simp [Ledger.enter, hcam]
  have hj : publishes h .publish = [jpeg] := by simp only [publishes, hcam]
  rw [hl, hj]
  constructor
  · simp only [List.length_append, List.length_singleton, ht.count]
  · intro _
    show (jpegs ++ [jpeg])[Function.update l.number h.activeIdx l.published.length h.activeIdx]? =
      some (Function.update h.captured h.activeIdx jpeg h.activeIdx)
    rw [Function.update_self, Function.update_self, ← ht.count, List.getElem?_concat_length]
  · intro i m sent payload captured hn
    have hsend := ht.sending i m sent payload captured hn
    exact (List.getElem?_append_left (List.getElem?_eq_some_iff.1 hsend).1).trans hsend

/-- The frame popped last is the one that was pending. -/
theorem pop_tracked (ht : Tracked h l jpegs) (hnet : h.network = .idle)
    (hp : h.hasFrame h.readyIdx = true ∧ 0 < h.readySize h.readyIdx) :
    Tracked (Handoff.popReadyFrame h) (l.enter h .pop) jpegs := by
  have hnone : (Handoff.popReadyFrame h).hasFrame (Handoff.popReadyFrame h).readyIdx = false :=
    Function.update_self _ _ _
  rw [Handoff.enter_pop l hnet hp]
  refine ⟨ht.count, fun hf => ?_, ?_⟩
  · rw [hnone] at hf
    cases hf
  · rintro i n sent payload captured ⟨⟩
    have hlast : lastPopped { l with
        popped := l.popped ++ [(l.number h.readyIdx, h.readyIdx, h.readySize h.readyIdx)] } =
          l.number h.readyIdx := by
      unfold lastPopped
      rw [List.getLast?_append]
      rfl
    rw [hlast]
    exact ht.pending hp.1

theorem readPiece_tracked (ht : Tracked h l jpegs) {i : Fin 2} {n sent : Nat} {payload captured : List UInt8}
    (hn : h.network = .sending i n sent payload captured) :
    Tracked (Handoff.readPiece h i n sent payload captured) l jpegs := by
  unfold Handoff.readPiece
  split
  · refine ⟨ht.count, ht.pending, ?_⟩
    rintro _ _ _ _ _ ⟨⟩
    exact ht.sending _ _ _ _ _ hn
  · exact ⟨ht.count, ht.pending, nofun⟩

theorem step_tracked (hm : Handoff.Mailbox h) (ht : Tracked h l jpegs) {e : Handoff.Step}
    (hs : Handoff.step h e = some h') : Tracked h' (l.enter h e) (jpegs ++ publishes h e) := by
  have hnil : ∀ {e : Handoff.Step}, publishes h e = [] → jpegs ++ publishes h e = jpegs := fun he => by
    rw [he, List.append_nil]
  cases Handoff.step_moved hs with
  | publish hcam => exact publish_tracked ht (hm.publishing _ _ _ hcam).1 hcam
  | @backlogCheck nowUs hcam =>
    rw [hnil rfl]
    refine ht.congr ?_ ?_ ?_ ?_ ⟨?_, ?_, ?_⟩
    · unfold Handoff.backlogCheck; split_ifs <;> exact id
    · unfold Handoff.backlogCheck; split_ifs <;> rfl
    · unfold Handoff.backlogCheck; split_ifs <;> rfl
    · unfold Handoff.backlogCheck; split_ifs <;> rfl
    · unfold Ledger.enter; split_ifs <;> rfl
    · unfold Ledger.enter; split_ifs <;> rfl
    · unfold Ledger.enter; split_ifs <;> rfl
  | discard hcam =>
    rw [hnil rfl]
    -- a discarded frame is no longer pending
    have hnone : (Handoff.discard h).hasFrame (Handoff.discard h).readyIdx = false := Function.update_self _ _ _
    refine ht.congr (fun hf => ?_) rfl rfl rfl ⟨?_, ?_, ?_⟩
    · rw [hnone] at hf
      cases hf
    · unfold Ledger.enter; split_ifs <;> rfl
    · unfold Ledger.enter; split_ifs <;> rfl
    · unfold Ledger.enter; split_ifs <;> rfl
  | capture hcam =>
    rw [hnil rfl]
    exact ht.congr id rfl rfl rfl ⟨rfl, rfl, rfl⟩
  | popFrame hnet hp =>
    rw [hnil rfl]
    exact pop_tracked ht hnet hp
  | popNothing hnet hp =>
    rw [hnil rfl, Handoff.enter_pop_nothing l hnet hp]
    exact ht
  | readPiece hnet =>
    rw [hnil rfl]
    exact readPiece_tracked ht hnet
  | stop hnet =>
    rw [hnil rfl]
    exact ⟨ht.count, ht.pending, nofun⟩

end Publications

/-! ## The record in hand -/

/-- The record of which a piece is still to be read. -/
def due : Pc → Option Sending
  | .length x | .piece x => some x
  | .payload x => if x.payload.length < x.fbSz then some x else none
  | _ => none

/-- The hand-off is at the place in the frame at which the network thread is. -/
def Linked (pc : Pc) (h : Handoff.State) : Prop :=
  match due pc with
  | some x => ∃ i captured, h.network = .sending i x.fbSz x.payload.length x.payload captured
  | none => h.network = .idle

theorem Linked.sending {pc : Pc} {h : Handoff.State} {x : Sending} (hl : Linked pc h) (hd : due pc = some x) :
    ∃ i captured, h.network = .sending i x.fbSz x.payload.length x.payload captured := by
  unfold Linked at hl
  rwa [hd] at hl

theorem Linked.of_sending {pc : Pc} {h : Handoff.State} {x : Sending} {i : Fin 2} {captured : List UInt8}
    (hd : due pc = some x) (hn : h.network = .sending i x.fbSz x.payload.length x.payload captured) :
    Linked pc h := by
  unfold Linked
  rw [hd]
  exact ⟨i, captured, hn⟩

theorem Linked.of_idle {pc : Pc} {h : Handoff.State} (hd : due pc = none) (hn : h.network = .idle) : Linked pc h := by
  unfold Linked
  rwa [hd]

theorem due_none {pc : Pc} (h : inHand pc = none) : due pc = none := by
  cases pc with
  | length x | payload x | piece x => cases h
  | _ => rfl

theorem Linked.idle {pc : Pc} {h : Handoff.State} (hl : Linked pc h) (hn : inHand pc = none) : h.network = .idle := by
  unfold Linked at hl
  rwa [due_none hn] at hl

section Network

variable {S : Nat} {n n' : Network.State} {rs : List (Nat × List UInt8)} {h h' : Handoff.State} {l l' : Ledger}

/-- A step that is not about the record in hand leaves the thread in place, or goes between places without one. -/
theorem frameless_place {e : Network.Step} (hf : e.frameless = true) (hq : ∀ paths o k, e ≠ .serve paths o (some k))
    (hs : Network.step n e = some n') : n'.pc = n.pc ∨ (inHand n.pc = none ∧ inHand n'.pc = none) := by
  cases Network.step_moved hs with
  | sendLength | checkPayload | sendPiece => cases hf
  | stopRequest => exact .inl rfl
  | pickFirst hpc => exact .inr ⟨by rw [hpc]; rfl, rfl⟩
  | openFirst hpc => exact .inr ⟨by rw [hpc]; rfl, rfl⟩
  | @head d hpc =>
    refine .inr ⟨by rw [hpc]; rfl, ?_⟩
    unfold Network.head
    cases n.isSending && !d <;> rfl
  | pickProbe hpc =>
    refine .inr ⟨by rw [hpc]; rfl, ?_⟩
    unfold Network.pickProbe
    simp only
    split_ifs <;> rfl
  | openProbe hpc => exact .inr ⟨by rw [hpc]; rfl, rfl⟩
  | pickSend hpc => exact .inr ⟨by rw [hpc]; rfl, rfl⟩
  | @serve paths o frame idx hpc =>
    cases frame with
    | some k => exact absurd rfl (hq paths o k)
    | none => exact .inr ⟨by rw [hpc]; rfl, rfl⟩
  | idle hpc =>
    refine .inr ⟨by rw [hpc]; rfl, ?_⟩
    unfold Network.idle
    split_ifs <;> rfl
  | tail hpc =>
    refine .inr ⟨by rw [hpc]; rfl, ?_⟩
    unfold Network.tail
    simp only
    split_ifs <;> rfl
  | finish hpc => exact .inr ⟨by rw [hpc]; rfl, rfl⟩

/-- A thread on its way out takes no frame and stays on it. -/
theorem ending_kept {e : Network.Step} (hend : n.Ending) (hs : Network.step n e = some n') : n'.Ending := by
  obtain ⟨hoff, hpc'⟩ := hend
  cases Network.step_moved hs with
  | stopRequest => exact ⟨rfl, hpc'⟩
  | @head d hpc =>
    refine ⟨hoff, .inr (.inr (.inl ?_))⟩
    unfold Network.head
    rw [hoff]
    rfl
  | tail hpc =>
    refine ⟨hoff, ?_⟩
    unfold Network.tail
    by_cases hmax : n.maxFrames ≤ n.frameCount
    · exact .inr (.inr (.inl (if_pos hmax)))
    · exact .inr (.inl (if_neg hmax))
  | finish hpc => exact ⟨hoff, .inr (.inr (.inr rfl))⟩
  | pickFirst hpc | openFirst hpc | pickProbe hpc | openProbe hpc | pickSend hpc | serve hpc | idle hpc
  | sendLength hpc | checkPayload hpc | sendPiece hpc => simp [hpc] at hpc'

/-! ## Both threads at one frame -/

/-- A hand-off step with its entry. -/
theorem book_some {e : Handoff.Step} (hb : Handoff.book (h, l) e = some (h', l')) :
    Handoff.step h e = some h' ∧ l' = l.enter h e := by
  obtain ⟨t, hs, heq⟩ := Option.map_eq_some_iff.1 hb
  cases heq
  exact ⟨hs, rfl⟩

/-- `pop_ready_frame` returns what the network thread takes. -/
theorem serve_pops (hb : Handoff.book (h, l) .pop = some (h', l')) :
    (readyFrame h = none ∧ h' = h ∧ l' = l) ∨
    ∃ k, readyFrame h = some k ∧ k = h.readySize h.readyIdx ∧ h.hasFrame h.readyIdx = true ∧
      h' = Handoff.popReadyFrame h ∧
      l' = { l with popped := l.popped ++ [(l.number h.readyIdx, h.readyIdx, h.readySize h.readyIdx)] } := by
  obtain ⟨hs, rfl⟩ := book_some hb
  cases Handoff.step_moved hs with
  | popFrame hnet hp => exact .inr ⟨_, if_pos hp, rfl, hp.1, rfl, Handoff.enter_pop l hnet hp⟩
  | popNothing hnet hp => exact .inl ⟨if_neg hp, rfl, Handoff.enter_pop_nothing l hnet hp⟩

/-- A frame that is left early is left by the hand-off too. -/
theorem stop_idle (hb : Handoff.book (h, l) .stop = some (h', l')) : h'.network = .idle ∧ l' = l := by
  obtain ⟨hs, rfl⟩ := book_some hb
  cases Handoff.step_moved hs with
  | stop hnet => exact ⟨rfl, rfl⟩

theorem nextPiece_sending {i : Fin 2} {k sent : Nat} {payload captured : List UInt8}
    (hn : h.network = .sending i k sent payload captured) : nextPiece h = h.piece i k sent := by
  simp only [nextPiece, hn]

/-- The piece that is sent is the piece that is read, and both threads are as far as each other behind it. -/
theorem readPiece_linked {x : Sending} {i : Fin 2} {captured : List UInt8}
    (hn : h.network = .sending i x.fbSz x.payload.length x.payload captured)
    (hlen : (nextPiece h).length = pieceLen (x.fbSz - x.payload.length))
    (hb : Handoff.book (h, l) .readPiece = some (h', l')) :
    Linked (.payload (x.add (nextPiece h))) h' ∧ l' = l := by
  obtain ⟨hs, rfl⟩ := book_some hb
  refine ⟨?_, rfl⟩
  have hstep : h' = Handoff.readPiece h i x.fbSz x.payload.length x.payload captured := by
    simp only [Handoff.step, hn] at hs
    exact (Option.some.inj hs).symm
  have hadd : (x.add (nextPiece h)).payload.length = x.payload.length + pieceLen (x.fbSz - x.payload.length) := by
    show (x.payload ++ nextPiece h).length = _
    rw [List.length_append, hlen]
  have hfb : (x.add (nextPiece h)).fbSz = x.fbSz := rfl
  rw [hstep]
  unfold Handoff.readPiece
  by_cases hmore : x.payload.length + pieceLen (x.fbSz - x.payload.length) < x.fbSz
  · rw [if_pos hmore]
    have hd : due (.payload (x.add (nextPiece h))) = some (x.add (nextPiece h)) :=
      if_pos (by rw [hadd, hfb]; exact hmore)
    refine @Linked.of_sending _ _ _ i captured hd ?_
    rw [hadd, hfb, ← nextPiece_sending hn]
    rfl
  · rw [if_neg hmore]
    exact .of_idle (if_neg (by rw [hadd, hfb]; exact hmore)) rfl

/-- A step that takes no frame and is not about the one in hand is no step of the hand-off. -/
theorem frameless_same {e : Network.Step} (hf : e.frameless = true) (hq : ∀ paths o k, e ≠ .serve paths o (some k))
    (ha : Agrees h e) (hb : Lts.perhaps Handoff.book (h, l) (handPart n e) = some (h', l')) : h' = h ∧ l' = l := by
  cases e with
  | sendLength | checkPayload | sendPiece => cases hf
  | serve paths o frame =>
    cases frame with
    | some k => exact absurd rfl (hq paths o k)
    | none =>
      rcases serve_pops hb with ⟨-, hh, hl⟩ | ⟨k, hk, -⟩
      · exact ⟨hh, hl⟩
      · have ha' : none = readyFrame h := ha
        rw [hk] at ha'
        cases ha'
  | _ =>
    cases hb
    exact ⟨rfl, rfl⟩

/-- A step of the network thread keeps the two threads at one place in the frame. -/
theorem linked_kept (hr : Network.Recorded S (n, rs)) (hl : Linked n.pc h) {e : Network.Step} (ha : Agrees h e)
    (hs : Network.step n e = some n') (hb : Lts.perhaps Handoff.book (h, l) (handPart n e) = some (h', l')) :
    Linked n'.pc h' := by
  cases hf : e.frameless with
  | true =>
    -- of the steps that take no byte of a frame only the pop changes the hand-off
    by_cases hq : ∃ paths o k, e = .serve paths o (some k)
    · obtain ⟨paths, o, k, rfl⟩ := hq
      have ha' : some k = readyFrame h := ha
      cases Network.step_moved hs with
      | serve hpc hsz =>
        rcases serve_pops hb with ⟨hnone, -⟩ | ⟨k', hk, hsize, -, rfl, -⟩
        · rw [hnone] at ha'
          cases ha'
        · have hkk : k = k' := Option.some.inj (ha'.trans hk)
          subst hkk hsize
          exact .of_sending (i := h.readyIdx) rfl rfl
    · push Not at hq
      obtain ⟨rfl, -⟩ := frameless_same hf hq ha hb
      rcases frameless_place hf hq hs with hpc | ⟨hnone, hnone'⟩
      · rwa [hpc]
      · exact .of_idle (due_none hnone') (hl.idle hnone)
  | false =>
    cases Network.step_moved hs with
    | @sendLength accepted x hpc =>
      obtain ⟨-, hpos, -, hempty⟩ := hr.inv.length x hpc
      rw [hpc] at hl
      cases accepted with
      | true =>
        cases hb
        obtain ⟨i, captured, hn⟩ := hl.sending rfl
        refine .of_sending (if_pos ?_) hn
        rw [hempty]
        exact hpos
      | false => exact .of_idle rfl (stop_idle hb).1
    | @checkPayload nowUs x hpc =>
      rw [hpc] at hl
      unfold Network.checkPayload
      by_cases hmore : x.payload.length < x.fbSz ∧ n.isSending = true
      · have hpart : handPart n (.checkPayload nowUs) = none := by
          simp [handPart, leavesShort, hpc, hmore.2]
        rw [hpart] at hb
        cases hb
        rw [if_pos hmore]
        obtain ⟨i, captured, hn⟩ := hl.sending (if_pos hmore.1)
        exact .of_sending rfl hn
      · rw [if_neg hmore]
        refine .of_idle rfl ?_
        by_cases hshort : x.payload.length < x.fbSz
        · have hoff : n.isSending = false := by simpa [hshort] using hmore
          have hpart : handPart n (.checkPayload nowUs) = some .stop := by
            simp [handPart, leavesShort, hpc, hoff, hshort]
          rw [hpart] at hb
          exact (stop_idle hb).1
        · have hpart : handPart n (.checkPayload nowUs) = none := by
            simp [handPart, leavesShort, hpc, hshort]
          rw [hpart] at hb
          cases hb
          unfold Linked at hl
          rwa [show due (.payload x) = none from if_neg hshort] at hl
    | @sendPiece bytes accepted nowUs x hpc hlen =>
      rw [hpc] at hl
      obtain ⟨i, captured, hn⟩ := hl.sending rfl
      have ha' : bytes = nextPiece h := ha
      subst ha'
      cases accepted with
      | true => exact (readPiece_linked hn hlen hb).1
      | false => exact .of_idle rfl (stop_idle hb).1
    | _ => cases hf

end Network

/-! ## The records and the publications -/

/-- Which publications were popped: those of the records, and that of the record in hand or of the one at which the
run ended. -/
inductive Taken (s : State) : Prop where
  | between (hplace : inHand s.net.pc = none) (hcut : s.net.unfinished = none)
    (hpopped : s.books.popped.map (·.1) = s.numbers)
  | within (hplace : inHand s.net.pc ≠ none ∨ s.net.Ending)
    (hpopped : s.books.popped.map (·.1) = s.numbers ++ [lastPopped s.books])
    (hpart : ∀ x, inHand s.net.pc = some x ∨ s.net.unfinished = some x → PartOf s.jpegs (lastPopped s.books) x)

/-- Both threads' invariants, and what the records have to do with the publications. -/
structure Inv (S : Nat) (s : State) : Prop where
  hand : Handoff.Inv s.hand
  mailbox : Handoff.Mailbox s.hand
  books : Handoff.Books (s.hand, s.books)
  tracked : Tracked s.hand s.books s.jpegs
  recorded : Network.Recorded S (s.net, s.records)
  linked : Linked s.net.pc s.hand
  whole : List.Forall₂ (fun r k => s.jpegs[k]? = some r.2) s.records s.numbers
  taken : Taken s

theorem PartOf.mono {jpegs more : List (List UInt8)} {k : Nat} {x : Sending} (h : PartOf jpegs k x) :
    PartOf (jpegs ++ more) k x := by
  obtain ⟨jpeg, hk, hx⟩ := h
  exact ⟨jpeg, (List.getElem?_append_left (List.getElem?_eq_some_iff.1 hk).1).trans hk, hx⟩

theorem enter_inv (frameBuffer : Fin 2 → List UInt8) (allocated : Bool) (behind : Nat → MpBinding)
    (S maxFrames : Nat) : Inv S (State.enter frameBuffer allocated behind S maxFrames) where
  hand := Handoff.init_inv frameBuffer
  mailbox := Handoff.init_mailbox frameBuffer
  books := Handoff.init_books frameBuffer
  tracked := init_tracked frameBuffer
  recorded := Network.enter_recorded allocated behind S maxFrames
  linked := .of_idle rfl rfl
  whole := .nil
  taken := .between rfl rfl rfl

/-- The camera leaves the network thread's place in the frame alone, and what was popped. -/
theorem camera_frame {h h' : Handoff.State} {l : Ledger} {e : Handoff.Step} (hc : ofCamera e = true)
    (hs : Handoff.step h e = some h') : h'.network = h.network ∧ (l.enter h e).popped = l.popped := by
  cases Handoff.step_moved hs with
  | popFrame | popNothing | readPiece | stop => cases hc
  | @backlogCheck nowUs hcam =>
    constructor
    · unfold Handoff.backlogCheck; split_ifs <;> rfl
    · unfold Ledger.enter; split_ifs <;> rfl
  | discard hcam =>
    refine ⟨rfl, ?_⟩
    unfold Ledger.enter
    split_ifs <;> rfl
  | capture hcam => exact ⟨rfl, rfl⟩
  | publish hcam =>
    refine ⟨rfl, ?_⟩
    simp only [Ledger.enter, hcam]

theorem camera_inv {S : Nat} {s s' : State} (hi : Inv S s) {e : Handoff.Step} (hc : Handoff.DiscardsClear s.hand e)
    (hs : step s (.camera e) = some s') : Inv S s' := by
  simp only [step] at hs
  split at hs
  · rename_i hcam
    obtain ⟨⟨h', l'⟩, hb, rfl⟩ := Option.map_eq_some_iff.1 hs
    obtain ⟨hh, rfl⟩ := book_some hb
    obtain ⟨hnet, hpop⟩ := camera_frame (l := s.books) hcam hh
    have hlast : lastPopped (s.books.enter s.hand e) = lastPopped s.books := by unfold lastPopped; rw [hpop]
    have hwhole : List.Forall₂ (fun r k => (s.jpegs ++ publishes s.hand e)[k]? = some r.2) s.records s.numbers :=
      hi.whole.imp fun r k hk => (List.getElem?_append_left (List.getElem?_eq_some_iff.1 hk).1).trans hk
    refine ⟨Handoff.step_inv hi.hand hc hh, Handoff.step_mailbox hi.mailbox hh,
      Handoff.step_books hi.mailbox hi.books hh, step_tracked hi.mailbox hi.tracked hh, hi.recorded, ?_, hwhole, ?_⟩
    · show Linked s.net.pc h'
      have hl := hi.linked
      unfold Linked at hl ⊢
      rwa [hnet]
    · cases hi.taken with
      | between hplace hcut hpopped => exact .between hplace hcut ((congrArg _ hpop).trans hpopped)
      | within hplace hpopped hpart =>
        refine .within hplace ?_ fun x hx => ?_
        · show (s.books.enter s.hand e).popped.map (·.1) = s.numbers ++ [lastPopped (s.books.enter s.hand e)]
          rw [hpop, hlast, hpopped]
        · show PartOf (s.jpegs ++ publishes s.hand e) (lastPopped (s.books.enter s.hand e)) x
          rw [hlast]
          exact (hpart x hx).mono
  · cases hs

/-! ## Network steps -/

section Take

variable {S : Nat} {s s' : State}

/-- The parts of a step of the network thread. -/
theorem network_step {e : Network.Step} (hs : step s (.network e) = some s') :
    Agrees s.hand e ∧ Lts.perhaps Handoff.book (s.hand, s.books) (handPart s.net e) = some (s'.hand, s'.books) ∧
      Network.step s.net e = some s'.net ∧ s'.records = s.records ++ Network.completes s.net e ∧
      s'.jpegs = s.jpegs ∧ s'.numbers = s.numbers ++ (Network.completes s.net e).map fun _ => lastPopped s.books := by
  simp only [step] at hs
  split at hs
  · rename_i ha
    obtain ⟨⟨h', l'⟩, hb, hs⟩ := Option.bind_eq_some_iff.1 hs
    obtain ⟨⟨n', rs'⟩, hn, rfl⟩ := Option.map_eq_some_iff.1 hs
    obtain ⟨t, ht, heq⟩ := Option.map_eq_some_iff.1 hn
    cases heq
    exact ⟨ha, hb, ht, rfl, rfl, rfl⟩
  · cases hs

theorem completes_frameless {n : Network.State} {e : Network.Step} (hf : e.frameless = true) :
    Network.completes n e = [] := by
  cases e with
  | sendLength | checkPayload | sendPiece => cases hf
  | _ => rfl

/-- A thread without a record in hand, and not on its way out, has popped what it recorded. -/
theorem Taken.free (ht : Taken s) (hplace : inHand s.net.pc = none) (hgo : ¬ s.net.Ending) :
    s.net.unfinished = none ∧ s.books.popped.map (·.1) = s.numbers := by
  cases ht with
  | between _ hcut hpopped => exact ⟨hcut, hpopped⟩
  | within hat => exact absurd (hat.resolve_left fun h => h hplace) hgo

/-- What was popped for the record in hand. -/
theorem Taken.held (ht : Taken s) {x : Sending} (hx : inHand s.net.pc = some x) :
    s.books.popped.map (·.1) = s.numbers ++ [lastPopped s.books] ∧ PartOf s.jpegs (lastPopped s.books) x := by
  cases ht with
  | between hplace =>
    rw [hx] at hplace
    cases hplace
  | within _ hpopped hpart => exact ⟨hpopped, hpart x (.inl hx)⟩

theorem frameless_taken (ht : Taken s) {e : Network.Step} (hf : e.frameless = true)
    (hq : ∀ paths o k, e ≠ .serve paths o (some k)) (hs : Network.step s.net e = some s'.net)
    (hb : s'.books = s.books) (hj : s'.jpegs = s.jpegs) (hnum : s'.numbers = s.numbers) : Taken s' := by
  have hun := Network.frameless_unfinished hf hs
  have hplace := frameless_place hf hq hs
  cases ht with
  | between hat hcut hpopped =>
    refine .between ?_ (hun.trans hcut) (by rw [hb, hnum, hpopped])
    rcases hplace with hpc | ⟨-, hnone⟩
    · rwa [hpc]
    · exact hnone
  | within hat hpopped hpart =>
    refine .within ?_ (by rw [hb, hnum, hpopped]) fun x hx => ?_
    · rcases hat with hin | hend
      · rcases hplace with hpc | ⟨hnone, -⟩
        · exact .inl (hpc ▸ hin)
        · exact absurd hnone hin
      · exact .inr (ending_kept hend hs)
    · rw [hj, hb]
      refine hpart x ?_
      rw [hun] at hx
      rcases hx with hx | hx
      · rcases hplace with hpc | ⟨-, hnone⟩
        · exact .inl (hpc ▸ hx)
        · rw [hnone] at hx
          cases hx
      · exact .inr hx

/-- The frame that is taken is the publication that was pending. -/
theorem serve_taken (hi : Inv S s) {k : Nat} {paths : Paths} {o : Opening}
    (ha : Agrees s.hand (.serve paths o (some k))) (hs : Network.step s.net (.serve paths o (some k)) = some s'.net)
    (hb : Handoff.book (s.hand, s.books) .pop = some (s'.hand, s'.books)) (hj : s'.jpegs = s.jpegs)
    (hnum : s'.numbers = s.numbers) : Taken s' := by
  have hun' := Network.frameless_unfinished rfl hs
  obtain ⟨hand', books', net', records', jpegs', numbers'⟩ := s'
  simp only at hs hb hj hnum hun'
  subst hj hnum
  have ha' : some k = readyFrame s.hand := ha
  rcases serve_pops hb with ⟨hnone, -⟩ | ⟨k', hk, hsize, hhas, -, rfl⟩
  · rw [hnone] at ha'
    cases ha'
  · have hkk : k = k' := Option.some.inj (ha'.trans hk)
    subst hkk
    cases Network.step_moved hs with
    | serve hpc hsz =>
      have hgo : ¬ s.net.Ending := fun h => by
        have := h.2
        simp [hpc] at this
      obtain ⟨hcut, hpopped⟩ := hi.taken.free (by rw [hpc]; rfl) hgo
      have hlast : lastPopped { s.books with
          popped := s.books.popped ++ [(s.books.number s.hand.readyIdx, s.hand.readyIdx,
            s.hand.readySize s.hand.readyIdx)] } = s.books.number s.hand.readyIdx := by
        unfold lastPopped
        rw [List.getLast?_append]
        rfl
      obtain ⟨hlen, -⟩ := hi.hand.pending hhas
      refine .within (.inl nofun) ?_ fun x hx => ?_
      · rw [hlast, List.map_append, hpopped]
        rfl
      · rw [hlast]
        rcases hx with hx | hx
        · cases hx
          refine ⟨_, hi.tracked.pending hhas, ?_, List.nil_prefix⟩
          rw [hlen]
          exact hsize
        · rw [hun', hcut] at hx
          cases hx

/-- The length is sent of the record in hand, or the run ends at it. -/
theorem sendLength_taken (hi : Inv S s) {x : Sending} (hpc : s.net.pc = .length x) {accepted : Bool}
    (hs : s'.net = Network.sendLength s.net x accepted) (hb : s'.books = s.books) (hj : s'.jpegs = s.jpegs)
    (hnum : s'.numbers = s.numbers) : Taken s' := by
  obtain ⟨hpopped, hpart⟩ := hi.taken.held (x := x) (by rw [hpc]; rfl)
  have hcut : s.net.cut = none := hi.recorded.inv.no_cut (by simp [hpc])
  cases accepted with
  | true =>
    refine .within (.inl (by rw [hs]; nofun)) (by rw [hb, hnum, hpopped]) fun y hy => ?_
    rw [hs] at hy
    rw [hj, hb]
    rcases hy with hy | hy <;> cases hy <;> exact hpart
  | false =>
    have hend : s'.net.Ending := by
      rw [hs]
      exact ⟨rfl, .inr (.inr (.inl rfl))⟩
    refine .within (.inr hend) (by rw [hb, hnum, hpopped]) fun y hy => ?_
    rw [hs] at hy
    rcases hy with hy | hy
    · cases hy
    · have hy' : s.net.cut = some y := hy
      rw [hcut] at hy'
      cases hy'

/-- A record that is left short is where the run ends. -/
theorem leave_taken {x : Sending} (hpopped : s.books.popped.map (·.1) = s.numbers ++ [lastPopped s.books])
    (hpart : PartOf s.jpegs (lastPopped s.books) x) {t : Network.State} {nowUs : Nat}
    (hshort : x.payload.length < x.fbSz) (hoff : t.isSending = false)
    (hs : s'.net = Network.leavePayload t x nowUs) (hb : s'.books = s.books)
    (hj : s'.jpegs = s.jpegs) (hnum : s'.numbers = s.numbers) : Taken s' := by
  refine .within (.inr (by rw [hs]; exact ⟨hoff, .inl rfl⟩)) (by rw [hb, hnum, hpopped]) fun y hy => ?_
  rw [hs] at hy
  rcases hy with hy | hy
  · cases hy
  · rw [Network.leavePayload_unfinished, if_pos hshort] at hy
    cases hy
    rw [hj, hb]
    exact hpart

theorem checkPayload_taken (hi : Inv S s) {x : Sending} (hpc : s.net.pc = .payload x) {nowUs : Nat}
    (hs : s'.net = Network.checkPayload s.net x nowUs) (hb : s'.books = s.books) (hj : s'.jpegs = s.jpegs)
    (hnum : s'.numbers =
      s.numbers ++ (Network.completes s.net (.checkPayload nowUs)).map fun _ => lastPopped s.books) : Taken s' := by
  obtain ⟨hpopped, hpart⟩ := hi.taken.held (x := x) (by rw [hpc]; rfl)
  obtain ⟨-, hcut⟩ := hi.recorded.inv.of_sending (.inl hpc)
  have hcompletes : Network.completes s.net (.checkPayload nowUs) =
      if x.fbSz ≤ x.payload.length then [(x.sid, x.payload)] else [] := by simp only [Network.completes, hpc]
  rw [hcompletes] at hnum
  unfold Network.checkPayload at hs
  by_cases hwhole : x.fbSz ≤ x.payload.length
  · rw [if_neg (by omega)] at hs
    rw [if_pos hwhole] at hnum
    refine .between (by rw [hs]; rfl) ?_ (by rw [hb, hpopped, hnum]; rfl)
    rw [hs, Network.leavePayload_unfinished, if_neg (Nat.not_lt.2 hwhole), hcut]
  · rw [if_neg hwhole, List.map_nil, List.append_nil] at hnum
    split at hs
    · refine .within (.inl (by rw [hs]; exact Option.some_ne_none x)) (by rw [hb, hnum, hpopped]) fun y hy => ?_
      rw [hs] at hy
      rw [hj, hb]
      rcases hy with hy | hy <;> cases hy <;> exact hpart
    · rename_i hout
      have hoff : s.net.isSending = false := by
        by_contra hon
        exact hout ⟨Nat.not_le.1 hwhole, Bool.eq_true_of_not_eq_false hon⟩
      exact leave_taken hpopped hpart (Nat.not_le.1 hwhole) hoff hs hb hj hnum

/-- A piece of the record in hand is the next part of its publication. -/
theorem sendPiece_taken (hi : Inv S s) {x : Sending} (hpc : s.net.pc = .piece x) {accepted : Bool} {nowUs : Nat}
    (hs : s'.net = Network.sendPiece s.net x (nextPiece s.hand) accepted nowUs) (hb : s'.books = s.books)
    (hj : s'.jpegs = s.jpegs) (hnum : s'.numbers = s.numbers) : Taken s' := by
  obtain ⟨hpopped, hpart⟩ := hi.taken.held (x := x) (by rw [hpc]; rfl)
  have hl := hi.linked
  rw [hpc] at hl
  obtain ⟨i, captured, hn⟩ := hl.sending rfl
  cases accepted with
  | false => exact leave_taken hpopped hpart (hi.recorded.short x hpc) rfl hs hb hj hnum
  | true =>
    obtain ⟨hlt, hholds, hsent⟩ := hi.hand.sending _ _ _ _ _ hn
    have hadd : (x.add (nextPiece s.hand)).payload =
        captured.take (x.payload.length + pieceLen (x.fbSz - x.payload.length)) := by
      show x.payload ++ nextPiece s.hand = _
      rw [nextPiece_sending hn, ← Handoff.Holds.piece hholds hlt]
      exact congrArg (· ++ _) hsent
    have hpart' : PartOf s.jpegs (lastPopped s.books) (x.add (nextPiece s.hand)) := by
      refine ⟨captured, hi.tracked.sending _ _ _ _ _ hn, hholds.1.symm, ?_⟩
      rw [hadd]
      exact List.take_prefix _ _
    refine .within (.inl (by rw [hs]; nofun)) (by rw [hb, hnum, hpopped]) fun y hy => ?_
    rw [hs] at hy
    rw [hj, hb]
    rcases hy with hy | hy <;> cases hy <;> exact hpart'

/-- The record that a step completes is the publication popped for it. -/
theorem completes_whole (hi : Inv S s) {e : Network.Step} {n' : Network.State} (hs : Network.step s.net e = some n') :
    List.Forall₂ (fun r k => s.jpegs[k]? = some r.2) (Network.completes s.net e)
      ((Network.completes s.net e).map fun _ => lastPopped s.books) := by
  cases hf : e.frameless with
  | true =>
    rw [completes_frameless hf]
    exact .nil
  | false =>
    cases Network.step_moved hs with
    | sendLength | sendPiece => exact .nil
    | @checkPayload nowUs x hpc =>
      have hpc' : s.net.pc = .payload x := hpc
      obtain ⟨-, jpeg, hk, hlen, hgrown⟩ := hi.taken.held (x := x) (by rw [hpc']; rfl)
      have hcompletes : Network.completes s.net (.checkPayload nowUs) =
          if x.fbSz ≤ x.payload.length then [(x.sid, x.payload)] else [] := by simp only [Network.completes, hpc']
      rw [hcompletes]
      split
      · rename_i hwhole
        refine .cons ?_ .nil
        rw [hgrown.eq_of_length_le (hlen ▸ hwhole)]
        exact hk
      · exact .nil
    | _ => cases hf

/-- What a step of the network thread is to the hand-off keeps what the hand-off keeps. -/
theorem handPart_kept (hi : Inv S s) {n : Network.State} {e : Network.Step} {h' : Handoff.State} {l' : Ledger}
    (hb : Lts.perhaps Handoff.book (s.hand, s.books) (handPart n e) = some (h', l')) :
    Handoff.Inv h' ∧ Handoff.Mailbox h' ∧ Handoff.Books (h', l') ∧ Tracked h' l' s.jpegs := by
  have hpart : ∀ d ∈ handPart n e, d ≠ .discard ∧ publishes s.hand d = [] := by
    intro d hd
    cases e with
    | serve =>
      cases hd
      exact ⟨nofun, rfl⟩
    | sendLength accepted =>
      cases accepted <;> cases hd
      exact ⟨nofun, rfl⟩
    | checkPayload =>
      simp only [handPart] at hd
      split at hd <;> cases hd
      exact ⟨nofun, rfl⟩
    | sendPiece bytes accepted =>
      cases accepted <;> cases hd
      · exact ⟨nofun, rfl⟩
      · exact ⟨nofun, rfl⟩
    | _ => cases hd
  refine Lts.perhaps_inv (I := fun x : Handoff.State × Ledger =>
    Handoff.Inv x.1 ∧ Handoff.Mailbox x.1 ∧ Handoff.Books x ∧ Tracked x.1 x.2 s.jpegs) ?_
    ⟨hi.hand, hi.mailbox, hi.books, hi.tracked⟩ hb
  rintro d hd ⟨h1, l1⟩ hstep
  obtain ⟨hh, rfl⟩ := book_some hstep
  obtain ⟨hne, hnone⟩ := hpart d hd
  have htracked := step_tracked hi.mailbox hi.tracked hh
  rw [hnone, List.append_nil] at htracked
  exact ⟨Handoff.step_inv hi.hand (fun he => absurd he hne) hh, Handoff.step_mailbox hi.mailbox hh,
    Handoff.step_books hi.mailbox hi.books hh, htracked⟩

theorem network_taken (hi : Inv S s) {e : Network.Step} (hs : step s (.network e) = some s') : Taken s' := by
  obtain ⟨ha, hb, hn, -, hj, hnum⟩ := network_step hs
  cases hf : e.frameless with
  | true =>
    rw [completes_frameless hf, List.map_nil, List.append_nil] at hnum
    by_cases hq : ∃ paths o k, e = .serve paths o (some k)
    · obtain ⟨paths, o, k, rfl⟩ := hq
      exact serve_taken hi ha hn hb hj hnum
    · push Not at hq
      exact frameless_taken hi.taken hf hq hn (frameless_same hf hq ha hb).2 hj hnum
  | false =>
    -- what is done with a frame in hand leaves the books as they are
    have hbooks : s'.books = s.books := by
      cases hpart : handPart s.net e with
      | none =>
        rw [hpart] at hb
        exact (Prod.mk.inj (Option.some.inj hb)).2.symm
      | some d =>
        rw [hpart] at hb
        obtain ⟨-, hl⟩ := book_some hb
        rw [hl]
        cases e with
        | sendLength accepted =>
          cases accepted <;> cases hpart
          rfl
        | checkPayload =>
          simp only [handPart] at hpart
          split at hpart <;> cases hpart
          rfl
        | sendPiece bytes accepted => cases accepted <;> cases hpart <;> rfl
        | _ => cases hf
    generalize hnet : s'.net = n' at hn
    cases Network.step_moved hn with
    | sendLength hpc => exact sendLength_taken hi hpc hnet hbooks hj (by rw [hnum]; exact List.append_nil _)
    | checkPayload hpc => exact checkPayload_taken hi hpc hnet hbooks hj hnum
    | @sendPiece bytes accepted nowUs x hpc hlen =>
      have ha' : bytes = nextPiece s.hand := ha
      subst ha'
      exact sendPiece_taken hi hpc hnet hbooks hj (by rw [hnum]; exact List.append_nil _)
    | _ => cases hf

theorem network_inv (hi : Inv S s) {e : Network.Step}
    (hc : Network.FreshId s.net e ∧ Network.FrameHasStream s.net e) (hs : step s (.network e) = some s') :
    Inv S s' := by
  obtain ⟨ha, hb, hn, hrec, hj, hnum⟩ := network_step hs
  obtain ⟨hhand, hmailbox, hbooks, htracked⟩ := handPart_kept hi hb
  have hstep : Network.recorded (s.net, s.records) e = some (s'.net, s'.records) := by
    rw [Network.recorded, hn, hrec]
    rfl
  refine ⟨hhand, hmailbox, hbooks, ?_, Network.recorded_kept hi.recorded hc hstep,
    linked_kept hi.recorded hi.linked ha hn hb, ?_, network_taken hi hs⟩
  · rw [hj]
    exact htracked
  · rw [hj, hrec, hnum]
    exact List.rel_append hi.whole (completes_whole hi hn)

end Take

/-! ## Runs -/

/-- Every step of either thread keeps the invariant. -/
theorem step_inv {S : Nat} {s s' : State} (hi : Inv S s) {e : Step} (hc : Clear s e) (hs : step s e = some s') :
    Inv S s' := by
  cases e with
  | camera e => exact camera_inv hi hc hs
  | network e => exact network_inv hi hc hs

theorem Inv.delivered {S : Nat} {s : State} (hi : Inv S s) : Delivered S s := by
  have hinc : (s.books.popped.map (·.1)).Pairwise (· < ·) := hi.books.inOrder.sublist (List.sublist_append_left _ _)
  have heach := hi.books.each
  rw [← hi.tracked.count] at heach
  refine ⟨hi.recorded.carries.bytes, hi.recorded.carries.only, hi.whole, ?_, ?_, ?_⟩
  · cases hi.taken with
    | between _ _ hpopped => exact hpopped ▸ hinc
    | within _ hpopped =>
      rw [hpopped] at hinc
      exact hinc.sublist (List.sublist_append_left _ _)
  · intro x hx
    cases hi.taken with
    | between _ hcut =>
      rw [hcut] at hx
      cases hx
    | within _ hpopped hpart =>
      rw [hpopped, List.pairwise_append] at hinc
      exact ⟨lastPopped s.books, fun j hj => hinc.2.2 j hj _ (List.mem_singleton.2 rfl), hpart x (.inr hx)⟩
  · cases hi.taken with
    | between _ _ hpopped =>
      refine ⟨[], Nat.zero_le _, fun h => absurd rfl h, ?_⟩
      rw [List.append_nil, ← hpopped]
      exact heach
    | within hplace hpopped =>
      refine ⟨[lastPopped s.books], le_refl _, fun _ => hplace, ?_⟩
      rw [← hpopped]
      exact heach

/-- In every run of both threads whose discards find the network thread off the buffer the camera writes next, and in
which each frame taken has a stream, what is on the streams are the JPEGs the camera published: each record is one,
whole, under a number greater than those before it, and none is lost but those given up and the one the run ends at. -/
theorem published_delivered (frameBuffer : Fin 2 → List UInt8) (allocated : Bool) (behind : Nat → MpBinding)
    (controlStreamId maxFrames : Nat) {es : List Step} {s : State}
    (hc : Lts.Meets step Clear (State.enter frameBuffer allocated behind controlStreamId maxFrames) es)
    (h : Lts.run step (State.enter frameBuffer allocated behind controlStreamId maxFrames) es = some s) :
    Delivered controlStreamId s :=
  (Lts.inv_run (fun _ _ _ hi hc h => step_inv hi hc h) es _ s
    (enter_inv frameBuffer allocated behind controlStreamId maxFrames) hc h).delivered

/-- Two frames, of which the second is captured while the first is sent. -/
def twoFrames : List Step :=
  [.camera (.backlogCheck 1), .camera (.capture (.jpeg [5, 6])), .camera .publish,
    .network (.pickFirst (Network.onePath true)), .network (.openFirst (Network.onePath true) ⟨3, true⟩ 1),
    .network (.head false), .network (.pickProbe (Network.onePath true) 2),
    .network (.pickSend (Network.onePath true)), .network (.serve (Network.onePath true) ⟨7, true⟩ (some 2)),
    .camera (.backlogCheck 2), .camera (.capture (.jpeg [8])), .camera .publish, .network (.sendLength true),
    .network (.checkPayload 3), .network (.sendPiece [5, 6] true 4), .network (.checkPayload 5), .network .tail]

theorem twoFrames_delivered :
    (Lts.run step (State.enter (fun _ => []) true Network.nothing 0 10) twoFrames).map
        (fun s => (s.records, s.numbers, s.jpegs)) = some ([(3, [5, 6])], [0], [[5, 6], [8]]) ∧
      ∀ s, Lts.run step (State.enter (fun _ => []) true Network.nothing 0 10) twoFrames = some s → Delivered 0 s :=
  ⟨by decide, fun _ h => published_delivered (fun _ => []) true Network.nothing 0 10 (by decide) h⟩

end Mquic.Server.Pipeline
