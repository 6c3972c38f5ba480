/-
The books of the hand-off: which frames were published, popped, and given up. The two buffers work as a mailbox
for one frame: whatever the threads do, each published frame is popped once, or given up, or still pending, frames
are popped in the order of their publication, and one is given up only when the camera has seen it pending for
more than the backlog delay.
-/
import Mquic.Server.Handoff

namespace Mquic.Server.Handoff

/-! ## The ledger -/

/-- A frame given up: the number of its publication, the clock when the camera first saw it pending, and the
clock the camera read last. -/
structure GivenUp where
  number : Nat
  firstSeen : Option Nat
  nowUs : Nat

/-- What happened so far: the frames published (buffer index and size), what `pop_ready_frame` returned, and the
frames given up. `number` names the publication in each buffer, `firstSeen` the clock at which the camera first
saw it pending. -/
structure Ledger where
  published : List (Fin 2 × Nat)
  popped : List (Nat × Fin 2 × Nat)
  givenUp : List GivenUp
  number : Fin 2 → Nat
  firstSeen : Nat → Option Nat
  nowUs : Nat

/-- The books before the first step. -/
def Ledger.init : Ledger := ⟨[], [], [], fun _ => 0, fun _ => none, 0⟩

/-- The camera sees publication `k` pending. -/
def Ledger.see (l : Ledger) (k nowUs : Nat) : Ledger :=
  { l with firstSeen := Function.update l.firstSeen k (some ((l.firstSeen k).getD nowUs)) }

/-- The entry for a step taken in state `s`. -/
def Ledger.enter (l : Ledger) (s : State) : Step → Ledger
  | .backlogCheck nowUs =>
    if s.hasFrame s.readyIdx then { l.see (l.number s.readyIdx) nowUs with nowUs := nowUs }
    else { l with nowUs := nowUs }
  | .discard =>
    -- a frame popped since the check is not given up
    if s.hasFrame s.readyIdx then
      { l with givenUp := l.givenUp ++ [⟨l.number s.readyIdx, l.firstSeen (l.number s.readyIdx), l.nowUs⟩] }
    else l
  | .publish =>
    match s.camera with
    | .publish idx jpegSize _ =>
      { l with
        published := l.published ++ [(idx, jpegSize)]
        number := Function.update l.number idx l.published.length }
    | _ => l
  | .pop =>
    -- the buffer and the size that the network thread was given
    match (step s .pop).map State.network with
    | some (.sending idx fbSz _ _ _) => { l with popped := l.popped ++ [(l.number idx, idx, fbSz)] }
    | _ => l
  | .capture _ | .readPiece | .stop => l

theorem enter_pop {s : State} (l : Ledger) (hnet : s.network = .idle)
    (hp : s.hasFrame s.readyIdx = true ∧ 0 < s.readySize s.readyIdx) : l.enter s .pop =
      { l with popped := l.popped ++ [(l.number s.readyIdx, s.readyIdx, s.readySize s.readyIdx)] } := by
  simp only [Ledger.enter, step, hnet, if_pos hp, Option.map_some, popReadyFrame]

theorem enter_pop_nothing {s : State} (l : Ledger) (hnet : s.network = .idle)
    (hp : ¬ (s.hasFrame s.readyIdx = true ∧ 0 < s.readySize s.readyIdx)) : l.enter s .pop = l := by
  simp only [Ledger.enter, step, hnet, if_neg hp, Option.map_some]

/-- A step of the threads, with its entry. -/
def book (x : State × Ledger) (e : Step) : Option (State × Ledger) := (step x.1 e).map (·, x.2.enter x.1 e)

/-- The clock reading of a step. -/
def Step.reading : Step → Option Nat
  | .backlogCheck nowUs => some nowUs
  | _ => none

/-- The clock the camera reads is positive and never goes back. -/
def ClockOk (es : List Step) : Prop :=
  (es.filterMap Step.reading).Pairwise (· ≤ ·) ∧ ∀ t ∈ es.filterMap Step.reading, 0 < t

instance (es : List Step) : Decidable (ClockOk es) := inferInstanceAs (Decidable (_ ∧ _))

/-- The number of the pending frame. -/
def pending (x : State × Ledger) : List Nat := if x.1.hasFrame x.1.readyIdx then [x.2.number x.1.readyIdx] else []

/-- What is claimed of a state and its books. -/
structure Balanced (x : State × Ledger) : Prop where
  distinct : x.1.activeIdx ≠ x.1.readyIdx
  empty : x.1.hasFrame x.1.activeIdx = false
  single : ∀ i j, x.1.hasFrame i = true → x.1.hasFrame j = true → i = j
  inOrder : (x.2.popped.map (·.1)).Pairwise (· < ·)
  asPublished : ∀ p ∈ x.2.popped, x.2.published[p.1]? = some p.2
  sublist : (x.2.popped.map (·.2)).Sublist x.2.published
  each : (x.2.popped.map (·.1) ++ x.2.givenUp.map (·.number) ++ pending x).Perm (List.range x.2.published.length)
  late : ∀ y ∈ x.2.givenUp, ∃ t, y.firstSeen = some t ∧ t + maxBacklogDelayUs < y.nowUs

/-! ## The invariant -/

/-- The camera is past its look at the pending frame. -/
def CameraPc.past : CameraPc → Bool
  | .capture | .publish _ _ _ => true
  | _ => false

/-- The mailbox: only the ready buffer holds a frame, and none while the camera makes the next one. -/
structure Mailbox (s : State) : Prop where
  distinct : s.activeIdx ≠ s.readyIdx
  empty : s.hasFrame s.activeIdx = false
  cleared : s.camera.past = true → s.hasFrame s.readyIdx = false
  publishing : ∀ idx n jpeg, s.camera = .publish idx n jpeg → idx = s.activeIdx ∧ 0 < n

/-- The books: the pending frame is the latest publication, and every publication is accounted for. -/
structure Books (x : State × Ledger) : Prop where
  latest : x.1.hasFrame x.1.readyIdx = true → x.2.number x.1.readyIdx + 1 = x.2.published.length ∧
    x.2.published[x.2.number x.1.readyIdx]? = some (x.1.readyIdx, x.1.readySize x.1.readyIdx) ∧
    0 < x.1.readySize x.1.readyIdx
  inOrder : (x.2.popped.map (·.1) ++ pending x).Pairwise (· < ·)
  asPublished : ∀ p ∈ x.2.popped, x.2.published[p.1]? = some p.2
  each : (x.2.popped.map (·.1) ++ x.2.givenUp.map (·.number) ++ pending x).Perm (List.range x.2.published.length)

/-- The timer: `backlog_start_us` is the clock at which the pending frame was first seen, 0 if it was not. -/
structure Timer (x : State × Ledger) : Prop where
  unseen : ∀ k, x.2.published.length ≤ k → x.2.firstSeen k = none
  start : x.1.hasFrame x.1.readyIdx = true → x.2.firstSeen (x.2.number x.1.readyIdx) =
    if x.1.backlogStartUs = 0 then none else some x.1.backlogStartUs
  stopped : x.1.camera.past = true → x.1.backlogStartUs = 0
  past : x.1.backlogStartUs ≤ x.2.nowUs
  due : x.1.camera = .discard → 0 < x.1.backlogStartUs ∧ x.1.backlogStartUs + maxBacklogDelayUs < x.2.nowUs
  late : ∀ y ∈ x.2.givenUp, ∃ t, y.firstSeen = some t ∧ t + maxBacklogDelayUs < y.nowUs

section Steps

variable {s : State} {l : Ledger}

/-! ## The mailbox -/

theorem init_mailbox (frameBuffer : Fin 2 → List UInt8) : Mailbox (State.init frameBuffer) :=
  ⟨Fin.zero_ne_one, rfl, nofun, nofun⟩

theorem backlogCheck_mailbox (hm : Mailbox s) (nowUs : Nat) : Mailbox (backlogCheck s nowUs) := by
  unfold backlogCheck
  split_ifs with hf hlate
  · exact ⟨hm.distinct, hm.empty, nofun, nofun⟩
  · exact ⟨hm.distinct, hm.empty, nofun, nofun⟩
  · exact ⟨hm.distinct, hm.empty, fun _ => by simpa using hf, nofun⟩

theorem discard_mailbox (hm : Mailbox s) : Mailbox (discard s) := by
  refine ⟨hm.distinct, ?_, fun _ => Function.update_self _ _ _, nofun⟩
  exact (Function.update_of_ne hm.distinct _ _).trans hm.empty

theorem capture_mailbox (hm : Mailbox s) (hcam : s.camera = .capture) (shot : Shot) : Mailbox (capture s shot) := by
  refine ⟨hm.distinct, hm.empty, fun _ => hm.cleared (by rw [hcam]; rfl), ?_⟩
  rintro idx n jpeg hpc
  unfold capture at hpc
  simp only at hpc
  split at hpc
  · rename_i hok
    cases hpc
    exact ⟨rfl, by omega⟩
  · cases hpc

/-- The buffer that was ready is empty when it becomes the active one. -/
theorem publish_mailbox (hm : Mailbox s) {idx : Fin 2} {n : Nat} {jpeg : List UInt8}
    (hcam : s.camera = .publish idx n jpeg) : Mailbox (publish s idx n jpeg) := by
  obtain ⟨rfl, -⟩ := hm.publishing idx n jpeg hcam
  refine ⟨hm.distinct.symm, ?_, nofun, nofun⟩
  exact (Function.update_of_ne hm.distinct.symm _ _).trans (hm.cleared (by rw [hcam]; rfl))

theorem popReadyFrame_mailbox (hm : Mailbox s) : Mailbox (popReadyFrame s) := by
  refine ⟨hm.distinct, ?_, fun _ => Function.update_self _ _ _, hm.publishing⟩
  exact (Function.update_of_ne hm.distinct _ _).trans hm.empty

theorem readPiece_mailbox (hm : Mailbox s) (idx : Fin 2) (n sent : Nat) (payload captured : List UInt8) :
    Mailbox (readPiece s idx n sent payload captured) := by
  unfold readPiece
  split
  · exact ⟨hm.distinct, hm.empty, hm.cleared, hm.publishing⟩
  · exact ⟨hm.distinct, hm.empty, hm.cleared, hm.publishing⟩

theorem step_mailbox {s' : State} (hm : Mailbox s) {e : Step} (h : step s e = some s') : Mailbox s' := by
  cases step_moved h with
  | backlogCheck hcam => exact backlogCheck_mailbox hm _
  | discard hcam => exact discard_mailbox hm
  | capture hcam => exact capture_mailbox hm hcam _
  | publish hcam => exact publish_mailbox hm hcam
  | popFrame hnet hp => exact popReadyFrame_mailbox hm
  | popNothing hnet hp => exact hm
  | readPiece hnet => exact readPiece_mailbox hm _ _ _ _ _
  | stop hnet => exact ⟨hm.distinct, hm.empty, hm.cleared, hm.publishing⟩

/-! ## The books -/

theorem pending_none (h : s.hasFrame s.readyIdx = false) : pending (s, l) = [] := by simp [pending, h]

theorem pending_some (h : s.hasFrame s.readyIdx = true) : pending (s, l) = [l.number s.readyIdx] := by
  simp [pending, h]

theorem init_books (frameBuffer : Fin 2 → List UInt8) : Books (State.init frameBuffer, Ledger.init) :=
  ⟨nofun, List.Pairwise.nil, nofun, List.Perm.refl _⟩

/-- Steps that leave the flags and the entries alone. -/
theorem Books.congr {s' : State} {l' : Ledger} (h : Books (s, l)) (hf : s'.hasFrame = s.hasFrame)
    (hr : s'.readyIdx = s.readyIdx) (hz : s'.readySize = s.readySize) (hn : l'.number = l.number)
    (hpub : l'.published = l.published) (hpop : l'.popped = l.popped) (hg : l'.givenUp = l.givenUp) :
    Books (s', l') := by
  have hpending : pending (s', l') = pending (s, l) := by unfold pending; simp only [hf, hr, hn]
  constructor
  · simp only [hf, hr, hz, hn, hpub]
    exact h.latest
  · simp only [hpop, hpending]
    exact h.inOrder
  · simp only [hpop, hpub]
    exact h.asPublished
  · simp only [hpop, hg, hpub, hpending]
    exact h.each

/-- A frame popped was published before. -/
theorem Books.popped_lt (h : Books (s, l)) {k : Nat} (hk : k ∈ l.popped.map (·.1)) : k < l.published.length := by
  obtain ⟨p, hp, rfl⟩ := List.mem_map.1 hk
  exact (List.getElem?_eq_some_iff.1 (h.asPublished p hp)).1

theorem discard_books (h : Books (s, l)) : Books (discard s, l.enter s .discard) := by
  have hnone : (discard s).hasFrame (discard s).readyIdx = false := Function.update_self _ _ _
  have hsub : List.Sublist (l.popped.map (·.1)) (l.popped.map (·.1) ++ pending (s, l)) := List.sublist_append_left _ _
  cases hf : s.hasFrame s.readyIdx with
  | false =>
    have hl : l.enter s .discard = l := by simp [Ledger.enter, hf]
    have heach := h.each
    rw [pending_none hf] at heach
    rw [hl]
    constructor
    · intro hp
      rw [hnone] at hp
      cases hp
    · rw [pending_none hnone, List.append_nil]
      exact h.inOrder.sublist hsub
    · exact h.asPublished
    · rw [pending_none hnone]
      exact heach
  | true =>
    -- the pending frame moves to those given up
    have hl : l.enter s .discard =
        { l with givenUp := l.givenUp ++ [⟨l.number s.readyIdx, l.firstSeen (l.number s.readyIdx), l.nowUs⟩] } := by
      simp [Ledger.enter, hf]
    have heach := h.each
    rw [pending_some hf] at heach
    rw [hl]
    constructor
    · intro hp
      rw [hnone] at hp
      cases hp
    · rw [pending_none hnone, List.append_nil]
      exact h.inOrder.sublist hsub
    · exact h.asPublished
    · rw [pending_none hnone]
      simpa using heach

theorem publish_books (hm : Mailbox s) (h : Books (s, l)) {idx : Fin 2} {n : Nat} {jpeg : List UInt8}
    (hcam : s.camera = .publish idx n jpeg) : Books (publish s idx n jpeg, l.enter s .publish) := by
  obtain ⟨rfl, hn⟩ := hm.publishing idx n jpeg hcam
  have hl : l.enter s .publish = { l with
      published := l.published ++ [(s.activeIdx, n)]
      number := Function.update l.number s.activeIdx l.published.length } := by simp [Ledger.enter, hcam]
  have hsome : (publish s s.activeIdx n jpeg).hasFrame (publish s s.activeIdx n jpeg).readyIdx = true :=
    Function.update_self _ _ _
  -- nothing is pending when the camera publishes
  have hpending := pending_none (l := l) (hm.cleared (by rw [hcam]; rfl))
  have heach := h.each
  have horder := h.inOrder
  rw [hpending, List.append_nil] at heach horder
  have hnumber : Function.update l.number s.activeIdx l.published.length s.activeIdx = l.published.length :=
    Function.update_self _ _ _
  rw [hl]
  constructor
  · intro _
    show Function.update l.number s.activeIdx l.published.length s.activeIdx + 1 =
        (l.published ++ [(s.activeIdx, n)]).length ∧
      (l.published ++ [(s.activeIdx, n)])[Function.update l.number s.activeIdx l.published.length s.activeIdx]? =
        some (s.activeIdx, Function.update s.readySize s.activeIdx n s.activeIdx) ∧
      0 < Function.update s.readySize s.activeIdx n s.activeIdx
    rw [hnumber, Function.update_self]
    exact ⟨by simp, by simp, hn⟩
  · rw [pending_some hsome]
    show (l.popped.map (·.1) ++ [Function.update l.number s.activeIdx l.published.length s.activeIdx]).Pairwise (· < ·)
    rw [hnumber, List.pairwise_append]
    refine ⟨horder, List.pairwise_singleton _ _, fun k hk m hmem => ?_⟩
    rw [List.mem_singleton.1 hmem]
    exact h.popped_lt hk
  · intro p hp
    exact (List.getElem?_append_left (h.popped_lt (List.mem_map_of_mem hp))).trans (h.asPublished p hp)
  · rw [pending_some hsome]
    show (l.popped.map (·.1) ++ l.givenUp.map (·.number) ++
      [Function.update l.number s.activeIdx l.published.length s.activeIdx]).Perm
        (List.range (l.published ++ [(s.activeIdx, n)]).length)
    rw [hnumber, List.length_append, List.length_singleton, List.range_succ]
    exact heach.append_right _

theorem popReadyFrame_books (h : Books (s, l)) (hnet : s.network = .idle)
    (hp : s.hasFrame s.readyIdx = true ∧ 0 < s.readySize s.readyIdx) :
    Books (popReadyFrame s, l.enter s .pop) := by
  have hnone : (popReadyFrame s).hasFrame (popReadyFrame s).readyIdx = false := Function.update_self _ _ _
  have heach := h.each
  have horder := h.inOrder
  rw [pending_some hp.1] at heach horder
  rw [enter_pop l hnet hp]
  constructor
  · intro hf
    rw [hnone] at hf
    cases hf
  · rw [pending_none hnone, List.append_nil]
    simpa using horder
  · intro p hmem
    rcases List.mem_append.1 hmem with hmem | hmem
    · exact h.asPublished p hmem
    · rw [List.mem_singleton.1 hmem]
      exact (h.latest hp.1).2.1
  · rw [pending_none hnone, List.append_nil]
    refine List.Perm.trans ?_ heach
    rw [List.map_append, List.append_assoc, List.append_assoc]
    exact List.Perm.append_left _ List.perm_append_comm

theorem step_books {s' : State} (hm : Mailbox s) (h : Books (s, l)) {e : Step} (hstep : step s e = some s') :
    Books (s', l.enter s e) := by
  cases step_moved hstep with
  | backlogCheck hcam =>
    apply h.congr
    · unfold backlogCheck; split_ifs <;> rfl
    · unfold backlogCheck; split_ifs <;> rfl
    · unfold backlogCheck; split_ifs <;> rfl
    · unfold Ledger.enter; split_ifs <;> rfl
    · unfold Ledger.enter; split_ifs <;> rfl
    · unfold Ledger.enter; split_ifs <;> rfl
    · unfold Ledger.enter; split_ifs <;> rfl
  | discard hcam => exact discard_books h
  | capture hcam => exact h.congr rfl rfl rfl rfl rfl rfl rfl
  | publish hcam => exact publish_books hm h hcam
  | popFrame hnet hp => exact popReadyFrame_books h hnet hp
  | popNothing hnet hp => rwa [enter_pop_nothing l hnet hp]
  | readPiece hnet =>
    unfold readPiece
    split
    · exact h.congr rfl rfl rfl rfl rfl rfl rfl
    · exact h.congr rfl rfl rfl rfl rfl rfl rfl
  | stop hnet => exact h.congr rfl rfl rfl rfl rfl rfl rfl

/-! ## The timer -/

theorem usSub_le {a b : Nat} (h : b ≤ a) : usSub a b ≤ a - b := by
  unfold usSub
  rw [show a + 2 ^ 64 - b = (a - b) + 2 ^ 64 by omega, Nat.add_mod_right]
  exact Nat.mod_le _ _

theorem init_timer (frameBuffer : Fin 2 → List UInt8) : Timer (State.init frameBuffer, Ledger.init) :=
  ⟨fun _ _ => rfl, nofun, nofun, le_rfl, nofun, nofun⟩

/-- A pending frame is seen for the first time, or again. -/
theorem backlogCheck_timer (hb : Books (s, l)) (ht : Timer (s, l)) {nowUs : Nat} (hpos : 0 < nowUs)
    (hle : l.nowUs ≤ nowUs) :
    Timer (backlogCheck s nowUs, l.enter s (.backlogCheck nowUs)) := by
  have hpast := ht.past
  have hstart0 : 0 < backlogStart s.backlogStartUs nowUs := by unfold backlogStart; split <;> omega
  have hstart : backlogStart s.backlogStartUs nowUs ≤ nowUs := by
    unfold backlogStart
    split
    · exact le_rfl
    · exact hpast.trans hle
  cases hf : s.hasFrame s.readyIdx with
  | false =>
    have hl : l.enter s (.backlogCheck nowUs) = { l with nowUs := nowUs } := by simp [Ledger.enter, hf]
    have hs : backlogCheck s nowUs = { s with backlogStartUs := 0, camera := .capture } := by simp [backlogCheck, hf]
    rw [hl, hs]
    refine ⟨ht.unseen, fun hp => ?_, fun _ => rfl, Nat.zero_le _, nofun, ht.late⟩
    have hp' : s.hasFrame s.readyIdx = true := hp
    rw [hf] at hp'
    cases hp'
  | true =>
    have hl : l.enter s (.backlogCheck nowUs) = { l.see (l.number s.readyIdx) nowUs with nowUs := nowUs } := by
      simp [Ledger.enter, hf]
    have hnew := (hb.latest hf).1
    -- what is not published yet is still unseen
    have hunseen : ∀ k, l.published.length ≤ k → (l.see (l.number s.readyIdx) nowUs).firstSeen k = none := by
      intro k hk
      have hne : k ≠ l.number s.readyIdx := by
        simp only at hnew
        omega
      exact (Function.update_of_ne hne _ _).trans (ht.unseen k hk)
    have hseen : (l.see (l.number s.readyIdx) nowUs).firstSeen (l.number s.readyIdx) =
        if backlogStart s.backlogStartUs nowUs = 0 then none else some (backlogStart s.backlogStartUs nowUs) := by
      rw [if_neg (by omega)]
      refine (Function.update_self _ _ _).trans ?_
      have := ht.start hf
      simp only at this
      rw [this]
      unfold backlogStart
      split <;> rfl
    rw [hl]
    unfold backlogCheck
    rw [if_pos hf]
    split
    · -- a discard follows, so that the frame must have waited long enough
      rename_i hlate
      have hdue := hlate.trans_le (usSub_le hstart)
      have hover : backlogStart s.backlogStartUs nowUs + maxBacklogDelayUs < nowUs := by omega
      exact ⟨hunseen, fun _ => hseen, nofun, hstart, fun _ => ⟨hstart0, hover⟩, ht.late⟩
    · exact ⟨hunseen, fun _ => hseen, nofun, hstart, nofun, ht.late⟩

theorem discard_timer (ht : Timer (s, l)) (hcam : s.camera = .discard) : Timer (discard s, l.enter s .discard) := by
  have hnone : (discard s).hasFrame (discard s).readyIdx = false := Function.update_self _ _ _
  obtain ⟨hpos, hdue⟩ := ht.due hcam
  have hstart : ∀ l' : Ledger, (discard s).hasFrame (discard s).readyIdx = true →
      l'.firstSeen (l'.number (discard s).readyIdx) =
      if (discard s).backlogStartUs = 0 then none else some (discard s).backlogStartUs := by
    intro l' hp
    rw [hnone] at hp
    cases hp
  cases hf : s.hasFrame s.readyIdx with
  | false =>
    have hl : l.enter s .discard = l := by simp [Ledger.enter, hf]
    rw [hl]
    exact ⟨ht.unseen, hstart l, fun _ => rfl, Nat.zero_le _, nofun, ht.late⟩
  | true =>
    have hl : l.enter s .discard =
        { l with givenUp := l.givenUp ++ [⟨l.number s.readyIdx, l.firstSeen (l.number s.readyIdx), l.nowUs⟩] } := by
      simp [Ledger.enter, hf]
    rw [hl]
    refine ⟨ht.unseen, hstart _, fun _ => rfl, Nat.zero_le _, nofun, fun y hy => ?_⟩
    rcases List.mem_append.1 hy with hy | hy
    · exact ht.late y hy
    · rw [List.mem_singleton.1 hy]
      exact ⟨s.backlogStartUs, (ht.start hf).trans (if_neg hpos.ne'), hdue⟩

/-- A frame is published with the timer stopped, and nobody has seen it. -/
theorem publish_timer (ht : Timer (s, l)) {idx : Fin 2} {n : Nat} {jpeg : List UInt8}
    (hcam : s.camera = .publish idx n jpeg) (hidx : idx = s.activeIdx) :
    Timer (publish s idx n jpeg, l.enter s .publish) := by
  subst hidx
  have hl : l.enter s .publish = { l with
      published := l.published ++ [(s.activeIdx, n)]
      number := Function.update l.number s.activeIdx l.published.length } := by simp [Ledger.enter, hcam]
  have hzero : s.backlogStartUs = 0 := ht.stopped (by rw [hcam]; rfl)
  rw [hl]
  refine ⟨fun k hk => ?_, fun _ => ?_, nofun, ht.past, nofun, ht.late⟩
  · have hk' : (l.published ++ [(s.activeIdx, n)]).length ≤ k := hk
    rw [List.length_append] at hk'
    exact ht.unseen k (Nat.le_of_add_right_le hk')
  · show l.firstSeen (Function.update l.number s.activeIdx l.published.length s.activeIdx) =
      if s.backlogStartUs = 0 then none else some s.backlogStartUs
    rw [Function.update_self, hzero, if_pos rfl]
    exact ht.unseen _ le_rfl

/-- Steps that leave the flags, the timer and the entries alone, and the camera outside of its discard. -/
theorem Timer.congr {s' : State} {l' : Ledger} (h : Timer (s, l))
    (hf : s'.hasFrame s'.readyIdx = true → s.hasFrame s.readyIdx = true)
    (hr : s'.readyIdx = s.readyIdx) (hb : s'.backlogStartUs = s.backlogStartUs)
    (hc : s'.camera = s.camera ∨ (s.camera.past = true ∧ s'.camera ≠ .discard))
    (hl : l'.published = l.published ∧ l'.number = l.number ∧ l'.firstSeen = l.firstSeen ∧ l'.nowUs = l.nowUs ∧
      l'.givenUp = l.givenUp) : Timer (s', l') := by
  obtain ⟨hpub, hn, hseen, hnow, hg⟩ := hl
  constructor
  · simp only [hpub, hseen]
    exact h.unseen
  · intro hp
    simp only [hseen, hn, hr, hb]
    exact h.start (hf hp)
  · intro hp
    show s'.backlogStartUs = 0
    rw [hb]
    rcases hc with hc | hc
    · exact h.stopped (by simpa only [hc] using hp)
    · exact h.stopped hc.1
  · simp only [hb, hnow]
    exact h.past
  · intro hd
    simp only [hb, hnow]
    rcases hc with hc | hc
    · exact h.due (by simpa only [hc] using hd)
    · exact absurd hd hc.2
  · simp only [hg]
    exact h.late

theorem step_timer {s' : State} (hm : Mailbox s) (hb : Books (s, l)) (ht : Timer (s, l)) {e : Step}
    (hc : ∀ t, e.reading = some t → 0 < t ∧ l.nowUs ≤ t) (hstep : step s e = some s') : Timer (s', l.enter s e) := by
  cases step_moved hstep with
  | backlogCheck hcam => exact backlogCheck_timer hb ht (hc _ rfl).1 (hc _ rfl).2
  | discard hcam => exact discard_timer ht hcam
  | @capture shot hcam =>
    refine ht.congr id rfl rfl (.inr ⟨by rw [hcam]; rfl, ?_⟩) ⟨rfl, rfl, rfl, rfl, rfl⟩
    unfold capture
    simp only
    split
    · nofun
    · nofun
  | publish hcam => exact publish_timer ht hcam (hm.publishing _ _ _ hcam).1
  | popFrame hnet hp =>
    rw [enter_pop l hnet hp]
    exact ht.congr (fun _ => hp.1) rfl rfl (.inl rfl) ⟨rfl, rfl, rfl, rfl, rfl⟩
  | popNothing hnet hp => rwa [enter_pop_nothing l hnet hp]
  | readPiece hnet =>
    unfold readPiece
    split
    · exact ht.congr id rfl rfl (.inl rfl) ⟨rfl, rfl, rfl, rfl, rfl⟩
    · exact ht.congr id rfl rfl (.inl rfl) ⟨rfl, rfl, rfl, rfl, rfl⟩
  | stop hnet => exact ht.congr id rfl rfl (.inl rfl) ⟨rfl, rfl, rfl, rfl, rfl⟩

end Steps

/-! ## Runs -/

/-- Entries with increasing numbers, each naming its entry of a list, are a part of the list. -/
theorem sublist_of_numbers {α : Type*} {xs : List α} {ps : List (Nat × α)} (ho : (ps.map (·.1)).Pairwise (· < ·))
    (hp : ∀ p ∈ ps, xs[p.1]? = some p.2) : (ps.map (·.2)).Sublist xs := by
  have hlt : ∀ p ∈ ps, p.1 < xs.length := fun p hmem => (List.getElem?_eq_some_iff.1 (hp p hmem)).1
  have hidx : (ps.pmap (fun p h => (⟨p.1, h⟩ : Fin xs.length)) hlt).Pairwise (· < ·) := by
    rw [List.pairwise_pmap]
    exact (List.pairwise_map.1 ho).imp fun h _ _ => h
  have hsub := List.map_getElem_sublist hidx
  rw [List.map_pmap] at hsub
  have hvals : ps.pmap (fun p h => xs[(⟨p.1, h⟩ : Fin xs.length)]) hlt = ps.map (·.2) := by
    rw [← List.pmap_eq_map (p := fun p => p.1 < xs.length) hlt]
    exact List.pmap_congr_left ps fun p hmem h1 h2 => (List.getElem?_eq_some_iff.1 (hp p hmem)).2
  rwa [hvals] at hsub

/-- All three invariants. -/
structure Kept (x : State × Ledger) : Prop where
  mailbox : Mailbox x.1
  books : Books x
  timer : Timer x

theorem book_kept {x x' : State × Ledger} (hk : Kept x) {e : Step}
    (hc : ∀ t, e.reading = some t → 0 < t ∧ x.2.nowUs ≤ t) (h : book x e = some x') : Kept x' := by
  obtain ⟨s', hs, rfl⟩ := Option.map_eq_some_iff.1 h
  exact ⟨step_mailbox hk.mailbox hs, step_books hk.mailbox hk.books hs, step_timer hk.mailbox hk.books hk.timer hc hs⟩

theorem Kept.balanced {x : State × Ledger} (hk : Kept x) : Balanced x where
  distinct := hk.mailbox.distinct
  empty := hk.mailbox.empty
  single := by
    have hready : ∀ i, x.1.hasFrame i = true → i = x.1.readyIdx := by
      intro i hi
      have hne : i ≠ x.1.activeIdx := by
        rintro rfl
        rw [hk.mailbox.empty] at hi
        cases hi
      have hd := hk.mailbox.distinct
      omega
    intro i j hi hj
    rw [hready i hi, hready j hj]
  inOrder := hk.books.inOrder.sublist (List.sublist_append_left _ _)
  asPublished := hk.books.asPublished
  sublist := sublist_of_numbers (hk.books.inOrder.sublist (List.sublist_append_left _ _)) hk.books.asPublished
  each := hk.books.each
  late := hk.timer.late

/-- The last clock reading is that of the last check. -/
theorem enter_nowUs (l : Ledger) (s : State) (e : Step) : (l.enter s e).nowUs = e.reading.getD l.nowUs := by
  cases e with
  | backlogCheck nowUs => simp only [Ledger.enter]; split <;> rfl
  | discard => simp only [Ledger.enter]; split <;> rfl
  | publish => simp only [Ledger.enter]; split <;> rfl
  | pop => simp only [Ledger.enter]; split <;> rfl
  | capture _ | readPiece | stop => rfl

/-- A clock that never goes back is at no check behind the last one. -/
theorem meets_clock : ∀ (es : List Step) (x : State × Ledger), ClockOk es →
    (∀ t ∈ es.filterMap Step.reading, x.2.nowUs ≤ t) →
    Lts.Meets book (fun x e => ∀ t, e.reading = some t → 0 < t ∧ x.2.nowUs ≤ t) x es
  | [], _, _, _ => trivial
  | e :: es, x, ⟨ho, hpos⟩, hle => by
    have hnow : ∀ x', book x e = some x' → x'.2.nowUs = e.reading.getD x.2.nowUs := by
      intro x' h
      obtain ⟨s', -, rfl⟩ := Option.map_eq_some_iff.1 h
      exact enter_nowUs _ _ _
    cases hr : e.reading with
    | none =>
      rw [List.filterMap_cons_none hr] at ho hpos hle
      constructor
      · intro t ht
        rw [hr] at ht
        cases ht
      · intro x' h
        refine meets_clock es x' ⟨ho, hpos⟩ ?_
        rw [hnow x' h, hr]
        exact hle
    | some t =>
      rw [List.filterMap_cons_some hr] at ho hpos hle
      obtain ⟨hle', ho'⟩ := List.pairwise_cons.1 ho
      constructor
      · intro t' ht'
        rw [hr] at ht'
        cases ht'
        exact ⟨hpos t List.mem_cons_self, hle t List.mem_cons_self⟩
      · intro x' h
        refine meets_clock es x' ⟨ho', fun t' ht' => hpos t' (List.mem_cons_of_mem _ ht')⟩ ?_
        rw [hnow x' h, hr]
        exact hle'

/-- In every run with a positive clock that never goes back the books balance. -/
theorem hand_off_balanced (frameBuffer : Fin 2 → List UInt8) {es : List Step} {x : State × Ledger} (hc : ClockOk es)
    (h : Lts.run book (State.init frameBuffer, Ledger.init) es = some x) : Balanced x := by
  have hinit : Kept (State.init frameBuffer, Ledger.init) :=
    ⟨init_mailbox frameBuffer, init_books frameBuffer, init_timer frameBuffer⟩
  have hmeets := meets_clock es (State.init frameBuffer, Ledger.init) hc fun _ _ => Nat.zero_le _
  exact (Lts.inv_run (fun _ _ _ hk hc h => book_kept hk hc h) es _ x hinit hmeets h).balanced

/-- The frame given up after 200 ms is in the books as such, the one after it as popped. -/
theorem lateStart_balanced :
    (Lts.run book (State.init zeroed, Ledger.init) lateStart).map
        (fun x => (x.2.published, x.2.popped, x.2.givenUp.map (·.number))) =
      some ([(0, 5), (1, 5)], [(1, 1, 5)], [0]) ∧
    ∀ x, Lts.run book (State.init zeroed, Ledger.init) lateStart = some x → Balanced x :=
  ⟨rfl, fun _ h => hand_off_balanced zeroed (by decide) h⟩

end Mquic.Server.Handoff
