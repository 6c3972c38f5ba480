/-
The FINs of the network thread. `finish_all_bindings` looks at the indices below `nb_paths` only, while streams were
opened by index over the whole run: a stream gets its FIN exactly when its index is still in the table at the end.
-/
import Mquic.Server.Streams

namespace Mquic.Server.Network

open Mquic.Codec

/-! ## The closing sweep -/

/-- The FIN on the stream bound to index `i`. -/
def finWrite (s : State) (tables : Nat → Paths) (accepted : Nat → Bool) (i : Nat) : Write :=
  ⟨(tables i).at (s.bind i).pathIdx, (s.bind i).sid, [], true, accepted i, false⟩

/-- `n` rounds of the loop of `finish_all_bindings` from index `i` on. `tables i` is the path table when the loop
looks at `i`. -/
def finishFrom (s : State) (tables : Nat → Paths) (accepted : Nat → Bool) : Nat → Nat → List Write
  | 0, _ => []
  | n + 1, i =>
    if i < (tables i).length then
      if (s.bind i).ready then finWrite s tables accepted i :: finishFrom s tables accepted n (i + 1)
      else finishFrom s tables accepted n (i + 1)
    else []

/-- What the thread has written when it returns from `s`, the end of its loop. -/
def State.returned (s : State) (tables : Nat → Paths) (accepted : Nat → Bool) : List Write :=
  s.writes ++ finishFrom s tables accepted maxPaths 0

theorem finishFrom_steady (s : State) (paths : Paths) (accepted : Nat → Bool) : ∀ n i : Nat,
    finishFrom s (fun _ => paths) accepted n i =
      ((List.range' i (min (i + n) paths.length - i)).filter fun i => (s.bind i).ready).map
        (finWrite s (fun _ => paths) accepted)
  | 0, i => by rw [Nat.add_zero, Nat.sub_eq_zero_of_le (Nat.min_le_left i paths.length)]; rfl
  | n + 1, i => by
    have ih := finishFrom_steady s paths accepted n (i + 1)
    unfold finishFrom
    by_cases hi : i < paths.length
    · rw [if_pos hi, show min (i + (n + 1)) paths.length - i = (min (i + 1 + n) paths.length - (i + 1)) + 1 by omega,
        List.range'_succ, ih]
      by_cases hready : (s.bind i).ready = true
      · rw [if_pos hready, List.filter_cons, if_pos hready, List.map_cons]
      · rw [if_neg hready, List.filter_cons, if_neg hready]
    · rw [if_neg hi, show min (i + (n + 1)) paths.length - i = 0 by omega]
      rfl

theorem finishFrom_opens (s : State) (tables : Nat → Paths) (accepted : Nat → Bool) : ∀ n i : Nat,
    (finishFrom s tables accepted n i).filter (fun w => w.opens && w.accepted) = []
  | 0, _ => rfl
  | n + 1, i => by
    have ih := finishFrom_opens s tables accepted n (i + 1)
    unfold finishFrom
    split
    · split
      · rw [List.filter_cons_of_neg (by simp [finWrite]), ih]
      · exact ih
    · rfl

/-- When the table stays as it is, the sweep is the last step of the thread. -/
theorem finish_returned (s : State) (paths : Paths) (accepted : Nat → Bool) :
    (finish s paths accepted).writes = s.returned (fun _ => paths) accepted := by
  unfold State.returned finish finishAllBindings
  rw [finishFrom_steady, Nat.zero_add, Nat.sub_zero, List.range_eq_range']
  rfl

/-- The sweep gets to index `i`: no index up to it is found beyond the table. -/
def Swept (tables : Nat → Paths) (i : Nat) : Prop := ∀ j ≤ i, j < (tables j).length

instance (tables : Nat → Paths) (i : Nat) : Decidable (Swept tables i) :=
  inferInstanceAs (Decidable (∀ j ≤ i, j < (tables j).length))

/-- On a stream that is bound to index `k` alone, the sweep writes the FIN of `k` if it gets there. -/
theorem finishFrom_on {s : State} (tables : Nat → Paths) (accepted : Nat → Bool) {k : Nat} (hk : k < maxPaths)
    (hready : (s.bind k).ready = true)
    (hown : ∀ i < maxPaths, (s.bind i).ready = true → (s.bind i).sid = (s.bind k).sid → i = k) :
    ∀ n i : Nat, i + n = maxPaths → (finishFrom s tables accepted n i).filter (·.sid = (s.bind k).sid) =
      if i ≤ k ∧ ∀ j, i ≤ j → j ≤ k → j < (tables j).length then [finWrite s tables accepted k] else []
  | 0, i, hin => by
    have hout : ¬ (i ≤ k ∧ ∀ j, i ≤ j → j ≤ k → j < (tables j).length) := fun h => by omega
    rw [if_neg hout]
    rfl
  | n + 1, i, hin => by
    have ih := finishFrom_on tables accepted hk hready hown n (i + 1) (by omega)
    unfold finishFrom
    by_cases hi : i < (tables i).length
    · rw [if_pos hi]
      rcases eq_or_ne i k with rfl | hne
      · -- the binding itself, and none behind it
        have hout : ¬ (i + 1 ≤ i ∧ ∀ j, i + 1 ≤ j → j ≤ i → j < (tables j).length) := fun h => by omega
        have hin : i ≤ i ∧ ∀ j, i ≤ j → j ≤ i → j < (tables j).length :=
          ⟨le_rfl, fun j h1 h2 => by rwa [Nat.le_antisymm h2 h1]⟩
        rw [if_neg hout] at ih
        rw [if_pos hready, if_pos hin, List.filter_cons_of_pos (by simp [finWrite]), ih]
      · have hcond : (i + 1 ≤ k ∧ ∀ j, i + 1 ≤ j → j ≤ k → j < (tables j).length) ↔
            (i ≤ k ∧ ∀ j, i ≤ j → j ≤ k → j < (tables j).length) := by
          constructor
          · rintro ⟨h1, h2⟩
            refine ⟨by omega, fun j hj hjk => ?_⟩
            rcases Nat.eq_or_lt_of_le hj with rfl | hlt
            · exact hi
            · exact h2 j hlt hjk
          · rintro ⟨h1, h2⟩
            exact ⟨by omega, fun j hj hjk => h2 j (by omega) hjk⟩
        rw [if_congr hcond rfl rfl] at ih
        by_cases hr : (s.bind i).ready = true
        · have hsid : ¬ (s.bind i).sid = (s.bind k).sid := fun he => hne (hown i (by omega) hr he)
          rw [if_pos hr, List.filter_cons_of_neg (by simp [finWrite, hsid]), ih]
        · rw [if_neg hr, ih]
    · have hout : ¬ (i ≤ k ∧ ∀ j, i ≤ j → j ≤ k → j < (tables j).length) := fun h => hi (h.2 i le_rfl h.1)
      rw [if_neg hi, if_neg hout]
      rfl

/-! ## Opened streams and bindings -/

/-- Before the sweep: no FIN is out, and the opened streams are those of the ready bindings, one each. -/
structure Tracked (ws : List Write) (bind : Nat → MpBinding) : Prop where
  noFin : ∀ w ∈ ws, w.setFin = false
  bound : ∀ i < maxPaths, (bind i).ready = true → (bind i).sid ∈ opened ws
  distinct : ∀ i < maxPaths, ∀ j < maxPaths, (bind i).ready = true → (bind j).ready = true →
    (bind i).sid = (bind j).sid → i = j
  found : ∀ sid ∈ opened ws, ∃ i < maxPaths, (bind i).ready = true ∧ (bind i).sid = sid

/-- A write that opens nothing and is no FIN. -/
theorem Tracked.snoc {ws : List Write} {bind : Nat → MpBinding} (h : Tracked ws bind) {w : Write}
    (hfin : w.setFin = false) (hopens : ¬ (w.opens = true ∧ w.accepted = true)) : Tracked (ws ++ [w]) bind := by
  have ho : opened (ws ++ [w]) = opened ws := by rw [opened_snoc, if_neg hopens, List.append_nil]
  constructor
  · intro v hv
    rcases List.mem_append.1 hv with hv | hv
    · exact h.noFin v hv
    · rwa [List.mem_singleton.1 hv]
  · rw [ho]
    exact h.bound
  · exact h.distinct
  · rw [ho]
    exact h.found

/-- A stream opened for an index that had none, with an id of its own. -/
theorem Tracked.opening {s : State} (h : Tracked s.writes s.bind) {idx : Nat} {path : Path} {o : Opening}
    (hidx : idx < maxPaths) (hnew : (s.bind idx).ready = false) (ha : o.accepted = true)
    (hf : ∀ w ∈ s.writes, w.accepted = true → w.sid ≠ o.sid) :
    Tracked (s.bound idx path o).writes (s.bound idx path o).bind := by
  have hfresh := fresh_not_opened hf
  have ho : opened (s.writes ++ [headerWrite s path o]) = opened s.writes ++ [o.sid] := by
    rw [opened_snoc, if_pos ⟨rfl, ha⟩]
    rfl
  have hself : Function.update s.bind idx ⟨idx, o.sid, true⟩ idx = ⟨idx, o.sid, true⟩ := Function.update_self ..
  have hother : ∀ i, i ≠ idx → Function.update s.bind idx ⟨idx, o.sid, true⟩ i = s.bind i :=
    fun i hne => Function.update_of_ne hne ..
  show Tracked (s.writes ++ [headerWrite s path o]) (Function.update s.bind idx ⟨idx, o.sid, true⟩)
  constructor
  · intro v hv
    rcases List.mem_append.1 hv with hv | hv
    · exact h.noFin v hv
    · rw [List.mem_singleton.1 hv]
      rfl
  · intro i hi hr
    rw [ho]
    rcases eq_or_ne i idx with rfl | hne
    · rw [hself]
      exact List.mem_append_right _ (List.mem_singleton.2 rfl)
    · rw [hother i hne] at hr ⊢
      exact List.mem_append_left _ (h.bound i hi hr)
  · -- the new stream's id is none of the others': nothing was sent on it
    intro i hi j hj hri hrj heq
    rcases eq_or_ne i idx with rfl | hni
    · rcases eq_or_ne j i with rfl | hnj
      · rfl
      · rw [hother j hnj] at hrj heq
        rw [hself] at heq
        have heq' : o.sid = (s.bind j).sid := heq
        exact absurd (heq' ▸ h.bound j hj hrj) hfresh
    · rw [hother i hni] at hri heq
      rcases eq_or_ne j idx with rfl | hnj
      · rw [hself] at heq
        have heq' : (s.bind i).sid = o.sid := heq
        exact absurd (heq' ▸ h.bound i hi hri) hfresh
      · rw [hother j hnj] at hrj heq
        exact h.distinct i hi j hj hri hrj heq
  · intro sid hsid
    rw [ho] at hsid
    rcases List.mem_append.1 hsid with hsid | hsid
    · -- an earlier stream has another index, since this one had none
      obtain ⟨i, hi, hr, he⟩ := h.found sid hsid
      have hne : i ≠ idx := by
        rintro rfl
        rw [hnew] at hr
        cases hr
      exact ⟨i, hi, by rw [hother i hne]; exact hr, by rw [hother i hne]; exact he⟩
    · exact ⟨idx, hidx, by rw [hself], by rw [hself]; exact (List.mem_singleton.1 hsid).symm⟩

section Ensure

variable {s : State}

theorem ensure_of_ready {paths : Paths} {idx : Nat} {o : Opening} (h : (s.bind idx).ready = true) :
    (ensureStreamForPath s paths idx o).1 = s := by
  unfold ensureStreamForPath
  by_cases hout : paths.length ≤ idx ∨ maxPaths ≤ idx
  · rw [if_pos hout]
  · rw [if_neg hout, if_pos h]

theorem Tracked.ensure (h : Tracked s.writes s.bind) (paths : Paths) (idx : Nat) {o : Opening}
    (hf : ∀ w ∈ s.writes, w.accepted = true → w.sid ≠ o.sid) :
    Tracked (ensureStreamForPath s paths idx o).1.writes (ensureStreamForPath s paths idx o).1.bind := by
  cases hready : (s.bind idx).ready with
  | true => rwa [ensure_of_ready hready]
  | false =>
    rcases ensure_cases s paths idx o with he | ⟨path, ha, he⟩ | ⟨path, ⟨ha, hidx, -⟩, he⟩
    · rwa [he]
    · rw [he]
      apply h.snoc rfl
      rintro ⟨-, hacc⟩
      exact absurd (ha.symm.trans hacc) Bool.false_ne_true
    · rw [he]
      exact h.opening hidx hready ha hf

theorem Tracked.touch (h : Tracked s.writes s.bind) (idx : Nat) (path : Option Path) (accepted : Bool) :
    Tracked (touch s idx path accepted).writes (touch s idx path accepted).bind :=
  h.snoc rfl fun hop => Bool.false_ne_true hop.1

theorem Tracked.frame (h : Tracked s.writes s.bind) (x : Sending) (bytes : List UInt8) (accepted : Bool) :
    Tracked (s.write (frameWrite x bytes accepted)).writes s.bind := h.snoc rfl fun hop => Bool.false_ne_true hop.1

end Ensure

theorem enter_tracked (allocated : Bool) (behind : Nat → MpBinding) (controlStreamId maxFrames : Nat) :
    Tracked (State.enter allocated behind controlStreamId maxFrames).writes
      (State.enter allocated behind controlStreamId maxFrames).bind := by
  have hbind : ∀ i < maxPaths, ((State.enter allocated behind controlStreamId maxFrames).bind i).ready = false := by
    intro i hi
    show (if i < maxPaths then (⟨0, 0, false⟩ : MpBinding) else behind i).ready = false
    rw [if_pos hi]
  constructor
  · exact List.forall_mem_nil _
  · intro i hi hr
    exact absurd ((hbind i hi).symm.trans hr) Bool.false_ne_true
  · intro i hi j _ hr
    exact absurd ((hbind i hi).symm.trans hr) Bool.false_ne_true
  · exact List.forall_mem_nil _

/-- Every step up to the end of the loop keeps track of the opened streams, if picoquic's stream ids are fresh. -/
theorem tracked_step {s s' : State} {e : Step} (h : s.pc ≠ .over → Tracked s.writes s.bind) (hf : FreshId s e)
    (hstep : step s e = some s') (hpc' : s'.pc ≠ .over) : Tracked s'.writes s'.bind := by
  cases step_moved hstep with
  | pickFirst hpc | head hpc | pickProbe hpc | pickSend hpc | tail hpc => exact h (by rw [hpc]; simp)
  | openFirst hpc => exact (h (by rw [hpc]; simp)).ensure _ s.curIdx (hf _ rfl)
  | @openProbe paths o accepted idx hpc =>
    have hopened := (h (by rw [hpc]; simp)).ensure paths idx (hf o rfl)
    unfold openProbe
    simp only
    split
    · exact hopened.touch idx (paths.at idx) accepted
    · exact hopened
  | serve hpc => exact (h (by rw [hpc]; simp)).ensure _ _ (hf _ rfl)
  | @idle paths o accepted nowUs hpc =>
    have ht := h (by rw [hpc]; simp)
    unfold idle
    split
    · split
      · exact ht.touch s.curIdx s.curPath accepted
      · exact ht.ensure paths s.curIdx (hf o rfl)
    · exact ht
  | @sendLength accepted x hpc =>
    have ht := h (by rw [hpc]; simp)
    cases accepted with
    | true => exact ht.frame x (quicVarintEncode x.fbSz) true
    | false => exact ht.frame x (quicVarintEncode x.fbSz) false
  | checkPayload hpc =>
    have ht := h (by rw [hpc]; simp)
    unfold checkPayload
    split
    · exact ht
    · exact ht
  | @sendPiece bytes accepted nowUs x hpc =>
    have ht := h (by rw [hpc]; simp)
    cases accepted with
    | true => exact ht.frame x bytes true
    | false => exact ht.frame x bytes false
  | finish => exact absurd rfl hpc'
  | stopRequest => exact h hpc'

/-! ## Runs -/

/-- The stream has received one FIN, behind everything else it has received. -/
def FinishedOnce (ws : List Write) (sid : Nat) : Prop :=
  ∃ before fin, ws.filter (fun w => w.accepted ∧ w.sid = sid) = before ++ [fin] ∧ fin.setFin = true ∧
    ∀ w ∈ before, w.setFin = false

/-- A stream bound to index `k` is finished exactly when the sweep gets to `k`. -/
theorem finished_iff {s : State} (h : Tracked s.writes s.bind) {tables : Nat → Paths} {accepted : Nat → Bool}
    (hsends : ∀ w ∈ s.returned tables accepted, w.accepted = true) {k : Nat} (hk : k < maxPaths)
    (hready : (s.bind k).ready = true) :
    FinishedOnce (s.returned tables accepted) (s.bind k).sid ↔ Swept tables k := by
  have hon : (s.returned tables accepted).filter (fun w => w.accepted ∧ w.sid = (s.bind k).sid) =
      s.writes.filter (·.sid = (s.bind k).sid) ++ if Swept tables k then [finWrite s tables accepted k] else [] := by
    have hown : ∀ i < maxPaths, (s.bind i).ready = true → (s.bind i).sid = (s.bind k).sid → i = k :=
      fun i hi hr he => h.distinct i hi k hk hr hready he
    have hswept : (0 ≤ k ∧ ∀ j, 0 ≤ j → j ≤ k → j < (tables j).length) ↔ Swept tables k :=
      ⟨fun hall j hj => hall.2 j (Nat.zero_le j) hj, fun hall => ⟨Nat.zero_le k, fun j _ hj => hall j hj⟩⟩
    have hsame : (s.returned tables accepted).filter (fun w => w.accepted ∧ w.sid = (s.bind k).sid) =
        (s.returned tables accepted).filter (·.sid = (s.bind k).sid) :=
      List.filter_congr fun w hw => by simp [hsends w hw]
    rw [hsame, State.returned, List.filter_append,
      finishFrom_on tables accepted hk hready hown maxPaths 0 (Nat.zero_add maxPaths), if_congr hswept rfl rfl]
  have hopen : ∀ w ∈ s.writes.filter (·.sid = (s.bind k).sid), w.setFin = false :=
    fun w hw => h.noFin w (List.mem_filter.1 hw).1
  unfold FinishedOnce
  rw [hon]
  constructor
  · rintro ⟨before, fin, heq, hfin, -⟩
    by_contra hnot
    rw [if_neg hnot, List.append_nil] at heq
    have := hopen fin (heq ▸ List.mem_append_right before (List.mem_singleton.2 rfl))
    exact Bool.false_ne_true (this.symm.trans hfin)
  · intro hswept
    rw [if_pos hswept]
    exact ⟨_, _, rfl, rfl, hopen⟩

/-- In a run whose sends all succeed, every stream that was opened has received one FIN behind all its bytes when the
thread returns, if and only if the closing sweep gets to every index a stream was opened for. Where the table stays as
it is the sweep is the thread's last step. picoquic is taken to hand out stream ids on which nothing was sent. -/
theorem opened_finished_iff (allocated : Bool) (behind : Nat → MpBinding) (controlStreamId maxFrames : Nat)
    {es : List Step} {s : State}
    (hfresh : Lts.Meets step FreshId (State.enter allocated behind controlStreamId maxFrames) es)
    (h : Lts.run step (State.enter allocated behind controlStreamId maxFrames) es = some s) (hpc : s.pc = .finish)
    {tables : Nat → Paths} {accepted : Nat → Bool} (hsends : ∀ w ∈ s.returned tables accepted, w.accepted = true) :
    ((∀ sid ∈ opened (s.returned tables accepted), FinishedOnce (s.returned tables accepted) sid) ↔
      ∀ k < maxPaths, (s.bind k).ready = true → Swept tables k) ∧
    ∀ paths, (finish s paths accepted).writes = s.returned (fun _ => paths) accepted := by
  refine ⟨?_, fun paths => finish_returned s paths accepted⟩
  have hinv : s.pc ≠ .over → Tracked s.writes s.bind :=
    Lts.inv_run (I := fun s => s.pc ≠ .over → Tracked s.writes s.bind)
      (fun _ _ _ hi hf hstep hpc' => tracked_step hi hf hstep hpc') es _ s
      (fun _ => enter_tracked allocated behind controlStreamId maxFrames) hfresh h
  have ht : Tracked s.writes s.bind := hinv (by rw [hpc]; simp)
  -- the sweep opens nothing
  have hopened : opened (s.returned tables accepted) = opened s.writes := by
    unfold opened State.returned
    rw [List.filter_append, List.map_append, finishFrom_opens, List.map_nil, List.append_nil]
  rw [hopened]
  constructor
  · intro hall k hk hready
    exact (finished_iff ht hsends hk hready).1 (hall _ (ht.bound k hk hready))
  · intro hall sid hsid
    obtain ⟨k, hk, hready, rfl⟩ := ht.found sid hsid
    exact (finished_iff ht hsends hk hready).2 (hall k hk hready)

/-- A table of two verified paths. -/
def twoPaths : Paths := [some ⟨0, some true, false, 1, 0⟩, some ⟨1, some true, false, 2, 0⟩]

/-- A round without a frame in which both paths get their streams, 3 and 7, and a stop request. -/
def openBoth : List Step :=
  [.pickFirst twoPaths, .openFirst twoPaths ⟨3, true⟩ 1, .head false, .pickProbe twoPaths 2,
    .openProbe twoPaths ⟨7, true⟩ true, .pickSend twoPaths, .serve twoPaths ⟨11, true⟩ none,
    .idle twoPaths ⟨11, true⟩ true 3, .tail, .stopRequest, .head false]

/-- With both paths still there at the end, both streams are finished. -/
theorem openBoth_finished : ∃ s, Lts.run step (State.enter true nothing 0 10) openBoth = some s ∧
    ((∀ sid ∈ opened (s.returned (fun _ => twoPaths) fun _ => true),
        FinishedOnce (s.returned (fun _ => twoPaths) fun _ => true) sid) ↔
      ∀ k < maxPaths, (s.bind k).ready = true → Swept (fun _ => twoPaths) k) ∧
    ∀ paths, (finish s paths fun _ => true).writes = s.returned (fun _ => paths) fun _ => true := by
  have hrun : (Lts.run step (State.enter true nothing 0 10) openBoth).map (fun s => (s.pc,
      decide (∀ w ∈ s.returned (fun _ => twoPaths) fun _ => true, w.accepted = true))) =
          some (.finish, true) := by decide
  obtain ⟨s, hs, heq⟩ := Option.map_eq_some_iff.1 hrun
  obtain ⟨hpc, hsends⟩ := Prod.mk.inj heq
  exact ⟨s, hs, opened_finished_iff true nothing 0 10 (by decide) hs hpc (of_decide_eq_true hsends)⟩

/-- What that round writes, and the one FIN when the thread finds the first path alone at its end. -/
def openBothWrites : List Write :=
  [⟨some ⟨0, some true, false, 1, 0⟩, 3, [0x40, 0x54, 0], false, true, true⟩,
    ⟨some ⟨1, some true, false, 2, 0⟩, 7, [0x40, 0x54, 0], false, true, true⟩,
    ⟨some ⟨1, some true, false, 2, 0⟩, 7, [], false, true, false⟩,
    ⟨some ⟨0, some true, false, 0, 0⟩, 3, [], true, true, false⟩]

/-- The second path is gone when the thread ends: stream 7 was opened and gets no FIN. -/
theorem openBoth_unfinished : ∃ s, Lts.run step (State.enter true nothing 0 10) openBoth = some s ∧ s.pc = .finish ∧
    (∀ w ∈ s.returned (fun _ => onePath true) fun _ => true, w.accepted = true) ∧
    7 ∈ opened (s.returned (fun _ => onePath true) fun _ => true) ∧
    ¬ FinishedOnce (s.returned (fun _ => onePath true) fun _ => true) 7 := by
  have hrun : (Lts.run step (State.enter true nothing 0 10) openBoth).map (fun s =>
      (s.pc, s.returned (fun _ => onePath true) fun _ => true)) = some (.finish, openBothWrites) := by decide
  obtain ⟨s, hs, heq⟩ := Option.map_eq_some_iff.1 hrun
  obtain ⟨hpc, hwrites⟩ := Prod.mk.inj heq
  refine ⟨s, hs, hpc, ?_⟩
  rw [hwrites]
  refine ⟨by decide, by decide, ?_⟩
  rintro ⟨before, fin, heq, hfin, -⟩
  have hopen : ∀ w ∈ openBothWrites.filter (fun w => w.accepted ∧ w.sid = 7), w.setFin = false := by decide
  have hlast := hopen fin (heq ▸ List.mem_append_right before (List.mem_singleton.2 rfl))
  exact Bool.false_ne_true (hlast.symm.trans hfin)

end Mquic.Server.Network
