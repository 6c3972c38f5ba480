/-
The probes of the network thread while the send path stays the same: every send pick records that path as the last
one, so each probe starts behind it and finds the same next path.
-/
import Mquic.Server.Network
import Mquic.Server.Selector

namespace Mquic.Server.Network

/-! ## The probes of a run -/

/-- What a step's call of `path_algo_pick_probe_path` returns when it succeeds. -/
def probed (s : State) : Step → List Nat
  | .pickProbe paths nowUs =>
    let probeIdx := (pathAlgoPickProbePath s.algo paths nowUs).2
    if 0 ≤ probeIdx then [probeIdx.toNat] else []
  | _ => []

/-- The successful probes of a run, in order. -/
def probesOf : State → List Step → List Nat
  | _, [] => []
  | s, e :: es =>
    match step s e with
    | some s' => probed s e ++ probesOf s' es
    | none => []

/-- A table of `n` paths that all exist. -/
def FullTable (n : Nat) (paths : Paths) : Prop := paths.length = n ∧ ∀ e ∈ paths, e ≠ none

instance (n : Nat) (paths : Paths) : Decidable (FullTable n paths) :=
  inferInstanceAs (Decidable (_ ∧ _))

/-- The selector finds a full table of `n` paths, and picks `i` of them for sending. -/
def Constant (n i : Nat) (s : State) : Step → Prop
  | .pickFirst paths => FullTable n paths ∧ (pathAlgoPickSendPath s.algo paths).2 = (i : Int)
  | .pickSend paths => FullTable n paths ∧ (pathAlgoPickSendPath s.algo paths).2 = (i : Int)
  | .pickProbe paths _ => FullTable n paths
  | _ => True

instance (n i : Nat) (s : State) : ∀ e, Decidable (Constant n i s e)
  | .pickFirst _ | .pickSend _ => inferInstanceAs (Decidable (_ ∧ _))
  | .pickProbe _ _ => inferInstanceAs (Decidable (FullTable _ _))
  | .openFirst _ _ _ | .head _ | .openProbe _ _ _ | .serve _ _ _ | .idle _ _ _ _ | .sendLength _ | .checkPayload _
  | .sendPiece _ _ _ | .tail | .finish _ _ | .stopRequest => isTrue trivial

/-! ## The last send path -/

/-- The frame in hand goes to the path `i`. -/
def Pc.SendsOn (i : Nat) : Pc → Prop
  | .serve sendIdx => sendIdx = i
  | .length x => x.idx = i
  | .payload x => x.idx = i
  | .piece x => x.idx = i
  | _ => True

/-- After the first pick, `last_send` is the path `i` of the table whenever the thread is between two steps. -/
structure Steady (n i : Nat) (s : State) : Prop where
  algo : s.pc = .pickFirst ∨ i < n ∧ ∃ a, s.algo = some a ∧ a.lastSend = i
  sends : s.pc.SendsOn i

section Steady

variable {n i : Nat} {s s' : State} {pc : Pc}

/-- The thread is behind the first pick. -/
theorem Steady.picked (h : Steady n i s) (hpc : s.pc = pc) (hne : pc ≠ .pickFirst) :
    i < n ∧ ∃ a, s.algo = some a ∧ a.lastSend = i :=
  h.algo.resolve_left fun hfirst => hne (hpc.symm.trans hfirst)

theorem Steady.sendsOn (h : Steady n i s) (hpc : s.pc = pc) : pc.SendsOn i := hpc ▸ h.sends

/-- A step that leaves the selector and the frame in hand alone. -/
theorem Steady.same (h : Steady n i s) (hpc : s.pc = pc) (hne : pc ≠ .pickFirst) (halgo : s'.algo = s.algo)
    (hsends : s'.pc.SendsOn i) : Steady n i s' :=
  ⟨.inr (halgo ▸ h.picked hpc hne), hsends⟩

end Steady

theorem ensureStreamForPath_algo (s : State) (paths : Paths) (idx : Nat) (o : Opening) :
    (ensureStreamForPath s paths idx o).1.algo = s.algo := by
  rcases ensure_cases s paths idx o with h | ⟨path, -, h⟩ | ⟨path, -, h⟩ <;> rw [h] <;> rfl

/-- A step of less than a whole round does not come back. -/
theorem add_mod_ne {k d n : Nat} (hd : 0 < d) (hdn : d < n) : (k + d) % n ≠ k := by
  intro heq
  have hk : k < n := heq ▸ Nat.mod_lt _ (by omega)
  rcases Nat.lt_or_ge (k + d) n with h | h
  · rw [Nat.mod_eq_of_lt h] at heq
    omega
  · rw [Nat.mod_eq_sub_mod h, Nat.mod_eq_of_lt (by omega)] at heq
    omega

/-- The probe of a full table behind the send path is the next path. -/
theorem pickProbePath_next {n i : Nat} {a : PathAlgo} {paths : Paths} (hn : 2 ≤ n) (hi : i < n) (ha : a.lastSend = i)
    (ht : FullTable n paths) (nowUs : Nat) :
    pathAlgoPickProbePath (some a) paths nowUs = (some a, -1) ∨
      pathAlgoPickProbePath (some a) paths nowUs =
        (some { a with nextProbeUs := (nowUs + 250000) % 2 ^ 64 }, (((i + 1) % n : Nat) : Int)) := by
  obtain ⟨hlen, hfull⟩ := ht
  have hnext : (i + 1) % n < n := Nat.mod_lt _ (by omega)
  have hne : (i + 1) % n ≠ i := add_mod_ne Nat.one_pos hn
  have hat : (paths.at ((i + 1) % n)).isNone = false := by
    have hlt : (i + 1) % n < paths.length := hlen ▸ hnext
    unfold Paths.at
    rw [List.getElem?_eq_getElem hlt, Option.join_some]
    exact Option.isNone_eq_false_iff.2 (Option.ne_none_iff_isSome.1 (hfull _ (List.getElem_mem hlt)))
  unfold pathAlgoPickProbePath
  simp only
  by_cases hsoon : nowUs < a.nextProbeUs
  · exact .inl (by rw [if_neg (by omega), if_pos hsoon])
  · refine .inr ?_
    rw [if_neg (by omega), if_neg hsoon, ha, hlen]
    have hscan : probeFrom i paths ((i + 1) % n) n 0 = some ((i + 1) % n) := by
      obtain ⟨m, rfl⟩ : ∃ m, n = m + 1 := ⟨n - 1, by omega⟩
      rw [probeFrom]
      simp only [hlen, Nat.add_zero, Nat.mod_mod, Int.natCast_inj, hne, hat, if_false, Bool.false_eq_true]
    have hpos : (0 : Int) ≤ (i : Int) := Int.natCast_nonneg i
    simp only [hpos, if_true, Int.toNat_natCast, hscan]

/-- Each step keeps the last send path. -/
theorem step_steady {n i : Nat} (hn : 2 ≤ n) {s s' : State} {e : Step} (h : Steady n i s) (hc : Constant n i s e)
    (hs : step s e = some s') : Steady n i s' := by
  have hm := step_moved hs
  cases hm with
  | @pickFirst paths hpc =>
    obtain ⟨hi, hrec⟩ := pickSendPath_recorded hc.2
    exact ⟨.inr ⟨hc.1.1 ▸ hi, hrec⟩, trivial⟩
  | @pickSend paths hpc =>
    obtain ⟨hi, hrec⟩ := pickSendPath_recorded hc.2
    refine ⟨.inr ⟨hc.1.1 ▸ hi, hrec⟩, ?_⟩
    show clampIdx (pathAlgoPickSendPath s.algo paths).2 paths s.curIdx = i
    rw [hc.2, clampIdx, if_neg (by omega), Int.toNat_natCast]
  | @pickProbe paths nowUs hpc =>
    obtain ⟨hi, a, halgo, hlast⟩ := h.picked hpc Pc.noConfusion
    have hsends : (pickProbe s paths nowUs).pc.SendsOn i := by
      unfold pickProbe
      simp only
      split_ifs <;> trivial
    have hafter : (pickProbe s paths nowUs).algo = (pathAlgoPickProbePath s.algo paths nowUs).1 := rfl
    have hnext := pickProbePath_next hn hi hlast hc nowUs
    rw [← halgo] at hnext
    refine ⟨.inr ⟨hi, ?_⟩, hsends⟩
    rcases hnext with hcall | hcall
    · exact ⟨a, by rw [hafter, hcall, halgo], hlast⟩
    · exact ⟨{ a with nextProbeUs := (nowUs + 250000) % 2 ^ 64 }, by rw [hafter, hcall], hlast⟩
  | openFirst hpc =>
    exact h.same hpc Pc.noConfusion (ensureStreamForPath_algo _ _ _ _) trivial
  | @head disconnecting hpc =>
    refine h.same hpc Pc.noConfusion rfl ?_
    unfold head
    cases s.isSending && !disconnecting <;> trivial
  | @openProbe paths o accepted idx hpc =>
    refine h.same hpc Pc.noConfusion ?_ trivial
    unfold openProbe
    simp only
    split_ifs
    · exact ensureStreamForPath_algo s paths idx o
    · exact ensureStreamForPath_algo s paths idx o
  | @serve paths o frame idx hpc hsz =>
    have hidx : idx = i := h.sendsOn hpc
    refine h.same hpc Pc.noConfusion (ensureStreamForPath_algo s paths idx o) ?_
    cases frame with
    | none => trivial
    | some fbSz => exact hidx
  | @idle paths o accepted nowUs hpc =>
    refine h.same hpc Pc.noConfusion ?_ ?_
    · unfold idle
      split_ifs
      · rfl
      · exact ensureStreamForPath_algo s paths s.curIdx o
      · rfl
    · unfold idle
      split_ifs <;> trivial
  | @sendLength accepted x hpc =>
    have hidx : x.idx = i := h.sendsOn hpc
    refine h.same hpc Pc.noConfusion ?_ ?_
    · unfold sendLength
      cases accepted <;> rfl
    · unfold sendLength
      cases accepted
      · trivial
      · exact hidx
  | @checkPayload nowUs x hpc =>
    have hidx : x.idx = i := h.sendsOn hpc
    refine h.same hpc Pc.noConfusion ?_ ?_
    · unfold checkPayload
      split_ifs <;> rfl
    · unfold checkPayload
      split_ifs
      · exact hidx
      · trivial
  | @sendPiece bytes accepted nowUs x hpc hlen =>
    have hidx : x.idx = i := h.sendsOn hpc
    obtain ⟨hi, a, halgo, -⟩ := h.picked hpc Pc.noConfusion
    cases accepted with
    | true =>
      -- `path_algo_on_sent` records the path of the frame, which is the one picked
      refine ⟨.inr ⟨hi, { a with lastSend := x.idx }, ?_, by rw [hidx]⟩, hidx⟩
      show pathAlgoOnSent s.algo x.idx = _
      rw [halgo]
      rfl
    | false => exact h.same hpc Pc.noConfusion rfl trivial
  | tail hpc =>
    refine h.same hpc Pc.noConfusion rfl ?_
    unfold tail
    split_ifs <;> trivial
  | finish hpc => exact h.same hpc Pc.noConfusion rfl trivial
  | stopRequest => exact ⟨h.algo, h.sends⟩

/-! ## Where the probes go -/

theorem probed_next {n i : Nat} (hn : 2 ≤ n) {s s' : State} {e : Step} (h : Steady n i s) (hc : Constant n i s e)
    (hs : step s e = some s') : ∀ j ∈ probed s e, j = (i + 1) % n := by
  cases e with
  | pickProbe paths nowUs =>
    cases step_moved hs with
    | pickProbe hpc =>
      obtain ⟨hi, a, halgo, hlast⟩ := h.picked hpc Pc.noConfusion
      have hnext := pickProbePath_next hn hi hlast hc nowUs
      rw [← halgo] at hnext
      intro j hj
      simp only [probed] at hj
      rcases hnext with hcall | hcall
      · rw [hcall] at hj
        simp at hj
      · rw [hcall] at hj
        rw [if_pos (Int.natCast_nonneg _), Int.toNat_natCast] at hj
        exact List.mem_singleton.1 hj
  | _ => exact List.forall_mem_nil _

/-- While the send path is `i`, every successful probe goes to the path behind it. -/
theorem probesOf_next {n i : Nat} (hn : 2 ≤ n) : ∀ (es : List Step) (s : State), Steady n i s →
    Lts.Meets step (Constant n i) s es → ∀ j ∈ probesOf s es, j = (i + 1) % n
  | [], _, _, _ => List.forall_mem_nil _
  | e :: es, s, h, hc => by
    rw [probesOf]
    cases hs : step s e with
    | none => exact List.forall_mem_nil _
    | some s' =>
      intro j hj
      rcases List.mem_append.1 hj with hj | hj
      · exact probed_next hn h hc.1 hs j hj
      · exact probesOf_next hn es s' (step_steady hn h hc.1 hs) (hc.2 s' hs) j hj

/-- In every run of the thread on full tables of `n ≥ 3` paths with the send path `i` throughout, no `n - 1`
consecutive successful probes reach all the other paths: each of them goes to the same one. -/
theorem probes_miss (allocated : Bool) (behind : Nat → MpBinding) (controlStreamId maxFrames : Nat) {n i : Nat}
    (hn : 3 ≤ n) {es : List Step}
    (hc : Lts.Meets step (Constant n i) (State.enter allocated behind controlStreamId maxFrames) es) :
    ∀ w, w <:+: probesOf (State.enter allocated behind controlStreamId maxFrames) es → w.length = n - 1 →
      (∀ j ∈ w, j = (i + 1) % n) ∧ ¬∀ j < n, j ≠ i → j ∈ w := by
  intro w hw _
  have hsteady : Steady n i (State.enter allocated behind controlStreamId maxFrames) := ⟨.inl rfl, trivial⟩
  have hall : ∀ j ∈ w, j = (i + 1) % n := fun j hj =>
    probesOf_next (by omega) es _ hsteady hc j (hw.subset hj)
  refine ⟨hall, fun hreach => ?_⟩
  -- with three paths there is another one two places behind
  have hnext : (i + 2) % n = (i + 1) % n :=
    hall _ (hreach _ (Nat.mod_lt _ (by omega)) (add_mod_ne Nat.two_pos (by omega)))
  have hback : ((i + 1) % n + 1) % n = (i + 1) % n := by rw [Nat.mod_add_mod]; exact hnext
  exact add_mod_ne Nat.one_pos (by omega) hback

/-- Three verified paths, the first the fastest. -/
def threePaths : Paths :=
  [some ⟨0, some true, false, 1, 0⟩, some ⟨1, some true, false, 2, 0⟩, some ⟨2, some true, false, 3, 0⟩]

/-- Two rounds without a frame, the second 250 ms later. -/
def twoRounds : List Step :=
  [.pickFirst threePaths, .openFirst threePaths ⟨3, true⟩ 1, .head false, .pickProbe threePaths 2,
    .openProbe threePaths ⟨7, true⟩ true, .pickSend threePaths, .serve threePaths ⟨11, true⟩ none,
    .idle threePaths ⟨11, true⟩ true 3, .tail, .head false, .pickProbe threePaths 250002]

/-- Both probes go to path 1, none to path 2. -/
theorem twoRounds_miss : probesOf (State.enter true (fun _ => ⟨0, 0, false⟩) 0 10) twoRounds = [1, 1] ∧
    ¬∀ j < 3, j ≠ 0 → j ∈ [1, 1] := by
  have hprobes : probesOf (State.enter true (fun _ => ⟨0, 0, false⟩) 0 10) twoRounds = [1, 1] := by decide
  refine ⟨hprobes, (@probes_miss true (fun _ => ⟨0, 0, false⟩) 0 10 3 0 (Nat.le_refl 3) twoRounds (by decide)
    [1, 1] ?_ rfl).2⟩
  rw [hprobes]

/-- A run that is as the thread makes them, on a table of three paths with path 0 for sending, and two consecutive
successful probes of it that leave out path 2. -/
theorem twoRounds_unreached : ∃ w,
    (Lts.run step (State.enter true (fun _ => ⟨0, 0, false⟩) 0 10) twoRounds).isSome ∧
      Lts.Meets step (Constant 3 0) (State.enter true (fun _ => ⟨0, 0, false⟩) 0 10) twoRounds ∧
      w <:+: probesOf (State.enter true (fun _ => ⟨0, 0, false⟩) 0 10) twoRounds ∧ w.length = 3 - 1 ∧
      ¬∀ j < 3, j ≠ 0 → j ∈ w :=
  ⟨[1, 1], by decide, by decide, by decide, rfl, by decide⟩

end Mquic.Server.Network
