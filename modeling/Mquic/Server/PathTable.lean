/-
The network thread beside picoquic's path table: between two rounds of the thread's loop paths are appended to
`cnx->path` and removed from it, later entries shifting down. What each step of the thread accesses of the table
and of `mp.bind` (quic_server.c, path_algo.c).
-/
import Mquic.Server.Network

namespace Mquic.Server.Network

/-! ## Steps of thread and table -/

/-- The thread, `cnx->path[0 .. nb_paths)`, and as history the ids of all paths there have been. -/
structure World where
  thread : State
  paths : List Path
  ids : List Nat

/-- Before the thread runs and before there are paths. -/
def World.enter (allocated : Bool) (behind : Nat → MpBinding) (controlStreamId maxFrames : Nat) : World :=
  ⟨State.enter allocated behind controlStreamId maxFrames, [], []⟩

/-- The table as the thread sees it. -/
def World.table (w : World) : Paths := w.paths.map some

/-- The labels: a path is appended, removed, or changes in all but its id; or the thread takes a step. -/
inductive Label where
  | append (p : Path)
  | remove (i : Nat)
  | refresh (i : Nat) (p : Path)
  | thread (e : Step)

/-- The thread is between two rounds of its loop, or has not begun. -/
def Pc.between : Pc → Bool
  | .pickFirst | .head => true
  | _ => false

/-- The table a step reads. -/
def Step.sees : Step → Option Paths
  | .pickFirst paths | .openFirst paths _ _ | .pickProbe paths _ | .openProbe paths _ _ | .pickSend paths
  | .serve paths _ _ | .idle paths _ _ _ | .finish paths _ => some paths
  | _ => none

/-- Paths come with new ids, at least one stays, and the thread sees the table as it is. -/
def World.step (w : World) : Label → Option World
  | .append p =>
    if w.thread.pc.between = true ∧ p.uniquePathId ∉ w.ids then
      some { w with paths := w.paths ++ [p], ids := w.ids ++ [p.uniquePathId] }
    else none
  | .remove i =>
    if w.thread.pc.between = true ∧ i < w.paths.length ∧ 1 < w.paths.length then
      some { w with paths := w.paths.eraseIdx i }
    else none
  | .refresh i p =>
    if (w.paths[i]?).map (·.uniquePathId) = some p.uniquePathId then some { w with paths := w.paths.set i p }
    else none
  | .thread e =>
    if w.paths ≠ [] ∧ e.sees.getD w.table = w.table then
      (Network.step w.thread e).map fun s => { w with thread := s }
    else none

/-- The steps with what they need and what they make of the world. -/
inductive Changed (w : World) : Label → World → Prop where
  | append {p : Path} (hpc : w.thread.pc.between = true) (hnew : p.uniquePathId ∉ w.ids) :
    Changed w (.append p) { w with paths := w.paths ++ [p], ids := w.ids ++ [p.uniquePathId] }
  | remove {i : Nat} (hpc : w.thread.pc.between = true) (hi : i < w.paths.length) (hone : 1 < w.paths.length) :
    Changed w (.remove i) { w with paths := w.paths.eraseIdx i }
  | refresh {i : Nat} {p : Path} (hsame : (w.paths[i]?).map (·.uniquePathId) = some p.uniquePathId) :
    Changed w (.refresh i p) { w with paths := w.paths.set i p }
  | thread {e : Step} {s : State} (hpaths : w.paths ≠ []) (hsees : ∀ paths, e.sees = some paths → paths = w.table)
    (hmoved : Moved w.thread e s) : Changed w (.thread e) { w with thread := s }

theorem World.step_changed {w w' : World} {l : Label} (h : w.step l = some w') : Changed w l w' := by
  cases l with
  | append p =>
    simp only [World.step] at h
    split at h <;> cases h
    rename_i hc
    exact .append hc.1 hc.2
  | remove i =>
    simp only [World.step] at h
    split at h <;> cases h
    rename_i hc
    exact .remove hc.1 hc.2.1 hc.2.2
  | refresh i p =>
    simp only [World.step] at h
    split at h <;> cases h
    exact .refresh ‹_›
  | thread e =>
    simp only [World.step] at h
    split at h
    · rename_i hc
      obtain ⟨s, hs, rfl⟩ := Option.map_eq_some_iff.1 h
      refine .thread hc.1 (fun paths hp => ?_) (step_moved hs)
      have hsees := hc.2
      rwa [hp] at hsees
    · cases h

theorem World.table_length (w : World) : w.table.length = w.paths.length := List.length_map ..

theorem World.table_at (w : World) (i : Nat) : w.table.at i = w.paths[i]? := by
  unfold Paths.at World.table
  rw [List.getElem?_map]
  cases w.paths[i]? <;> rfl

/-! ## What a step does to the bindings -/

/-- From `s` to `s'` the bindings stay, or one is opened for the path that `paths` has at its index. -/
def Rebound (paths : Paths) (s s' : State) : Prop :=
  (s'.bind = s.bind ∧ s'.affinity = s.affinity) ∨
    ∃ idx path sid, paths.at idx = some path ∧ s'.bind = Function.update s.bind idx ⟨idx, sid, true⟩ ∧
      s'.affinity = s.affinity ++ [(sid, path.uniquePathId)]

theorem ensure_rebound (s : State) (paths : Paths) (idx : Nat) (o : Opening) :
    Rebound paths s (ensureStreamForPath s paths idx o).1 := by
  rcases ensure_cases s paths idx o with h | ⟨path, -, h⟩ | ⟨path, ⟨-, -, hpath⟩, h⟩
  · rw [h]
    exact .inl ⟨rfl, rfl⟩
  · rw [h]
    exact .inl ⟨rfl, rfl⟩
  · rw [h]
    exact .inr ⟨idx, path, o.sid, hpath, rfl, rfl⟩

theorem moved_rebound {s s' : State} {e : Step} (h : Moved s e s') :
    (s'.bind = s.bind ∧ s'.affinity = s.affinity) ∨ ∃ paths, e.sees = some paths ∧ Rebound paths s s' := by
  cases h with
  | pickFirst | head | pickProbe | pickSend | tail | finish | stopRequest => exact .inl ⟨rfl, rfl⟩
  | openFirst hpc => exact .inr ⟨_, rfl, ensure_rebound s _ _ _⟩
  | @openProbe paths o accepted idx hpc =>
    refine .inr ⟨_, rfl, ?_⟩
    have hensure := ensure_rebound s paths idx o
    unfold openProbe
    by_cases hopened : (ensureStreamForPath s paths idx o).2 = true
    · simp only [if_pos hopened]
      exact hensure
    · simp only [if_neg hopened]
      exact hensure
  | serve hpc hsz => exact .inr ⟨_, rfl, ensure_rebound s _ _ _⟩
  | @idle paths o accepted nowUs hpc =>
    refine .inr ⟨_, rfl, ?_⟩
    unfold idle
    split
    · split
      · exact .inl ⟨rfl, rfl⟩
      · exact ensure_rebound s paths s.curIdx o
    · exact .inl ⟨rfl, rfl⟩
  | @sendLength accepted x hpc => cases accepted <;> exact .inl ⟨rfl, rfl⟩
  | @checkPayload nowUs x hpc =>
    unfold checkPayload
    split
    · exact .inl ⟨rfl, rfl⟩
    · exact .inl ⟨rfl, rfl⟩
  | @sendPiece bytes accepted nowUs x hpc hlen => cases accepted <;> exact .inl ⟨rfl, rfl⟩

/-! ## Accesses -/

/-- The indices of the accesses to `mp.bind` and to `cnx->path`, and the paths data is sent on. -/
structure Accesses where
  binds : List Nat
  paths : List Nat
  sends : List (Option Path)

def Accesses.none : Accesses := ⟨[], [], []⟩

def Accesses.and (a b : Accesses) : Accesses := ⟨a.binds ++ b.binds, a.paths ++ b.paths, a.sends ++ b.sends⟩

/-- `ensure_stream_for_path` on index `pidx`. -/
def ensureAccesses (s : State) (paths : Paths) (pidx : Nat) (o : Opening) : Accesses :=
  if paths.length ≤ pidx ∨ maxPaths ≤ pidx then .none
  else if (s.bind pidx).ready then ⟨[pidx], [], []⟩
  else
    ⟨[pidx], [pidx],
      if (paths.at pidx).bind Path.firstTuple = some true ∧ o.sid % 4 = 3 then [paths.at pidx] else []⟩

/-- `path_algo_pick_send_path` looks at every path. -/
def sendReads (a : Option PathAlgo) (paths : Paths) : List Nat :=
  if a.isSome then List.range paths.length else []

/-- The loop of `path_algo_pick_probe_path` looks at paths other than the last one until it finds one. -/
def probeReadsFrom (lastSend : Int) (paths : Paths) (start : Nat) : Nat → Nat → List Nat
  | 0, _ => []
  | n + 1, k =>
    let i := (start + k) % paths.length
    if (i : Int) = lastSend then probeReadsFrom lastSend paths start n (k + 1)
    else i :: if (paths.at i).isNone then probeReadsFrom lastSend paths start n (k + 1) else []

def probeReads (a : Option PathAlgo) (paths : Paths) (nowUs : Nat) : List Nat :=
  match a with
  | none => []
  | some a =>
    if paths.length ≤ 1 ∨ nowUs < a.nextProbeUs then []
    else
      probeReadsFrom a.lastSend paths (if 0 ≤ a.lastSend then (a.lastSend.toNat + 1) % paths.length else 0)
        paths.length 0

/-- `finish_all_bindings`. -/
def finishAccesses (s : State) (paths : Paths) : Accesses :=
  let within := List.range (min maxPaths paths.length)
  let ready := within.filter fun i => (s.bind i).ready
  ⟨within, ready.map fun i => (s.bind i).pathIdx, ready.map fun i => paths.at (s.bind i).pathIdx⟩

/-- The probe of the path at `idx`. -/
def probeAccesses (s : State) (paths : Paths) (idx : Nat) (o : Opening) : Accesses :=
  (ensureAccesses s paths idx o).and
    (if (ensureStreamForPath s paths idx o).2 then ⟨[idx], [idx], [paths.at idx]⟩ else .none)

/-- Taking a frame, if one is ready, to be sent on the path at `idx`. -/
def serveAccesses (s : State) (paths : Paths) (idx : Nat) (o : Opening) (frame : Option Nat) : Accesses :=
  (ensureAccesses s paths idx o).and (if frame.isSome then ⟨[idx], [idx], []⟩ else .none)

/-- Keep-alive. -/
def idleAccesses (s : State) (paths : Paths) (o : Opening) (nowUs : Nat) : Accesses :=
  if usSub nowUs s.lastActivityUs > oneSecondUs then
    if (s.bind s.curIdx).ready then ⟨[s.curIdx], [], [s.curPath]⟩
    else Accesses.and ⟨[s.curIdx], [], []⟩ (ensureAccesses s paths s.curIdx o)
  else .none

/-- The accesses of a step. -/
def accesses (s : State) : Step → Accesses
  | .pickFirst paths => ⟨[], sendReads s.algo paths, []⟩
  | .openFirst paths o _ => (ensureAccesses s paths s.curIdx o).and ⟨[], [s.curIdx], []⟩
  | .pickProbe paths nowUs => ⟨[], probeReads s.algo paths nowUs, []⟩
  | .openProbe paths o _ => match s.pc with
    | .openProbe idx => probeAccesses s paths idx o
    | _ => .none
  | .pickSend paths => ⟨[], sendReads s.algo paths, []⟩
  | .serve paths o frame => match s.pc with
    | .serve idx => serveAccesses s paths idx o frame
    | _ => .none
  | .idle paths o _ nowUs => idleAccesses s paths o nowUs
  | .sendLength _ => match s.pc with
    | .length x => ⟨[], [], [x.path]⟩
    | _ => .none
  | .sendPiece _ _ _ => match s.pc with
    | .piece x => ⟨[], [], [x.path]⟩
    | _ => .none
  | .finish paths _ => finishAccesses s paths
  | _ => .none

theorem accesses_openProbe {s : State} {paths : Paths} {idx : Nat} (hpc : s.pc = .openProbe idx) (o : Opening)
    (accepted : Bool) : accesses s (.openProbe paths o accepted) = probeAccesses s paths idx o := by
  simp only [accesses, hpc]

theorem accesses_serve {s : State} {paths : Paths} {idx : Nat} (hpc : s.pc = .serve idx) (o : Opening)
    (frame : Option Nat) : accesses s (.serve paths o frame) = serveAccesses s paths idx o frame := by
  simp only [accesses, hpc]

theorem accesses_sendLength {s : State} {x : Sending} (hpc : s.pc = .length x) (accepted : Bool) :
    accesses s (.sendLength accepted) = ⟨[], [], [x.path]⟩ := by
  simp only [accesses, hpc]

theorem accesses_sendPiece {s : State} {x : Sending} (hpc : s.pc = .piece x) (bytes : List UInt8) (accepted : Bool)
    (nowUs : Nat) : accesses s (.sendPiece bytes accepted nowUs) = ⟨[], [], [x.path]⟩ := by
  simp only [accesses, hpc]

/-! ## The sends are those of the step's writes -/

/-- The writes of `s'` are those of `s` and, behind them, one on each of `paths`. -/
def SendsOn (s s' : State) (paths : List (Option Path)) : Prop :=
  ∃ ws : List Write, s'.writes = s.writes ++ ws ∧ ws.map (·.path) = paths

theorem SendsOn.nothing {s s' : State} (h : s'.writes = s.writes) : SendsOn s s' [] :=
  ⟨[], by rw [h, List.append_nil], rfl⟩

theorem SendsOn.one {s s' : State} {w : Write} (h : s'.writes = s.writes ++ [w]) :
    SendsOn s s' [w.path] := ⟨[w], h, rfl⟩

theorem SendsOn.trans {s s' s'' : State} {a b : List (Option Path)} (h : SendsOn s s' a) (h' : SendsOn s' s'' b) :
    SendsOn s s'' (a ++ b) := by
  obtain ⟨ws, hw, rfl⟩ := h
  obtain ⟨ws', hw', rfl⟩ := h'
  exact ⟨ws ++ ws', by rw [hw', hw, List.append_assoc], List.map_append⟩

theorem ensure_sends (s : State) (paths : Paths) (idx : Nat) (o : Opening) :
    SendsOn s (ensureStreamForPath s paths idx o).1 (ensureAccesses s paths idx o).sends := by
  unfold ensureStreamForPath ensureAccesses
  split
  · exact .nothing rfl
  split
  · exact .nothing rfl
  cases paths.at idx with
  | none =>
    rw [Option.bind_none, if_neg (fun h => nomatch h.1)]
    exact .nothing rfl
  | some path =>
    rw [Option.bind_some]
    by_cases hv : path.firstTuple = some true
    · by_cases hu : o.sid % 4 = 3
      · rw [if_pos ⟨hv, hu⟩]
        simp only [hv, hu, ne_eq, not_true_eq_false, if_false]
        split
        · exact .one (w := headerWrite s path o) rfl
        · exact .one (w := headerWrite s path o) rfl
      · simp only [hv, hu, ne_eq, not_true_eq_false, not_false_eq_true, if_true, if_false, and_false]
        exact .nothing rfl
    · simp only [hv, ne_eq, not_false_eq_true, if_true, false_and, if_false]
      exact .nothing rfl

/-- Every step sends on the paths its accesses say. -/
theorem moved_sends {s s' : State} {e : Step} (h : Moved s e s') : SendsOn s s' (accesses s e).sends := by
  cases h with
  | pickFirst | head | pickProbe | pickSend | tail | stopRequest => exact .nothing rfl
  | openFirst hpc => exact (ensure_sends s _ _ _).trans (.nothing rfl)
  | @openProbe paths o accepted idx hpc =>
    rw [accesses_openProbe hpc]
    refine (ensure_sends s paths idx o).trans ?_
    unfold openProbe
    by_cases hopened : (ensureStreamForPath s paths idx o).2 = true
    · simp only [if_pos hopened]
      exact .one (w := ⟨paths.at idx, _, [], false, accepted, false⟩) rfl
    · simp only [if_neg hopened]
      exact .nothing rfl
  | @serve paths o frame idx hpc hsz =>
    rw [accesses_serve hpc]
    refine (ensure_sends s paths idx o).trans ?_
    split
    · exact .nothing rfl
    · exact .nothing rfl
  | @idle paths o accepted nowUs hpc =>
    show SendsOn s _ (idleAccesses s paths o nowUs).sends
    unfold idle idleAccesses
    split
    · split
      · -- keep-alive, on `cur_path` as an earlier round left it
        exact .one (w := ⟨s.curPath, _, [], false, accepted, false⟩) rfl
      · exact ensure_sends s paths s.curIdx o
    · exact .nothing rfl
  | @sendLength accepted x hpc =>
    rw [accesses_sendLength hpc]
    cases accepted with
    | true => exact .one (w := frameWrite x _ true) rfl
    | false => exact .one (w := frameWrite x _ false) rfl
  | @checkPayload nowUs x hpc =>
    unfold checkPayload
    split
    · exact .nothing rfl
    · exact .nothing rfl
  | @sendPiece bytes accepted nowUs x hpc hlen =>
    rw [accesses_sendPiece hpc]
    cases accepted with
    | true => exact .one (w := frameWrite x bytes true) rfl
    | false => exact .one (w := frameWrite x bytes false) rfl
  | @finish paths accepted hpc =>
    refine ⟨finishAllBindings s paths accepted, rfl, ?_⟩
    unfold finishAllBindings accesses finishAccesses
    rw [List.map_map]
    rfl

end Mquic.Server.Network
