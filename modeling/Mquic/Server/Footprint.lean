/-
The accesses of the network thread's steps are all that the steps read: a step from other bindings, and with another
table, that agree at the accesses, does the same and writes no other binding.
-/
import Mquic.Server.PathTable

namespace Mquic.Server.Network

/-! ## Other bindings and another table -/

/-- The thread with other bindings. -/
def State.rebind (s : State) (f : Nat → MpBinding) : State := { s with bind := f }

@[simp] theorem State.rebind_pc (s : State) (f : Nat → MpBinding) : (s.rebind f).pc = s.pc := rfl

@[simp] theorem State.rebind_algo (s : State) (f : Nat → MpBinding) : (s.rebind f).algo = s.algo := rfl

@[simp] theorem State.rebind_curIdx (s : State) (f : Nat → MpBinding) : (s.rebind f).curIdx = s.curIdx := rfl

@[simp] theorem State.rebind_isSending (s : State) (f : Nat → MpBinding) : (s.rebind f).isSending = s.isSending := rfl

/-- The same step, of another table. -/
def Step.on (paths : Paths) : Step → Step
  | .pickFirst _ => .pickFirst paths
  | .openFirst _ o nowUs => .openFirst paths o nowUs
  | .pickProbe _ nowUs => .pickProbe paths nowUs
  | .openProbe _ o accepted => .openProbe paths o accepted
  | .pickSend _ => .pickSend paths
  | .serve _ o frame => .serve paths o frame
  | .idle _ o accepted nowUs => .idle paths o accepted nowUs
  | .finish _ accepted => .finish paths accepted
  | e => e

/-- `g` at the indices of a list, `f` at the others. -/
def patch (is : List Nat) (g f : Nat → MpBinding) (i : Nat) : MpBinding := if i ∈ is then g i else f i

/-- Two tables of one length with the same paths at some indices. -/
def SameAt (is : List Nat) (paths paths' : Paths) : Prop :=
  paths'.length = paths.length ∧ ∀ i ∈ is, paths'.at i = paths.at i

/-- A step reads and writes only the bindings of `a`, and reads only its paths. -/
def Footprint (a : Accesses) (s : State) (e : Step) (s' : State) : Prop :=
  ∀ (f : Nat → MpBinding) (paths' : Paths), (∀ i ∈ a.binds, f i = s.bind i) →
    (∀ paths, e.sees = some paths → SameAt a.paths paths paths') →
    step (s.rebind f) (e.on paths') = some (s'.rebind (patch a.binds s'.bind f))

theorem patch_same {is : List Nat} {g f : Nat → MpBinding} (h : ∀ i ∈ is, f i = g i) : patch is g f = f := by
  funext i
  unfold patch
  split
  · exact (h i ‹_›).symm
  · rfl

theorem patch_update {is : List Nat} {g f : Nat → MpBinding} (h : ∀ i ∈ is, f i = g i) {idx : Nat} (hidx : idx ∈ is)
    (b : MpBinding) : patch is (Function.update g idx b) f = Function.update f idx b := by
  funext i
  unfold patch
  rcases eq_or_ne i idx with rfl | hne
  · rw [if_pos hidx, Function.update_self, Function.update_self]
  · rw [Function.update_of_ne hne, Function.update_of_ne hne]
    split
    · exact (h i ‹_›).symm
    · rfl

theorem SameAt.mono {is js : List Nat} {paths paths' : Paths} (h : SameAt js paths paths') (hsub : is ⊆ js) :
    SameAt is paths paths' :=
  ⟨h.1, fun i hi => h.2 i (hsub hi)⟩

/-- All of a table was read. -/
theorem SameAt.eq {paths paths' : Paths} (h : SameAt (List.range paths.length) paths paths') : paths' = paths := by
  apply List.ext_getElem h.1
  intro i hi' hi
  have hat := h.2 i (List.mem_range.2 hi)
  unfold Paths.at at hat
  rwa [List.getElem?_eq_getElem hi, List.getElem?_eq_getElem hi'] at hat

/-! ## The functions the steps call -/

theorem send_footprint {a : Option PathAlgo} {paths paths' : Paths} (h : SameAt (sendReads a paths) paths paths') :
    pathAlgoPickSendPath a paths' = pathAlgoPickSendPath a paths := by
  cases a with
  | none => rfl
  | some a => rw [SameAt.eq h]

theorem probeFrom_footprint (lastSend : Int) (paths paths' : Paths) (start : Nat) : ∀ (n k : Nat),
    SameAt (probeReadsFrom lastSend paths start n k) paths paths' →
    probeFrom lastSend paths' start n k = probeFrom lastSend paths start n k
  | 0, _, _ => rfl
  | n + 1, k, h => by
    have hrest := probeFrom_footprint lastSend paths paths' start n (k + 1)
    simp only [probeReadsFrom] at h
    simp only [probeFrom, h.1]
    by_cases hlast : ((start + k) % paths.length : Int) = lastSend
    · have hlast' : (((start + k) % paths.length : Nat) : Int) = lastSend := by exact_mod_cast hlast
      rw [if_pos hlast'] at h ⊢
      rw [if_pos hlast']
      exact hrest h
    · have hlast' : ¬ (((start + k) % paths.length : Nat) : Int) = lastSend := by exact_mod_cast hlast
      rw [if_neg hlast'] at h ⊢
      rw [if_neg hlast', h.2 _ List.mem_cons_self]
      by_cases hnone : (paths.at ((start + k) % paths.length)).isNone = true
      · rw [if_pos hnone] at h ⊢
        rw [if_pos hnone]
        exact hrest (h.mono (List.subset_cons_self _ _))
      · rw [if_neg hnone, if_neg hnone]

theorem probe_footprint {a : Option PathAlgo} {paths paths' : Paths} {nowUs : Nat}
    (h : SameAt (probeReads a paths nowUs) paths paths') :
    pathAlgoPickProbePath a paths' nowUs = pathAlgoPickProbePath a paths nowUs := by
  cases a with
  | none => rfl
  | some a =>
    unfold probeReads at h
    unfold pathAlgoPickProbePath
    simp only [h.1]
    by_cases hfew : paths.length ≤ 1
    · rw [if_pos hfew, if_pos hfew]
    by_cases hearly : nowUs < a.nextProbeUs
    · rw [if_neg hfew, if_neg hfew, if_pos hearly, if_pos hearly]
    · simp only [hfew, hearly, or_self, if_false] at h ⊢
      rw [probeFrom_footprint _ _ _ _ _ _ h]

/-- `ensure_stream_for_path` among more accesses of its caller. -/
theorem ensure_footprint {s : State} {paths paths' : Paths} {idx : Nat} {o : Opening} {f : Nat → MpBinding}
    {is : List Nat} (hsub : (ensureAccesses s paths idx o).binds ⊆ is) (hf : ∀ i ∈ is, f i = s.bind i)
    (hpaths : SameAt (ensureAccesses s paths idx o).paths paths paths') :
    ensureStreamForPath (s.rebind f) paths' idx o =
      ((ensureStreamForPath s paths idx o).1.rebind (patch is (ensureStreamForPath s paths idx o).1.bind f),
        (ensureStreamForPath s paths idx o).2) := by
  have hsame : s.rebind (patch is s.bind f) = s.rebind f := congrArg s.rebind (patch_same hf)
  unfold ensureAccesses at hsub hpaths
  unfold ensureStreamForPath
  rw [hpaths.1]
  by_cases hout : paths.length ≤ idx ∨ maxPaths ≤ idx
  · rw [if_pos hout, if_pos hout, hsame]
  rw [if_neg hout] at hsub hpaths
  rw [if_neg hout, if_neg hout]
  by_cases hready : (s.bind idx).ready = true
  · rw [if_pos hready] at hsub
    have hidx : f idx = s.bind idx := hf idx (hsub (List.mem_singleton.2 rfl))
    have hready' : ((s.rebind f).bind idx).ready = true := (congrArg MpBinding.ready hidx).trans hready
    rw [if_pos hready, if_pos hready', hsame]
  · rw [if_neg hready] at hsub hpaths
    have hmem : idx ∈ is := hsub (List.mem_singleton.2 rfl)
    have hready' : ¬ ((s.rebind f).bind idx).ready = true := by
      show ¬ (f idx).ready = true
      rwa [hf idx hmem]
    rw [if_neg hready, if_neg hready', hpaths.2 idx (List.mem_singleton.2 rfl)]
    cases paths.at idx with
    | none =>
      simp only
      rw [hsame]
    | some path =>
      simp only
      split_ifs
      · rw [hsame]
      · rw [hsame]
      · -- the binding is written where it was read
        have hpatch : patch is (Function.update s.bind idx ⟨idx, o.sid, true⟩) f =
            Function.update f idx ⟨idx, o.sid, true⟩ := patch_update hf hmem _
        show (_, true) =
          ((s.bound idx path o).rebind (patch is (Function.update s.bind idx ⟨idx, o.sid, true⟩) f), true)
        rw [hpatch]
        rfl
      · show (_, false) = ((s.write (headerWrite s path o)).rebind (patch is s.bind f), false)
        rw [patch_same hf]
        rfl

theorem touch_rebind {s : State} {g : Nat → MpBinding} {idx : Nat} (h : g idx = s.bind idx) (path : Option Path)
    (accepted : Bool) : touch (s.rebind g) idx path accepted = (touch s idx path accepted).rebind g := by
  show (s.rebind g).write ⟨path, (g idx).sid, [], false, accepted, false⟩ = _
  rw [h]
  rfl

theorem openProbe_footprint {s : State} {paths paths' : Paths} {idx : Nat} {o : Opening} (accepted : Bool)
    {f : Nat → MpBinding} {is : List Nat} (hsub : (probeAccesses s paths idx o).binds ⊆ is)
    (hf : ∀ i ∈ is, f i = s.bind i) (hpaths : SameAt (probeAccesses s paths idx o).paths paths paths') :
    openProbe (s.rebind f) paths' idx o accepted =
      (openProbe s paths idx o accepted).rebind (patch is (openProbe s paths idx o accepted).bind f) := by
  unfold probeAccesses at hsub hpaths
  have hensure := ensure_footprint (List.Subset.trans (List.subset_append_left _ _) hsub) hf
    (hpaths.mono (List.subset_append_left _ _))
  unfold openProbe
  rw [hensure]
  by_cases hopened : (ensureStreamForPath s paths idx o).2 = true
  · rw [if_pos hopened] at hsub hpaths
    have hmem : idx ∈ is := hsub (List.mem_append_right _ (List.mem_singleton.2 rfl))
    have hat : paths'.at idx = paths.at idx := hpaths.2 idx (List.mem_append_right _ (List.mem_singleton.2 rfl))
    simp only [if_pos hopened, hat]
    -- the stream that is touched is that of the binding, which is among the accesses
    rw [touch_rebind (if_pos hmem)]
    rfl
  · simp only [if_neg hopened]
    rfl

theorem serve_footprint {s : State} {paths paths' : Paths} {idx : Nat} {o : Opening} {frame : Option Nat}
    {f : Nat → MpBinding} {is : List Nat} (hsub : (serveAccesses s paths idx o frame).binds ⊆ is)
    (hf : ∀ i ∈ is, f i = s.bind i) (hpaths : SameAt (serveAccesses s paths idx o frame).paths paths paths') :
    serve (s.rebind f) paths' idx o frame =
      (serve s paths idx o frame).rebind (patch is (serve s paths idx o frame).bind f) := by
  unfold serveAccesses at hsub hpaths
  have hensure := ensure_footprint (List.Subset.trans (List.subset_append_left _ _) hsub) hf
    (hpaths.mono (List.subset_append_left _ _))
  unfold serve
  rw [hensure]
  cases frame with
  | none => rfl
  | some fbSz =>
    have hmem : idx ∈ is := hsub (List.mem_append_right _ (List.mem_singleton.2 rfl))
    have hat : paths'.at idx = paths.at idx := hpaths.2 idx (List.mem_append_right _ (List.mem_singleton.2 rfl))
    have hbind : patch is (ensureStreamForPath s paths idx o).1.bind f idx =
        (ensureStreamForPath s paths idx o).1.bind idx := if_pos hmem
    simp only [hat, State.rebind, hbind]

theorem idle_footprint {s : State} {paths paths' : Paths} {o : Opening} (accepted : Bool) {nowUs : Nat}
    {f : Nat → MpBinding} {is : List Nat} (hsub : (idleAccesses s paths o nowUs).binds ⊆ is)
    (hf : ∀ i ∈ is, f i = s.bind i) (hpaths : SameAt (idleAccesses s paths o nowUs).paths paths paths') :
    idle (s.rebind f) paths' o accepted nowUs =
      (idle s paths o accepted nowUs).rebind (patch is (idle s paths o accepted nowUs).bind f) := by
  unfold idleAccesses at hsub hpaths
  have hsame : s.rebind (patch is s.bind f) = s.rebind f := congrArg s.rebind (patch_same hf)
  unfold idle
  by_cases hdue : usSub nowUs s.lastActivityUs > oneSecondUs
  · have hdue' : usSub nowUs (s.rebind f).lastActivityUs > oneSecondUs := hdue
    rw [if_pos hdue] at hsub hpaths
    rw [if_pos hdue, if_pos hdue']
    by_cases hready : (s.bind s.curIdx).ready = true
    · rw [if_pos hready] at hsub
      have hidx : f s.curIdx = s.bind s.curIdx := hf _ (hsub (List.mem_singleton.2 rfl))
      have hready' : ((s.rebind f).bind (s.rebind f).curIdx).ready = true :=
        (congrArg MpBinding.ready hidx).trans hready
      -- keep-alive, on the stream of `cur_idx`
      have htouch : touch (s.rebind f) s.curIdx s.curPath accepted = (touch s s.curIdx s.curPath accepted).rebind f :=
        touch_rebind hidx _ _
      have hbind : patch is (touch s s.curIdx s.curPath accepted).bind f = f := patch_same hf
      simp only [if_pos hready, if_pos hready', hbind]
      show { touch (s.rebind f) s.curIdx s.curPath accepted with lastActivityUs := nowUs, pc := Pc.tail } = _
      rw [htouch]
      rfl
    · rw [if_neg hready] at hsub hpaths
      have hidx : f s.curIdx = s.bind s.curIdx := hf _ (hsub List.mem_cons_self)
      have hready' : ¬ ((s.rebind f).bind (s.rebind f).curIdx).ready = true := by
        show ¬ (f s.curIdx).ready = true
        rwa [hidx]
      -- no stream there yet: it is opened now, for the same index
      have hensure := ensure_footprint (List.Subset.trans (List.subset_append_right [s.curIdx] _) hsub) hf
        (hpaths.mono (List.subset_append_right [] _))
      simp only [if_neg hready, if_neg hready']
      show { (ensureStreamForPath (s.rebind f) paths' s.curIdx o).1 with lastActivityUs := nowUs, pc := Pc.tail } = _
      rw [hensure]
      rfl
  · have hdue' : ¬ usSub nowUs (s.rebind f).lastActivityUs > oneSecondUs := hdue
    rw [if_neg hdue, if_neg hdue']
    exact congrArg (fun t : State => { t with pc := Pc.tail }) hsame.symm

theorem finish_footprint {s : State} {paths paths' : Paths} {accepted : Nat → Bool} {f : Nat → MpBinding}
    (hf : ∀ i ∈ (finishAccesses s paths).binds, f i = s.bind i)
    (hpaths : SameAt (finishAccesses s paths).paths paths paths') :
    finishAllBindings (s.rebind f) paths' accepted = finishAllBindings s paths accepted := by
  have hfilter : (List.range (min maxPaths paths.length)).filter (fun i => (f i).ready) =
      (List.range (min maxPaths paths.length)).filter fun i => (s.bind i).ready :=
    List.filter_congr fun i hi => by rw [hf i hi]
  unfold finishAllBindings
  rw [hpaths.1]
  show List.map _ (List.filter (fun i => (f i).ready) _) = _
  rw [hfilter]
  apply List.map_congr_left
  intro i hi
  obtain ⟨hrange, -⟩ := List.mem_filter.1 hi
  show (⟨paths'.at (f i).pathIdx, (f i).sid, [], true, accepted i, false⟩ : Write) = _
  rw [hf i hrange, hpaths.2 _ (List.mem_map.2 ⟨i, hi, rfl⟩)]

/-! ## Steps -/

section Steps

variable {s s' : State} {e : Step} {a : Accesses}

/-- A step without a table and without bindings. -/
theorem footprint_none (ha : a.binds = []) (hon : ∀ paths, e.on paths = e)
    (hstep : ∀ f, step (s.rebind f) e = some (s'.rebind f)) : Footprint a s e s' := by
  intro f paths' _ _
  have hpatch : patch a.binds s'.bind f = f := patch_same (by rw [ha]; nofun)
  rw [hon, hpatch]
  exact hstep f

/-- A step that picks from its table. -/
theorem footprint_pick {paths : Paths} (ha : a.binds = []) (hsees : e.sees = some paths)
    (hstep : ∀ f paths', SameAt a.paths paths paths' → step (s.rebind f) (e.on paths') = some (s'.rebind f)) :
    Footprint a s e s' := by
  intro f paths' _ hsame
  have hpatch : patch a.binds s'.bind f = f := patch_same (by rw [ha]; nofun)
  rw [hpatch]
  exact hstep f paths' (hsame paths hsees)

/-- The bindings and paths that a step depends on are those of its accesses. -/
theorem step_footprint (h : step s e = some s') : Footprint (accesses s e) s e s' := by
  cases step_moved h with
  | @pickFirst paths hpc =>
    refine footprint_pick rfl rfl fun f paths' hsame => ?_
    have hpick : pickFirst (s.rebind f) paths' = (pickFirst s paths).rebind f := by
      unfold pickFirst clampIdx
      rw [State.rebind_algo, send_footprint hsame, hsame.1]
      rfl
    simp only [Step.on, step, State.rebind_pc, hpc, hpick]
  -- the path that is kept is read once more behind `ensure_stream_for_path`
  | @openFirst paths o nowUs hpc =>
    intro f paths' hf hsame
    have hpaths := hsame paths rfl
    have hensure := ensure_footprint (List.subset_append_left _ _) hf (hpaths.mono (List.subset_append_left _ _))
    have hat : paths'.at s.curIdx = paths.at s.curIdx :=
      hpaths.2 _ (List.mem_append_right _ (List.mem_singleton.2 rfl))
    simp only [Step.on, step, State.rebind_pc, hpc, openFirst]
    rw [State.rebind_curIdx, hensure, hat]
    rfl
  | @head disconnecting hpc =>
    refine footprint_none rfl (fun _ => rfl) fun f => ?_
    simp only [step, State.rebind_pc, hpc]
    rfl
  | @pickProbe paths nowUs hpc =>
    refine footprint_pick rfl rfl fun f paths' hsame => ?_
    have hpick : pickProbe (s.rebind f) paths' nowUs = (pickProbe s paths nowUs).rebind f := by
      unfold pickProbe
      rw [State.rebind_algo, probe_footprint hsame, hsame.1]
      rfl
    simp only [Step.on, step, State.rebind_pc, hpc, hpick]
  | @openProbe paths o accepted idx hpc =>
    intro f paths' hf hsame
    have hpaths := hsame paths rfl
    rw [accesses_openProbe hpc] at hf hpaths ⊢
    simp only [Step.on, step, State.rebind_pc, hpc]
    rw [openProbe_footprint accepted (List.Subset.refl _) hf hpaths]
  | @pickSend paths hpc =>
    refine footprint_pick rfl rfl fun f paths' hsame => ?_
    have hpick : pickSend (s.rebind f) paths' = (pickSend s paths).rebind f := by
      unfold pickSend clampIdx
      rw [State.rebind_algo, send_footprint hsame, hsame.1]
      rfl
    simp only [Step.on, step, State.rebind_pc, hpc, hpick]
  | @serve paths o frame idx hpc hsz =>
    intro f paths' hf hsame
    have hpaths := hsame paths rfl
    rw [accesses_serve hpc] at hf hpaths ⊢
    simp only [Step.on, step, State.rebind_pc, hpc, if_pos hsz]
    rw [serve_footprint (List.Subset.refl _) hf hpaths]
  | @idle paths o accepted nowUs hpc =>
    intro f paths' hf hsame
    simp only [Step.on, step, State.rebind_pc, hpc]
    rw [idle_footprint accepted (List.Subset.refl _) hf (hsame paths rfl)]
    rfl
  | @sendLength accepted x hpc =>
    rw [accesses_sendLength hpc]
    refine footprint_none rfl (fun _ => rfl) fun f => ?_
    simp only [step, State.rebind_pc, hpc]
    cases accepted with
    | true => rfl
    | false => rfl
  | @checkPayload nowUs x hpc =>
    refine footprint_none rfl (fun _ => rfl) fun f => ?_
    simp only [step, State.rebind_pc, hpc]
    unfold checkPayload
    rw [State.rebind_isSending]
    split
    · rfl
    · rfl
  | @sendPiece bytes accepted nowUs x hpc hlen =>
    rw [accesses_sendPiece hpc]
    refine footprint_none rfl (fun _ => rfl) fun f => ?_
    simp only [step, State.rebind_pc, hpc, if_pos hlen]
    cases accepted with
    | true => rfl
    | false => rfl
  | tail hpc =>
    refine footprint_none rfl (fun _ => rfl) fun f => ?_
    simp only [step, State.rebind_pc, hpc]
    rfl
  -- the sweep changes no binding, so that the patch is `f` itself
  | @finish paths accepted hpc =>
    intro f paths' hf hsame
    have hpatch : patch (finishAccesses s paths).binds s.bind f = f := patch_same hf
    simp only [Step.on, step, State.rebind_pc, hpc]
    show some (finish (s.rebind f) paths' accepted) =
      some ((finish s paths accepted).rebind (patch (finishAccesses s paths).binds s.bind f))
    rw [hpatch]
    unfold finish
    rw [finish_footprint hf (hsame paths rfl)]
    rfl
  | stopRequest => exact footprint_none rfl (fun _ => rfl) fun f => rfl

end Steps

end Mquic.Server.Network
