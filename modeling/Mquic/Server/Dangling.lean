/-
What a release leaves behind that comes too early: a network thread that has not returned can always go on to a use
of `ctx->cnx`, and a camera thread behind its loop's condition to a capture. After such a release the run has a
continuation that uses what is released.
-/
import Mquic.Server.Release

namespace Mquic.Server.Teardown

open Lifecycle

/-! ## Calls and places -/

/-- A call under way is one of the place where the thread is. -/
def Net.Shaped (n : Net) : Prop :=
  n.call = .nothing ∨ (n.call.loaded = true ∧ (n.pc.calls = true ∨ n.pc = .state)) ∨
    (n.call.sending = true ∧ (n.pc.calls = true ∨ n.pc = .length ∨ n.pc = .piece))

/-- The places without calls. -/
def NetPc.plain : NetPc → Bool
  | .created | .head | .payload | .sent | .returned => true
  | _ => false

theorem NetPc.plain_not : ∀ {pc : NetPc}, pc.plain = true →
    pc.calls = false ∧ pc ≠ .state ∧ pc ≠ .length ∧ pc ≠ .piece := by
  intro pc h
  cases pc with
  | created | head | payload | sent | returned => decide
  | prologue | state | round | length | piece | idle | finish => cases h

theorem Net.Shaped.nothing {n : Net} (h : n.Shaped) {place : NetPc} (hpc : n.pc = place) (hplain : place.plain = true) :
    n.call = .nothing := by
  subst hpc
  obtain ⟨hcalls, hstate, hlength, hpiece⟩ := NetPc.plain_not hplain
  rw [Net.Shaped, hcalls] at h
  rcases h with h | ⟨-, hat | hat⟩ | ⟨-, hat | hat | hat⟩
  · exact h
  · cases hat
  · exact absurd hat hstate
  · cases hat
  · exact absurd hat hlength
  · exact absurd hat hpiece

theorem Net.roundEnd_nothing (n : Net) (s : State) (sent : Bool) (h : n.call = .nothing) :
    (n.roundEnd s sent).call = .nothing := by
  unfold Net.roundEnd
  split
  · rfl
  · exact h

theorem Net.next_shaped {n : Net} {s : State} {e : NetStep} (hready : n.Ready s e) (h : n.Shaped) (k : Nat) :
    (n.next s k e).2.Shaped := by
  cases e with
  | look | fetch | sendDone | pin | enter | piece | leave => exact .inl rfl
  | pace => exact h
  | inspect => exact .inl hready.2.1
  | start => exact .inl (h.nothing hready rfl)
  | payload => exact .inl (h.nothing hready rfl)
  | load =>
    obtain ⟨hpc, -, hcnx⟩ := hready
    obtain ⟨c, hc⟩ := Option.isSome_iff_exists.1 hcnx
    refine .inr (.inl ⟨?_, hpc⟩)
    show (Call.load s.cnx).loaded = true
    rw [hc]
    rfl
  | send keepAlive =>
    obtain ⟨hpc, -, hcnx, -⟩ := hready
    obtain ⟨c, hc⟩ := Option.isSome_iff_exists.1 hcnx
    refine .inr (.inr ⟨?_, hpc⟩)
    show (Call.sendOn s.cnx (n.passes keepAlive)).sending = true
    rw [hc]
    rfl
  | check =>
    have hcall := h.nothing hready rfl
    show (if s.isSending then { n with pc := .state } else n.behindLoop).Shaped
    split
    · exact .inl hcall
    · exact .inl rfl
  | state disconnecting => cases disconnecting <;> exact .inl rfl
  | take frame =>
    cases frame with
    | none => exact .inl hready.2
    | some i => exact .inl rfl
  | length accepted => cases accepted <;> exact .inl rfl
  | sent => exact .inl (Net.roundEnd_nothing _ s true (h.nothing hready rfl))
  | idled => exact .inl (Net.roundEnd_nothing n s false hready.2)

/-- What every run keeps: calls belong to their places, a connection is there for the threads, and the callback is
at the one it has adopted. -/
structure Lively (w : World) : Prop where
  shaped : ∀ k, (w.net k).Shaped
  cnx : 0 < w.ctx.networks.length → w.ctx.cnx.isSome = true
  adopting : w.main.adopting.isSome = true → w.ctx.cnx.isSome = true

theorem lively_step {w w' : World} {l : Label} (h : Lively w) (hstep : w.step l = some w') : Lively w' := by
  cases World.step_changed hstep with
  | connect => exact ⟨h.shaped, fun _ => rfl, fun _ => rfl⟩
  | told hno hmain hd =>
    obtain ⟨hcnx, -, hnet, -⟩ := told_kept hno hd
    constructor
    · exact h.shaped
    · simpa only [hcnx, hnet] using h.cnx
    · simpa only [hcnx] using h.adopting
  | unanswered | joined | noCamera | noNetwork | giveUp | loopReturns | freeQuic | checkUp | checkDown | joinCamera
  | joinNetwork | destroyCamera => exact ⟨h.shaped, h.cnx, nofun⟩
  | delete => exact ⟨h.shaped, h.cnx, h.adopting⟩
  | raised hmain | createCamera hmain =>
    have hcnx := h.adopting (by rw [hmain]; rfl)
    exact ⟨h.shaped, fun _ => hcnx, fun _ => hcnx⟩
  | createNetwork hmain =>
    have hcnx := h.adopting (by rw [hmain]; rfl)
    exact ⟨h.shaped, fun _ => hcnx, nofun⟩
  | @freeBuffer i hmain =>
    refine ⟨h.shaped, h.cnx, fun hsome => ?_⟩
    have hadopting : (if i = buffer0 then MainPc.freeBuffer buffer1 else .done).adopting.isSome = true := hsome
    split at hadopting
    · cases hadopting
    · cases hadopting
  | cameraCheck | cameraWait | capture => exact ⟨h.shaped, h.cnx, h.adopting⟩
  | @net k e hk hready =>
    have hkept := Net.next_kept (w.net k) w.ctx k e
    constructor
    · intro j
      show (Function.update w.net k ((w.net k).next w.ctx k e).2 j).Shaped
      rcases eq_or_ne j k with rfl | hne
      · rw [Function.update_self]
        exact Net.next_shaped hready (h.shaped j) j
      · rw [Function.update_of_ne hne]
        exact h.shaped j
    · simpa only [hkept.cnx, hkept.length] using h.cnx
    · simpa only [hkept.cnx] using h.adopting

theorem init_lively (maxFrames : Nat) : Lively (World.init maxFrames) := ⟨fun _ => .inl rfl, nofun, nofun⟩

/-! ## The next use of the connection -/

/-- The `k`-th network thread can go on, by itself, to a use of connection `c`. -/
inductive Comes (k : Nat) (c : Cnx) : State → Net → Prop where
  | now {s : State} {n : Net} (e : NetStep) (hready : n.Ready s e) (huse : .connection c ∈ n.uses e) : Comes k c s n
  | later {s : State} {n : Net} (e : NetStep) (hready : n.Ready s e)
    (h : Comes k c (n.next s k e).1 (n.next s k e).2) : Comes k c s n

section Next

variable {k : Nat} {c : Cnx} {s : State} {n : Net}

theorem comes_look (hs : s.cnx = some c) (hcall : n.call = .nothing) (hpc : n.pc.calls = true) : Comes k c s n := by
  have hload : (Call.load s.cnx) = .cnx c := by rw [hs]; rfl
  refine .later .load ⟨.inl hpc, hcall, by rw [hs]; rfl⟩ (.now .look ⟨hpc, ?_⟩ ?_)
  · show (Call.load s.cnx).loaded = true
    rw [hload]
    rfl
  · show Obj.connection c ∈ (Call.load s.cnx).pointers.map .connection
    rw [hload]
    exact List.mem_singleton.2 rfl

/-- At a place with calls the thread ends the call it is in and looks at the connection. -/
theorem comes_calls (h : n.Shaped) (hs : s.cnx = some c) (hpc : n.pc.calls = true) : Comes k c s n := by
  rcases h with hcall | ⟨hloaded, -⟩ | ⟨hsending, -⟩
  · exact comes_look hs hcall hpc
  · exact .later .look ⟨hpc, hloaded⟩ (comes_look hs rfl hpc)
  · exact .later (.sendDone false) ⟨hpc, hsending⟩ (comes_look hs rfl hpc)

theorem comes_finish (hs : s.cnx = some c) : Comes k c s n.behindLoop := comes_look hs rfl rfl

theorem comes_state (h : n.Shaped) (hs : s.cnx = some c) (hpc : n.pc = .state) : Comes k c s n := by
  have hleave : ∀ {m : Net}, m.pc = .state → m.call.loaded = true → Comes k c s m :=
    fun hm hloaded => .later (.state true) ⟨hm, hloaded⟩ (comes_finish hs)
  rcases h with hcall | ⟨hloaded, -⟩ | ⟨-, hat | hat | hat⟩
  · refine .later .load ⟨.inr hpc, hcall, by rw [hs]; rfl⟩ (hleave hpc ?_)
    show (Call.load s.cnx).loaded = true
    rw [hs]
    rfl
  · exact hleave hpc hloaded
  · rw [hpc] at hat
    cases hat
  · cases hpc.symm.trans hat
  · cases hpc.symm.trans hat

theorem comes_head (hcall : n.call = .nothing) (hs : s.cnx = some c) (hpc : n.pc = .head) : Comes k c s n := by
  refine .later .check hpc ?_
  show Comes k c (s.setNetwork k s.atCheck) (if s.isSending then { n with pc := .state } else n.behindLoop)
  split
  · exact comes_state (.inl hcall) hs rfl
  · exact comes_finish hs

theorem comes_roundEnd (hcall : n.call = .nothing) (hs : s.cnx = some c) (s' : State) (sent : Bool) :
    Comes k c s (n.roundEnd s' sent) := by
  unfold Net.roundEnd
  split
  · exact comes_finish hs
  · exact comes_head hcall hs rfl

theorem comes_sent (hcall : n.call = .nothing) (hs : s.cnx = some c) (hpc : n.pc = .sent) : Comes k c s n := by
  refine .later .sent hpc ?_
  show Comes k c (s.round k true) ({ n with curPath := n.sendPath, sendPath := none }.roundEnd s true)
  apply comes_roundEnd
  · exact hcall
  · exact hs

/-- With a frame the thread gives the connection to `send_with_pacing`, or is in that call. -/
theorem comes_sending (h : n.Shaped) (hs : s.cnx = some c) (hpc : n.pc = .length ∨ n.pc = .piece) :
    Comes k c s n := by
  have hrun : n.pc ≠ .returned := by
    rintro hat
    rcases hpc with hpc | hpc
    · cases hpc.symm.trans hat
    · cases hpc.symm.trans hat
  rcases h with hcall | ⟨-, hat | hat⟩ | ⟨hsending, -⟩
  · have hsend : Call.sendOn s.cnx (n.passes false) = .send c (n.passes false) := by rw [hs]; rfl
    refine .later (.send false) ⟨.inr hpc, hcall, by rw [hs]; rfl, fun h => absurd h Bool.false_ne_true⟩
      (.now .pace ⟨hrun, ?_⟩ ?_)
    · show (Call.sendOn s.cnx (n.passes false)).sending = true
      rw [hsend]
      rfl
    · show Obj.connection c ∈ (Call.sendOn s.cnx (n.passes false)).pointers.map .connection
      rw [hsend]
      exact List.mem_cons_self
  · rcases hpc with hpc | hpc
    · rw [hpc] at hat
      cases hat
    · rw [hpc] at hat
      cases hat
  · rcases hpc with hpc | hpc
    · cases hpc.symm.trans hat
    · cases hpc.symm.trans hat
  · rcases hpc with hpc | hpc
    · exact .later (.length false) ⟨hpc, hsending⟩ (comes_finish hs)
    · exact .later (.piece false) ⟨hpc, hsending⟩ (comes_sent rfl hs rfl)

/-- Wherever it is, a thread that has not returned comes to a use of `ctx->cnx`. -/
theorem comes_running (h : n.Shaped) (hs : s.cnx = some c) (hrun : n.pc ≠ .returned) : Comes k c s n := by
  cases hpc : n.pc with
  | returned => exact absurd hpc hrun
  | prologue | round | idle | finish => exact comes_calls h hs (by rw [hpc]; rfl)
  | state => exact comes_state h hs hpc
  | head => exact comes_head (h.nothing hpc rfl) hs hpc
  | sent => exact comes_sent (h.nothing hpc rfl) hs hpc
  | length => exact comes_sending h hs (.inl hpc)
  | piece => exact comes_sending h hs (.inr hpc)
  | payload => exact .later (.payload false) hpc (comes_sent (h.nothing hpc rfl) hs rfl)
  | created =>
    have hstart : (s.start k).cnx = some c := (KeptBy.start s k).cnx.trans hs
    refine .later .start hpc (comes_look hstart (h.nothing hpc rfl) ?_)
    show (if s.cnx.isSome then NetPc.prologue else .returned).calls = true
    rw [hs]
    rfl

end Next

/-- What a thread can come to by itself is a run of the world. -/
theorem Comes.run {k : Nat} {c : Cnx} {s : State} {n : Net} (h : Comes k c s n) : ∀ w : World, w.ctx = s →
    w.net k = n → k < w.ctx.networks.length → w.deleted c = true →
      ∃ ls, (Lts.run World.step w ls).isSome = true ∧ ¬ Lts.Meets World.step NoUse w ls := by
  induction h with
  | now e hready huse =>
    rintro w rfl rfl hk hdel
    have hstep : (w.step (.net k e)).isSome = true := by
      simp only [World.step, if_pos (And.intro hk hready)]
      rfl
    refine ⟨[.net k e], ?_, ?_⟩
    · obtain ⟨w', hw'⟩ := Option.isSome_iff_exists.1 hstep
      rw [Lts.run_cons, hw']
      rfl
    · rintro ⟨huses, -⟩
      have hkept : w.deleted c = false := huses hstep _ huse
      rw [hdel] at hkept
      cases hkept
  -- a step of the thread on its way; the released connection stays released
  | later e hready _ ih =>
    rintro w rfl rfl hk hdel
    have hstep : w.step (.net k e) = some { w with
        ctx := ((w.net k).next w.ctx k e).1
        net := Function.update w.net k ((w.net k).next w.ctx k e).2 } := if_pos ⟨hk, hready⟩
    obtain ⟨ls, hls, huse⟩ := ih { w with
        ctx := ((w.net k).next w.ctx k e).1
        net := Function.update w.net k ((w.net k).next w.ctx k e).2 } rfl (Function.update_self ..)
      ((Net.next_kept (w.net k) w.ctx k e).length.symm ▸ hk) hdel
    refine ⟨.net k e :: ls, ?_, ?_⟩
    · rw [Lts.run_cons, hstep]
      exact hls
    · rintro ⟨-, hrest⟩
      exact huse (hrest _ hstep)

/-! ## Releases that come too early -/

/-- The release finds a thread that is not done: a network thread that has not returned, with what is deleted in
`ctx->cnx`, or a camera thread behind its loop's condition. -/
def Premature (w : World) : Label → Prop
  | .delete c => w.ctx.cnx = some c ∧ ∃ k < w.ctx.networks.length, (w.net k).pc ≠ .returned
  | .freeQuic => ∃ k < w.ctx.networks.length, (w.net k).pc ≠ .returned
  | .destroyCamera => ∃ k < w.ctx.cameras.length, w.armed k = true
  | _ => False

/-- A release is clear, or too early, or deletes a connection that a network thread has in its locals only. -/
theorem unclear_cases {w : World} {l : Label} (h : ¬ ReleasesClear w l) : Premature w l ∨
    ∃ c k, l = .delete c ∧ k < w.ctx.networks.length ∧ (w.net k).pc ≠ .returned ∧ c ∈ (w.net k).pointers := by
  cases l with
  | event | answer | createCamera | createNetwork | giveUp | loopReturns | checkSending | joinCamera | joinNetwork
  | freeBuffer | cameraCheck | cameraWait | capture | net => exact absurd trivial h
  | delete c =>
    simp only [ReleasesClear, not_forall] at h
    obtain ⟨k, hk, hpc, hheld⟩ := h
    by_cases hcnx : w.ctx.cnx = some c
    · exact .inl ⟨hcnx, k, hk, hpc⟩
    · refine .inr ⟨c, k, rfl, hk, hpc, ?_⟩
      by_contra hmem
      exact hheld ⟨hcnx, hmem⟩
  | freeQuic =>
    simp only [ReleasesClear, not_forall] at h
    obtain ⟨k, hk, hpc⟩ := h
    exact .inl ⟨k, hk, hpc⟩
  | destroyCamera =>
    simp only [ReleasesClear, not_forall, Bool.not_eq_false] at h
    obtain ⟨k, hk, harmed⟩ := h
    exact .inl ⟨k, hk, harmed⟩

/-- Behind such a release the run can go on to a use of what is released. -/
theorem premature_used {maxFrames : Nat} {ls : List Label} {w w' : World} {l : Label}
    (hrun : Lts.run World.step (World.init maxFrames) ls = some w) (hstep : w.step l = some w') (h : Premature w l) :
    ∃ ls', (Lts.run World.step (World.init maxFrames) (ls ++ l :: ls')).isSome = true ∧
      ¬ Lts.Meets World.step NoUse (World.init maxFrames) (ls ++ l :: ls') := by
  have hlively : Lively w :=
    Lts.Reachable.inv (init_lively maxFrames) (fun _ _ _ hl hs => lively_step hl hs) ⟨ls, hrun⟩
  have hafter : ∃ ls', (Lts.run World.step w' ls').isSome = true ∧ ¬ Lts.Meets World.step NoUse w' ls' := by
    -- wherever a network thread is, it comes to a use of `ctx->cnx`
    have hnet : ∀ {k : Nat} {c : Cnx}, w'.ctx = w.ctx → w'.net = w.net → k < w.ctx.networks.length →
        (w.net k).pc ≠ .returned → w.ctx.cnx = some c → w'.deleted c = true →
          ∃ ls', (Lts.run World.step w' ls').isSome = true ∧ ¬ Lts.Meets World.step NoUse w' ls' := by
      intro k c hctx hnets hk hpc hcnx hdel
      exact (comes_running (hlively.shaped k) hcnx hpc).run w' hctx (congrFun hnets k) (hctx ▸ hk) hdel
    cases World.step_changed hstep with
    | connect | told | unanswered | joined | raised | createCamera | noCamera | createNetwork | noNetwork | giveUp
    | loopReturns | checkUp | checkDown | joinCamera | joinNetwork | freeBuffer | cameraCheck | cameraWait | capture
    | net => exact h.elim
    | delete hmain hc =>
      obtain ⟨hcnx, k, hk, hpc⟩ := h
      exact hnet rfl rfl hk hpc hcnx (Function.update_self ..)
    | freeQuic hmain =>
      obtain ⟨k, hk, hpc⟩ := h
      obtain ⟨c, hcnx⟩ := Option.isSome_iff_exists.1 (hlively.cnx (by omega))
      exact hnet rfl rfl hk hpc hcnx rfl
    | destroyCamera hmain =>
      obtain ⟨k, -, hk⟩ := h
      -- an armed camera thread captures at once
      have hcapture : World.step { w with cameraDestroyed := true, main := .freeBuffer buffer0 } (.capture k buffer0) =
          some { w with
            cameraDestroyed := true
            main := .freeBuffer buffer0
            armed := Function.update w.armed k false } := if_pos hk
      refine ⟨[.capture k buffer0], ?_, ?_⟩
      · rw [Lts.run_cons, hcapture]
        rfl
      · rintro ⟨huses, -⟩
        have hkept : true = false := huses (by rw [hcapture]; rfl) .camera List.mem_cons_self
        cases hkept
  obtain ⟨ls', hls', huse⟩ := hafter
  refine ⟨ls', ?_, ?_⟩
  · rw [Lts.run_append, hrun, Option.bind_some, Lts.run_cons, hstep]
    exact hls'
  · intro hmeets
    exact huse ((Lts.meets_append ls hmeets hrun).2 w' hstep)

end Mquic.Server.Teardown
