/-
What the threads use of what `run_server` and picoquic release: connections with their paths, the camera, the frame
buffers. Nothing waits for the threads at a release but the joins, which come after `picoquic_free` and only while
the flag is up; where each release finds the threads done with the object, none of them uses it afterwards.
-/
import Mquic.Server.Teardown

namespace Mquic.Server.Teardown

open Lifecycle

/-! ## Uses -/

/-- What is released: a connection with its paths, `cam_handle`, `frame_buffer[i]`. -/
inductive Obj where
  | connection (c : Cnx)
  | camera
  | frameBuffer (i : Fin 2)
deriving DecidableEq

def World.released (w : World) : Obj → Bool
  | .connection c => w.deleted c
  | .camera => w.cameraDestroyed
  | .frameBuffer i => w.freed i

/-- What the step of the thread uses: the pointers its calls were given, and what a piece is read from. -/
def Net.uses (n : Net) : NetStep → List Obj
  | .start | .load | .send _ | .check | .take none | .payload _ | .sent | .idled => []
  | .inspect _ => n.path.toList.map .connection
  | .pin => (n.call.pointers ++ n.path.toList).map .connection
  | .piece _ => .frameBuffer n.fbIdx :: n.call.pointers.map .connection
  | .look | .fetch | .pace | .sendDone _ | .enter | .state _ | .take (some _) | .length _ | .leave =>
    n.call.pointers.map .connection

/-- What a step of a thread uses; the main thread's steps are no uses. -/
def Label.uses (w : World) : Label → List Obj
  | .capture _ i => [.camera, .frameBuffer i]
  | .net k e => (w.net k).uses e
  | _ => []

/-- The step, if it can be taken, uses nothing that is released. -/
def NoUse (w : World) (l : Label) : Prop := (w.step l).isSome = true → ∀ obj ∈ l.uses w, w.released obj = false

instance (w : World) (l : Label) : Decidable (NoUse w l) :=
  inferInstanceAs (Decidable (_ → ∀ obj ∈ l.uses w, w.released obj = false))

/-- Each release finds the threads done with what it releases: a connection is deleted when no network thread that
still runs has it in `ctx->cnx` or in its locals, `picoquic_free` is called when no network thread runs, and
`camera_destroy` when no camera thread is behind its loop's condition. -/
def ReleasesClear (w : World) : Label → Prop
  | .delete c => ∀ k < w.ctx.networks.length, (w.net k).pc ≠ .returned →
      w.ctx.cnx ≠ some c ∧ c ∉ (w.net k).pointers
  | .freeQuic => ∀ k < w.ctx.networks.length, (w.net k).pc = .returned
  | .destroyCamera => ∀ k < w.ctx.cameras.length, w.armed k = false
  | _ => True

instance (w : World) : ∀ l, Decidable (ReleasesClear w l)
  | .delete c => inferInstanceAs (Decidable (∀ k < w.ctx.networks.length, (w.net k).pc ≠ .returned →
      w.ctx.cnx ≠ some c ∧ c ∉ (w.net k).pointers))
  | .freeQuic => inferInstanceAs (Decidable (∀ k < w.ctx.networks.length, (w.net k).pc = .returned))
  | .destroyCamera => inferInstanceAs (Decidable (∀ k < w.ctx.cameras.length, w.armed k = false))
  | .event _ _ | .answer | .createCamera | .createNetwork | .giveUp | .loopReturns | .checkSending | .joinCamera
  | .joinNetwork | .freeBuffer | .cameraCheck _ | .cameraWait _ | .capture _ _ | .net _ _ => isTrue trivial

/-! ## Pointers of a network thread -/

theorem Net.mem_pointers {n : Net} {c : Cnx} : c ∈ n.pointers ↔
    c ∈ n.call.pointers ∨ n.path = some c ∨ n.curPath = some c ∨ n.sendPath = some c := by
  simp only [Net.pointers, List.mem_append, Option.mem_toList]

theorem Call.mem_load {cnx : Option Cnx} {c : Cnx} (h : c ∈ (Call.load cnx).pointers) : cnx = some c := by
  cases cnx with
  | none => cases h
  | some c' => rw [List.mem_singleton.1 h]

theorem Call.mem_sendOn {cnx path : Option Cnx} {c : Cnx} (h : c ∈ (Call.sendOn cnx path).pointers) :
    cnx = some c ∨ path = some c := by
  cases cnx with
  | none => cases h
  | some c' =>
    rcases List.mem_cons.1 h with rfl | h
    · exact .inl rfl
    · exact .inr (Option.mem_toList.1 h)

section Locals

variable (n : Net) {n' : Net} {c : Cnx}

theorem Net.call_mem (h : c ∈ n.call.pointers) : c ∈ n.pointers := Net.mem_pointers.2 (.inl h)

theorem Net.path_mem (h : n.path = some c) : c ∈ n.pointers := Net.mem_pointers.2 (.inr (.inl h))

theorem Net.cur_mem (h : n.curPath = some c) : c ∈ n.pointers := Net.mem_pointers.2 (.inr (.inr (.inl h)))

theorem Net.send_mem (h : n.sendPath = some c) : c ∈ n.pointers := Net.mem_pointers.2 (.inr (.inr (.inr h)))

theorem Net.from_mem (h : n.call.from = some c) : c ∈ n.pointers := by
  apply n.call_mem
  revert h
  cases n.call with
  | nothing | send => nofun
  | cnx c' => exact fun h => List.mem_singleton.2 (Option.some.inj h).symm

theorem Net.pointers_mono {n : Net} (h : c ∈ n'.pointers) (hcall : c ∈ n'.call.pointers → c ∈ n.pointers)
    (hpath : n'.path = some c → c ∈ n.pointers) (hcur : n'.curPath = some c → c ∈ n.pointers)
    (hsend : n'.sendPath = some c → c ∈ n.pointers) : c ∈ n.pointers := by
  rcases Net.mem_pointers.1 h with h | h | h | h
  · exact hcall h
  · exact hpath h
  · exact hcur h
  · exact hsend h

end Locals

theorem Net.passes_mem {n : Net} {keepAlive : Bool} {c : Cnx} (h : n.passes keepAlive = some c) :
    c ∈ n.pointers := by
  unfold Net.passes at h
  split at h
  · exact n.send_mem h
  · exact n.send_mem h
  · split at h
    · exact n.cur_mem h
    · exact n.path_mem h

/-- Behind the loop the thread holds nothing. -/
theorem Net.behindLoop_pointers (n : Net) : n.behindLoop.pointers = [] := rfl

theorem Net.roundEnd_pointers {n : Net} {s : State} {sent : Bool} {c : Cnx}
    (h : c ∈ (n.roundEnd s sent).pointers) : c ∈ n.pointers := by
  unfold Net.roundEnd at h
  split at h
  · rw [Net.behindLoop_pointers] at h
    cases h
  · exact Net.pointers_mono h n.call_mem nofun n.cur_mem n.send_mem

/-- A step gives the thread no pointer but `ctx->cnx`. -/
theorem Net.next_pointers {n : Net} {s : State} {k : Nat} {e : NetStep} {c : Cnx}
    (h : c ∈ (n.next s k e).2.pointers) : s.cnx = some c ∨ c ∈ n.pointers := by
  cases e with
  | start | pace | payload => exact .inr h
  | load =>
    rcases Net.mem_pointers.1 h with h | h
    · exact .inl (Call.mem_load h)
    · exact .inr (Net.mem_pointers.2 (.inr h))
  | send keepAlive =>
    rcases Net.mem_pointers.1 h with h | h
    · exact (Call.mem_sendOn h).imp_right Net.passes_mem
    · exact .inr (Net.mem_pointers.2 (.inr h))
  | look => exact .inr (Net.pointers_mono h nofun n.path_mem n.cur_mem n.send_mem)
  | fetch => exact .inr (Net.pointers_mono h nofun n.from_mem n.cur_mem n.send_mem)
  | inspect verified =>
    cases verified with
    | true => exact .inr (Net.pointers_mono h n.call_mem n.path_mem n.cur_mem n.send_mem)
    | false => exact .inr (Net.pointers_mono h n.call_mem nofun n.cur_mem n.send_mem)
  | sendDone opened =>
    cases opened with
    | true => exact .inr (Net.pointers_mono h nofun n.path_mem n.cur_mem n.send_mem)
    | false => exact .inr (Net.pointers_mono h nofun nofun n.cur_mem n.send_mem)
  | pin | leave => exact .inr (Net.pointers_mono h nofun nofun n.cur_mem n.send_mem)
  -- `cur_path` takes what the fetch has found
  | enter => exact .inr (Net.pointers_mono h nofun nofun n.from_mem n.send_mem)
  | check =>
    have hcheck : c ∈ (if s.isSending then { n with pc := .state } else n.behindLoop).pointers := h
    split at hcheck
    · exact .inr hcheck
    · rw [Net.behindLoop_pointers] at hcheck
      cases hcheck
  | state disconnecting =>
    cases disconnecting with
    | true => cases h
    | false => exact .inr (Net.pointers_mono h nofun n.path_mem n.cur_mem n.send_mem)
  | take frame =>
    cases frame with
    | none => exact .inr (Net.pointers_mono h n.call_mem nofun n.cur_mem n.send_mem)
    | some i => exact .inr (Net.pointers_mono h nofun nofun n.cur_mem n.from_mem)
  | length accepted =>
    cases accepted with
    | true => exact .inr (Net.pointers_mono h nofun n.path_mem n.cur_mem n.send_mem)
    | false => cases h
  | piece accepted =>
    cases accepted with
    | true => exact .inr (Net.pointers_mono h nofun n.path_mem n.cur_mem n.send_mem)
    | false => exact .inr (Net.pointers_mono h nofun n.path_mem n.cur_mem n.send_mem)
  | sent =>
    have hend := Net.roundEnd_pointers h
    exact .inr (Net.pointers_mono hend n.call_mem n.path_mem n.send_mem nofun)
  | idled => exact .inr (Net.roundEnd_pointers h)

/-- A thread that takes a step has not returned. -/
theorem Net.ready_running {n : Net} {s : State} {e : NetStep} (h : n.Ready s e) : n.pc ≠ .returned := by
  intro hpc
  cases e with
  | start | check | payload | sent =>
    have hat := hpc.symm.trans h
    cases hat
  | look | fetch | inspect | sendDone | pin =>
    obtain ⟨hcalls, -⟩ := h
    rw [hpc] at hcalls
    cases hcalls
  | enter | state | length | piece | idled | leave =>
    have hat := hpc.symm.trans h.1
    cases hat
  | pace => exact h.1 hpc
  | load =>
    rcases h.1 with hcalls | hat
    · rw [hpc] at hcalls
      cases hcalls
    · rw [hpc] at hat
      cases hat
  | send keepAlive =>
    rcases h.1 with hcalls | hat | hat
    · rw [hpc] at hcalls
      cases hcalls
    · rw [hpc] at hat
      cases hat
    · rw [hpc] at hat
      cases hat
  | take frame =>
    cases frame with
    | none =>
      have hat := hpc.symm.trans h.1
      cases hat
    | some i =>
      have hat := hpc.symm.trans h.1
      cases hat

/-- A network thread uses connections it holds, and frame buffers. -/
theorem Net.uses_cases {n : Net} {e : NetStep} {obj : Obj} (h : obj ∈ n.uses e) :
    (∃ c ∈ n.pointers, obj = .connection c) ∨ ∃ i, obj = .frameBuffer i := by
  have hheld : ∀ {l : List Cnx}, (∀ c ∈ l, c ∈ n.pointers) → obj ∈ l.map .connection →
      ∃ c ∈ n.pointers, obj = .connection c := by
    intro l hl hmem
    obtain ⟨c, hc, rfl⟩ := List.mem_map.1 hmem
    exact ⟨c, hl c hc, rfl⟩
  cases e with
  | start | load | send | check | payload | sent | idled => cases h
  | look | fetch | pace | sendDone | enter | state | length | leave => exact .inl (hheld (fun _ => n.call_mem) h)
  | inspect => exact .inl (hheld (fun _ hc => n.path_mem (Option.mem_toList.1 hc)) h)
  | pin =>
    refine .inl (hheld (fun c hc => ?_) h)
    rcases List.mem_append.1 hc with hc | hc
    · exact n.call_mem hc
    · exact n.path_mem (Option.mem_toList.1 hc)
  | take frame =>
    cases frame with
    | none => cases h
    | some i => exact .inl (hheld (fun _ => n.call_mem) h)
  | piece =>
    rcases List.mem_cons.1 h with rfl | h
    · exact .inr ⟨n.fbIdx, rfl⟩
    · exact .inl (hheld (fun _ => n.call_mem) h)

/-! ## The invariant -/

/-- How far the teardown is: in picoquic, behind `picoquic_free`, behind the look at the flag, behind
`camera_destroy`. -/
def MainPc.stage : MainPc → Nat
  | .loop | .adopted _ _ | .starting _ _ | .pairing _ _ | .failing | .freeing => 0
  | .check => 1
  | .joinCamera | .joinNetwork | .destroy => 2
  | .freeBuffer _ | .done => 3

/-- The connection whose CONNECT the callback is at. -/
def MainPc.adopting : MainPc → Option Cnx
  | .adopted c _ | .starting c _ | .pairing c _ => some c
  | _ => none

/-- No thread that runs holds anything that is deleted, and none runs that could come to something released. -/
structure Safe (w : World) : Prop where
  agrees : Agrees w
  held : ∀ k < w.ctx.networks.length, (w.net k).pc ≠ .returned → ∀ c,
    w.ctx.cnx = some c ∨ c ∈ (w.net k).pointers → w.deleted c = false
  adopting : ∀ c, w.main.adopting = some c → w.ctx.cnx = some c ∧ w.deleted c = false
  returned : 1 ≤ w.main.stage → ∀ k < w.ctx.networks.length, (w.net k).pc = .returned
  down : 2 ≤ w.main.stage → w.ctx.isSending = false
  disarmed : 3 ≤ w.main.stage → ∀ k, w.armed k = false
  kept : w.main.stage < 3 → w.cameraDestroyed = false ∧ ∀ i, w.freed i = false

theorem init_safe (maxFrames : Nat) : Safe (World.init maxFrames) where
  agrees := ⟨nofun, fun _ _ => rfl, nofun⟩
  held := nofun
  adopting := nofun
  returned := nofun
  down := nofun
  disarmed := fun _ _ => rfl
  kept := fun _ => ⟨rfl, fun _ => rfl⟩

/-- A safe step uses nothing that is released. -/
theorem Safe.noUse {w : World} (h : Safe w) (l : Label) : NoUse w l := by
  intro hsome obj hobj
  obtain ⟨w', hstep⟩ := Option.isSome_iff_exists.1 hsome
  cases World.step_changed hstep with
  | connect | told | unanswered | joined | raised | createCamera | noCamera | createNetwork | noNetwork | giveUp
  | delete | loopReturns | freeQuic | checkUp | checkDown | joinCamera | joinNetwork | destroyCamera | freeBuffer
  | cameraCheck | cameraWait => cases hobj
  | @capture k i hk =>
    have hstage : w.main.stage < 3 := by
      by_contra hge
      rw [h.disarmed (by omega) k] at hk
      cases hk
    obtain ⟨hcam, hfreed⟩ := h.kept hstage
    rcases List.mem_pair.1 hobj with rfl | rfl
    · exact hcam
    · exact hfreed i
  | @net k e hk hready =>
    have hrun := Net.ready_running hready
    have hstage : w.main.stage < 3 := by
      by_contra hge
      exact hrun (h.returned (by omega) k hk)
    rcases Net.uses_cases hobj with ⟨c, hc, rfl⟩ | ⟨i, rfl⟩
    · exact h.held k hk hrun c (.inr hc)
    · exact (h.kept hstage).2 i

/-- The part of the invariant that is about the main thread and what is released, when neither moves. -/
theorem Safe.congr {w w' : World} (h : Safe w) (hagrees : Agrees w') (hcnx : w'.ctx.cnx = w.ctx.cnx)
    (hlen : w'.ctx.networks.length = w.ctx.networks.length) (hmain : w'.main = w.main)
    (hdel : w'.deleted = w.deleted) (hcam : w'.cameraDestroyed = w.cameraDestroyed) (hfreed : w'.freed = w.freed)
    (hdown : w.ctx.isSending = false → w'.ctx.isSending = false)
    (hnet : ∀ k < w.ctx.networks.length, (w'.net k).pc ≠ .returned → (w.net k).pc ≠ .returned ∧
      ∀ c ∈ (w'.net k).pointers, w.ctx.cnx = some c ∨ c ∈ (w.net k).pointers)
    (harmed : w.ctx.isSending = false → ∀ k, w'.armed k = true → w.armed k = true) : Safe w' where
  agrees := hagrees
  held := by
    intro k hk hrun c hc
    rw [hlen] at hk
    obtain ⟨hrun, hpointers⟩ := hnet k hk hrun
    rw [hdel]
    rw [hcnx] at hc
    rcases hc with hc | hc
    · exact h.held k hk hrun c (.inl hc)
    · exact h.held k hk hrun c (hpointers c hc)
  adopting := by
    rw [hmain, hcnx, hdel]
    exact h.adopting
  returned := by
    intro hstage k hk
    rw [hmain] at hstage
    rw [hlen] at hk
    by_contra hrun
    exact (hnet k hk hrun).1 (h.returned hstage k hk)
  down := by
    rw [hmain]
    exact fun hstage => hdown (h.down hstage)
  disarmed := by
    intro hstage k
    rw [hmain] at hstage
    by_contra hk
    rw [Bool.not_eq_false] at hk
    have hbefore := harmed (h.down (by omega)) k hk
    rw [h.disarmed hstage k] at hbefore
    cases hbefore
  kept := by
    rw [hmain, hcam, hfreed]
    exact h.kept

/-- A step of the main thread that leaves the network threads and what is deleted as they are, and stays in
picoquic. -/
theorem Safe.inCallback {w w' : World} (h : Safe w) (hagrees : Agrees w') (hcnx : w'.ctx.cnx = w.ctx.cnx)
    (hnetworks : w'.ctx.networks = w.ctx.networks) (hnet : w'.net = w.net) (hdel : w'.deleted = w.deleted)
    (hcam : w'.cameraDestroyed = w.cameraDestroyed) (hfreed : w'.freed = w.freed) (hfrom : w.main.stage = 0)
    (hto : w'.main.stage = 0) (hadopting : ∀ c, w'.main.adopting = some c → w.main.adopting = some c) : Safe w' where
  agrees := hagrees
  held := by
    rw [hnetworks, hnet, hcnx, hdel]
    exact h.held
  adopting := by
    rw [hcnx, hdel]
    exact fun c hc => h.adopting c (hadopting c hc)
  returned := by
    rw [hto]
    nofun
  down := by
    rw [hto]
    nofun
  disarmed := by
    rw [hto]
    nofun
  kept := by
    rw [hcam, hfreed]
    exact fun _ => h.kept (by omega)

/-- `camera_path_callback` creates the network thread, on the connection it is at. -/
theorem Safe.createNetwork {w : World} {c : Cnx} {r : Connect} (h : Safe w) (hmain : w.main = .pairing c r)
    (hagrees : Agrees { w with ctx := w.ctx.addNetwork c, main := .loop }) :
    Safe { w with ctx := w.ctx.addNetwork c, main := .loop } where
  agrees := hagrees
  held := by
    intro k hk hrun c' hc'
    obtain ⟨hcnx, hlive⟩ := h.adopting c (by rw [hmain]; rfl)
    rcases hc' with hc' | hc'
    · have hsame : some c = some c' := hcnx.symm.trans hc'
      cases hsame
      exact hlive
    · rcases Nat.lt_or_ge k w.ctx.networks.length with hlt | hge
      · exact h.held k hlt hrun c' (.inr hc')
      · have hnew : c' ∈ (w.net k).pointers := hc'
        rw [h.agrees.fresh k hge] at hnew
        cases hnew
  adopting := nofun
  returned := nofun
  down := nofun
  disarmed := nofun
  kept := fun _ => h.kept (by rw [hmain]; exact Nat.zero_lt_succ 2)

/-- picoquic deletes a connection that no network thread has. -/
theorem Safe.delete {w : World} {c : Cnx} (h : Safe w) (hmain : w.main.inPicoquic = true)
    (hclear : ReleasesClear w (.delete c)) (hagrees : Agrees { w with deleted := Function.update w.deleted c true }) :
    Safe { w with deleted := Function.update w.deleted c true } where
  agrees := hagrees
  held := by
    intro k hk hrun c' hc'
    obtain ⟨hcnx, hpointers⟩ := hclear k hk hrun
    have hne : c' ≠ c := by
      rintro rfl
      rcases hc' with hc' | hc'
      · exact hcnx hc'
      · exact hpointers hc'
    show Function.update w.deleted c true c' = false
    rw [Function.update_of_ne hne]
    exact h.held k hk hrun c' hc'
  adopting := by
    intro c' hc'
    have hnone : w.main.adopting = none := by
      cases hm : w.main with
      | loop | freeing => rfl
      | adopted | starting | pairing | failing | check | joinCamera | joinNetwork | destroy | freeBuffer | done =>
        rw [hm] at hmain
        cases hmain
    cases hnone.symm.trans hc'
  returned := h.returned
  down := h.down
  disarmed := h.disarmed
  kept := h.kept

/-- Where each release finds the threads done, every step is safe. -/
theorem Safe.step {w w' : World} {l : Label} (h : Safe w) (hclear : ReleasesClear w l) (hstep : w.step l = some w') :
    Safe w' := by
  have hagrees := agrees_step h.agrees hstep
  cases World.step_changed hstep with
  | @connect c r hmain hlive hcb =>
    refine ⟨hagrees, fun k hk hrun c' hc' => ?_, fun c' hc' => ?_, nofun, nofun, nofun, fun _ => h.kept ?_⟩
    · rcases hc' with hc' | hc'
      · cases hc'
        exact hlive
      · exact h.held k hk hrun c' (.inr hc')
    · cases hc'
      exact ⟨rfl, hlive⟩
    · rw [hmain]
      decide
  -- a callback may lower the flag, and starts or ends no thread
  | @told c ev s hno hmain hd =>
    obtain ⟨hcnx, hcam, hnet, hdown⟩ := told_kept hno hd
    exact h.congr hagrees hcnx (congrArg List.length hnet) rfl rfl rfl rfl hdown
      (fun _ _ hrun => ⟨hrun, fun _ => .inr⟩) (fun _ _ => id)
  | unanswered hmain | joined hmain | noCamera hmain | noNetwork hmain | giveUp hmain | loopReturns hmain =>
    exact h.inCallback hagrees rfl rfl rfl rfl rfl rfl (by rw [hmain]; rfl) rfl nofun
  | raised hmain | createCamera hmain =>
    exact h.inCallback hagrees rfl rfl rfl rfl rfl rfl (by rw [hmain]; rfl) rfl (by rw [hmain]; exact fun _ => id)
  | createNetwork hmain => exact h.createNetwork hmain hagrees
  | delete hmain hc => exact h.delete hmain hclear hagrees
  -- the condition: no network thread runs, so that none can hold a connection
  | freeQuic hmain =>
    have hstage : w.main.stage = 0 := by rw [hmain]; rfl
    exact ⟨hagrees, fun k hk hrun => absurd (hclear k hk) hrun, nofun, fun _ => hclear, nofun, nofun,
      fun _ => h.kept (by omega)⟩
  -- the flag is lowered here, or was down before
  | checkUp hmain =>
    have hstage : w.main.stage = 1 := by rw [hmain]; rfl
    exact ⟨hagrees, h.held, nofun, fun _ => h.returned (by omega), fun _ => rfl, nofun, fun _ => h.kept (by omega)⟩
  | checkDown hmain hdown =>
    have hstage : w.main.stage = 1 := by rw [hmain]; rfl
    exact ⟨hagrees, h.held, nofun, fun _ => h.returned (by omega), fun _ => hdown, nofun, fun _ => h.kept (by omega)⟩
  | joinCamera hmain | joinNetwork hmain =>
    have hstage : w.main.stage = 2 := by rw [hmain]; rfl
    exact ⟨hagrees, h.held, nofun, fun _ => h.returned (by omega), fun _ => h.down (by omega), nofun,
      fun _ => h.kept (by omega)⟩
  -- an armed camera thread would be one that has not left its loop
  | destroyCamera hmain =>
    have hstage : w.main.stage = 2 := by rw [hmain]; rfl
    refine ⟨hagrees, h.held, nofun, fun _ => h.returned (by omega), fun _ => h.down (by omega), fun _ k => ?_, nofun⟩
    by_contra hk
    rw [Bool.not_eq_false] at hk
    have hborn := h.agrees.cameras k hk
    rw [hclear k (List.getElem?_eq_some_iff.1 hborn).1] at hk
    cases hk
  | @freeBuffer i hmain =>
    have hstage : w.main.stage = 3 := by rw [hmain]; rfl
    have hto : (if i = buffer0 then MainPc.freeBuffer buffer1 else .done).stage = 3 := by split <;> rfl
    refine ⟨hagrees, h.held, fun c hc => ?_, fun _ => h.returned (by omega), fun _ => h.down (by omega),
      fun _ => h.disarmed (by omega), fun hlt => ?_⟩
    · have hadopting : (if i = buffer0 then MainPc.freeBuffer buffer1 else .done).adopting = some c := hc
      split at hadopting
      · cases hadopting
      · cases hadopting
    · exact absurd (hto.symm.trans_lt hlt) (lt_irrefl 3)
  | @cameraCheck k hk =>
    refine h.congr hagrees rfl rfl rfl rfl rfl rfl id (fun _ _ hrun => ⟨hrun, fun _ => .inr⟩) (fun hdown j hj => ?_)
    have harmed : Function.update w.armed k w.ctx.isSending j = true := hj
    rw [hdown] at harmed
    exact armed_of_update harmed
  | cameraWait hk | capture hk =>
    exact h.congr hagrees rfl rfl rfl rfl rfl rfl id (fun _ _ hrun => ⟨hrun, fun _ => .inr⟩)
      (fun _ _ => armed_of_update)
  | @net k e hk hready =>
    have hkept := Net.next_kept (w.net k) w.ctx k e
    refine h.congr hagrees hkept.cnx hkept.length rfl rfl rfl rfl hkept.isSending (fun j hj hrun => ?_)
      (fun _ _ => id)
    have hrun' : (Function.update w.net k ((w.net k).next w.ctx k e).2 j).pc ≠ .returned := hrun
    show (w.net j).pc ≠ .returned ∧
      ∀ c ∈ (Function.update w.net k ((w.net k).next w.ctx k e).2 j).pointers, _
    -- the thread that steps adds `ctx->cnx` to its pointers at most
    rcases eq_or_ne j k with rfl | hne
    · rw [Function.update_self]
      exact ⟨Net.ready_running hready, fun _ => Net.next_pointers⟩
    · rw [Function.update_of_ne hne] at hrun' ⊢
      exact ⟨hrun', fun _ => .inr⟩

/-! ## Runs -/

/-- In every run in which each release finds the threads done with what it releases, no step of a thread uses
anything that is released. -/
theorem no_use_after_release (maxFrames : Nat) {ls : List Label}
    (hclear : Lts.Meets World.step ReleasesClear (World.init maxFrames) ls) :
    Lts.Meets World.step NoUse (World.init maxFrames) ls := by
  apply Lts.meets_of_inv (I := Safe) _ _ ls _ (init_safe maxFrames) hclear
  · intro w l w' h hc hstep
    exact h.step hc hstep
  · intro w l h _
    exact h.noUse l

/-- The client connects on connection 0, and both threads are created or not. -/
def connected (cameraCreated networkCreated : Bool) : List Label :=
  [.event 0 (.connect ⟨0, true, cameraCreated, networkCreated⟩), .answer, .createCamera, .createNetwork]

/-- The network thread up to its loop: path 0 looked up, its stream opened and pinned. -/
def prologue : List Label :=
  [.start, .load, .look, .load, .fetch, .inspect true, .send false, .pace, .sendDone true, .load, .pin, .load,
    .enter].map (.net 0)

/-- A round that sends the frame of buffer 1. -/
def frameRound : List Label :=
  [.check, .load, .state false, .load, .look, .load, .take (some buffer1), .send false, .length true, .payload true,
    .send false, .pace, .piece true, .payload false, .sent].map (.net 0)

/-- The network thread finds the flag down, ends its streams and returns. -/
def netReturns : List Label :=
  [.check, .load, .fetch, .send false, .sendDone false, .load, .leave].map (.net 0)

/-- `run_server` behind the packet loop, with the flag down. -/
def teardown : List Label :=
  [.loopReturns, .freeQuic, .checkSending, .destroyCamera, .freeBuffer, .freeBuffer]

/-- A client that closes: the threads see the flag down and return before picoquic deletes the connection. -/
def quietEnd : List Label :=
  connected true true ++ [.cameraCheck 0, .capture 0 buffer0] ++ prologue ++ frameRound ++
    [.event 0 .close, .cameraCheck 0] ++ netReturns ++ [.delete 0] ++ teardown

theorem quietEnd_no_use : Lts.Meets World.step NoUse (World.init 10) quietEnd :=
  no_use_after_release 10 (by decide)

/-- The next round's look at the state of the connection. -/
def nextLook : List Label := [.check, .load, .state false].map (.net 0)

/-- The packet loop returns while frames are sent: `picoquic_free` comes before the flag is lowered and the threads
are joined, and the network thread goes on with the connection. -/
def freedUnderThread : List Label :=
  connected true true ++ prologue ++ frameRound ++ [.loopReturns, .freeQuic] ++ nextLook

/-- The client's application close leaves the flag up; the connection is deleted, and a round looks at it. -/
def deletedUnderThread : List Label :=
  connected true true ++ prologue ++ [.event 0 .applicationClose, .delete 0] ++ nextLook

/-- A stopped stream: the flag is down, so that nothing is joined, and the camera thread captures with the camera
destroyed. -/
def joinSkipped : List Label :=
  connected true true ++ [.cameraCheck 0, .event 0 .stopSending] ++ teardown ++ [.capture 0 buffer0]

/-- The network thread cannot be created: the flag is lowered again, but the camera thread has entered its loop. -/
def cameraLost : List Label :=
  (connected true false).take 3 ++ [.cameraCheck 0, .createNetwork, .giveUp] ++ teardown ++ [.capture 0 buffer0]

/-- Each of these runs uses what is released. -/
theorem released_used :
    (∀ ls ∈ [freedUnderThread, deletedUnderThread, joinSkipped, cameraLost],
      (Lts.run World.step (World.init 10) ls).isSome = true ∧ ¬ Lts.Meets World.step NoUse (World.init 10) ls) ∧
    ¬ ∀ maxFrames ls, Lts.Meets World.step NoUse (World.init maxFrames) ls := by
  have hused : ∀ ls ∈ [freedUnderThread, deletedUnderThread, joinSkipped, cameraLost],
      (Lts.run World.step (World.init 10) ls).isSome = true ∧ ¬ Lts.Meets World.step NoUse (World.init 10) ls := by
    decide
  constructor
  · exact hused
  · intro hall
    exact (hused joinSkipped (by decide)).2 (hall 10 joinSkipped)

end Mquic.Server.Teardown
