/-
The hand-off of frames from the camera thread to the network thread (quic_server.c): two buffers whose
indices and flags are guarded by `fb_lock`, while the buffers themselves are written and read outside it.
A frame is sent as it was captured in every run whose discards find the network thread off the buffer the
camera is about to write.
-/
import Mquic.Server.Wire
import Mquic.Lib.Lts

namespace Mquic.Server.Handoff

/-! ## State -/

/-- `MAX_BACKLOG_DELAY_US`. -/
def maxBacklogDelayUs : Nat := 200000

/-- What OpenCV gives `camera_capture_jpeg`: a JPEG, or the step that failed. -/
inductive Shot where
  | badHandle
  | noFrame
  | notEncoded
  | jpeg (jpgBuf : List UInt8)
deriving DecidableEq

/-- `camera_capture_jpeg`: its result and the buffer after it, which only a JPEG that fits changes. -/
def cameraCaptureJpeg (shot : Shot) (buffer : List UInt8) : Int × List UInt8 :=
  match shot with
  | .badHandle => (-1, buffer)
  | .noFrame => (-2, buffer)
  | .notEncoded => (-3, buffer)
  | .jpeg jpgBuf =>
    if jpgBuf.length > frameBufferBytes then (-4, buffer)
    else (jpgBuf.length, jpgBuf ++ buffer.drop jpgBuf.length)

/-- Where the camera thread is in its loop. At `publish` the last field is history: the bytes captured. -/
inductive CameraPc where
  | check
  | discard
  | capture
  | publish (idx : Fin 2) (jpegSize : Nat) (jpeg : List UInt8)

/-- Where the network thread is: not sending, or in the payload loop of the frame `fbIdx` of `fbSz` bytes
with `sent` of them read. The last two fields are history: the bytes read so far, the bytes captured. -/
inductive NetworkPc where
  | idle
  | sending (fbIdx : Fin 2) (fbSz sent : Nat) (payload captured : List UInt8)

/-- A frame the network thread is done with: what it sent, what the camera had captured, and whether the
payload loop ran to its end. -/
structure Send where
  payload : List UInt8
  captured : List UInt8
  whole : Bool

/-- The shared fields of `streamer_context_t`, the two threads, and as history the bytes last captured
into each buffer that was published and the frames sent. -/
structure State where
  frameBuffer : Fin 2 → List UInt8
  readySize : Fin 2 → Nat
  hasFrame : Fin 2 → Bool
  activeIdx : Fin 2
  readyIdx : Fin 2
  camera : CameraPc
  backlogStartUs : Nat
  network : NetworkPc
  captured : Fin 2 → List UInt8
  sends : List Send

/-- The state `run_server` sets up, whatever `malloc` left in the buffers, with both threads at the head of
their loops. -/
def State.init (frameBuffer : Fin 2 → List UInt8) : State where
  frameBuffer := frameBuffer
  readySize _ := 0
  hasFrame _ := false
  activeIdx := 0
  readyIdx := 1
  camera := .check
  backlogStartUs := 0
  network := .idle
  captured _ := []
  sends := []

/-! ## Steps -/

/-- The atomic steps: the camera's backlog check at a clock reading, its discard, a capture, its
publish-and-swap; the network's pop, one read of a payload piece, and leaving the payload loop early. -/
inductive Step where
  | backlogCheck (nowUs : Nat)
  | discard
  | capture (shot : Shot)
  | publish
  | pop
  | readPiece
  | stop
deriving DecidableEq

/-- `backlog_start_us` once a backlog is seen at `nowUs`. -/
def backlogStart (start nowUs : Nat) : Nat := if start = 0 then nowUs else start

/-- The camera's look at the pending frame: wait for it, give it up, or go on to capture. -/
def backlogCheck (s : State) (nowUs : Nat) : State :=
  if s.hasFrame s.readyIdx then
    if usSub nowUs (backlogStart s.backlogStartUs nowUs) > maxBacklogDelayUs then
      { s with backlogStartUs := backlogStart s.backlogStartUs nowUs, camera := .discard }
    else { s with backlogStartUs := backlogStart s.backlogStartUs nowUs, camera := .check }
  else { s with backlogStartUs := 0, camera := .capture }

/-- The old frame is thrown away. -/
def discard (s : State) : State :=
  { s with
    hasFrame := Function.update s.hasFrame s.readyIdx false
    readySize := Function.update s.readySize s.readyIdx 0
    backlogStartUs := 0
    camera := .capture }

/-- The bytes of a shot. -/
def Shot.bytes : Shot → List UInt8
  | .jpeg jpgBuf => jpgBuf
  | _ => []

/-- A capture into `frame_buffer[active_idx]`. -/
def capture (s : State) (shot : Shot) : State :=
  let r := cameraCaptureJpeg shot (s.frameBuffer s.activeIdx)
  { s with
    frameBuffer := Function.update s.frameBuffer s.activeIdx r.2
    camera := if 0 < r.1 ∧ r.1 ≤ frameBufferBytes then .publish s.activeIdx r.1.toNat shot.bytes else .check }

/-- The new frame becomes the pending one and the indices are swapped. -/
def publish (s : State) (idx : Fin 2) (jpegSize : Nat) (jpeg : List UInt8) : State :=
  { s with
    readySize := Function.update s.readySize idx jpegSize
    hasFrame := Function.update s.hasFrame idx true
    activeIdx := s.readyIdx
    readyIdx := s.activeIdx
    camera := .check
    captured := Function.update s.captured idx jpeg }

/-- `pop_ready_frame`, when there is a frame. -/
def popReadyFrame (s : State) : State :=
  { s with
    hasFrame := Function.update s.hasFrame s.readyIdx false
    readySize := Function.update s.readySize s.readyIdx 0
    network := .sending s.readyIdx (s.readySize s.readyIdx) 0 [] (s.captured s.readyIdx) }

/-- The network thread is done with a frame. -/
def sendDone (s : State) (x : Send) : State := { s with network := .idle, sends := s.sends ++ [x] }

/-- The piece of `frame_buffer[fbIdx]` at `sent`. -/
def State.piece (s : State) (fbIdx : Fin 2) (fbSz sent : Nat) : List UInt8 :=
  ((s.frameBuffer fbIdx).drop sent).take (pieceLen (fbSz - sent))

/-- One read of the payload loop, and the loop's end behind the last one. -/
def readPiece (s : State) (fbIdx : Fin 2) (fbSz sent : Nat) (payload captured : List UInt8) : State :=
  if sent + pieceLen (fbSz - sent) < fbSz then
    { s with
      network := .sending fbIdx fbSz (sent + pieceLen (fbSz - sent)) (payload ++ s.piece fbIdx fbSz sent) captured }
  else sendDone s ⟨payload ++ s.piece fbIdx fbSz sent, captured, true⟩

/-- The threads' steps; a step is enabled where its thread stands before it. -/
def step (s : State) : Step → Option State
  | .backlogCheck nowUs =>
    match s.camera with
    | .check => some (backlogCheck s nowUs)
    | _ => none
  | .discard =>
    match s.camera with
    | .discard => some (discard s)
    | _ => none
  | .capture shot =>
    match s.camera with
    | .capture => some (capture s shot)
    | _ => none
  | .publish =>
    match s.camera with
    | .publish idx jpegSize jpeg => some (publish s idx jpegSize jpeg)
    | _ => none
  | .pop =>
    match s.network with
    | .idle => some (if s.hasFrame s.readyIdx = true ∧ 0 < s.readySize s.readyIdx then popReadyFrame s else s)
    | _ => none
  | .readPiece =>
    match s.network with
    | .sending fbIdx fbSz sent payload captured => some (readPiece s fbIdx fbSz sent payload captured)
    | .idle => none
  | .stop =>
    match s.network with
    | .sending _ _ _ payload captured => some (sendDone s ⟨payload, captured, false⟩)
    | .idle => none

/-- The steps with what they need of the state before and what they make of it. -/
inductive Moved (s : State) : Step → State → Prop where
  | backlogCheck {nowUs : Nat} (hcam : s.camera = .check) : Moved s (.backlogCheck nowUs) (backlogCheck s nowUs)
  | discard (hcam : s.camera = .discard) : Moved s .discard (discard s)
  | capture {shot : Shot} (hcam : s.camera = .capture) : Moved s (.capture shot) (capture s shot)
  | publish {idx : Fin 2} {jpegSize : Nat} {jpeg : List UInt8} (hcam : s.camera = .publish idx jpegSize jpeg) :
    Moved s .publish (publish s idx jpegSize jpeg)
  | popFrame (hnet : s.network = .idle) (hp : s.hasFrame s.readyIdx = true ∧ 0 < s.readySize s.readyIdx) :
    Moved s .pop (popReadyFrame s)
  | popNothing (hnet : s.network = .idle) (hp : ¬ (s.hasFrame s.readyIdx = true ∧ 0 < s.readySize s.readyIdx)) :
    Moved s .pop s
  | readPiece {idx : Fin 2} {n sent : Nat} {payload captured : List UInt8}
    (hnet : s.network = .sending idx n sent payload captured) :
    Moved s .readPiece (readPiece s idx n sent payload captured)
  | stop {idx : Fin 2} {n sent : Nat} {payload captured : List UInt8}
    (hnet : s.network = .sending idx n sent payload captured) : Moved s .stop (sendDone s ⟨payload, captured, false⟩)

theorem step_moved {s s' : State} {e : Step} (h : step s e = some s') : Moved s e s' := by
  cases e with
  | backlogCheck nowUs =>
    simp only [step] at h
    split at h <;> cases h
    exact .backlogCheck ‹_›
  | discard =>
    simp only [step] at h
    split at h <;> cases h
    exact .discard ‹_›
  | capture shot =>
    simp only [step] at h
    split at h <;> cases h
    exact .capture ‹_›
  | publish =>
    simp only [step] at h
    split at h <;> cases h
    exact .publish ‹_›
  | pop =>
    simp only [step] at h
    split at h <;> cases h
    split
    · exact .popFrame ‹_› ‹_›
    · exact .popNothing ‹_› ‹_›
  | readPiece =>
    simp only [step] at h
    split at h <;> cases h
    exact .readPiece ‹_›
  | stop =>
    simp only [step] at h
    split at h <;> cases h
    exact .stop ‹_›

/-! ## What is claimed of a state -/

/-- The network thread is between the pop that returned buffer `i` and its last read of it. -/
def State.Reads (s : State) (i : Fin 2) : Prop :=
  ∃ fbSz sent payload captured, s.network = .sending i fbSz sent payload captured

instance (s : State) (i : Fin 2) : Decidable (s.Reads i) :=
  match h : s.network with
  | .idle => isFalse (by simp [State.Reads, h])
  | .sending fbIdx _ _ _ _ => decidable_of_iff (fbIdx = i) (by simp [State.Reads, h])

/-- The camera's next step does not write into a buffer being read. -/
def State.Untorn (s : State) : Prop := s.camera = .capture → ¬ s.Reads s.activeIdx

/-- What was sent is what was captured, up to where the payload loop was left. -/
def Send.Intact (x : Send) : Prop := x.payload <+: x.captured ∧ (x.whole = true → x.payload = x.captured)

/-- A discard finds the network thread off the buffer that the camera writes next. -/
def DiscardsClear (s : State) (e : Step) : Prop := e = .discard → ¬ s.Reads s.activeIdx

instance (s : State) (e : Step) : Decidable (DiscardsClear s e) := inferInstanceAs (Decidable (_ → _))

/-! ## The invariant -/

/-- Buffer `i` starts with the `n` bytes of `jpeg`. -/
def State.Holds (s : State) (i : Fin 2) (n : Nat) (jpeg : List UInt8) : Prop :=
  jpeg.length = n ∧ (s.frameBuffer i).take n = jpeg

/-- The two indices differ; a pending frame is in its buffer as captured; a frame being sent is still in its
buffer, which is the ready one, or after a publish the active one while the camera waits for the new
frame to be taken. -/
structure Inv (s : State) : Prop where
  distinct : s.activeIdx ≠ s.readyIdx
  publishing : ∀ idx n jpeg, s.camera = .publish idx n jpeg → idx = s.activeIdx ∧ s.Holds idx n jpeg
  pending : s.hasFrame s.readyIdx = true → s.Holds s.readyIdx (s.readySize s.readyIdx) (s.captured s.readyIdx)
  sending : ∀ idx n sent payload captured, s.network = .sending idx n sent payload captured →
    sent < n ∧ s.Holds idx n captured ∧ payload = captured.take sent
  held : ∀ idx, s.Reads idx →
    idx = s.readyIdx ∨ (s.hasFrame s.readyIdx = true ∧ (s.camera = .check ∨ s.camera = .discard))
  sends : ∀ x ∈ s.sends, x.Intact

theorem init_inv (frameBuffer : Fin 2 → List UInt8) : Inv (State.init frameBuffer) where
  distinct := Fin.zero_ne_one
  publishing := nofun
  pending := nofun
  sending := nofun
  held := by rintro idx ⟨n, sent, pl, cap, h⟩; cases h
  sends := nofun

theorem Inv.untorn {s : State} (h : Inv s) : s.Untorn := by
  intro hcam hr
  rcases h.held _ hr with he | ⟨-, hc | hc⟩
  · exact h.distinct he
  · rw [hcam] at hc; cases hc
  · rw [hcam] at hc; cases hc

section Steps

variable {s s' : State}

/-! ## Camera steps -/

theorem backlogCheck_inv (hi : Inv s) (nowUs : Nat) : Inv (backlogCheck s nowUs) := by
  unfold backlogCheck
  split_ifs with hf hlate
  · -- the camera goes to discard the pending frame
    refine ⟨hi.distinct, nofun, hi.pending, hi.sending, fun idx hr => ?_, hi.sends⟩
    rcases hi.held idx hr with he | ⟨hp, -⟩
    · exact .inl he
    · exact .inr ⟨hp, .inr rfl⟩
  · refine ⟨hi.distinct, nofun, hi.pending, hi.sending, fun idx hr => ?_, hi.sends⟩
    rcases hi.held idx hr with he | ⟨hp, -⟩
    · exact .inl he
    · exact .inr ⟨hp, .inl rfl⟩
  · refine ⟨hi.distinct, nofun, hi.pending, hi.sending, fun idx hr => ?_, hi.sends⟩
    rcases hi.held idx hr with he | ⟨hp, -⟩
    · exact .inl he
    · exact absurd hp hf

/-- A discard lets the camera write the active buffer at once, so nobody may be reading it. -/
theorem discard_inv (hi : Inv s) (hc : ¬ s.Reads s.activeIdx) : Inv (discard s) := by
  refine ⟨hi.distinct, nofun, fun hp => ?_, hi.sending, fun idx hr => ?_, hi.sends⟩
  · simp [discard] at hp
  · have hne : idx ≠ s.activeIdx := by
      rintro rfl
      exact hc hr
    have hd := hi.distinct
    have : idx = s.readyIdx := by omega
    exact .inl this

theorem Shot.bytes_held {shot : Shot} {buffer : List UInt8} (h : 0 < (cameraCaptureJpeg shot buffer).1) :
    shot.bytes.length = (cameraCaptureJpeg shot buffer).1.toNat ∧
      (cameraCaptureJpeg shot buffer).2.take (cameraCaptureJpeg shot buffer).1.toNat = shot.bytes := by
  cases shot with
  | badHandle => exact absurd h (by simp [cameraCaptureJpeg])
  | noFrame => exact absurd h (by simp [cameraCaptureJpeg])
  | notEncoded => exact absurd h (by simp [cameraCaptureJpeg])
  | jpeg jpgBuf =>
    unfold cameraCaptureJpeg at h ⊢
    by_cases hlen : jpgBuf.length > frameBufferBytes
    · simp only [if_pos hlen] at h
      exact absurd h (by norm_num)
    · simp only [if_neg hlen, Shot.bytes, Int.toNat_natCast]
      exact ⟨trivial, List.take_left⟩

/-- Writing the active buffer leaves the pending frame and the one being sent alone. -/
theorem capture_inv (hi : Inv s) (hcam : s.camera = .capture) (shot : Shot) : Inv (capture s shot) := by
  -- the network thread reads the other buffer, if any
  have hheld : ∀ idx, s.Reads idx → idx = s.readyIdx := by
    intro idx hr
    rcases hi.held idx hr with he | ⟨-, hc | hc⟩
    · exact he
    · rw [hcam] at hc; cases hc
    · rw [hcam] at hc; cases hc
  have hready : (capture s shot).frameBuffer s.readyIdx = s.frameBuffer s.readyIdx :=
    Function.update_of_ne hi.distinct.symm _ _
  have hactive : (capture s shot).frameBuffer s.activeIdx =
      (cameraCaptureJpeg shot (s.frameBuffer s.activeIdx)).2 := Function.update_self _ _ _
  have hkeep : ∀ n jpeg, s.Holds s.readyIdx n jpeg → (capture s shot).Holds s.readyIdx n jpeg := by
    rintro n jpeg ⟨hlen, ht⟩
    refine ⟨hlen, ?_⟩
    rw [hready, ht]
  refine ⟨hi.distinct, fun idx n jpeg hpc => ?_, fun hp => hkeep _ _ (hi.pending hp), ?_,
    fun idx hr => .inl (hheld idx hr), hi.sends⟩
  · have hpc' : (if 0 < (cameraCaptureJpeg shot (s.frameBuffer s.activeIdx)).1 ∧
        (cameraCaptureJpeg shot (s.frameBuffer s.activeIdx)).1 ≤ frameBufferBytes then
        CameraPc.publish s.activeIdx (cameraCaptureJpeg shot (s.frameBuffer s.activeIdx)).1.toNat shot.bytes
        else .check) = .publish idx n jpeg := hpc
    split at hpc'
    · rename_i hok
      cases hpc'
      refine ⟨rfl, (Shot.bytes_held hok.1).1, ?_⟩
      rw [hactive, (Shot.bytes_held hok.1).2]
    · cases hpc'
  · intro idx n sent pl cap hn
    obtain rfl := hheld idx ⟨n, sent, pl, cap, hn⟩
    obtain ⟨hlt, hh, hpl⟩ := hi.sending _ n sent pl cap hn
    exact ⟨hlt, hkeep _ _ hh, hpl⟩

theorem publish_inv (hi : Inv s) {idx : Fin 2} {n : Nat} {jpeg : List UInt8}
    (hcam : s.camera = .publish idx n jpeg) : Inv (publish s idx n jpeg) := by
  obtain ⟨rfl, hh⟩ := hi.publishing idx n jpeg hcam
  refine ⟨hi.distinct.symm, nofun, fun _ => ?_, hi.sending, fun idx hr => ?_, hi.sends⟩
  · simpa [publish, State.Holds] using hh
  · -- the buffer being sent was the ready one; now it is the active one, behind the new frame
    exact .inr ⟨Function.update_self _ _ _, .inl rfl⟩

/-! ## Network steps -/

theorem popReadyFrame_inv (hi : Inv s) (hp : s.hasFrame s.readyIdx = true ∧ 0 < s.readySize s.readyIdx) :
    Inv (popReadyFrame s) := by
  refine ⟨hi.distinct, hi.publishing, fun hf => ?_, ?_, ?_, hi.sends⟩
  · simp [popReadyFrame] at hf
  · rintro idx n sent pl cap ⟨⟩
    exact ⟨hp.2, hi.pending hp.1, rfl⟩
  · rintro idx ⟨n, sent, pl, cap, ⟨⟩⟩
    exact .inl rfl

/-- A network thread that is done sending holds no buffer. -/
theorem sendDone_inv (hi : Inv s) {x : Send} (hx : x.Intact) : Inv (sendDone s x) := by
  refine ⟨hi.distinct, hi.publishing, hi.pending, nofun, ?_, fun y hy => ?_⟩
  · rintro idx ⟨n, sent, pl, cap, h⟩
    cases h
  · rcases List.mem_append.1 hy with hy | hy
    · exact hi.sends y hy
    · rw [List.mem_singleton.1 hy]
      exact hx

/-- The next piece continues the payload. -/
theorem Holds.piece {i : Fin 2} {n sent : Nat} {jpeg : List UInt8} (h : s.Holds i n jpeg) (hs : sent < n) :
    jpeg.take sent ++ s.piece i n sent = jpeg.take (sent + pieceLen (n - sent)) := by
  obtain ⟨-, rfl⟩ := h
  have hle := pieceLen_le (n - sent)
  rw [State.piece, List.take_take, List.take_take, Nat.min_eq_left hs.le, Nat.min_eq_left (by omega), List.take_add]

theorem readPiece_inv (hi : Inv s) {idx : Fin 2} {n sent : Nat} {pl cap : List UInt8}
    (hnet : s.network = .sending idx n sent pl cap) : Inv (readPiece s idx n sent pl cap) := by
  obtain ⟨hlt, hh, hpl⟩ := hi.sending idx n sent pl cap hnet
  have hpiece : pl ++ s.piece idx n sent = cap.take (sent + pieceLen (n - sent)) := by
    rw [hpl]
    exact Holds.piece hh hlt
  unfold readPiece
  rw [hpiece]
  split
  · rename_i hmore
    refine ⟨hi.distinct, hi.publishing, hi.pending, ?_, ?_, hi.sends⟩
    · rintro i m k p c ⟨⟩
      exact ⟨hmore, hh, rfl⟩
    · rintro i ⟨m, k, p, c, ⟨⟩⟩
      exact hi.held _ ⟨n, sent, pl, cap, hnet⟩
  · -- the last piece: all of the frame is out
    rename_i hdone
    refine sendDone_inv hi ⟨List.take_prefix _ _, fun _ => ?_⟩
    have hlen := hh.1
    apply List.take_of_length_le
    omega

theorem stop_inv (hi : Inv s) {idx : Fin 2} {n sent : Nat} {pl cap : List UInt8}
    (hnet : s.network = .sending idx n sent pl cap) : Inv (sendDone s ⟨pl, cap, false⟩) := by
  obtain ⟨-, -, hpl⟩ := hi.sending idx n sent pl cap hnet
  refine sendDone_inv hi ⟨?_, nofun⟩
  rw [hpl]
  exact List.take_prefix _ _

/-- Every step keeps the invariant, a discard when the network thread is off the active buffer. -/
theorem step_inv (hi : Inv s) {e : Step} (hc : DiscardsClear s e) (h : step s e = some s') : Inv s' := by
  cases step_moved h with
  | backlogCheck hcam => exact backlogCheck_inv hi _
  | discard hcam => exact discard_inv hi (hc rfl)
  | capture hcam => exact capture_inv hi hcam _
  | publish hcam => exact publish_inv hi hcam
  | popFrame hnet hp => exact popReadyFrame_inv hi hp
  | popNothing hnet hp => exact hi
  | readPiece hnet => exact readPiece_inv hi hnet
  | stop hnet => exact stop_inv hi hnet

end Steps

/-! ## Runs -/

/-- In every run whose discards find the network thread off the active buffer, no capture writes into a
buffer between its pop and the last read of it, and every frame sent is the frame captured. -/
theorem frames_untorn (frameBuffer : Fin 2 → List UInt8) {es : List Step} {s : State}
    (hc : Lts.Meets step DiscardsClear (State.init frameBuffer) es)
    (h : Lts.run step (State.init frameBuffer) es = some s) : s.Untorn ∧ ∀ x ∈ s.sends, x.Intact := by
  have hi : Inv s := Lts.inv_run (fun _ _ _ hi hc h => step_inv hi hc h) es _ s (init_inv frameBuffer) hc h
  exact ⟨hi.untorn, hi.sends⟩

/-- Buffers as a fresh allocation may leave them. -/
def zeroed : Fin 2 → List UInt8 := fun _ => List.replicate frameBufferBytes 0

/-- A five-byte JPEG. -/
def tinyJpeg (b : UInt8) : List UInt8 := [0xFF, 0xD8, b, 0xFF, 0xD9]

/-- A frame is given up after 200 ms with nobody sending, and the one after it is sent. -/
def lateStart : List Step :=
  [.backlogCheck 1, .capture (.jpeg (tinyJpeg 1)), .publish, .backlogCheck 2, .backlogCheck 200003, .discard,
    .capture (.jpeg (tinyJpeg 2)), .publish, .pop, .readPiece]

theorem lateStart_untorn :
    (Lts.run step (State.init zeroed) lateStart).map (·.sends) = some [⟨tinyJpeg 2, tinyJpeg 2, true⟩] ∧
      ∀ s, Lts.run step (State.init zeroed) lateStart = some s → s.Untorn ∧ ∀ x ∈ s.sends, x.Intact :=
  ⟨rfl, fun _ h => frames_untorn _ (by decide) h⟩

/-- The first frame is popped and its send waits for pacing; the second is published behind it and given up
after 200 ms; the third is captured over the first. -/
def slowSend : List Step :=
  [.backlogCheck 1, .capture (.jpeg (tinyJpeg 1)), .publish, .pop, .backlogCheck 2, .capture (.jpeg (tinyJpeg 2)),
    .publish, .backlogCheck 3, .backlogCheck 200004, .discard, .capture (.jpeg (tinyJpeg 3)), .readPiece]

/-- The third frame's bytes go out as the first frame. -/
theorem slowSend_torn :
    (Lts.run step (State.init zeroed) slowSend).map (·.sends) = some [⟨tinyJpeg 3, tinyJpeg 1, true⟩] ∧
      ¬ ∀ frameBuffer es s, Lts.run step (State.init frameBuffer) es = some s →
        s.Untorn ∧ ∀ x ∈ s.sends, x.Intact := by
  have hrun : (Lts.run step (State.init zeroed) slowSend).map (·.sends) =
      some [⟨tinyJpeg 3, tinyJpeg 1, true⟩] := rfl
  refine ⟨hrun, fun hall => ?_⟩
  obtain ⟨s, hs, hsends⟩ := Option.map_eq_some_iff.1 hrun
  have hintact := (hall zeroed slowSend s hs).2 ⟨tinyJpeg 3, tinyJpeg 1, true⟩ (by simp [hsends])
  exact absurd (hintact.2 rfl) (by decide)

end Mquic.Server.Handoff
