/-
What a round of `wt_handle_stream_data` can do, whatever the allocator and the file system do: nothing that saves, the
payload step on the record at hand or on that of a new length, or an extraction. The frames it hands to `save_frame`
follow from that, and with them what is counted and written.
-/
import Mquic.Client.WtCalls
import Mquic.Lib.Loop

namespace Mquic.WtClient

open Mquic.Codec Loop

/-! ## The loop -/

/-- What a round leaves, however it ends. -/
def Flow.state : Flow → State
  | .next s _ _ => s
  | .brk s _ => s
  | .ret s _ _ => s

def Flow.record : Flow → WtStream
  | .next _ st _ => st
  | .brk _ st => st
  | .ret _ st _ => st

/-- `while (off < length)`: out of bytes, or one more round. -/
def whileBody (os : Os) : State × WtStream × List UInt8 → (State × WtStream × Int) ⊕ (State × WtStream × List UInt8)
  | (s, st, []) => .inl (s, st, 0)
  | (s, st, b :: p) =>
    match round os s st (b :: p) with
    | .next s st p => .inr (s, st, p)
    | .brk s st => .inl (s, st, 0)
    | .ret s st code => .inl (s, st, code)

/-- The bytes the next round starts from. -/
def Flow.left : Flow → List UInt8
  | .next _ _ p => p
  | .brk _ _ => []
  | .ret _ _ _ => []

/-! ## The part that saves -/

/-- The record holds a whole frame: it was handed to `save_frame` when it became whole. -/
def Finished (st : WtStream) : Prop := st.useLenFraming = true ∧ payloadNeed st ≠ 0 ∧ st.got = payloadNeed st

instance (st : WtStream) : Decidable (Finished st) := inferInstanceAs (Decidable (_ ∧ _ ∧ _))

/-- The part of a round that can save: the payload step, with the record and the bytes it starts from, or an
extraction. -/
inductive Part where
  | quiet
  | payload (st : WtStream) (p : List UInt8)
  | jpeg

/-- `realloc` to `need` bytes is not called, or succeeds. -/
def HasRoom (os : Os) (s : State) (st : WtStream) (need : Nat) : Prop := need ≤ st.cap ∨ os.alloc s.allocs = true

instance (os : Os) (s : State) (st : WtStream) (need : Nat) : Decidable (HasRoom os s st need) :=
  inferInstanceAs (Decidable (_ ∨ _))

def jpegPart (os : Os) (s : State) (st : WtStream) (p : List UInt8) : Part :=
  if HasRoom os s st (st.got + p.length) then .jpeg else .quiet

def framedPart (os : Os) (s : State) (st : WtStream) (p : List UInt8) : Part :=
  if HasRoom os s st (payloadNeed st) then .payload st p else .quiet

/-- Where a length or guessed JPEG data is next. -/
def detectPart (os : Os) (s : State) (st : WtStream) (p : List UInt8) : Part :=
  match wtVarintDecode p with
  | none => .quiet
  | some (n, c) =>
    if BadLength n then jpegPart os s st p
    else framedPart os s (st.framed n (p.drop c)) ((p.drop c).drop (ptsWidth (p.drop c)))

/-- The part the record and the bytes lead to. -/
def part (os : Os) (s : State) (st : WtStream) (p : List UInt8) : Part :=
  if st.headerOk = false then .quiet
  else if st.useLenFraming = true then .payload st p
  else if st.curLen = 0 then detectPart os s st p
  else jpegPart os s st p

/-- The bytes reach the end of the record's frame; a frame that is whole already ends before them. -/
def ReachesEnd (st : WtStream) (p : List UInt8) : Prop := payloadNeed st ≠ 0 ∧ payloadNeed st ≤ st.got + p.length

instance (st : WtStream) (p : List UInt8) : Decidable (ReachesEnd st p) := inferInstanceAs (Decidable (_ ∧ _))

/-- The frames a round hands to `save_frame`. -/
def handed (os : Os) (s : State) (st : WtStream) (p : List UInt8) : List (List UInt8) :=
  match part os s st p with
  | .quiet => []
  | .payload st1 p1 => if ReachesEnd st1 p1 then [(copyPayload st1 p1).buf] else []
  | .jpeg => (extractJpegs (st.buf ++ p)).1

/-! ## Files -/

/-- Of the next `k` files those that can be opened. -/
def opens (os : Os) (n k : Nat) : Nat := (List.range k).countP fun i => os.fopen (n + i)

/-- Of frames, or what stands for them, those whose files can be opened; the first is the `n`-th. -/
def openable {α : Type} (os : Os) : Nat → List α → List α
  | _, [] => []
  | n, f :: fs => if os.fopen n then f :: openable os (n + 1) fs else openable os (n + 1) fs

/-- From `s` to `s'` `save_frame` was called for these frames of the stream. -/
structure Tried (os : Os) (sid : Nat) (frames : List (List UInt8)) (s s' : State) : Prop where
  fopens : s'.fopens = s.fopens + frames.length
  saved : s'.app.saved = s.app.saved + opens os s.fopens frames.length
  contents : contents s' = contents s ++ (openable os s.fopens frames).map (sid, ·)
  maxFrames : s'.app.maxFrames = s.app.maxFrames
  streams : s'.app.streams = s.app.streams

theorem opens_zero (os : Os) (n : Nat) : opens os n 0 = 0 := rfl

theorem opens_one (os : Os) (n : Nat) : opens os n 1 = if os.fopen n then 1 else 0 := by
  simp [opens, List.range_succ]

theorem opens_succ (os : Os) (n k : Nat) : opens os n (k + 1) = opens os n 1 + opens os (n + 1) k := by
  rw [opens_one]
  unfold opens
  rw [List.range_succ_eq_map, List.countP_cons, List.countP_map, Nat.add_comm]
  congr 1
  apply List.countP_congr
  intro i _
  simp only [Function.comp_apply, Nat.succ_eq_add_one]
  rw [show n + (i + 1) = n + 1 + i by omega]

theorem openable_map {α β : Type} (os : Os) (g : α → β) :
    ∀ (n : Nat) (fs : List α), openable os n (fs.map g) = (openable os n fs).map g
  | _, [] => rfl
  | n, f :: fs => by
    rw [List.map_cons, openable, openable, openable_map os g (n + 1) fs]
    split_ifs
    · rfl
    · rfl

theorem openable_sublist {α : Type} (os : Os) : ∀ (n : Nat) (fs : List α), (openable os n fs).Sublist fs
  | _, [] => List.Sublist.refl []
  | n, f :: fs => by
    have ih := openable_sublist os (n + 1) fs
    rw [openable]
    split_ifs
    · exact ih.cons_cons f
    · exact ih.cons f

theorem openable_length {α : Type} (os : Os) :
    ∀ (n : Nat) (fs : List α), (openable os n fs).length = opens os n fs.length
  | _, [] => rfl
  | n, f :: fs => by
    have ih := openable_length os (n + 1) fs
    rw [List.length_cons, opens_succ, opens_one, openable, ← ih]
    split_ifs
    · rw [List.length_cons, Nat.add_comm]
    · rw [Nat.zero_add]

section Saving

variable {os : Os} {sid : Nat} {s s' t t' : State}

theorem Tried.refl (os : Os) (sid : Nat) (s : State) : Tried os sid [] s s :=
  ⟨rfl, by simp [opens_zero], (List.append_nil _).symm, rfl, rfl⟩

/-- Of the state, `Tried` sees the application, the count of files and the files. -/
theorem Tried.congr {frames : List (List UInt8)} (h : Tried os sid frames s s') (hs : t.app = s.app)
    (hf : t.fopens = s.fopens) (hw : t.files = s.files) (hs' : t'.app = s'.app) (hf' : t'.fopens = s'.fopens)
    (hw' : t'.files = s'.files) : Tried os sid frames t t' := by
  obtain ⟨h1, h2, h3, h4, h5⟩ := h
  have hc : WtClient.contents t = WtClient.contents s := congrArg (List.map _) hw
  have hc' : WtClient.contents t' = WtClient.contents s' := congrArg (List.map _) hw'
  exact ⟨by rw [hf', hf, h1], by rw [hs', hs, hf, h2], by rw [hc', hc, hf, h3], by rw [hs', hs, h4],
    by rw [hs', hs, h5]⟩

theorem saveFrame_tried (os : Os) (sid : Nat) (s : State) (data : List UInt8) :
    Tried os sid [data] s (saveFrame os sid s data) := by
  unfold saveFrame
  split
  · rename_i h
    refine ⟨rfl, by rw [List.length_singleton, opens_one, if_pos h]; rfl, ?_, rfl, rfl⟩
    rw [openable, if_pos h]
    exact List.map_append
  · rename_i h
    refine ⟨rfl, by rw [List.length_singleton, opens_one, if_neg h]; simp, ?_, rfl, rfl⟩
    rw [openable, if_neg h]
    exact (List.append_nil _).symm

theorem Tried.cons {f : List UInt8} {fs : List (List UInt8)} (h : Tried os sid [f] s s') (h' : Tried os sid fs s' t) :
    Tried os sid (f :: fs) s t := by
  obtain ⟨h1, h2, h3, h4, h5⟩ := h
  obtain ⟨g1, g2, g3, g4, g5⟩ := h'
  rw [List.length_singleton] at h1 h2
  refine ⟨?_, ?_, ?_, g4.trans h4, g5.trans h5⟩
  · rw [g1, h1, List.length_cons]
    omega
  · rw [g2, h2, h1, List.length_cons, opens_succ os s.fopens fs.length]
    push_cast
    omega
  · have hcons : openable os s.fopens (f :: fs) = openable os s.fopens [f] ++ openable os (s.fopens + 1) fs := by
      simp only [openable]
      split_ifs
      · rfl
      · rfl
    rw [g3, h3, h1, List.append_assoc, ← List.map_append, ← hcons]

theorem saveFrames_tried (os : Os) (sid : Nat) : ∀ (frames : List (List UInt8)) (s : State),
    Tried os sid frames s (frames.foldl (saveFrame os sid) s)
  | [], s => Tried.refl os sid s
  | f :: fs, s => (saveFrame_tried os sid s f).cons (saveFrames_tried os sid fs (saveFrame os sid s f))

end Saving

/-! ## What a round does -/

/-- The payload step starts from the record and the bytes at hand, or behind a length that was just adopted. -/
inductive Starts (st : WtStream) (p : List UInt8) : WtStream → List UInt8 → Prop
  | kept (hon : st.useLenFraming = true) : Starts st p st p
  | adopted {st1 : WtStream} {p1 : List UInt8} (hon : st1.useLenFraming = true) (hid : st1.streamId = st.streamId)
    (hbuf : st1.buf = []) (hfresh : ¬ Finished st1) (hold : ¬ Finished st) (hp : p1 <:+ p) : Starts st p st1 p1

theorem Starts.streamId {st st1 : WtStream} {p p1 : List UInt8} (h : Starts st p st1 p1) :
    st1.streamId = st.streamId := by
  cases h with
  | kept _ => rfl
  | adopted _ hid _ _ _ _ => exact hid

theorem Starts.framed {st st1 : WtStream} {p p1 : List UInt8} (h : Starts st p st1 p1) : st1.useLenFraming = true := by
  cases h with
  | kept hon => exact hon
  | adopted hon _ _ _ _ _ => exact hon

theorem Starts.suffix {st st1 : WtStream} {p p1 : List UInt8} (h : Starts st p st1 p1) : p1 <:+ p := by
  cases h with
  | kept _ => exact List.suffix_refl p
  | adopted _ _ _ _ _ hp => exact hp

/-- What comes of a round with this part. -/
inductive Does (os : Os) (s : State) (st : WtStream) (p : List UInt8) : Part → Flow → Prop
  /-- Nothing is handed on, and the record is as it was or holds nothing. -/
  | quiet {f : Flow} (n : Nat) (hstate : f.state = { s with allocs := n }) (hid : f.record.streamId = st.streamId)
    (hst : f.record = st ∨ f.record.buf = [] ∧ ¬ Finished f.record) (hleft : f.left <:+ p) : Does os s st p .quiet f
  /-- The payload step. -/
  | payload (n cap : Nat) {st1 : WtStream} {p1 : List UInt8} (hstart : Starts st p st1 p1) :
    Does os s st p (.payload st1 p1) (receive os { s with allocs := n } { st1 with cap := cap } p1)
  /-- Extraction behind what the record holds. -/
  | jpeg (n cap : Nat) (hu : st.useLenFraming = false) :
    Does os s st p .jpeg (appendExtract os { s with allocs := n } { st with cap := cap } hu p)

section Rounds

variable {os : Os} {s : State} {st : WtStream} {p : List UInt8}

theorem not_finished_off (hu : st.useLenFraming = false) : ¬ Finished st := by
  rintro ⟨hon, -⟩
  rw [hu] at hon
  cases hon

theorem readHeader_does : Does os s st p .quiet (readHeader s st p) := by
  have hsame : Does os s st p .quiet (.brk s st) := .quiet s.allocs rfl rfl (.inl rfl) List.nil_suffix
  have hrefused : Does os s st p .quiet (.ret s st (-1)) := .quiet s.allocs rfl rfl (.inl rfl) List.nil_suffix
  unfold readHeader
  split
  · exact hsame
  · split
    · exact hsame
    · split_ifs
      · exact hrefused
      · exact hrefused
      · exact .quiet s.allocs rfl rfl (.inr ⟨rfl, not_finished_off rfl⟩) (List.drop_suffix _ p)

theorem accumulate_does (hu : st.useLenFraming = false) :
    Does os s st p (jpegPart os s st p) (accumulate os s st hu p) := by
  unfold accumulate jpegPart
  by_cases hcap : st.cap < st.got + p.length
  · rw [if_pos hcap]
    by_cases ha : os.alloc s.allocs = true
    · rw [if_pos ha, if_pos (.inr ha)]
      exact .jpeg _ _ hu
    · have hno : ¬ HasRoom os s st (st.got + p.length) := by
        rintro (h | h)
        · omega
        · exact ha h
      rw [if_neg ha, if_neg hno]
      exact .quiet (s.allocs + 1) rfl rfl (.inl rfl) List.nil_suffix
  · rw [if_neg hcap, if_pos (.inl (Nat.le_of_not_lt hcap))]
    exact .jpeg s.allocs st.cap hu

theorem adopt_does (hu : st.useLenFraming = false) (n : Nat) {p1 : List UInt8} (hp : p1 <:+ p) :
    Does os s st p (framedPart os s (st.framed n p1) (p1.drop (ptsWidth p1))) (adopt os s st n p1) := by
  have hfresh : ¬ Finished (st.framed n p1) := by
    rintro ⟨-, hne, heq⟩
    exact absurd heq.symm hne
  have hadopted : Starts st p (st.framed n p1) (p1.drop (ptsWidth p1)) :=
    .adopted rfl rfl rfl hfresh (not_finished_off hu) ((List.drop_suffix (ptsWidth p1) p1).trans hp)
  unfold adopt framedPart
  simp only
  by_cases hcap : payloadNeed (st.framed n p1) > (st.framed n p1).cap
  · rw [if_pos hcap]
    by_cases ha : os.alloc s.allocs = true
    · rw [if_pos ha, if_pos (.inr ha)]
      exact .payload _ _ hadopted
    · have hno : ¬ HasRoom os s (st.framed n p1) (payloadNeed (st.framed n p1)) := by
        rintro (h | h)
        · omega
        · exact ha h
      rw [if_neg ha, if_neg hno]
      exact .quiet (s.allocs + 1) rfl rfl (.inr ⟨rfl, hfresh⟩) List.nil_suffix
  · rw [if_neg hcap, if_pos (.inl (Nat.le_of_not_lt hcap))]
    exact .payload s.allocs (st.framed n p1).cap hadopted

theorem detect_does (hu : st.useLenFraming = false) :
    Does os s st p (detectPart os s st p) (detect os s st hu p) := by
  unfold detect detectPart
  simp only [wtVarintDecode_eq]
  cases hd : Varint.decode p with
  | none =>
    simp only [ite_self]
    exact .quiet s.allocs rfl rfl (.inl rfl) List.nil_suffix
  | some r =>
    obtain ⟨n, c⟩ := r
    rw [if_neg (Nat.not_lt.2 (needLen_le hd))]
    simp only
    by_cases hn : BadLength n
    · rw [if_pos hn, if_pos hn]
      exact accumulate_does hu
    · rw [if_neg hn, if_neg hn]
      exact adopt_does hu n (List.drop_suffix c p)

/-- What a round does is what its part says. -/
theorem round_does (os : Os) (s : State) (st : WtStream) (p : List UInt8) :
    Does os s st p (part os s st p) (round os s st p) := by
  unfold part
  cases hh : st.headerOk with
  | false =>
    rw [if_pos rfl, round, if_pos (by rw [hh]; rfl)]
    exact readHeader_does
  | true =>
    rw [if_neg Bool.noConfusion]
    cases hu : st.useLenFraming with
    | true =>
      rw [if_pos rfl, round_on hh hu]
      exact .payload s.allocs st.cap (.kept hu)
    | false =>
      rw [if_neg Bool.false_ne_true, round_off hh hu]
      by_cases hc : st.curLen = 0
      · rw [if_pos hc, if_pos hc]
        exact detect_does hu
      · rw [if_neg hc, if_neg hc]
        exact accumulate_does hu

/-- The payload step completes its frame exactly when the bytes reach the frame's end. -/
theorem copyPayload_full_iff (p : List UInt8) (hu : st.useLenFraming = true) (hn : payloadNeed st ≠ 0) :
    (copyPayload st p).got = payloadNeed st ↔ ReachesEnd st p := by
  have hfits := got_le_need st hu
  rw [copyPayload_got]
  unfold ReachesEnd takeLen
  constructor
  · intro h
    refine ⟨hn, ?_⟩
    split at h <;> omega
  · rintro ⟨-, hle⟩
    split <;> omega

/-- What a round makes of state and record: these frames handed on, and a record that holds a whole frame only at the
limit. -/
structure Effect (os : Os) (frames : List (List UInt8)) (s : State) (st : WtStream) (f : Flow) : Prop where
  tried : Tried os st.streamId frames s f.state
  streamId : f.record.streamId = st.streamId
  finished : Finished f.record → Finished st ∨ limitReached f.state = true

theorem receive_effect (hu : st.useLenFraming = true) :
    Effect os (if ReachesEnd st p then [(copyPayload st p).buf] else []) s st (receive os s st p) := by
  by_cases hn : payloadNeed st = 0
  · have hno : ¬ ReachesEnd st p := fun h => h.1 hn
    unfold receive
    rw [if_neg hno, if_pos hn]
    exact ⟨Tried.refl os _ s, rfl, fun h => absurd h (not_finished_off rfl)⟩
  · have hiff := copyPayload_full_iff p hu hn
    have hsave := saveFrame_tried os st.streamId s (copyPayload st p).buf
    unfold receive
    rw [if_neg hn]
    by_cases hend : ReachesEnd st p
    · simp only [if_pos hend, if_pos (hiff.2 hend)]
      by_cases hlim : limitReached (saveFrame os st.streamId s (copyPayload st p).buf) = true
      · -- the record keeps the frame it has just saved
        rw [if_pos hlim]
        exact ⟨hsave.congr rfl rfl rfl rfl rfl rfl, rfl, fun _ => .inr hlim⟩
      · rw [if_neg hlim]
        exact ⟨hsave, rfl, fun h => absurd rfl h.2.1⟩
    · have hnot := mt hiff.1 hend
      simp only [if_neg hend, if_neg hnot]
      exact ⟨Tried.refl os _ s, rfl, fun h => absurd h.2.2 hnot⟩

/-- A round hands on the frames that the part it comes to hands on. -/
theorem round_effect : Effect os (handed os s st p) s st (round os s st p) := by
  have hdoes := round_does os s st p
  unfold handed
  generalize part os s st p = part, round os s st p = f at hdoes
  cases hdoes with
  | quiet n hstate hid hst hleft =>
    refine ⟨(Tried.refl os _ s).congr rfl rfl rfl ?_ ?_ ?_, hid, fun h => .inl ?_⟩
    · rw [hstate]
    · rw [hstate]
    · rw [hstate]
    · rcases hst with hsame | ⟨-, hnot⟩
      · rw [← hsame]
        exact h
      · exact absurd h hnot
  | @payload n cap st1 p1 hstart =>
    obtain ⟨htried, hsame, hfin⟩ := @receive_effect os { s with allocs := n } { st1 with cap := cap } p1 hstart.framed
    refine ⟨?_, hsame.trans hstart.streamId, fun h => ?_⟩
    · rw [← hstart.streamId]
      exact htried.congr rfl rfl rfl rfl rfl rfl
    · cases hstart with
      | kept _ => exact hfin h
      | adopted _ _ _ hfresh _ _ => exact .inr ((hfin h).resolve_left hfresh)
  | jpeg n cap hu =>
    have hsaves := saveFrames_tried os st.streamId (extractJpegs (st.buf ++ p)).1 { s with allocs := n }
    exact ⟨hsaves.congr rfl rfl rfl rfl rfl rfl, rfl, fun h => absurd h (not_finished_off hu)⟩

end Rounds

/-! ## The rounds of a call -/

section Loop

variable {os : Os} {s s' : State} {st st' : WtStream} {p : List UInt8}

theorem whileBody_next {s1 : State} {st1 : WtStream} {p1 : List UInt8}
    (h : whileBody os (s, st, p) = .inr (s1, st1, p1)) : p ≠ [] ∧ round os s st p = .next s1 st1 p1 := by
  cases p with
  | nil => cases h
  | cons b p =>
    refine ⟨List.cons_ne_nil b p, ?_⟩
    cases hr : round os s st (b :: p) with
    | next s2 st2 p2 =>
      simp only [whileBody, hr] at h
      cases h
      rfl
    | brk s2 st2 => simp only [whileBody, hr] at h; cases h
    | ret s2 st2 c => simp only [whileBody, hr] at h; cases h

theorem whileBody_exit {code : Int} (h : whileBody os (s, st, p) = .inl (s', st', code)) :
    (p = [] ∧ s' = s) ∨ (p ≠ [] ∧ s' = (round os s st p).state) := by
  cases p with
  | nil =>
    cases h
    exact .inl ⟨rfl, rfl⟩
  | cons b p =>
    refine .inr ⟨List.cons_ne_nil b p, ?_⟩
    cases hr : round os s st (b :: p) with
    | next s2 st2 p2 => simp only [whileBody, hr] at h; cases h
    | brk s2 st2 =>
      simp only [whileBody, hr] at h
      cases h
      rfl
    | ret s2 st2 c =>
      simp only [whileBody, hr] at h
      cases h
      rfl

/-- The loop of a call comes to its end where the `while` loop does. -/
theorem loop_exit : ∀ (fuel : Nat) (s : State) (st : WtStream) (p : List UInt8)
    {s' : State} {st' : WtStream} {code : Int},
    loop os fuel s st p = some (s', st', code) →
    ∃ y, Heads (whileBody os) (s, st, p) y ∧ whileBody os y = .inl (s', st', code)
  | fuel, s, st, [], s', st', code, h => by
    unfold loop at h
    cases h
    exact ⟨_, Heads.refl _, rfl⟩
  | 0, s, st, b :: p, s', st', code, h => by cases h
  | fuel + 1, s, st, b :: p, s', st', code, h => by
    unfold loop at h
    cases hr : round os s st (b :: p) with
    | next s1 st1 p1 =>
      rw [hr] at h
      obtain ⟨y, hy, hend⟩ := loop_exit fuel s1 st1 p1 h
      have hstep : whileBody os (s, st, b :: p) = .inr (s1, st1, p1) := by simp only [whileBody, hr]
      exact ⟨y, ((Heads.refl _).next hstep).trans hy, hend⟩
    | brk s1 st1 =>
      rw [hr] at h
      cases h
      exact ⟨_, Heads.refl _, by simp only [whileBody, hr]⟩
    | ret s1 st1 c =>
      rw [hr] at h
      cases h
      exact ⟨_, Heads.refl _, by simp only [whileBody, hr]⟩

/-- No round takes a saved frame back. -/
theorem round_saved_le (os : Os) (s : State) (st : WtStream) (p : List UInt8) :
    s.app.saved ≤ (round os s st p).state.app.saved := by
  have h : Effect os (handed os s st p) s st (round os s st p) := round_effect
  rw [h.tried.saved]
  omega

theorem heads_saved_le {x y : State × WtStream × List UInt8} (h : Heads (whileBody os) x y) :
    x.1.app.saved ≤ y.1.app.saved := by
  refine heads_inv (I := fun y => x.1.app.saved ≤ y.1.app.saved) ?_ (le_refl _) h
  rintro ⟨s1, st1, p1⟩ ⟨s2, st2, p2⟩ hy hz
  obtain ⟨-, hr⟩ := whileBody_next hz
  have hle := round_saved_le os s1 st1 p1
  rw [hr] at hle
  exact hy.trans hle

theorem exit_saved_le {y : State × WtStream × List UInt8} {code : Int} (h : whileBody os y = .inl (s', st', code)) :
    y.1.app.saved ≤ s'.app.saved := by
  obtain ⟨s, st, p⟩ := y
  rcases whileBody_exit h with ⟨-, rfl⟩ | ⟨-, rfl⟩
  · exact le_refl _
  · exact round_saved_le os s st p

theorem loop_saved_le {fuel : Nat} {code : Int} (hl : loop os fuel s st p = some (s', st', code)) :
    s.app.saved ≤ s'.app.saved := by
  obtain ⟨z, hz, hend⟩ := loop_exit fuel s st p hl
  exact (heads_saved_le hz).trans (exit_saved_le hend)

/-- What a round of the loop saved is saved when the loop ends. -/
theorem head_round_saved_le {y : State × WtStream × List UInt8} {fuel : Nat} {code : Int}
    (hl : loop os fuel s st p = some (s', st', code)) (hy : Heads (whileBody os) (s, st, p) y) (hne : y.2.2 ≠ []) :
    (round os y.1 y.2.1 y.2.2).state.app.saved ≤ s'.app.saved := by
  obtain ⟨⟨sz, stz, pz⟩, hz, hend⟩ := loop_exit fuel s st p hl
  obtain ⟨sy, sty, py⟩ := y
  have hzle : sz.app.saved ≤ s'.app.saved := exit_saved_le hend
  rcases heads_cases (hy.to_exit hz hend) with heq | ⟨⟨sw, stw, pw⟩, hw, hwz⟩
  · cases heq
    rcases whileBody_exit hend with ⟨hnil, -⟩ | ⟨-, rfl⟩
    · exact absurd hnil hne
    · exact le_refl _
  · obtain ⟨-, hr⟩ := whileBody_next hw
    simp only [hr]
    exact (heads_saved_le hwz).trans hzle

end Loop

/-- The record a call works on is found or made without anything being saved. -/
theorem getStream_app (os : Os) (s : State) (sid : Nat) :
    (getStream os s sid).2.app.saved = s.app.saved ∧ (getStream os s sid).2.app.maxFrames = s.app.maxFrames := by
  unfold getStream
  split
  · exact ⟨rfl, rfl⟩
  · split
    · split
      · exact ⟨rfl, rfl⟩
      · exact ⟨rfl, rfl⟩
    · exact ⟨rfl, rfl⟩

theorem fresh_not_finished (sid : Nat) : ¬ Finished (WtStream.fresh sid) := not_finished_off rfl

end Mquic.WtClient
