/-
When the way a stream is cut into calls does not matter to `wt_handle_stream_data`: if no call ends
inside the header or a length, if a PTS varint reads the same in its call as in the stream, and if every
call that continues guessed JPEG data begins with a varint that cannot be a length, the frames saved are
those of the stream in one call.
-/
import Mquic.Client.WtDelivery

namespace Mquic.WtClient

open Mquic.Codec

/-! ## Places between calls -/

/-- Where a call can end: before the header, between records, inside a frame, in JPEG data that was guessed
because no length was there, in JPEG data for good. -/
inductive Place where
  | header
  | between
  | inside (need : Nat) (acc : List UInt8) (h : acc.length < need)
  | guess (buf : List UInt8)
  | raw (buf : List UInt8)

/-- The receiver's mode at that place; the handler cannot tell guessed data from the place between records. -/
def Place.mode : Place → Mode
  | .header => .header
  | .between => .scan []
  | .inside need acc _ => .payload need acc
  | .guess buf => .scan buf
  | .raw buf => .raw buf

/-- The mode that reads the rest of the stream as the call that got there would have: guessed data goes on
as JPEG data. -/
def Place.whole : Place → Mode
  | .header => .header
  | .between => .scan []
  | .inside need acc _ => .payload need acc
  | .guess buf => .raw buf
  | .raw buf => .raw buf

/-- The place after a length `n` and a PTS of `pts` bytes. -/
def Place.framed (n pts : Nat) : Place := if h : n ≤ pts then .raw [] else .inside (n - pts) [] (by simp; omega)

theorem framed_mode (n pts : Nat) : (Place.framed n pts).mode = framed n pts := by
  unfold Place.framed framed
  split <;> rfl

/-- A call with bytes `p`, with `q` still to come of the stream, leads from place to place without cutting an
item whose reading depends on the bytes behind it. -/
inductive Uncut (S : Nat) : Place → List UInt8 → List UInt8 → Place → Prop where
  | done (pl : Place) (q : List UInt8) : Uncut S pl [] q pl
  | header {p q : List UInt8} {c d : Nat} {pl : Place} (h1 : Varint.decode p = some (0x54, c))
      (h2 : Varint.decode (p.drop c) = some (S, d)) (h : Uncut S .between (p.drop (c + d)) q pl) :
      Uncut S .header p q pl
  | length {p q : List UInt8} {n c : Nat} {pl : Place} (h1 : Varint.decode p = some (n, c)) (hn : ¬ BadLength n)
      (hpts : ptsWidth (p.drop c ++ q) = ptsWidth (p.drop c))
      (h : Uncut S (.framed n (ptsWidth (p.drop c))) ((p.drop c).drop (ptsWidth (p.drop c))) q pl) :
      Uncut S .between p q pl
  | fill {p q acc : List UInt8} {need : Nat} (hacc : acc.length < need) (h : (acc ++ p).length < need) :
      Uncut S (.inside need acc hacc) p q (.inside need (acc ++ p) h)
  | complete {p q acc : List UInt8} {need : Nat} {pl : Place} (hacc : acc.length < need)
      (hle : need ≤ acc.length + p.length) (h : Uncut S .between (p.drop (need - acc.length)) q pl) :
      Uncut S (.inside need acc hacc) p q pl
  | guess {p : List UInt8} {n c : Nat} (q : List UInt8) (h1 : Varint.decode p = some (n, c)) (hn : BadLength n) :
      Uncut S .between p q (.guess (extractJpegs p).2)
  | guessMore {p buf : List UInt8} {n c : Nat} (q : List UInt8) (h1 : Varint.decode p = some (n, c))
      (hn : BadLength n) :
      Uncut S (.guess buf) p q (.guess (extractJpegs (buf ++ p)).2)
  | raw {p buf : List UInt8} (q : List UInt8) (hp : p ≠ []) : Uncut S (.raw buf) p q (.raw (extractJpegs (buf ++ p)).2)

/-- The calls cut the stream at places only; what the last call leaves behind does not matter. -/
inductive Aligned (S : Nat) : Place → List (List UInt8) → Prop where
  | nil (pl : Place) : Aligned S pl []
  | last {pl : Place} (c : List UInt8) (h : ∀ buf, pl ≠ .guess buf) : Aligned S pl [c]
  | step {pl pl' : Place} {c : List UInt8} {cs : List (List UInt8)} (h : Uncut S pl c cs.flatten pl')
      (hs : Aligned S pl' cs) : Aligned S pl (c :: cs)

/-! ## One call -/

/-- JPEG data in two calls. -/
theorem absorb_raw_append {S : Nat} (buf : List UInt8) {p : List UInt8} (hp : p ≠ []) (q : List UInt8) :
    (absorb S (.raw buf) (p ++ q)).frames =
      (extractJpegs (buf ++ p)).1 ++ (absorb S (.raw (extractJpegs (buf ++ p)).2) q).frames := by
  have happend := congrArg Prod.fst (extractJpegs_append (buf ++ p) q)
  rw [absorb_raw (by simp [hp]), ← List.append_assoc]
  apply happend.trans
  by_cases hq : q = []
  · subst hq
    rw [absorb_nil S (by simp), List.append_nil, extractJpegs_retained]
  · rw [absorb_raw hq]

theorem absorb_place_nil (S : Nat) (pl : Place) : absorb S pl.mode [] = ⟨pl.mode, [], false⟩ := by
  apply absorb_nil S
  rintro need acc hm
  cases pl with
  | inside need acc h =>
    cases hm
    exact h
  | header | between | guess | raw => cases hm

theorem absorb_whole_nil (S : Nat) (pl : Place) : (absorb S pl.whole []).frames = [] := by
  have hnil : absorb S pl.whole [] = ⟨pl.whole, [], false⟩ := by
    apply absorb_nil S
    rintro need acc hm
    cases pl with
    | inside need acc h =>
      cases hm
      exact h
    | header | between | guess | raw => cases hm
  rw [hnil]

/-- An uncut call leads to its place, and with the frames it saves the rest of the stream yields what all of
it yields in one call. -/
theorem Uncut.absorb_eq {S : Nat} {pl pl' : Place} {p q : List UInt8} (h : Uncut S pl p q pl') :
    ∃ fs, absorb S pl.mode p = ⟨pl'.mode, fs, false⟩ ∧
      (absorb S pl.whole (p ++ q)).frames = fs ++ (absorb S pl'.whole q).frames := by
  induction h with
  | done pl q => exact ⟨[], absorb_place_nil S pl, rfl⟩
  | @header p q c d pl h1 h2 _ ih =>
    obtain ⟨fs, h3, h4⟩ := ih
    obtain ⟨h5, h6⟩ := two_varints_append h1 h2 q
    obtain ⟨-, hc⟩ := Varint.decode_bounds h1
    obtain ⟨-, hd⟩ := Varint.decode_bounds h2
    rw [List.length_drop] at hd
    refine ⟨fs, ?_, ?_⟩
    · rw [Place.mode, absorb_header_some h1 h2, if_pos ⟨rfl, rfl⟩]
      exact h3
    · rw [Place.whole, absorb_header_some h5 h6, if_pos ⟨rfl, rfl⟩,
        List.drop_append_of_le_length (by omega)]
      exact h4
  | @length p q n c pl h1 hn hpts _ ih =>
    obtain ⟨fs, h3, h4⟩ := ih
    obtain ⟨-, hc⟩ := Varint.decode_bounds h1
    have hle : ptsWidth (p.drop c) ≤ (p.drop c).length := ptsWidth_le _
    have hwhole : (Place.framed n (ptsWidth (p.drop c))).whole = framed n (ptsWidth (p.drop c)) := by
      unfold Place.framed framed
      split <;> rfl
    rw [hwhole] at h4
    rw [framed_mode] at h3
    refine ⟨fs, ?_, ?_⟩
    · rw [Place.mode, absorb_scan_some [] h1, if_neg hn]
      exact h3
    · rw [Place.whole, absorb_scan_some [] (Varint.decode_append h1 q), if_neg hn,
        List.drop_append_of_le_length hc, hpts, List.drop_append_of_le_length hle]
      exact h4
  | @fill p q acc need hacc hlt =>
    have hlt' : acc.length + p.length < need := by simpa using hlt
    exact ⟨[], absorb_payload_lt hlt', congrArg Result.frames (absorb_payload_append hlt' q)⟩
  -- the frame that ends is the first of both, and `q` comes behind what is left of `p`
  | @complete p q acc need pl hacc hle _ ih =>
    obtain ⟨fs, h3, h4⟩ := ih
    refine ⟨(acc ++ p.take (need - acc.length)) :: fs, ?_, ?_⟩
    · rw [Place.mode, absorb_payload_ge hle]
      exact congrArg (Result.after _) h3
    · rw [Place.whole, absorb_payload_ge (by simp; omega), List.drop_append_of_le_length (by omega),
        List.take_append_of_le_length (by omega)]
      exact congrArg (List.cons _) h4
  -- from here on the stream is raw data, and what is held of `p` stands before `q`
  | @guess p n c q h1 hn =>
    have hp : p ≠ [] := by rintro rfl; simp at h1
    refine ⟨(extractJpegs p).1, ?_, ?_⟩
    · exact (absorb_scan_some [] h1).trans (if_pos hn)
    · have hwhole := absorb_raw_append [] hp q (S := S)
      rw [absorb_raw (by simp [hp])] at hwhole
      rw [Place.whole, absorb_scan_some [] (Varint.decode_append h1 q), if_pos hn]
      exact hwhole
  | @guessMore p buf n c q h1 hn =>
    have hp : p ≠ [] := by rintro rfl; simp at h1
    exact ⟨_, (absorb_scan_some buf h1).trans (if_pos hn), absorb_raw_append _ hp q⟩
  | raw q hp => exact ⟨_, absorb_raw hp, absorb_raw_append _ hp q⟩

/-! ## All calls -/

/-- Aligned calls save what one call with the whole stream saves. -/
theorem Aligned.savedOver_eq {S : Nat} {pl : Place} {cs : List (List UInt8)} (h : Aligned S pl cs) :
    savedOver S pl.mode cs = (absorb S pl.whole cs.flatten).frames := by
  induction h with
  | nil pl => exact (absorb_whole_nil S pl).symm
  | @last pl c hg =>
    have hmode : pl.whole = pl.mode := by
      cases pl with
      | guess buf => exact absurd rfl (hg buf)
      | header => rfl
      | between => rfl
      | inside need acc h => rfl
      | raw buf => rfl
    rw [hmode]
    simp [savedOver]
  | step h _ ih =>
    obtain ⟨fs, h1, h2⟩ := h.absorb_eq
    rw [savedOver, h1, List.flatten_cons, h2, ih]

/-- Two aligned ways to deliver a new stream's bytes save the same frames. -/
theorem aligned_saves_same {os : Os} (ho : os.Succeeds) {s : State} (hm : s.app.maxFrames = 0) {sid : Nat}
    (hs : s.record sid = none) {P Q : List (List UInt8)} (hP : Aligned s.app.sessionCtrlId .header P)
    (hQ : Aligned s.app.sessionCtrlId .header Q) (h : P.flatten = Q.flatten) :
    ∃ s1 s2, calls os s (P.map (sid, ·)) = some s1 ∧ calls os s (Q.map (sid, ·)) = some s2 ∧
      s1.savedFor sid = s2.savedFor sid := by
  obtain ⟨s1, h1, h2, -⟩ := calls_unseen ho hm hs P
  obtain ⟨s2, h3, h4, -⟩ := calls_unseen ho hm hs Q
  refine ⟨s1, s2, h1, h3, ?_⟩
  rw [h2, h4, show Mode.header = Place.mode .header from rfl, hP.savedOver_eq, hQ.savedOver_eq, h]

/-- A frame in three calls: the header; its length, a PTS and the first payload byte; the last payload byte. -/
def threeCalls : List (List UInt8) := [[0x40, 0x54, 0x00], [0x03, 0x05, 0xAA], [0xBB]]

theorem threeCalls_aligned : Aligned 0 .header threeCalls := by
  have hpayload : Uncut 0 (.framed 3 1) [0xAA] [0xBB] (.inside 2 [0xAA] (by decide)) :=
    @Uncut.fill 0 [0xAA] [0xBB] [] 2 (by decide) (by decide)
  have hlength : Uncut 0 .between [0x03, 0x05, 0xAA] [0xBB] (.inside 2 [0xAA] (by decide)) :=
    .length (n := 3) (c := 1) (by decide) (by decide) (by decide) hpayload
  have hheader : Uncut 0 .header [0x40, 0x54, 0x00] [0x03, 0x05, 0xAA, 0xBB] .between :=
    .header (c := 2) (d := 1) (by decide) (by decide) (.done .between _)
  exact .step hheader (.step hlength (.last [0xBB] nofun))

/-- The three calls save what one call saves. -/
theorem threeCalls_saves_same :
    ∃ s1 s2, calls Os.sound (State.init "" 0 0) (threeCalls.map (3, ·)) = some s1 ∧
      calls Os.sound (State.init "" 0 0) ([threeCalls.flatten].map (3, ·)) = some s2 ∧ s1.savedFor 3 = s2.savedFor 3 :=
  aligned_saves_same Os.sound_succeeds rfl rfl threeCalls_aligned (.last _ nofun) (by simp)

/-- The stream `40 54 00 01 FF` in one call saves its frame; with the first byte in a call of its own, the
header is lost and nothing is saved. -/
theorem cut_header_differs :
    [[0x40, 0x54, 0x00, 0x01, 0xFF]].flatten = [[0x40], [0x54, 0x00, 0x01, 0xFF]].flatten ∧
      (calls Os.sound (State.init "" 0 0) ([[0x40, 0x54, 0x00, 0x01, 0xFF]].map (3, ·))).map (·.savedFor 3) =
          some [[0xFF]] ∧
      (calls Os.sound (State.init "" 0 0) ([[0x40], [0x54, 0x00, 0x01, 0xFF]].map (3, ·))).map (·.savedFor 3) =
          some [] := by
  refine ⟨rfl, ?_, ?_⟩
  · decide
  · decide

/-! ## Bytes for which no partition matters -/

/-- Every partition of a byte string saves the same frames just when none saves any: byte by byte, nothing is
ever saved. -/
theorem all_same_iff_none (S : Nat) (bs : List UInt8) :
    (∀ P Q : List (List UInt8), (∀ c ∈ P, c ≠ []) → (∀ c ∈ Q, c ≠ []) → P.flatten = bs → Q.flatten = bs →
      savedOver S .header P = savedOver S .header Q) ↔
    ∀ P : List (List UInt8), (∀ c ∈ P, c ≠ []) → P.flatten = bs → savedOver S .header P = [] := by
  constructor
  · intro h P hP hfl
    have hbytes : ∀ c ∈ bs.map ([·]), c ≠ [] := by
      intro c hc
      obtain ⟨b, -, rfl⟩ := List.mem_map.1 hc
      exact List.cons_ne_nil b []
    rw [h P _ hP hbytes hfl (flatten_singletons bs)]
    have := (bytewise_lost S [] bs).1
    rwa [List.append_nil] at this
  · intro h P Q hP hQ hflP hflQ
    rw [h P hP hflP, h Q hQ hflQ]

end Mquic.WtClient
