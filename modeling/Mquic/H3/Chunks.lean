/-
The loop that feeds `h3zero_parse_data_stream` the chunks of a stream, until each is consumed. What comes of the
bytes does not depend on how they are cut (`receiveAll_eq`), so a HEADERS frame at the start of a stream is
accepted or refused by its block alone (`receive_headers`).
-/
import Mquic.H3.Stream

namespace Mquic.H3

/-! ## The callers' loop -/

/-- While a frame header is being read, it is incomplete. -/
def DataStreamState.Waits (s : DataStreamState) : Prop :=
  s.frameHeaderParsed = false → frameHeaderOf s.frameHeader = none

theorem DataStreamState.fresh_waits : DataStreamState.fresh.Waits := fun _ => rfl

/-- A stream being received: the parser's state, and the data taken from it. -/
structure Rx where
  state : DataStreamState
  data : List UInt8
  waits : state.Waits

/-- A new stream. -/
def Rx.fresh : Rx := ⟨.fresh, [], DataStreamState.fresh_waits⟩

/-- The checks on a frame header refuse it, or go on in a state with the content to come. -/
theorem startFrame_cases {s : DataStreamState} (hs : s.frameHeaderParsed = true) :
    (∃ code, ∀ bytes, startFrame s bytes = .error s code) ∨
      ∃ s', s'.frameHeaderParsed = true ∧ ∀ bytes, startFrame s bytes = ⟨s', some bytes, 0, 0⟩ := by
  unfold startFrame
  split_ifs
  · exact .inl ⟨_, fun _ => rfl⟩
  · exact .inr ⟨s, hs, fun _ => rfl⟩
  · exact .inl ⟨_, fun _ => rfl⟩
  · exact .inl ⟨_, fun _ => rfl⟩
  · exact .inr ⟨s, hs, fun _ => rfl⟩
  · exact .inl ⟨_, fun _ => rfl⟩
  · exact .inr ⟨_, rfl, fun _ => rfl⟩
  · exact .inl ⟨_, fun _ => rfl⟩
  · exact .inl ⟨_, fun _ => rfl⟩
  · exact .inr ⟨s, hs, fun _ => rfl⟩

theorem waits_of_parsed {s : DataStreamState} (hs : s.frameHeaderParsed = true) : s.Waits :=
  fun hf => absurd (hs.symm.trans hf) nofun

theorem parseHeaderBytes_waits {mem : Mem} {s : DataStreamState} (hs : s.frameHeaderParsed = true) (n : Nat)
    (bytes : List UInt8) : (parseHeaderBytes mem s n bytes).state.Waits := by
  unfold parseHeaderBytes
  split
  · exact waits_of_parsed hs
  · unfold endHeaderBytes
    simp only
    split
    · split
      · exact fun _ => rfl
      · exact fun _ => rfl
    · exact waits_of_parsed hs

theorem parseContent_waits {mem : Mem} {s : DataStreamState} (hs : s.frameHeaderParsed = true) (bytes : List UInt8) :
    (parseContent mem s bytes).state.Waits := by
  unfold parseContent
  simp only
  split
  · exact waits_of_parsed hs
  · split
    · exact parseHeaderBytes_waits hs _ bytes
    · split
      · split
        · exact fun _ => rfl
        · exact waits_of_parsed hs
      · split
        · exact fun _ => rfl
        · exact waits_of_parsed hs

theorem parseDataStream_waits (mem : Mem) {s : DataStreamState} (hs : s.Waits) (bytes : List UInt8) :
    (parseDataStream mem s bytes).state.Waits := by
  unfold parseDataStream
  by_cases hb : bytes = []
  · rw [if_pos hb]
    exact hs
  · rw [if_neg hb]
    cases hp : s.frameHeaderParsed with
    | false =>
      rw [Bool.not_false, if_pos rfl, parseFrameHeader_eq hb (hs hp)]
      cases hx : frameHeaderOf (s.frameHeader ++ bytes) with
      | none =>
        rw [DataStreamState.afterHeader_none hx]
        exact fun _ => hx
      | some h =>
        rw [DataStreamState.afterHeader_some hx]
        rcases startFrame_cases (s := s.started ((s.frameHeader ++ bytes).take h.2.2) h.1 h.2.1) rfl with
          ⟨code, he⟩ | ⟨s', hs', he⟩
        · simp only [he]
          exact waits_of_parsed rfl
        · simp only [he]
          exact waits_of_parsed hs'
    | true =>
      rw [Bool.not_true, if_neg Bool.false_ne_true]
      exact parseContent_waits hp bytes

/-- One call of the parser: the stream and the bytes left, or the error. -/
def call (mem : Mem) (rx : Rx) (bytes : List UInt8) : Except Nat (Rx × List UInt8) :=
  let parsed := parseDataStream mem rx.state bytes
  match parsed.rest with
  | none => .error parsed.errorFound
  | some rest =>
    .ok (⟨parsed.state, rx.data ++ rest.take parsed.availableData, parseDataStream_waits mem rx.waits bytes⟩,
      rest.drop parsed.availableData)

/-- What the loop still has to do. -/
def todo (rx : Rx) (bytes : List UInt8) : Nat := 2 * bytes.length + if rx.state.frameHeaderParsed then 1 else 0

theorem available_eq (s : DataStreamState) (n : Nat) :
    s.available n = min n (s.currentFrameLength - s.currentFrameRead) := by
  unfold DataStreamState.available
  split <;> omega

theorem parse_header {mem : Mem} {s : DataStreamState} (hs : s.Waits) (hp : s.frameHeaderParsed = false)
    {bytes : List UInt8} (hb : bytes ≠ []) :
    parseDataStream mem s bytes = s.afterHeader (s.frameHeader ++ bytes) := by
  rw [parseDataStream, if_neg hb, hp, Bool.not_false, if_pos rfl, parseFrameHeader_eq hb (hs hp)]

theorem parse_content {mem : Mem} {s : DataStreamState} (hp : s.frameHeaderParsed = true) {bytes : List UInt8}
    (hb : bytes ≠ []) : parseDataStream mem s bytes = parseContent mem s bytes := by
  rw [parseDataStream, if_neg hb, hp, Bool.not_true, if_neg Bool.false_ne_true]

theorem parseHeaderBytes_todo {mem : Mem} {s : DataStreamState} {n : Nat} {bytes rest : List UInt8}
    (h : (parseHeaderBytes mem s n bytes).rest = some rest) :
    rest = bytes.drop n ∧ (parseHeaderBytes mem s n bytes).availableData = 0 ∧
      ((parseHeaderBytes mem s n bytes).state.frameHeaderParsed = false ∨
        ((parseHeaderBytes mem s n bytes).state.frameHeaderParsed = s.frameHeaderParsed ∧
          s.currentFrameRead + n < s.currentFrameLength)) := by
  revert h
  unfold parseHeaderBytes
  split
  · nofun
  · unfold endHeaderBytes
    simp only
    split
    · split
      · rintro ⟨⟩
        exact ⟨rfl, rfl, .inl rfl⟩
      · nofun
    · rename_i hlt
      rintro ⟨⟩
      exact ⟨rfl, rfl, .inr ⟨rfl, Nat.lt_of_not_le hlt⟩⟩

/-- A call on content takes bytes, or ends the frame. -/
theorem parseContent_todo {mem : Mem} {s : DataStreamState} (hp : s.frameHeaderParsed = true)
    {bytes rest : List UInt8} (hb : bytes ≠ []) (h : (parseContent mem s bytes).rest = some rest) :
    2 * (rest.length - (parseContent mem s bytes).availableData) +
        (if (parseContent mem s bytes).state.frameHeaderParsed then 1 else 0) < 2 * bytes.length + 1 := by
  have hpos := List.length_pos_of_ne_nil hb
  have havail := available_eq s bytes.length
  revert h
  -- HEADERS, DATA, and frames of other types, each read to its end or in part
  unfold parseContent
  simp only
  split
  · rintro ⟨⟩
    dsimp only
    omega
  · split
    · intro h
      obtain ⟨rfl, h0, hflag⟩ := parseHeaderBytes_todo h
      rw [h0, List.length_drop]
      rcases hflag with hflag | ⟨hflag, hlt⟩
      · rw [hflag]
        simp only [Bool.false_eq_true, if_false]
        omega
      · rw [hflag, hp]
        simp only [if_true]
        omega
    · split
      · split
        · rintro ⟨⟩
          simp only [DataStreamState.nextFrame, Bool.false_eq_true, if_false]
          omega
        · rename_i hlt
          rintro ⟨⟩
          dsimp only
          omega
      · split
        · rintro ⟨⟩
          simp only [DataStreamState.nextFrame, Bool.false_eq_true, if_false, List.length_drop]
          omega
        · rename_i hlt
          rintro ⟨⟩
          rw [List.length_drop]
          dsimp only
          omega

/-- Every call that does not fail leaves less to do. -/
theorem parse_todo {mem : Mem} {s : DataStreamState} (hs : s.Waits) {bytes rest : List UInt8}
    (h : (parseDataStream mem s bytes).rest = some rest) :
    2 * (rest.length - (parseDataStream mem s bytes).availableData) +
        (if (parseDataStream mem s bytes).state.frameHeaderParsed then 1 else 0) <
      2 * bytes.length + if s.frameHeaderParsed then 1 else 0 := by
  by_cases hb : bytes = []
  · rw [parseDataStream, if_pos hb] at h
    cases h
  have hpos := List.length_pos_of_ne_nil hb
  cases hp : s.frameHeaderParsed with
  | false =>
    rw [parse_header hs hp hb] at h ⊢
    cases hx : frameHeaderOf (s.frameHeader ++ bytes) with
    | none =>
      rw [DataStreamState.afterHeader_none hx] at h ⊢
      cases h
      simp only [DataStreamState.waiting, hp, Bool.false_eq_true, if_false, List.length_nil]
      omega
    | some x =>
      obtain ⟨frameType, length, w⟩ := x
      have hw := frameHeaderOf_longer (hs hp) hx
      rw [DataStreamState.afterHeader_some hx] at h ⊢
      rcases startFrame_cases (s := s.started ((s.frameHeader ++ bytes).take w) frameType length) rfl with
        ⟨code, he⟩ | ⟨s', hs', he⟩
      · simp only [he] at h
        cases h
      · simp only [he, Option.some.injEq] at h ⊢
        subst h
        rw [hs', List.length_drop, List.length_append]
        simp only [if_true]
        omega
  | true =>
    rw [parse_content hp hb] at h ⊢
    exact parseContent_todo hp hb h

theorem call_todo {mem : Mem} {rx rx' : Rx} {bytes rest : List UInt8} (h : call mem rx bytes = .ok (rx', rest)) :
    todo rx' rest < todo rx bytes := by
  unfold call at h
  simp only at h
  split at h
  · cases h
  · rename_i rest0 hrest
    cases h
    have := parse_todo rx.waits hrest
    unfold todo
    rw [List.length_drop]
    exact this

/-- `while (bytes < bytes_max)`: calls until the chunk is consumed, or the first error. -/
def receive (mem : Mem) (rx : Rx) (bytes : List UInt8) : Except Nat Rx :=
  if bytes = [] then .ok rx
  else
    match _h : call mem rx bytes with
    | .error code => .error code
    | .ok (rx', rest) => receive mem rx' rest
termination_by todo rx bytes
decreasing_by exact call_todo _h

/-- A stream in chunks. -/
def receiveAll (mem : Mem) (rx : Rx) (chunks : List (List UInt8)) : Except Nat Rx := chunks.foldlM (receive mem) rx

/-! ## Chunks -/

theorem receive_nil (mem : Mem) (rx : Rx) : receive mem rx [] = .ok rx := by rw [receive, if_pos rfl]

theorem receive_step {mem : Mem} {rx : Rx} {bytes : List UInt8} (hb : bytes ≠ []) :
    receive mem rx bytes = (call mem rx bytes).bind fun r => receive mem r.1 r.2 := by
  conv_lhs => rw [receive, if_neg hb]
  split
  · rename_i code h
    rw [h]
    rfl
  · rename_i rx' rest h
    rw [h]
    rfl

/-- How a call on `a ++ b` compares with the call on `a`: it fails too; it stops where that one does; or that
one took all of `a`, and it does what a second call on `b` would do. -/
def Splits (mem : Mem) (s : DataStreamState) (a b : List UInt8) : Prop :=
  ((parseDataStream mem s a).rest = none ∧ parseDataStream mem s (a ++ b) = parseDataStream mem s a) ∨
    (∃ rest, (parseDataStream mem s a).rest = some rest ∧ (parseDataStream mem s a).availableData ≤ rest.length ∧
      parseDataStream mem s (a ++ b) = { parseDataStream mem s a with rest := some (rest ++ b) }) ∨
    ∃ rest, (parseDataStream mem s a).rest = some rest ∧ (parseDataStream mem s a).availableData = rest.length ∧
      parseDataStream mem s (a ++ b) =
        let second := parseDataStream mem (parseDataStream mem s a).state b
        ⟨second.state, second.rest.map (rest ++ ·), rest.length + second.availableData, second.errorFound⟩

theorem Parsed.after_nothing (r : Parsed) :
    r = ⟨r.state, r.rest.map ([] ++ ·), ([] : List UInt8).length + r.availableData, r.errorFound⟩ := by
  obtain ⟨state, rest, n, code⟩ := r
  cases rest <;> simp

theorem waiting_waiting (s : DataStreamState) (x y : List UInt8) :
    (s.waiting x).waiting (x ++ y) = s.waiting (x ++ y) := by
  unfold DataStreamState.waiting
  cases hxy : Varint.decode (x ++ y) with
  | some r => rfl
  | none =>
    cases hx : Varint.decode x with
    | none => rfl
    | some r =>
      rw [Varint.decode_append hx y] at hxy
      cases hxy

theorem header_splits {mem : Mem} {s : DataStreamState} (hs : s.Waits) (hp : s.frameHeaderParsed = false)
    {a b : List UInt8} (ha : a ≠ []) (hb : b ≠ []) : Splits mem s a b := by
  have hab : a ++ b ≠ [] := List.append_ne_nil_of_left_ne_nil ha b
  cases hx : frameHeaderOf (s.frameHeader ++ a) with
  | none =>
    -- what was read of the header waits in the state
    refine .inr (.inr ⟨[], ?_⟩)
    have hwaits : (s.waiting (s.frameHeader ++ a)).Waits := fun _ => hx
    rw [parse_header hs hp ha, DataStreamState.afterHeader_none hx, parse_header hs hp hab, parse_header hwaits hp hb]
    refine ⟨rfl, rfl, ?_⟩
    have hread : (s.waiting (s.frameHeader ++ a)).frameHeader ++ b = s.frameHeader ++ (a ++ b) := List.append_assoc ..
    rw [hread]
    cases hx' : frameHeaderOf (s.frameHeader ++ (a ++ b)) with
    | some x =>
      rw [DataStreamState.afterHeader_some hx', DataStreamState.afterHeader_some hx']
      exact Parsed.after_nothing _
    | none =>
      refine Eq.trans ?_ (Parsed.after_nothing _)
      rw [DataStreamState.afterHeader_none hx', DataStreamState.afterHeader_none hx', ← List.append_assoc,
        waiting_waiting]
  | some x =>
    obtain ⟨frameType, length, w⟩ := x
    have hw := frameHeaderOf_longer (hs hp) hx
    obtain ⟨-, hle⟩ := frameHeaderOf_bounds hx
    have hx' : frameHeaderOf (s.frameHeader ++ (a ++ b)) = some (frameType, length, w) := by
      rw [← List.append_assoc]
      exact frameHeaderOf_append hx b
    unfold Splits
    rw [parse_header hs hp ha, DataStreamState.afterHeader_some hx, parse_header hs hp hab,
      DataStreamState.afterHeader_some hx']
    rw [← List.append_assoc, List.take_append_of_le_length hle, List.drop_append_of_le_length hle]
    rcases startFrame_cases (s := s.started ((s.frameHeader ++ a).take w) frameType length) rfl with
      ⟨code, he⟩ | ⟨s', hs', he⟩
    · rw [he, he]
      exact .inl ⟨rfl, rfl⟩
    · rw [he, he]
      exact .inr (.inl ⟨_, rfl, Nat.zero_le _, rfl⟩)

/-- What follows the bytes copied is returned as it is. -/
theorem endHeaderBytes_rest (mem : Mem) (s : DataStreamState) (frame rest : List UInt8) :
    (∃ t code, ∀ more, endHeaderBytes mem s frame (rest ++ more) = .error t code) ∨
      ∃ t, ∀ more, endHeaderBytes mem s frame (rest ++ more) = ⟨t, some (rest ++ more), 0, 0⟩ := by
  unfold endHeaderBytes
  by_cases hend : s.currentFrameRead ≥ s.currentFrameLength
  · by_cases hparsed : (parseQpackHeaderFrame mem frame).1 = some []
    · simp only [if_pos hend, if_pos hparsed]
      exact .inr ⟨_, fun _ => rfl⟩
    · simp only [if_pos hend, if_neg hparsed]
      exact .inl ⟨_, _, fun _ => rfl⟩
  · simp only [if_neg hend]
    exact .inr ⟨_, fun _ => rfl⟩

/-- A header block that ends in the first part. -/
theorem headerBytes_end {mem : Mem} {s : DataStreamState} {n : Nat} {a : List UInt8} (hn : n ≤ a.length)
    (b : List UInt8) :
    ((parseHeaderBytes mem s n a).rest = none ∧ parseHeaderBytes mem s n (a ++ b) = parseHeaderBytes mem s n a) ∨
      ∃ rest, (parseHeaderBytes mem s n a).rest = some rest ∧
        (parseHeaderBytes mem s n a).availableData ≤ rest.length ∧
        parseHeaderBytes mem s n (a ++ b) = { parseHeaderBytes mem s n a with rest := some (rest ++ b) } := by
  unfold parseHeaderBytes
  cases s.buffer mem with
  | none => exact .inl ⟨rfl, rfl⟩
  | some frame =>
    simp only
    rw [List.take_append_of_le_length hn, List.drop_append_of_le_length hn]
    rcases endHeaderBytes_rest mem { s with currentFrameRead := s.currentFrameRead + n } (frame ++ a.take n)
      (a.drop n) with ⟨t, code, h⟩ | ⟨t, h⟩
    · have h0 := h []
      rw [List.append_nil] at h0
      rw [h0, h b]
      exact .inl ⟨rfl, rfl⟩
    · have h0 := h []
      rw [List.append_nil] at h0
      rw [h0, h b]
      exact .inr ⟨_, rfl, Nat.zero_le _, rfl⟩

/-- A header block that goes on behind the first part. -/
theorem headerBytes_go_on {mem : Mem} {s : DataStreamState} {a : List UInt8} {k : Nat} (hk : a.length ≤ k)
    (hlt : s.currentFrameRead + a.length < s.currentFrameLength) (b : List UInt8) :
    ((parseHeaderBytes mem s a.length a).rest = none ∧
        parseHeaderBytes mem s k (a ++ b) = parseHeaderBytes mem s a.length a) ∨
      ∃ frame, parseHeaderBytes mem s a.length a =
          ⟨{ s with currentFrame := some frame, currentFrameRead := s.currentFrameRead + a.length }, some [], 0, 0⟩ ∧
        parseHeaderBytes mem s k (a ++ b) = parseHeaderBytes mem
          { s with currentFrame := some frame, currentFrameRead := s.currentFrameRead + a.length }
          (k - a.length) b := by
  unfold parseHeaderBytes
  cases s.buffer mem with
  | none => exact .inl ⟨rfl, rfl⟩
  | some frame =>
    refine .inr ⟨frame ++ a, ?_, ?_⟩
    · simp only [List.take_length, List.drop_length]
      unfold endHeaderBytes
      rw [if_neg (by exact Nat.not_le.2 hlt)]
    · have htake : (a ++ b).take k = a ++ b.take (k - a.length) := by
        rw [List.take_append, List.take_of_length_le hk]
      have hdrop : (a ++ b).drop k = b.drop (k - a.length) := by
        rw [List.drop_append, List.drop_eq_nil_of_le hk, List.nil_append]
      have hread : s.currentFrameRead + k = s.currentFrameRead + a.length + (k - a.length) := by omega
      simp only [DataStreamState.buffer, htake, hdrop, hread, List.append_assoc]
      rfl

/-- Content that ends in the first part. -/
theorem content_end {mem : Mem} {s : DataStreamState} (hp : s.frameHeaderParsed = true)
    (hw : s.isWebTransport = false) {a b : List UInt8} (ha : a ≠ [])
    (hn : s.currentFrameLength - s.currentFrameRead ≤ a.length) : Splits mem s a b := by
  have hab : a ++ b ≠ [] := List.append_ne_nil_of_left_ne_nil ha b
  have hone : s.available a.length = s.currentFrameLength - s.currentFrameRead := by rw [available_eq]; omega
  have hall : s.available (a ++ b).length = s.currentFrameLength - s.currentFrameRead := by
    rw [available_eq, List.length_append]; omega
  unfold Splits
  rw [parse_content hp ha, parse_content hp hab]
  unfold parseContent
  rw [hone, hall, hw]
  generalize s.currentFrameLength - s.currentFrameRead = n at *
  simp only [Bool.false_eq_true, if_false]
  split
  · rcases headerBytes_end hn b with h | h
    · exact .inl h
    · exact .inr (.inl h)
  · split
    · split
      · exact .inr (.inl ⟨a, rfl, hn, rfl⟩)
      · exact .inr (.inl ⟨a, rfl, hn, rfl⟩)
    · rw [List.drop_append_of_le_length hn]
      split
      · exact .inr (.inl ⟨_, rfl, Nat.zero_le _, rfl⟩)
      · exact .inr (.inl ⟨_, rfl, Nat.zero_le _, rfl⟩)

/-- The call on content that is no header block, `n` bytes of it. -/
theorem parseContent_plain {mem : Mem} {t : DataStreamState} (htw : t.isWebTransport = false)
    (ht : t.currentFrameType ≠ h3zeroFrameHeader) {bytes : List UInt8} {n m : Nat} (hn : t.available bytes.length = n)
    (hm : t.currentFrameRead + n = m) :
    parseContent mem t bytes =
      if t.currentFrameType = h3zeroFrameData then
        ⟨if m ≥ t.currentFrameLength then
            { DataStreamState.nextFrame { t with currentFrameRead := m } with dataFound := true }
          else { t with currentFrameRead := m }, some bytes, n, 0⟩
      else
        ⟨if m ≥ t.currentFrameLength then DataStreamState.nextFrame { t with currentFrameRead := m }
          else { t with currentFrameRead := m }, some (bytes.drop n), 0, 0⟩ := by
  unfold parseContent
  rw [htw, hn]
  simp only [Bool.false_eq_true, if_false, if_neg ht, hm]
  split <;> split <;> rfl

/-- Content that goes on behind the first part. -/
theorem content_go_on {mem : Mem} {s : DataStreamState} (hp : s.frameHeaderParsed = true)
    (hw : s.isWebTransport = false) {a b : List UInt8} (ha : a ≠ []) (hb : b ≠ [])
    (hn : a.length < s.currentFrameLength - s.currentFrameRead) :
    Splits mem s a b := by
  have hab : a ++ b ≠ [] := List.append_ne_nil_of_left_ne_nil ha b
  have hone : s.available a.length = a.length := by rw [available_eq]; omega
  obtain ⟨k, hk, hall⟩ : ∃ k, a.length ≤ k ∧ s.available (a ++ b).length = k :=
    ⟨_, by rw [available_eq, List.length_append]; omega, rfl⟩
  -- the second part in the state the first leaves
  have hsecond : ∀ t : DataStreamState, t.currentFrameRead = s.currentFrameRead + a.length →
      t.currentFrameLength = s.currentFrameLength → t.available b.length = k - a.length := by
    intro t hread hlength
    rw [available_eq, List.length_append] at hall
    rw [available_eq, hread, hlength]
    omega
  have hcontent : ∀ t : DataStreamState, t.frameHeaderParsed = true →
      parseDataStream mem t b = parseContent mem t b :=
    fun t ht => parse_content ht hb
  have hlt : s.currentFrameRead + a.length < s.currentFrameLength := by omega
  have hread : s.currentFrameRead + a.length + (k - a.length) = s.currentFrameRead + k := by omega
  unfold Splits
  rw [parse_content hp ha, parse_content hp hab]
  by_cases hheader : s.currentFrameType = h3zeroFrameHeader
  · have hparse : ∀ t : DataStreamState, t.isWebTransport = false → t.currentFrameType = h3zeroFrameHeader →
        ∀ bytes, parseContent mem t bytes = parseHeaderBytes mem t (t.available bytes.length) bytes := by
      intro t htw ht bytes
      unfold parseContent
      rw [htw]
      simp only [Bool.false_eq_true, if_false, if_pos ht]
    rw [hparse s hw hheader, hparse s hw hheader, hone, hall]
    rcases headerBytes_go_on hk hlt b with h | ⟨frame, h1, h2⟩
    · exact .inl h
    · refine .inr (.inr ⟨[], ?_⟩)
      rw [h1, h2]
      refine ⟨rfl, rfl, ?_⟩
      refine Eq.trans ?_ (Parsed.after_nothing _)
      rw [hcontent _ (by exact hp), hparse _ (by exact hw) (by exact hheader), hsecond _ (by rfl) (by rfl)]
  · have hfirst := @parseContent_plain mem s hw hheader a _ _ hone rfl
    have hboth := @parseContent_plain mem s hw hheader (a ++ b) _ _ hall rfl
    have hnext := @parseContent_plain mem { s with currentFrameRead := s.currentFrameRead + a.length }
      hw hheader b _ _ (hsecond _ rfl rfl) hread
    refine .inr (.inr ?_)
    by_cases hdata : s.currentFrameType = h3zeroFrameData
    · rw [if_pos hdata, if_neg (Nat.not_le.2 hlt)] at hfirst
      rw [if_pos hdata] at hboth hnext
      rw [hfirst]
      refine ⟨a, rfl, rfl, ?_⟩
      simp only
      rw [hcontent _ (by exact hp), hnext, hboth]
      simp only [Option.map_some, Nat.add_sub_cancel' hk]
    · rw [if_neg hdata, if_neg (Nat.not_le.2 hlt), List.drop_length] at hfirst
      have hdrop : (a ++ b).drop k = b.drop (k - a.length) := by
        rw [List.drop_append, List.drop_eq_nil_of_le hk, List.nil_append]
      rw [if_neg hdata, hdrop] at hboth
      rw [if_neg hdata] at hnext
      rw [hfirst]
      refine ⟨[], rfl, rfl, ?_⟩
      refine Eq.trans ?_ (Parsed.after_nothing _)
      rw [hcontent _ (by exact hp), hnext, hboth]

theorem content_splits {mem : Mem} {s : DataStreamState} (hp : s.frameHeaderParsed = true)
    {a b : List UInt8} (ha : a ≠ []) (hb : b ≠ []) : Splits mem s a b := by
  cases hw : s.isWebTransport with
  | true =>
    have hab : a ++ b ≠ [] := List.append_ne_nil_of_left_ne_nil ha b
    have hwt : ∀ bytes, parseContent mem s bytes = ⟨s, some bytes, bytes.length, 0⟩ := by
      intro bytes
      rw [parseContent, if_pos hw]
    unfold Splits
    rw [parse_content hp ha, parse_content hp hab, hwt, hwt]
    refine .inr (.inr ⟨a, rfl, rfl, ?_⟩)
    simp only
    rw [parse_content hp hb, hwt, List.length_append]
    rfl
  | false =>
    by_cases hn : a.length < s.currentFrameLength - s.currentFrameRead
    · exact content_go_on hp hw ha hb hn
    · exact content_end hp hw ha (Nat.le_of_not_lt hn)

theorem parse_splits (mem : Mem) {s : DataStreamState} (hs : s.Waits) {a b : List UInt8} (ha : a ≠ []) (hb : b ≠ []) :
    Splits mem s a b := by
  cases hp : s.frameHeaderParsed with
  | false => exact header_splits hs hp ha hb
  | true => exact content_splits hp ha hb

theorem call_ok {mem : Mem} {rx : Rx} {bytes rest : List UInt8} {s : DataStreamState} {n code : Nat}
    (h : parseDataStream mem rx.state bytes = ⟨s, some rest, n, code⟩) (hs : s.Waits) :
    call mem rx bytes = .ok (⟨s, rx.data ++ rest.take n, hs⟩, rest.drop n) := by
  unfold call
  simp only [h]

theorem call_error {mem : Mem} {rx : Rx} {bytes : List UInt8} (h : (parseDataStream mem rx.state bytes).rest = none) :
    call mem rx bytes = .error (parseDataStream mem rx.state bytes).errorFound := by
  unfold call
  simp only [h]

/-- Receiving what follows is receiving it after what came before. -/
theorem receive_append (mem : Mem) (rx : Rx) (a b : List UInt8) :
    receive mem rx (a ++ b) = (receive mem rx a).bind fun rx' => receive mem rx' b := by
  by_cases ha : a = []
  · subst ha
    rw [receive_nil]
    rfl
  by_cases hb : b = []
  · subst hb
    rw [List.append_nil]
    cases receive mem rx a with
    | error code => rfl
    | ok rx' => exact (receive_nil mem rx').symm
  have hab : a ++ b ≠ [] := List.append_ne_nil_of_left_ne_nil ha b
  have hsplit := parse_splits mem rx.waits ha hb
  have hwaits := parseDataStream_waits mem rx.waits a
  unfold Splits at hsplit
  cases hp : parseDataStream mem rx.state a with
  | mk s rest n code =>
    rw [hp] at hsplit hwaits
    rcases hsplit with ⟨hnone, he⟩ | ⟨rest, hrest, hle, he⟩ | ⟨rest, hrest, hlen, he⟩
    · have h1 : call mem rx a = .error _ := call_error (by rw [hp]; exact hnone)
      have h2 : call mem rx (a ++ b) = .error _ := call_error (by rw [he]; exact hnone)
      rw [receive_step hab, receive_step ha, h1, h2, hp, he]
      rfl
    · cases hrest
      have h1 : call mem rx a = .ok (⟨s, rx.data ++ rest.take n, hwaits⟩, rest.drop n) := call_ok hp hwaits
      have h2 : call mem rx (a ++ b) = .ok (⟨s, rx.data ++ rest.take n, hwaits⟩, rest.drop n ++ b) := by
        rw [call_ok he hwaits, List.take_append_of_le_length hle, List.drop_append_of_le_length hle]
      rw [receive_step hab, receive_step ha, h1, h2]
      -- the first call left bytes of its own: they come before `b`
      have hless := call_todo h1
      exact receive_append mem ⟨s, rx.data ++ rest.take n, hwaits⟩ (rest.drop n) b
    · cases hrest
      have hn : n = rest.length := hlen
      have h1 : call mem rx a = .ok (⟨s, rx.data ++ rest, hwaits⟩, []) := by
        rw [call_ok hp hwaits]
        simp only [hn, List.take_length, List.drop_length]
      rw [receive_step hab, receive_step ha, h1]
      show _ = (receive mem ⟨s, rx.data ++ rest, hwaits⟩ []).bind _
      rw [receive_nil]
      show _ = receive mem ⟨s, rx.data ++ rest, hwaits⟩ b
      rw [receive_step hb]
      have hwaits' := parseDataStream_waits mem hwaits b
      have hsame : call mem rx (a ++ b) = call mem ⟨s, rx.data ++ rest, hwaits⟩ b := by
        cases hq : parseDataStream mem s b with
        | mk s' rest' n' code' =>
          rw [hq] at he hwaits'
          cases rest' with
          | none =>
            rw [call_error (by rw [he]; rfl), call_error (by rw [hq]), he, hq]
          | some r =>
            have hdata : rx.data ++ (rest ++ r).take (rest.length + n') = rx.data ++ rest ++ r.take n' := by
              rw [List.take_length_add_append, List.append_assoc]
            have hleft : (rest ++ r).drop (rest.length + n') = r.drop n' := List.drop_length_add_append n'
            rw [call_ok he hwaits', call_ok hq hwaits', hleft]
            simp only [hdata]
      rw [hsame]
termination_by todo rx a

/-- A stream is received the same in any chunks. -/
theorem receiveAll_eq (mem : Mem) : ∀ (chunks : List (List UInt8)) (rx : Rx),
    receiveAll mem rx chunks = receive mem rx chunks.flatten
  | [], rx => (receive_nil mem rx).symm
  | c :: cs, rx => by
    rw [List.flatten_cons, receive_append]
    unfold receiveAll
    rw [List.foldlM_cons]
    cases receive mem rx c with
    | error code => rfl
    | ok rx' => exact receiveAll_eq mem cs rx'

/-! ## The first HEADERS frame -/

/-- The stream after its first HEADERS frame, with a block of `n` bytes. -/
def Rx.headed (parts : HeaderParts) (n : Nat) : Rx where
  state := { DataStreamState.fresh with
    header := parts
    currentFrameType := h3zeroFrameHeader
    currentFrameLength := n
    currentFrameRead := n
    headerFound := true }
  data := []
  waits := fun _ => rfl

/-- The stream behind the frame header `l` of its first frame, a HEADERS frame. -/
def DataStreamState.inHeaders (l : List UInt8) (n : Nat) : DataStreamState :=
  DataStreamState.fresh.started l h3zeroFrameHeader n

/-- The start of the first HEADERS frame. -/
theorem startFrame_headers (l : List UInt8) {n : Nat} (hn : n ≤ 0x10000) (bytes : List UInt8) :
    startFrame (DataStreamState.inHeaders l n) bytes =
      ⟨DataStreamState.inHeaders l n, some bytes, 0, 0⟩ := by
  have hdata : ¬ (DataStreamState.inHeaders l n).currentFrameType = h3zeroFrameData :=
    (by decide : ¬ h3zeroFrameHeader = h3zeroFrameData)
  have hlength : ¬ (DataStreamState.inHeaders l n).currentFrameLength > 0x10000 := Nat.not_lt.2 hn
  have hheader : (DataStreamState.inHeaders l n).currentFrameType = h3zeroFrameHeader := rfl
  unfold startFrame
  rw [if_neg hdata, if_pos hheader, if_neg nofun, if_neg hlength]

/-- Its content, in one call. -/
theorem parseContent_headers {mem : Mem} (l : List UInt8) {block : List UInt8} (hle : block.length ≤ 0x10000) :
    parseContent mem (DataStreamState.inHeaders l block.length) block =
      if mem.malloc block.length = true then
        if (parseQpackHeaderFrame mem block).1 = some [] then
          ⟨(Rx.headed (parseQpackHeaderFrame mem block).2 block.length).state, some [], 0, 0⟩
        else
          .error (Rx.headed (parseQpackHeaderFrame mem block).2 block.length).state h3zeroFrameError
      else .error (DataStreamState.inHeaders l block.length) h3zeroInternalError := by
  have havail : (DataStreamState.inHeaders l block.length).available block.length = block.length := by
    rw [available_eq]
    exact Nat.min_self _
  unfold parseContent
  rw [if_neg nofun]
  have hheader : (DataStreamState.inHeaders l block.length).currentFrameType = h3zeroFrameHeader := rfl
  simp only [havail]
  rw [if_pos hheader]
  unfold parseHeaderBytes
  have hbuffer : (DataStreamState.inHeaders l block.length).buffer mem =
      if mem.malloc block.length = true then some [] else none := by
    show (if block.length ≤ 0x10000 ∧ mem.malloc block.length = true then some [] else none) = _
    simp only [hle, true_and]
  rw [hbuffer]
  by_cases hm : mem.malloc block.length = true
  · have hread : (DataStreamState.inHeaders l block.length).currentFrameRead + block.length = block.length :=
      Nat.zero_add _
    rw [if_pos hm, if_pos hm]
    simp only [List.take_length, List.drop_length, List.nil_append, hread]
    unfold endHeaderBytes
    rw [if_pos (by exact Nat.le_refl _)]
    by_cases hparse : (parseQpackHeaderFrame mem block).1 = some []
    · simp only [if_pos hparse]
      rfl
    · simp only [if_neg hparse]
      rfl
  · rw [if_neg hm, if_neg hm]

/-- A HEADERS frame at the start of a stream is received just when its block parses to the last byte. -/
theorem receive_headers (mem : Mem) {l block : List UInt8}
    (hl : frameHeaderOf l = some (h3zeroFrameHeader, block.length, l.length)) (hne : block ≠ [])
    (hle : block.length ≤ 0x10000) (rest : List UInt8) :
    receive mem .fresh (l ++ (block ++ rest)) =
      if mem.malloc block.length = true then
        if (parseQpackHeaderFrame mem block).1 = some [] then
          receive mem (.headed (parseQpackHeaderFrame mem block).2 block.length) rest
        else .error h3zeroFrameError
      else .error h3zeroInternalError := by
  have hlne : l ≠ [] := by
    rintro rfl
    cases hl
  have hwaits : (DataStreamState.inHeaders l block.length).Waits := waits_of_parsed rfl
  have hstart : parseDataStream mem DataStreamState.fresh l =
      ⟨DataStreamState.inHeaders l block.length, some [], 0, 0⟩ := by
    rw [parse_header DataStreamState.fresh_waits rfl hlne]
    have hread : DataStreamState.fresh.frameHeader ++ l = l := rfl
    rw [hread, DataStreamState.afterHeader_some hl, List.take_length, List.drop_length]
    exact startFrame_headers l hle []
  -- the frame header by itself, then the block in one call
  have hfirst : receive mem .fresh l = .ok ⟨DataStreamState.inHeaders l block.length, [], hwaits⟩ := by
    rw [receive_step hlne, call_ok hstart hwaits]
    exact receive_nil mem _
  rw [receive_append, hfirst]
  show receive mem ⟨_, [], hwaits⟩ (block ++ rest) = _
  rw [receive_append, receive_step hne]
  have hcontent := @parseContent_headers mem l block hle
  rw [← parse_content rfl hne] at hcontent
  by_cases hm : mem.malloc block.length = true
  · rw [if_pos hm] at hcontent ⊢
    by_cases hparse : (parseQpackHeaderFrame mem block).1 = some []
    · rw [if_pos hparse] at hcontent ⊢
      rw [call_ok hcontent (Rx.headed _ _).waits]
      show ((receive mem _ []).bind _) = _
      rw [receive_nil]
      rfl
    · rw [if_neg hparse] at hcontent ⊢
      rw [call_error (by rw [hcontent]; rfl), hcontent]
      rfl
  · rw [if_neg hm] at hcontent ⊢
    rw [call_error (by rw [hcontent]; rfl), hcontent]
    rfl

/-- A HEADERS frame whose block does not parse fails the stream, whatever follows and however it is cut. -/
theorem headers_rejected (mem : Mem) {l block rest : List UInt8}
    (hl : frameHeaderOf l = some (h3zeroFrameHeader, block.length, l.length)) (hne : block ≠ [])
    (hle : block.length ≤ 0x10000) (hparse : (parseQpackHeaderFrame mem block).1 = none) {chunks : List (List UInt8)}
    (hchunks : chunks.flatten = l ++ (block ++ rest)) : ∃ code, receiveAll mem .fresh chunks = .error code := by
  rw [receiveAll_eq, hchunks, receive_headers mem hl hne hle, hparse]
  split
  · exact ⟨_, rfl⟩
  · exact ⟨_, rfl⟩

/-- Bytes that fail in any chunks are not received in any. -/
theorem refused_not_received {mem : Mem} {bytes : List UInt8}
    (hrefused : ∀ chunks : List (List UInt8), chunks.flatten = bytes →
      ∃ code, receiveAll mem .fresh chunks = .error code)
    (P : Rx → Prop) :
    ¬ ∀ chunks : List (List UInt8), chunks.flatten = bytes → ∃ rx, receiveAll mem .fresh chunks = .ok rx ∧ P rx := by
  intro hreceived
  obtain ⟨rx, hok, -⟩ := hreceived [bytes] List.flatten_singleton
  obtain ⟨code, herror⟩ := hrefused [bytes] List.flatten_singleton
  rw [hok] at herror
  cases herror

end Mquic.H3
