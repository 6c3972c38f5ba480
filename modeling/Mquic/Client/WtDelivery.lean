/-
One path stream from the server's writes to `wt_handle_stream_data`: for which session ids and frames
every partition of the stream is received exactly, and which partitions always are. The handler takes a
varint behind a length for a PTS the server never sends, and loses what a chunk cuts of a varint.
-/
import Mquic.Server.Wire
import Mquic.Client.WtReceiver

namespace Mquic.WtClient

open Framing Mquic.Server Mquic.Codec

/-! ## Agreement of sender and receiver -/

/-- Server and handler agree on `frames`, for the session of `s`: whatever the partition of the path
stream into non-empty chunks, the calls for stream `sid` save these frames and never return -1. -/
def Receives (os : Os) (s : State) (sid : Nat) (frames : List (List UInt8)) : Prop :=
  ∀ chunks : List (List UInt8), (∀ c ∈ chunks, c ≠ []) → chunks.flatten = streamBytes s.app.sessionCtrlId frames →
    ∃ s' codes, calls os s (chunks.map (sid, ·)) = some s' ∧ s'.savedFor sid = s.savedFor sid ++ frames ∧
      s'.returned = s.returned ++ codes ∧ -1 ∉ codes

/-- No suffix of `h` but `h` itself begins with two complete varints. -/
def Quiet (h : List UInt8) : Prop :=
  ∀ q, q <:+ h → q ≠ h → ∀ v c, Varint.decode q = some (v, c) → Varint.decode (q.drop c) = none

theorem receives_absorb {os : Os} (ho : os.Succeeds) {s : State} (hm : s.app.maxFrames = 0) {sid : Nat}
    (hs : s.record sid = none) (frames : List (List UInt8)) :
    Receives os s sid frames ↔ ∀ chunks : List (List UInt8), (∀ c ∈ chunks, c ≠ []) →
      chunks.flatten = streamBytes s.app.sessionCtrlId frames →
        savedOver s.app.sessionCtrlId .header chunks = frames ∧ -1 ∉ codesOver s.app.sessionCtrlId .header chunks := by
  constructor
  · intro h chunks hne hfl
    obtain ⟨s1, codes, h1, h2, h3, h4⟩ := h chunks hne hfl
    obtain ⟨s2, h5, h6, h7⟩ := calls_unseen ho hm hs chunks
    rw [h1] at h5
    cases h5
    rw [h2] at h6
    rw [h3] at h7
    exact ⟨(List.append_cancel_left h6).symm, by rwa [← List.append_cancel_left h7]⟩
  · intro h chunks hne hfl
    obtain ⟨h1, h2⟩ := h chunks hne hfl
    obtain ⟨s', h3, h4, h5⟩ := calls_unseen ho hm hs chunks
    exact ⟨s', _, h3, by rw [h4, h1], h5, h2⟩

/-! ## The header alone -/

/-- Bytes with fewer than two complete varints at their start are lost in mode `header`. -/
theorem absorb_header_lost {S : Nat} {p : List UInt8}
    (h : ∀ v c, Varint.decode p = some (v, c) → Varint.decode (p.drop c) = none) :
    absorb S .header p = ⟨.header, [], false⟩ := by
  cases hd : Varint.decode p with
  | none => exact absorb_header_none hd
  | some r => exact absorb_header_cut hd (h r.1 r.2 hd)

/-- A call whose bytes are lost might as well not have been made. -/
theorem lost_call {S : Nat} {c : List UInt8} (hlost : absorb S .header c = ⟨.header, [], false⟩)
    (cs : List (List UInt8)) :
    savedOver S .header (c :: cs) = savedOver S .header cs ∧
      (-1 ∈ codesOver S .header (c :: cs) ↔ -1 ∈ codesOver S .header cs) := by
  rw [savedOver, codesOver, hlost]
  constructor
  · rfl
  · simp [Result.code]

/-- Two complete varints that are not the stream header are answered by -1. -/
theorem absorb_header_reject {S : Nat} {p : List UInt8} {v c w d : Nat} (h1 : Varint.decode p = some (v, c))
    (h2 : Varint.decode (p.drop c) = some (w, d)) (h : ¬ (v = 0x54 ∧ w = S)) :
    absorb S .header p = ⟨.header, [], true⟩ := by
  rw [absorb_header_some h1 h2, if_neg h]

/-- The type and the session id of the header need all its bytes. -/
theorem header_width {S : Nat} (hS : S < 2 ^ 62) {q : List UInt8} {c d : Nat} (h1 : Varint.decode q = some (0x54, c))
    (h2 : Varint.decode (q.drop c) = some (S, d)) : (wtHeader S).length ≤ q.length := by
  have hc := Varint.size_le_of_decode h1
  have hd := Varint.size_le_of_decode h2
  obtain ⟨-, hq⟩ := Varint.decode_bounds h1
  obtain ⟨-, hq'⟩ := Varint.decode_bounds h2
  rw [List.length_drop] at hq'
  have h54 : Varint.size 0x54 = 2 := by decide
  rw [wtHeader_length hS]
  omega

/-- A proper prefix of the header is not enough for it. -/
theorem header_cut {S : Nat} (hS : S < 2 ^ 62) {p : List UInt8} (hp : p <+: wtHeader S) (hne : p ≠ wtHeader S) :
    ∀ v c, Varint.decode p = some (v, c) → Varint.decode (p.drop c) = none := by
  intro v c h1
  cases h2 : Varint.decode (p.drop c) with
  | none => rfl
  | some r =>
    obtain ⟨w, d⟩ := r
    obtain ⟨s, hs⟩ := hp
    obtain ⟨h3, h4⟩ := two_varints_append h1 h2 s
    rw [hs, wtHeader_eq hS] at h3 h4
    rw [Varint.decode_encode (by norm_num)] at h3
    cases h3
    rw [List.drop_left' (Varint.encode_length 0x54)] at h4
    have h5 := Varint.decode_encode hS []
    rw [List.append_nil] at h5
    rw [h5] at h4
    simp only [Option.some.injEq, Prod.mk.injEq] at h4
    obtain ⟨rfl, -⟩ := h4
    have hlen := header_width hS h1 h2
    refine absurd ?_ hne
    exact (List.IsPrefix.eq_of_length ⟨s, hs⟩ (le_antisymm (by rw [← hs]; simp) hlen))

theorem absorb_wtHeader {S : Nat} (hS : S < 2 ^ 62) (p : List UInt8) :
    absorb S .header (wtHeader S ++ p) = absorb S (.scan []) p := by
  have h1 : Varint.decode (wtHeader S ++ p) = some (0x54, Varint.size 0x54) := by
    rw [wtHeader_eq hS, List.append_assoc]
    exact Varint.decode_encode (by norm_num) _
  have hdrop : (wtHeader S ++ p).drop (Varint.size 0x54) = Varint.encode S ++ p := by
    rw [wtHeader_eq hS, List.append_assoc]
    exact List.drop_left' (Varint.encode_length 0x54)
  have h2 : Varint.decode ((wtHeader S ++ p).drop (Varint.size 0x54)) = some (S, Varint.size S) := by
    rw [hdrop]
    exact Varint.decode_encode hS p
  rw [absorb_header_some h1 h2, if_pos ⟨rfl, rfl⟩, ← List.drop_drop, hdrop, List.drop_left' (Varint.encode_length S)]

/-- In mode `header`, the pieces of a proper suffix of a quiet header are lost. -/
theorem quiet_pieces {S : Nat} {h : List UInt8} (hq : Quiet h) : ∀ (chunks : List (List UInt8)),
    chunks.flatten <:+ h → chunks.flatten ≠ h →
      savedOver S .header chunks = [] ∧ -1 ∉ codesOver S .header chunks
  | [], _, _ => ⟨rfl, by simp [codesOver]⟩
  | c :: cs, hsuf, hne => by
    have hlost : absorb S .header c = ⟨.header, [], false⟩ := by
      apply absorb_header_lost
      rintro v d h1
      cases h2 : Varint.decode (c.drop d) with
      | none => rfl
      | some r =>
        obtain ⟨h3, h4⟩ := two_varints_append h1 h2 cs.flatten
        have h5 := hq (c ++ cs.flatten) hsuf hne v d h3
        rw [h4] at h5
        cases h5
    have hcs : cs.flatten <:+ h := (List.suffix_append c cs.flatten).trans hsuf
    have hcsne : cs.flatten ≠ h := by
      intro heq
      have hlen := hsuf.length_le
      rw [List.flatten_cons, List.length_append, ← heq] at hlen
      have hc : c = [] := List.eq_nil_of_length_eq_zero (by omega)
      exact hne (by rw [hc]; exact heq)
    obtain ⟨h1, h2⟩ := lost_call hlost cs
    rw [h1, h2]
    exact quiet_pieces hq cs hcs hcsne

/-- A quiet header by itself is received, whatever its partition. -/
theorem quiet_header {S : Nat} (hS : S < 2 ^ 62) (hq : Quiet (wtHeader S)) (chunks : List (List UInt8))
    (hne : ∀ c ∈ chunks, c ≠ []) (hfl : chunks.flatten = wtHeader S) :
    savedOver S .header chunks = [] ∧ -1 ∉ codesOver S .header chunks := by
  cases chunks with
  | nil => exact ⟨rfl, by simp [codesOver]⟩
  | cons c cs =>
    by_cases hc : c = wtHeader S
    · -- the header in one chunk: nothing is left
      have hcs : cs = [] := by
        have hflat : cs.flatten = [] := by
          rw [List.flatten_cons, hc] at hfl
          exact List.append_right_eq_self.1 hfl
        rw [List.eq_nil_iff_forall_not_mem]
        intro d hd
        exact hne d (List.mem_cons_of_mem _ hd) (List.flatten_eq_nil_iff.1 hflat d hd)
      have habs : absorb S .header c = ⟨.scan [], [], false⟩ := by
        have := absorb_wtHeader hS []
        rw [List.append_nil, ← hc] at this
        rw [this]
        exact absorb_scan_none rfl
      subst hcs
      constructor
      · rw [savedOver, habs]
        rfl
      · rw [codesOver, habs]
        simp [codesOver, Result.code]
    · have hpre : c <+: wtHeader S := ⟨cs.flatten, hfl⟩
      have hlost := absorb_header_lost (S := S) (header_cut hS hpre hc)
      have hpos : 0 < c.length := List.length_pos_of_ne_nil (hne c (List.mem_cons_self ..))
      have hsuf : cs.flatten <:+ wtHeader S := ⟨c, hfl⟩
      have hcsne : cs.flatten ≠ wtHeader S := by
        intro h
        have := congrArg List.length hfl
        rw [List.flatten_cons, List.length_append, h] at this
        omega
      obtain ⟨h1, h2⟩ := lost_call hlost cs
      rw [h1, h2]
      exact quiet_pieces hq cs hsuf hcsne

/-! ## Partitions that fail -/

/-- Bytes that come one by one are lost in mode `header`. -/
theorem absorb_header_byte (S : Nat) (b : UInt8) : absorb S .header [b] = ⟨.header, [], false⟩ := by
  apply absorb_header_lost
  rintro v c h
  obtain ⟨hc, -⟩ := Varint.decode_bounds h
  rw [List.drop_eq_nil_of_le (show [b].length ≤ c from hc)]
  rfl

theorem bytewise_lost (S : Nat) (more : List (List UInt8)) : ∀ bs : List UInt8,
    savedOver S .header (bs.map ([·]) ++ more) = savedOver S .header more ∧
      ((-1 : Int) ∈ codesOver S .header (bs.map ([·]) ++ more) ↔ -1 ∈ codesOver S .header more)
  | [] => ⟨rfl, Iff.rfl⟩
  | b :: bs => by
    obtain ⟨h1, h2⟩ := bytewise_lost S more bs
    obtain ⟨h3, h4⟩ := lost_call (absorb_header_byte S b) (bs.map ([·]) ++ more)
    rw [List.map_cons, List.cons_append]
    constructor
    · exact h3.trans h1
    · exact h4.trans h2

theorem flatten_singletons : ∀ bs : List UInt8, (bs.map ([·])).flatten = bs
  | [] => rfl
  | b :: bs => by rw [List.map_cons, List.flatten_cons, flatten_singletons bs, List.singleton_append]

/-- No frames come through: with the first byte of the header in a chunk of its own, the next varint is no
stream type. -/
theorem cut_header_fails (S : Nat) (rest : List UInt8) :
    savedOver S .header [[0x40], 0x54 :: (Varint.encode S ++ rest)] = [] := by
  obtain ⟨n, hn, hge⟩ : ∃ n, Varint.decode (0x54 :: (Varint.encode S ++ rest)) = some (n, 2) ∧ 5120 ≤ n := by
    obtain ⟨b, e, he⟩ := List.exists_cons_of_ne_nil (Varint.encode_ne_nil S)
    rw [he, List.cons_append]
    refine ⟨_, Varint.decode_cons_of_le (by simp [Varint.width]), ?_⟩
    simp [Varint.width]
  have hnone : (absorb S .header (0x54 :: (Varint.encode S ++ rest))).frames = [] := by
    cases h2 : Varint.decode ((0x54 :: (Varint.encode S ++ rest)).drop 2) with
    | none => rw [absorb_header_cut hn h2]
    | some r => rw [absorb_header_reject hn h2 (by omega)]
  rw [(lost_call (absorb_header_byte S 0x40) _).1]
  simp [savedOver, hnone]

/-- A header that is not quiet is answered by -1 in some partition. -/
theorem not_quiet_fails {S : Nat} (hS : S < 2 ^ 62) (h : ¬ Quiet (wtHeader S)) :
    ∃ chunks : List (List UInt8), (∀ c ∈ chunks, c ≠ []) ∧ chunks.flatten = wtHeader S ∧
      -1 ∈ codesOver S .header chunks := by
  unfold Quiet at h
  push Not at h
  obtain ⟨q, hsuf, hne, v, c, h1, h2⟩ := h
  obtain ⟨r, h2⟩ := Option.ne_none_iff_exists'.1 h2
  obtain ⟨w, d⟩ := r
  obtain ⟨bs, hbs⟩ := hsuf
  have hrej : absorb S .header q = ⟨.header, [], true⟩ := by
    apply absorb_header_reject h1 h2
    rintro ⟨rfl, rfl⟩
    have hlen := header_width hS h1 h2
    refine hne (List.IsSuffix.eq_of_length ⟨bs, hbs⟩ (le_antisymm ?_ hlen))
    rw [← hbs]; simp
  refine ⟨bs.map ([·]) ++ [q], ?_, ?_, (bytewise_lost S [q] bs).2.2 ?_⟩
  · intro x hx
    rcases List.mem_append.1 hx with hx | hx
    · obtain ⟨b, -, rfl⟩ := List.mem_map.1 hx
      exact List.cons_ne_nil b []
    · rw [List.mem_singleton.1 hx]
      rintro rfl
      simp at h1
  · rw [List.flatten_append, flatten_singletons]
    simpa using hbs
  · rw [codesOver, hrej]
    exact List.mem_cons_self ..

/-! ## The exact condition -/

/-- The handler saves what the server sends, in every partition and without returning -1, just when nothing
is sent and the stream header is quiet. -/
theorem partitions_received_iff {os : Os} (ho : os.Succeeds) {s : State} (hm : s.app.maxFrames = 0)
    (hS : s.app.sessionCtrlId < 2 ^ 62) {sid : Nat} (hs : s.record sid = none) (frames : List (List UInt8)) :
    Receives os s sid frames ↔ frames = [] ∧ Quiet (wtHeader s.app.sessionCtrlId) := by
  rw [receives_absorb ho hm hs]
  constructor
  · intro h
    have hframes : frames = [] := by
      have hbs : streamBytes s.app.sessionCtrlId frames = 0x40 :: 0x54 :: (Varint.encode s.app.sessionCtrlId ++
          wire quicVarintEncode (frames.flatMap record)) := by
        rw [streamBytes_eq, wtHeader_cons hS]; simp
      obtain ⟨h1, -⟩ := h [[0x40], 0x54 :: (Varint.encode s.app.sessionCtrlId ++
        wire quicVarintEncode (frames.flatMap record))] (by simp) (by rw [hbs]; simp)
      rw [← h1]
      exact cut_header_fails _ _
    subst hframes
    refine ⟨rfl, ?_⟩
    by_contra hq
    obtain ⟨chunks, hne, hfl, hcode⟩ := not_quiet_fails hS hq
    exact (h chunks hne (by rw [hfl, streamBytes_eq]; simp)).2 hcode
  · rintro ⟨rfl, hq⟩ chunks hne hfl
    rw [streamBytes_eq] at hfl
    exact quiet_header hS hq chunks hne (by simpa using hfl)

/-- One frame of two bytes, on session 0: not received in every partition. -/
theorem partitions_received_iff_pts :
    Receives Os.sound (State.init "" 0 0) 3 [[0x05, 0xAA]] ↔
      [[0x05, 0xAA]] = ([] : List (List UInt8)) ∧ Quiet (wtHeader 0) :=
  partitions_received_iff Os.sound_succeeds rfl (by decide) rfl [[0x05, 0xAA]]

/-- That frame in one chunk, `40 54 00 02 05 AA`: its first byte is taken for a PTS, and only the second
is saved. -/
theorem pts_swallows_byte :
    streamBytes 0 [[0x05, 0xAA]] = [0x40, 0x54, 0x00, 0x02, 0x05, 0xAA] ∧ IsFrame [0x05, 0xAA] ∧
      (calls Os.sound (State.init "" 0 0) [(3, [0x40, 0x54, 0x00, 0x02, 0x05, 0xAA])]).map (·.savedFor 3) =
          some [[0xAA]] ∧
      ¬ Receives Os.sound (State.init "" 0 0) 3 [[0x05, 0xAA]] := by
  have hrun : (calls Os.sound (State.init "" 0 0) [(3, [0x40, 0x54, 0x00, 0x02, 0x05, 0xAA])]).map (·.savedFor 3) =
      some [[0xAA]] := by decide
  have hbs : streamBytes 0 [[0x05, 0xAA]] = [0x40, 0x54, 0x00, 0x02, 0x05, 0xAA] := by decide
  refine ⟨hbs, ⟨by decide, by decide⟩, hrun, fun h => ?_⟩
  obtain ⟨s', codes, h1, h2, -⟩ := h [[0x40, 0x54, 0x00, 0x02, 0x05, 0xAA]] (by simp) hbs.symm
  have h3 : calls Os.sound (State.init "" 0 0) [(3, [0x40, 0x54, 0x00, 0x02, 0x05, 0xAA])] = some s' := h1
  rw [h3] at hrun
  have h4 : s'.savedFor 3 = [[0xAA]] := Option.some.inj hrun
  rw [h4] at h2
  exact absurd h2 (by decide)

/-! ## Partitions that are received -/

/-- The mode of a receiver of length-prefixed records. -/
def modeOf : Option (Nat × List UInt8) → Mode
  | none => .scan []
  | some (n, acc) => .payload n acc

/-- Behind no length does the rest of the chunk begin with a complete varint. -/
def NoPts (ts : List (Tok UInt8)) : Prop :=
  ∀ pre n post, ts = pre ++ .len n :: post → Varint.decode (wire Varint.encode post) = none

theorem NoPts.tail {t : Tok UInt8} {ts : List (Tok UInt8)} (h : NoPts (t :: ts)) : NoPts ts := by
  intro pre n post heq
  exact h (t :: pre) n post (by rw [heq]; rfl)

theorem ptsWidth_none {p : List UInt8} (h : Varint.decode p = none) : ptsWidth p = 0 := by
  unfold ptsWidth
  rw [wtVarintDecode_eq, h]

/-- One more payload byte is one step of the record receiver. -/
theorem absorb_byte {S n : Nat} {acc : List UInt8} (hacc : acc.length < n) (a : UInt8) (q : List UInt8) :
    absorb S (.payload n acc) (a :: q) =
      if acc.length + 1 = n then (absorb S (.scan []) q).after [acc ++ [a]]
      else absorb S (.payload n (acc ++ [a])) q := by
  by_cases hn : acc.length + 1 = n
  · rw [if_pos hn, absorb_payload_ge (by simp; omega), show n - acc.length = 1 by omega]
    simp
  · have hlt : acc.length + [a].length < n := by simp; omega
    rw [if_neg hn, ← absorb_payload_append hlt, List.singleton_append]

/-- A chunk of whole tokens without apparent PTS is received as its tokens. -/
theorem absorb_toks {S : Nat} : ∀ {ts : List (Tok UInt8)} {cur : Option (Nat × List UInt8)} {r : Rx UInt8},
    Rx.Open ⟨cur, []⟩ → (∀ n, Tok.len n ∈ ts → n ≤ wtMaxFrameLen) → NoPts ts → Rx.toks ⟨cur, []⟩ ts = some r →
    absorb S (modeOf cur) (wire Varint.encode ts) = ⟨modeOf r.cur, r.out, false⟩
  | [], none, r, _, _, _, h => by cases h; exact absorb_scan_none rfl
  | [], some (n, acc), r, ho, _, _, h => by
    cases h
    rw [wire_nil, modeOf, absorb_payload_lt (by simpa using ho n acc rfl), List.append_nil]
  | .byte a :: ts, none, r, _, _, _, h => by
    obtain ⟨r1, h1, -⟩ := Lts.run_cons_some h
    simp [Rx.tok] at h1
  | .len n :: ts, some c, r, _, _, _, h => by
    obtain ⟨r1, h1, -⟩ := Lts.run_cons_some h
    simp [Rx.tok] at h1
  | .len n :: ts, none, r, ho, hl, hno, h => by
    obtain ⟨r1, h1, h2⟩ := Lts.run_cons_some h
    have hopen := tok_open ho h1
    by_cases hn : 0 < n
    · simp only [Rx.tok, hn, if_true, Option.some.injEq] at h1
      subst h1
      have hmax := hl n (List.mem_cons_self ..)
      have hbad : ¬ BadLength n := by unfold BadLength; omega
      have hpts := ptsWidth_none (hno [] n ts rfl)
      have hlt : n < 2 ^ 62 := by unfold wtMaxFrameLen at hmax; omega
      have ih := absorb_toks (S := S) hopen (fun m hm => hl m (List.mem_cons_of_mem _ hm)) hno.tail h2
      rw [wire_len, modeOf, absorb_scan_some [] (Varint.decode_encode hlt _), if_neg hbad,
        List.drop_left' (Varint.encode_length n), hpts, framed, if_neg (by omega)]
      exact ih
    · simp [Rx.tok, hn] at h1
  | .byte a :: ts, some (n, acc), r, ho, hl, hno, h => by
    obtain ⟨r1, h1, h2⟩ := Lts.run_cons_some h
    have hopen := tok_open ho h1
    have hl' : ∀ m, Tok.len m ∈ ts → m ≤ wtMaxFrameLen := fun m hm => hl m (List.mem_cons_of_mem _ hm)
    rw [wire_byte, modeOf, absorb_byte (ho n acc rfl)]
    by_cases hn : acc.length + 1 = n
    · -- the record is complete: what follows is received from the empty receiver
      simp only [Rx.tok, hn, if_true, Option.some.injEq] at h1
      subst h1
      have hshift := toks_out [acc ++ [a]] ts none []
      rw [List.append_nil] at hshift
      unfold Rx.toks at hshift
      rw [show ([] : List (List UInt8)) ++ [acc ++ [a]] = [acc ++ [a]] from rfl, hshift] at h2
      obtain ⟨r2, h3, rfl⟩ := Option.map_eq_some_iff.1 h2
      have ih := absorb_toks (S := S) (r := r2) Rx.empty_open hl' hno.tail h3
      rw [if_pos hn, show Mode.scan [] = modeOf none from rfl, ih]
      rfl
    · simp only [Rx.tok, hn, if_false, Option.some.injEq] at h1
      subst h1
      rw [if_neg hn]
      exact absorb_toks hopen hl' hno.tail h2

/-- Over several such chunks too. -/
theorem savedOver_toks {S : Nat} : ∀ (tss : List (List (Tok UInt8))) {cur : Option (Nat × List UInt8)} {r : Rx UInt8},
    Rx.Open ⟨cur, []⟩ → (∀ n, Tok.len n ∈ tss.flatten → n ≤ wtMaxFrameLen) → (∀ ts ∈ tss, NoPts ts) →
    Rx.toks ⟨cur, []⟩ tss.flatten = some r →
      savedOver S (modeOf cur) (tss.map (wire Varint.encode)) = r.out ∧
        -1 ∉ codesOver S (modeOf cur) (tss.map (wire Varint.encode))
  | [], cur, r, _, _, _, h => by
    cases h
    exact ⟨rfl, by simp [codesOver]⟩
  | ts :: tss, cur, r, ho, hl, hno, h => by
    rw [List.flatten_cons] at h hl
    obtain ⟨r1, h1, h2⟩ := toks_append h
    have habs := absorb_toks (S := S) ho (fun n hn => hl n (List.mem_append_left _ hn))
      (hno ts (List.mem_cons_self ..)) h1
    have hopen : Rx.Open (⟨r1.cur, []⟩ : Rx UInt8) := fun n acc hc => toks_isOpen ho h1 n acc hc
    have hshift := toks_out r1.out tss.flatten r1.cur []
    rw [List.append_nil] at hshift
    rw [show r1 = ⟨r1.cur, r1.out⟩ from rfl, hshift] at h2
    obtain ⟨r2, h3, rfl⟩ := Option.map_eq_some_iff.1 h2
    obtain ⟨h4, h5⟩ := savedOver_toks (S := S) tss hopen (fun n hn => hl n (List.mem_append_right _ hn))
      (fun us hu => hno us (List.mem_cons_of_mem _ hu)) h3
    rw [List.map_cons, savedOver, codesOver, habs]
    constructor
    · rw [h4]
    · simpa [Result.code] using h5

/-- The header in the first chunk, no cut inside a length, and no apparent PTS behind a length: then the
frames are saved as sent. -/
theorem uncut_received {os : Os} (ho : os.Succeeds) {s : State} (hm : s.app.maxFrames = 0)
    (hS : s.app.sessionCtrlId < 2 ^ 62) {sid : Nat} (hs : s.record sid = none) {frames : List (List UInt8)}
    (hf : ∀ f ∈ frames, IsFrame f) {ts : List (Tok UInt8)} {tss : List (List (Tok UInt8))}
    (hcarry : (ts :: tss).flatten = frames.flatMap record) (hno : ∀ us ∈ ts :: tss, NoPts us) :
    ∃ s' codes, calls os s (((wtHeader s.app.sessionCtrlId ++ wire Varint.encode ts) ::
        tss.map (wire Varint.encode)).map (sid, ·)) = some s' ∧
      s'.savedFor sid = s.savedFor sid ++ frames ∧ s'.returned = s.returned ++ codes ∧ -1 ∉ codes := by
  have hrecords := toks_records [] fun f hmem => (hf f hmem).ne_nil
  rw [← hcarry] at hrecords
  have hl : ∀ n, Tok.len n ∈ (ts :: tss).flatten → n ≤ wtMaxFrameLen := by
    intro n hn
    rw [hcarry] at hn
    obtain ⟨f, hmem, hn⟩ := List.mem_flatMap.1 hn
    have hlen : n = f.length := by simpa [record] using hn
    have := (hf f hmem).2
    unfold frameBufferBytes at this
    unfold wtMaxFrameLen
    omega
  obtain ⟨h1, h2⟩ := savedOver_toks (S := s.app.sessionCtrlId) (ts :: tss) Rx.empty_open hl hno hrecords
  obtain ⟨s', h3, h4, h5⟩ := calls_unseen ho hm hs ((wtHeader s.app.sessionCtrlId ++ wire Varint.encode ts) ::
    tss.map (wire Varint.encode))
  rw [savedOver, absorb_wtHeader hS] at h4
  rw [codesOver, absorb_wtHeader hS] at h5
  exact ⟨s', _, h3, h4.trans (congrArg _ h1), h5, h2⟩

end Mquic.WtClient
