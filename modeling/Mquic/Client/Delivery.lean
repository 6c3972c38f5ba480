/-
One path stream from the server's writes to the client's callback: for which session ids and frames
`client_cb` completes exactly the frames sent, however the transport cuts the stream into events.
The callback reads the stream header as frame data, so the answer is a property of the header alone.
-/
import Mquic.Server.Wire
import Mquic.Client.Receiver

namespace Mquic.ClientMain

open Framing Mquic.Server Mquic.Codec

/-! ## Deliveries -/

/-- One way to hand over the stream `bs`: non-empty data events, and perhaps a FIN event with the last
bytes. -/
structure Delivery (bs : List UInt8) where
  data : List (List UInt8)
  fin : Option (List UInt8)
  nonempty : ∀ d ∈ data, d ≠ []
  whole : data.flatten ++ fin.getD [] = bs

/-- The events of a delivery on stream `sid`. -/
def Delivery.events {bs : List UInt8} (d : Delivery bs) (sid : Nat) : List Event :=
  d.data.map (.streamData sid) ++ (d.fin.map (.streamFin sid)).toList

/-- Sender and receiver agree on session id `S` and `frames`: whatever the delivery, the callback
completes these frames, in order. -/
def Receives (env : Env) (sid : Nat) (outDir : String) (S : Nat) (frames : List (List UInt8)) : Prop :=
  ∀ d : Delivery (streamBytes S frames), ∃ s', events env (State.init 0 outDir) (d.events sid) = some s' ∧
    s'.frames = frames.map (sid, ·)

/-- No suffix of `h` begins with a complete varint `n ≥ 1` followed by `n` bytes of `h`. -/
def Silent (h : List UInt8) : Prop :=
  ∀ q n c, q <:+ h → Varint.decode q = some (n, c) → 0 < n → q.length < c + n

/-- What the callback completes on a delivery is what the receiver completes on its data events: the
bytes of the FIN event are not looked at. -/
theorem delivery_frames {env : Env} (hd : env.Rfc9000) (hm : ∀ i, env.malloc i = true) (sid : Nat)
    (outDir : String) {bs : List UInt8} (d : Delivery bs) :
    ∃ s', events env (State.init 0 outDir) (d.events sid) = some s' ∧
      s'.frames = (d.data.foldl feed Rx.empty).out.map (sid, ·) := by
  obtain ⟨s', h1, hs⟩ := events_feed hd hm d.data _ _ Rx.empty_open (init_stands sid 0 outDir)
  refine ⟨s', ?_, by simpa using hs.frames⟩
  unfold events Delivery.events at *
  rw [Lts.run_append, h1]
  cases d.fin <;> rfl

theorem receives_feed {env : Env} (hd : env.Rfc9000) (hm : ∀ i, env.malloc i = true) (sid : Nat)
    (outDir : String) (S : Nat) (frames : List (List UInt8)) :
    Receives env sid outDir S frames ↔
      ∀ d : Delivery (streamBytes S frames), (d.data.foldl feed Rx.empty).out = frames := by
  have hinj : Function.Injective (List.map (fun f : List UInt8 => (sid, f))) :=
    List.map_injective_iff.2 fun f g h => congrArg Prod.snd h
  constructor
  · intro h d
    obtain ⟨s1, h1, hf1⟩ := h d
    obtain ⟨s2, h2, hf2⟩ := delivery_frames hd hm sid outDir d
    rw [h1] at h2; cases h2
    exact hinj (hf2.symm.trans hf1)
  · intro h d
    obtain ⟨s', h1, hf⟩ := delivery_frames hd hm sid outDir d
    exact ⟨s', h1, by rw [hf, h d]⟩

/-! ## A silent header -/

/-- Nothing completed, and the bytes `q` still to come do not fill the open record. -/
def Starved (r : Rx UInt8) (q : List UInt8) : Prop :=
  r.out = [] ∧ ∀ n acc, r.cur = some (n, acc) → acc.length + q.length < n

/-- In a silent byte string no event completes a record, nor opens one the rest could fill. -/
theorem feed_starved {h : List UInt8} (hh : Silent h) (r : Rx UInt8) (p : List UInt8) :
    ∀ q, p ++ q <:+ h → Starved r (p ++ q) → Starved (feed r p) q := by
  induction r, p using feed_induction with
  | fill n acc out p hlt =>
    intro q _ hs
    rw [feed_open_lt hlt]
    refine ⟨hs.1, fun m acc' hc => ?_⟩
    cases hc
    have := hs.2 n acc rfl
    simp only [List.length_append] at this ⊢
    omega
  -- a record that ends here would have had its bytes
  | complete n acc out p hge ih =>
    intro q _ hs
    have := hs.2 n acc rfl
    simp only [List.length_append] at this
    omega
  | lose out p hd =>
    intro q _ hs
    rw [feed_idle_none hd]
    exact ⟨hs.1, nofun⟩
  -- a length that is read here belongs to no record that the bytes fill
  | len out p n c hd ih =>
    intro q hq hs
    obtain ⟨-, hc⟩ := Varint.decode_bounds hd
    have hsplit : p.drop c ++ q = (p ++ q).drop c := (List.drop_append_of_le_length hc).symm
    rw [feed_idle_some hd]
    refine ih q (by rw [hsplit]; exact (List.drop_suffix c _).trans hq) ⟨hs.1, fun m acc hcur => ?_⟩
    by_cases hn : n = 0
    · simp [hn] at hcur
    · simp only [hn, if_false, Option.some.injEq, Prod.mk.injEq] at hcur
      obtain ⟨rfl, rfl⟩ := hcur
      have := hh (p ++ q) n c hq (Varint.decode_append hd q) (by omega)
      rw [hsplit, List.length_drop, List.length_nil]
      omega

theorem foldl_feed_starved {h : List UInt8} (hh : Silent h) : ∀ (ds : List (List UInt8)) (r : Rx UInt8)
    (q : List UInt8), ds.flatten ++ q <:+ h → Starved r (ds.flatten ++ q) → Starved (ds.foldl feed r) q
  | [], _, _, _, hs => by simpa using hs
  | d :: ds, r, q, hq, hs => by
    rw [List.flatten_cons, List.append_assoc] at hq hs
    exact foldl_feed_starved hh ds (feed r d) q ((List.suffix_append d _).trans hq) (feed_starved hh r d _ hq hs)

/-! ## The first record -/

/-- The first record completed has the length the first varint announces. -/
theorem feed_first {p f : List UInt8} {n c : Nat} (hd : Varint.decode p = some (n, c)) (hn : 0 < n)
    (hf : (feed Rx.empty p).out.head? = some f) : f.length = n := by
  unfold Rx.empty at hf
  rw [feed_idle_some hd, if_neg (by omega)] at hf
  by_cases h : (p.drop c).length < n
  · rw [feed_open_lt (by simpa using h)] at hf; simp at hf
  · have hge : n ≤ ([] : List UInt8).length + (p.drop c).length := by simpa using h
    rw [feed_open_ge hge] at hf
    obtain ⟨out, hout⟩ := feed_out_prefix ⟨none, [] ++ [[] ++ (p.drop c).take (n - ([] : List UInt8).length)]⟩
      ((p.drop c).drop (n - ([] : List UInt8).length))
    rw [← hout] at hf
    simp only [List.nil_append, List.length_nil, Nat.sub_zero, List.cons_append, List.head?_cons,
      Option.some.injEq] at hf
    rw [← hf, List.length_take]
    omega

/-- Enough bytes behind the first varint complete a record. -/
theorem feed_completes {p : List UInt8} {n c : Nat} (hd : Varint.decode p = some (n, c)) (hn : 0 < n)
    (hlen : c + n ≤ p.length) : (feed Rx.empty p).out ≠ [] := by
  unfold Rx.empty
  have hge : n ≤ ([] : List UInt8).length + (p.drop c).length := by rw [List.length_drop]; simp; omega
  rw [feed_idle_some hd, if_neg (by omega), feed_open_ge hge]
  intro h
  have := feed_out_prefix ⟨none, [] ++ [[] ++ (p.drop c).take (n - ([] : List UInt8).length)]⟩
    ((p.drop c).drop (n - ([] : List UInt8).length))
  rw [h] at this
  simp at this

/-! ## The header of a path stream -/

theorem streamBytes_cons {S : Nat} (hS : S < 2 ^ 62) (frames : List (List UInt8)) :
    ∃ rest, streamBytes S frames = 0x40 :: 0x54 :: (Varint.encode S ++ rest) := by
  refine ⟨wire quicVarintEncode (frames.flatMap record), ?_⟩
  rw [streamBytes_eq, wtHeader_cons hS]
  simp

/-- The header read as a length: 84. -/
theorem decode_header (p : List UInt8) : Varint.decode (0x40 :: 0x54 :: p) = some (84, 2) := by
  have := Varint.decode_encode (v := 84) (by norm_num) p
  rwa [encode_54] at this

/-- The header without its first byte, read as a length: at least 5120. -/
theorem decode_header_tail {e : List UInt8} (he : e ≠ []) :
    ∃ n, Varint.decode (0x54 :: e) = some (n, 2) ∧ 5120 ≤ n := by
  obtain ⟨b, e, rfl⟩ := List.exists_cons_of_ne_nil he
  refine ⟨_, Varint.decode_cons_of_le (by simp [Varint.width]), ?_⟩
  simp [Varint.width]

/-- Of a header that is not silent, the suffix that completes a record lies in the session id. -/
theorem not_silent_suffix {S : Nat} (hS : S < 2 ^ 62) (h : ¬ Silent (wtHeader S)) :
    ∃ j n c, j < Varint.size S ∧ Varint.decode ((Varint.encode S).drop j) = some (n, c) ∧ 0 < n ∧
      c + n ≤ ((Varint.encode S).drop j).length := by
  unfold Silent at h
  push Not at h
  obtain ⟨q, n, c, hq, hd, hn, hlen⟩ := h
  have hsize := Varint.size_le S
  rw [wtHeader_cons hS] at hq
  rcases List.suffix_cons_iff.1 hq with rfl | hq
  · rw [decode_header] at hd
    cases hd
    simp at hlen; omega
  rcases List.suffix_cons_iff.1 hq with rfl | hq
  · obtain ⟨m, hm, hge⟩ := decode_header_tail (Varint.encode_ne_nil S)
    rw [hm] at hd
    cases hd
    simp at hlen; omega
  · obtain ⟨j, rfl⟩ : ∃ j, q = (Varint.encode S).drop j := ⟨_, List.suffix_iff_eq_drop.1 hq⟩
    refine ⟨j, n, c, ?_, hd, hn, hlen⟩
    obtain ⟨hc, hle⟩ := Varint.decode_bounds hd
    rw [List.length_drop, Varint.encode_length] at hle
    omega

/-- The delivery in one event. -/
def Delivery.single (bs : List UInt8) (h : bs ≠ []) : Delivery bs :=
  ⟨[bs], none, by simpa using h, by simp⟩

/-- The delivery whose first event carries one byte, the second the rest. -/
def Delivery.cutFirst (b : UInt8) (bs : List UInt8) (h : bs ≠ []) : Delivery (b :: bs) :=
  ⟨[[b], bs], none, by simpa using h, by simp⟩

theorem feed_first_header : feed Rx.empty [0x40] = Rx.empty := feed_idle_none (by decide)

/-- No frames come through: either the whole stream in one event, or its first byte apart, puts another
length before the first frame. -/
theorem receives_frames {S : Nat} (hS : S < 2 ^ 62) {frames : List (List UInt8)}
    (h : ∀ d : Delivery (streamBytes S frames), (d.data.foldl feed Rx.empty).out = frames) : frames = [] := by
  obtain ⟨rest, hbs⟩ := streamBytes_cons hS frames
  rw [hbs] at h
  have h1 := h (Delivery.single _ (List.cons_ne_nil _ _))
  have h2 := h (Delivery.cutFirst _ _ (List.cons_ne_nil _ _))
  simp only [Delivery.single, Delivery.cutFirst, List.foldl_cons, List.foldl_nil, feed_first_header] at h1 h2
  cases frames with
  | nil => rfl
  | cons f fs =>
    have hne : Varint.encode S ++ rest ≠ [] := by simp [Varint.encode_ne_nil]
    obtain ⟨m, hm, hge⟩ := decode_header_tail hne
    have e1 : f.length = 84 := feed_first (decode_header _) (by norm_num) (by rw [h1]; rfl)
    have e2 : f.length = m := feed_first hm (by omega) (by rw [h2]; rfl)
    omega

/-- A header that is not silent completes a record of its own in some delivery. -/
theorem receives_silent {S : Nat} (hS : S < 2 ^ 62)
    (h : ∀ d : Delivery (streamBytes S []), (d.data.foldl feed Rx.empty).out = []) : Silent (wtHeader S) := by
  by_contra hs
  obtain ⟨j, n, c, hj, hd, hn, hlen⟩ := not_silent_suffix hS hs
  have hbs : streamBytes S [] = 0x40 :: 0x54 :: Varint.encode S := by
    rw [streamBytes_eq, wtHeader_cons hS]; simp
  have hlost : feed Rx.empty [0x54] = Rx.empty := feed_idle_none (by decide)
  have htake : feed Rx.empty ((Varint.encode S).take j) = Rx.empty :=
    feed_idle_none (Varint.decode_take_encode hS hj)
  have hne : (Varint.encode S).drop j ≠ [] := by
    intro h0
    rw [h0] at hd; simp at hd
  rw [hbs] at h
  apply feed_completes hd hn hlen
  by_cases hj0 : j = 0
  · subst hj0
    have := h ⟨[[0x40], [0x54], (Varint.encode S).drop 0], none, by simpa using hne, by simp⟩
    simpa only [List.foldl_cons, List.foldl_nil, feed_first_header, hlost] using this
  · have hnt : (Varint.encode S).take j ≠ [] := by
      have := Varint.encode_ne_nil S
      simp [hj0, this]
    have := h ⟨[[0x40], [0x54], (Varint.encode S).take j, (Varint.encode S).drop j], none, by simp [hne, hnt],
      by simp⟩
    simpa only [List.foldl_cons, List.foldl_nil, feed_first_header, hlost, htake] using this

/-! ## Agreement of the two ends -/

/-- The client receives exactly what the server sends, in every delivery, just when nothing is sent and
no suffix of the stream header looks like a record. -/
theorem receives_iff {env : Env} (hd : env.Rfc9000) (hm : ∀ i, env.malloc i = true) (sid : Nat)
    (outDir : String) {S : Nat} (hS : S < 2 ^ 62) (frames : List (List UInt8)) :
    Receives env sid outDir S frames ↔ frames = [] ∧ Silent (wtHeader S) := by
  rw [receives_feed hd hm]
  constructor
  · intro h
    obtain rfl := receives_frames hS h
    exact ⟨rfl, receives_silent hS h⟩
  · rintro ⟨rfl, hs⟩ d
    have hbs : streamBytes S [] = wtHeader S := by rw [streamBytes_eq]; simp
    refine (foldl_feed_starved hs d.data Rx.empty (d.fin.getD []) ?_ ⟨rfl, nofun⟩).1
    rw [← hbs, d.whole]

/-- An environment as the callback expects it: the RFC 9000 decoder, and no allocation fails. -/
def Env.sound : Env where
  picoquicVarintDecode p := ((Varint.decode p).map Prod.swap).getD (0, 0)
  malloc _ := true
  fopen _ := true

theorem Env.sound_rfc9000 : Env.sound.Rfc9000 := by
  intro p
  show ((Varint.decode p).map Prod.swap).getD (0, 0) = _
  cases Varint.decode p with
  | none => rfl
  | some r => rfl

/-- The shortest frame, on session 0: it is not received. -/
theorem receives_iff_shortest :
    Receives Env.sound 4 "" 0 [[0xFF]] ↔ [[0xFF]] = ([] : List (List UInt8)) ∧ Silent (wtHeader 0) :=
  receives_iff Env.sound_rfc9000 (fun _ => rfl) 4 "" (by norm_num) [[0xFF]]

/-- Session 0, one frame of one byte, the stream `40 54 00 01 FF` in one data event: the callback takes
the header for a length of 84 and completes no frame. -/
theorem shortest_frame_lost :
    streamBytes 0 [[0xFF]] = [0x40, 0x54, 0x00, 0x01, 0xFF] ∧ IsFrame [0xFF] ∧
      (events Env.sound (State.init 0 "") [.streamData 4 [0x40, 0x54, 0x00, 0x01, 0xFF]]).map (·.frames) = some [] ∧
      ¬ Receives Env.sound 4 "" 0 [[0xFF]] := by
  have hrun : (events Env.sound (State.init 0 "") [.streamData 4 [0x40, 0x54, 0x00, 0x01, 0xFF]]).map (·.frames) =
      some [] := by decide
  have hbs : streamBytes 0 [[0xFF]] = [0x40, 0x54, 0x00, 0x01, 0xFF] := by decide
  refine ⟨hbs, ⟨by decide, by decide⟩, hrun, fun h => ?_⟩
  obtain ⟨s', h1, h2⟩ := h ⟨[[0x40, 0x54, 0x00, 0x01, 0xFF]], none, by simp, by rw [hbs]; rfl⟩
  have : events Env.sound (State.init 0 "") [.streamData 4 [0x40, 0x54, 0x00, 0x01, 0xFF]] = some s' := h1
  rw [this] at hrun
  simp [h2] at hrun

end Mquic.ClientMain
