/-
Streams of JPEG images without length prefixes. `wt_handle_stream_data` looks for a length again at the start of every
call until it has adopted one: the images come through exactly when no later call begins with bytes that read as a
length, or end inside the varint they begin with.
-/
import Mquic.Client.Scanner
import Mquic.Client.WtDelivery

namespace Mquic.WtClient

open Marker Mquic.Server

/-! ## Images -/

/-- A JPEG image: from `FF D8` to `FF D9`, which does not occur in it before, at least 8 bytes. -/
structure IsJpeg (j : List UInt8) : Prop where
  length : 8 ≤ j.length
  start : At 0xFF 0xD8 j 0
  stop : At 0xFF 0xD9 j (j.length - 2)
  only : ∀ i, 2 ≤ i → At 0xFF 0xD9 j i → i = j.length - 2

instance (a b : UInt8) (l : List UInt8) (i : Nat) : Decidable (At a b l i) := inferInstanceAs (Decidable (_ ∧ _))

/-- Only the places inside the string need a look. -/
theorem IsJpeg.of_places {j : List UInt8} (hlen : 8 ≤ j.length) (hs : At 0xFF 0xD8 j 0)
    (he : At 0xFF 0xD9 j (j.length - 2))
    (h : ∀ i < j.length, 2 ≤ i → At 0xFF 0xD9 j i → i = j.length - 2) : IsJpeg j := by
  refine ⟨hlen, hs, he, fun i hi hat => ?_⟩
  obtain ⟨hlt, -⟩ := List.getElem?_eq_some_iff.1 hat.1
  exact h i hlt hi hat

theorem at_append {a b : UInt8} {l r : List UInt8} {i : Nat} (hi : i + 1 < l.length) :
    At a b (l ++ r) i ↔ At a b l i := by
  unfold At
  rw [List.getElem?_append_left (by omega), List.getElem?_append_left hi]

/-- An image in front is the first segment. -/
theorem extractJpegs_image {j : List UInt8} (hj : IsJpeg j) (rest : List UInt8) :
    extractJpegs (j ++ rest) = (j :: (extractJpegs rest).1, (extractJpegs rest).2) := by
  have hlen := hj.length
  have hs : find 0xFF 0xD8 (j ++ rest) = some 0 := by
    rw [← List.drop_zero (l := j ++ rest), find_drop_some]
    exact ⟨le_refl 0, (at_append (by omega)).2 hj.start, fun i _ hi => absurd hi (Nat.not_lt_zero i)⟩
  have he : find 0xFF 0xD9 (((j ++ rest).drop 0).drop 2) = some (j.length - 4) := by
    rw [List.drop_zero, find_drop_some, show 2 + (j.length - 4) = j.length - 2 by omega]
    refine ⟨by omega, (at_append (by omega)).2 hj.stop, fun i hi hlt hat => ?_⟩
    have := hj.only i hi ((at_append (by omega)).1 hat)
    omega
  rw [extractJpegs_frame hs he, List.drop_zero, show j.length - 4 + 4 = j.length by omega, List.take_left' rfl,
    List.drop_left' rfl]

/-- Images alone are the segments of the scan, and nothing is left over. -/
theorem extractJpegs_images : ∀ {jpegs : List (List UInt8)}, (∀ j ∈ jpegs, IsJpeg j) →
    extractJpegs jpegs.flatten = (jpegs, [])
  | [], _ => extractJpegs_none rfl
  | j :: js, h => by
    have ih := extractJpegs_images fun j hj => h j (List.mem_cons_of_mem _ hj)
    rw [List.flatten_cons, extractJpegs_image (h j List.mem_cons_self), ih]

/-- Eight bytes that begin with `FF` are a varint whose value is no length. -/
theorem image_not_length {p : List UInt8} (h8 : 8 ≤ p.length) (h0 : p[0]? = some 0xFF) :
    ∃ n c, Varint.decode p = some (n, c) ∧ BadLength n := by
  cases p with
  | nil => simp at h8
  | cons b tl =>
    obtain rfl : b = 0xFF := by simpa using h0
    have hw : Varint.width 0xFF = 8 := by decide
    have hb : (0xFF : UInt8).toNat = 255 := by decide
    refine ⟨_, _, Varint.decode_cons_of_le (by rw [hw]; simpa using h8), .inr ?_⟩
    rw [hw, hb]
    calc wtMaxFrameLen < 255 % 64 * 256 ^ (8 - 1) := by norm_num [wtMaxFrameLen]
      _ ≤ _ := Nat.le_add_right _ _

/-! ## Calls that begin with no length -/

/-- A call that does not take the stream out of JPEG data: no bytes, or a whole varint that cannot be a length. -/
def Guessed (c : List UInt8) : Prop := c = [] ∨ ∃ n k, Varint.decode c = some (n, k) ∧ BadLength n

/-- Such a call is scanned behind what is retained. -/
theorem absorb_guessed {S : Nat} {c : List UInt8} (hc : Guessed c) (x : List UInt8) :
    absorb S (.scan (extractJpegs x).2) c =
      ⟨.scan (extractJpegs (x ++ c)).2, (extractJpegs ((extractJpegs x).2 ++ c)).1, false⟩ := by
  rcases hc with rfl | ⟨n, k, hdec, hn⟩
  · rw [absorb_scan_none Varint.decode_nil, List.append_nil, List.append_nil, extractJpegs_retained]
  · rw [absorb_scan_some _ hdec, if_pos hn, extractJpegs_append x c]

/-- A stream whose calls are all such is scanned as a whole. -/
theorem savedOver_guessed {S : Nat} : ∀ {cs : List (List UInt8)}, (∀ c ∈ cs, Guessed c) → ∀ x : List UInt8,
    (extractJpegs x).1 ++ savedOver S (.scan (extractJpegs x).2) cs = (extractJpegs (x ++ cs.flatten)).1
  | [], _, x => by rw [savedOver, List.append_nil, List.flatten_nil, List.append_nil]
  | c :: cs, h, x => by
    have hstep := congrArg Prod.fst (extractJpegs_append x c)
    simp only at hstep
    rw [savedOver, absorb_guessed (h c List.mem_cons_self), List.flatten_cons, ← List.append_assoc, ← hstep,
      ← List.append_assoc x c, savedOver_guessed (fun c hc => h c (List.mem_cons_of_mem _ hc)) (x ++ c)]

/-! ## Nothing is made up -/

/-- The bytes a mode holds. -/
def Mode.held : Mode → Nat
  | .header => 0
  | .scan buf => buf.length
  | .payload _ acc => acc.length
  | .raw buf => buf.length

/-- What a call saves and what is held after it is no more than what was held and what the call brought. -/
theorem absorb_length (S : Nat) (m : Mode) (p : List UInt8) :
    ((absorb S m p).frames.map List.length).sum + (absorb S m p).mode.held ≤ m.held + p.length := by
  induction m, p using absorb.induct S with
  | case1 p h => rw [absorb_header_none h]; simp [Mode.held]
  | case2 p v c1 h1 h2 => rw [absorb_header_cut h1 h2]; simp [Mode.held]
  | case3 p v c1 h1 w c2 h2 hok ih =>
    rw [absorb_header_some h1 h2, if_pos hok]
    rw [List.length_drop] at ih
    simp only [Mode.held, List.length_nil] at ih ⊢
    omega
  | case4 p v c1 h1 w c2 h2 hbad => rw [absorb_header_some h1 h2, if_neg hbad]; simp [Mode.held]
  | case5 p buf h => rw [absorb_scan_none h]; simp [Mode.held]
  | case6 p buf n c h hn =>
    have hscan := extractJpegs_length (buf ++ p)
    rw [absorb_scan_some buf h, if_pos hn]
    rw [List.length_append] at hscan
    exact hscan
  -- what is held before a length is dropped with it
  | case7 p buf n c h hn ih =>
    have hheld : (framed n (ptsWidth (p.drop c))).held = 0 := by unfold framed; split <;> rfl
    rw [absorb_scan_some buf h, if_neg hn]
    simp only [hheld, List.length_drop] at ih
    show _ ≤ buf.length + p.length
    omega
  | case8 p need acc h => rw [absorb_payload_lt h]; simp [Mode.held]
  | case9 p need acc h ih =>
    rw [absorb_payload_ge (by omega)]
    simp only [Result.after, List.map_append, List.sum_append, List.map_cons, List.map_nil, List.sum_cons, List.sum_nil,
      List.length_append, List.length_take, List.length_drop, Mode.held, List.length_nil] at ih ⊢
    omega
  | case10 buf => rw [absorb_nil S (fun _ _ h => by cases h)]; simp [Mode.held]
  | case11 p buf h =>
    have hscan := extractJpegs_length (buf ++ p)
    rw [absorb_raw h]
    rw [List.length_append] at hscan
    exact hscan

theorem savedOver_length (S : Nat) : ∀ (cs : List (List UInt8)) (m : Mode),
    ((savedOver S m cs).map List.length).sum ≤ m.held + cs.flatten.length
  | [], m => by simp [savedOver]
  | c :: cs, m => by
    have hcall := absorb_length S m c
    have ih := savedOver_length S cs (absorb S m c).mode
    rw [savedOver, List.map_append, List.sum_append, List.flatten_cons, List.length_append]
    omega

/-- A call that is not guessed loses bytes: those of a varint it cuts, or those of the length it is taken for and all
that was retained. -/
theorem absorb_loses {S : Nat} {buf c : List UInt8} (hc : ¬ Guessed c) :
    ((absorb S (.scan buf) c).frames.map List.length).sum + (absorb S (.scan buf) c).mode.held <
      buf.length + c.length := by
  have hne : c ≠ [] := fun h => hc (.inl h)
  have hpos : 0 < c.length := List.length_pos_of_ne_nil hne
  cases hdec : Varint.decode c with
  | none =>
    rw [absorb_scan_none hdec]
    simp only [List.map_nil, List.sum_nil, Mode.held]
    omega
  | some r =>
    obtain ⟨n, k⟩ := r
    have hn : ¬ BadLength n := fun hn => hc (.inr ⟨n, k, hdec, hn⟩)
    obtain ⟨hk, hle⟩ := Varint.decode_bounds hdec
    have hheld : (framed n (ptsWidth (c.drop k))).held = 0 := by unfold framed; split <;> rfl
    have hrest := absorb_length S (framed n (ptsWidth (c.drop k))) ((c.drop k).drop (ptsWidth (c.drop k)))
    rw [absorb_scan_some buf hdec, if_neg hn]
    simp only [hheld, List.length_drop] at hrest
    omega

theorem savedOver_loses {S : Nat} : ∀ {cs : List (List UInt8)}, ¬ (∀ c ∈ cs, Guessed c) → ∀ x : List UInt8,
    ((savedOver S (.scan (extractJpegs x).2) cs).map List.length).sum < (extractJpegs x).2.length + cs.flatten.length
  | [], h, x => absurd (List.forall_mem_nil _) h
  | c :: cs, h, x => by
    rw [savedOver, List.map_append, List.sum_append, List.flatten_cons, List.length_append]
    by_cases hc : Guessed c
    · have hrest : ¬ ∀ c ∈ cs, Guessed c := fun hall => h (List.forall_mem_cons.2 ⟨hc, hall⟩)
      have ih := savedOver_loses (S := S) hrest (x ++ c)
      have hcall := absorb_length S (.scan (extractJpegs x).2) c
      rw [absorb_guessed hc] at hcall ⊢
      simp only [Mode.held] at hcall ⊢
      omega
    · have hcall : _ < (extractJpegs x).2.length + c.length := absorb_loses (S := S) hc
      have hafter := savedOver_length S cs (absorb S (.scan (extractJpegs x).2) c).mode
      omega

/-! ## The stream -/

section Images

variable {S : Nat} {jpegs : List (List UInt8)} {p : List UInt8} {cs : List (List UInt8)}

theorem images_start (hj : ∀ j ∈ jpegs, IsJpeg j) (hp8 : 8 ≤ p.length) (hbytes : p ++ cs.flatten = jpegs.flatten) :
    p[0]? = some 0xFF := by
  cases jpegs with
  | nil =>
    have hlen := congrArg List.length hbytes
    simp only [List.length_append, List.flatten_nil, List.length_nil] at hlen
    omega
  | cons j js =>
    have hjpeg := hj j List.mem_cons_self
    have h0 : (p ++ cs.flatten)[0]? = some 0xFF := by
      rw [hbytes, List.flatten_cons, List.getElem?_append_left (by have := hjpeg.length; omega)]
      exact hjpeg.start.1
    rwa [List.getElem?_append_left (by omega)] at h0

/-- The first call: the header, and the first bytes of the first image. -/
theorem absorb_first (hS : S < 2 ^ 62) (hp8 : 8 ≤ p.length) (hp0 : p[0]? = some 0xFF) :
    absorb S .header (wtHeader S ++ p) = ⟨.scan (extractJpegs p).2, (extractJpegs p).1, false⟩ := by
  have hguess := absorb_guessed (S := S) (.inr (image_not_length hp8 hp0)) []
  rw [extractJpegs_none rfl] at hguess
  rw [absorb_wtHeader hS]
  exact hguess

/-- The images are scanned as they are exactly if no later call is taken for a length. -/
theorem images_scanned_iff (hj : ∀ j ∈ jpegs, IsJpeg j) (hbytes : p ++ cs.flatten = jpegs.flatten) :
    (extractJpegs p).1 ++ savedOver S (.scan (extractJpegs p).2) cs = jpegs ↔ ∀ c ∈ cs, Guessed c := by
  constructor
  · intro heq
    by_contra hlost
    have hless := savedOver_loses (S := S) hlost p
    have hp := extractJpegs_length p
    have htotal := congrArg (fun l => (l.map List.length).sum) heq
    have hsum : (jpegs.map List.length).sum = p.length + cs.flatten.length := by
      rw [← List.length_flatten, ← hbytes, List.length_append]
    simp only [List.map_append, List.sum_append] at htotal
    omega
  · intro hall
    rw [savedOver_guessed hall, hbytes, extractJpegs_images hj]

end Images

/-- A stream of images whose first call brings the header and eight bytes more is saved exactly, image by image, if and
only if none of the later calls begins with a plausible length or inside a varint that it does not complete. -/
theorem images_saved_iff {os : Os} (ho : os.Succeeds) {s : State} (hm : s.app.maxFrames = 0) {sid : Nat}
    (hs : s.record sid = none) (hS : s.app.sessionCtrlId < 2 ^ 62) {jpegs : List (List UInt8)}
    (hj : ∀ j ∈ jpegs, IsJpeg j) {first : List UInt8} {cs : List (List UInt8)}
    (hwhole : (first :: cs).flatten = wtHeader s.app.sessionCtrlId ++ jpegs.flatten)
    (hfirst : (wtHeader s.app.sessionCtrlId).length + 8 ≤ first.length) :
    (∃ s', calls os s ((first :: cs).map (sid, ·)) = some s' ∧ s'.savedFor sid = s.savedFor sid ++ jpegs) ↔
      ∀ c ∈ cs, Guessed c := by
  obtain ⟨p, rfl⟩ : ∃ p, first = wtHeader s.app.sessionCtrlId ++ p := by
    rw [List.flatten_cons] at hwhole
    obtain ⟨p, hp⟩ := List.prefix_of_prefix_length_le ⟨_, hwhole.symm⟩ (List.prefix_append first cs.flatten) (by omega)
    exact ⟨p, hp.symm⟩
  rw [List.flatten_cons, List.append_assoc] at hwhole
  have hbytes : p ++ cs.flatten = jpegs.flatten := List.append_cancel_left hwhole
  rw [List.length_append] at hfirst
  have hp8 : 8 ≤ p.length := by omega
  obtain ⟨s1, h1, h2, -⟩ := calls_unseen ho hm hs ((wtHeader s.app.sessionCtrlId ++ p) :: cs)
  rw [savedOver, absorb_first hS hp8 (images_start hj hp8 hbytes)] at h2
  rw [← images_scanned_iff (S := s.app.sessionCtrlId) hj hbytes]
  constructor
  · rintro ⟨s', h1', h2'⟩
    rw [h1] at h1'
    cases h1'
    rw [h2] at h2'
    exact List.append_cancel_left h2'
  · intro heq
    exact ⟨s1, h1, by rw [h2, heq]⟩

/-- The smallest images. -/
def dot : List UInt8 := [0xFF, 0xD8, 0, 0, 0, 0, 0xFF, 0xD9]

theorem dot_isJpeg : IsJpeg dot := .of_places (by decide) (by decide) (by decide) (by decide)

/-- Two of them in two calls, cut before the second one, come through. -/
theorem images_saved_two :
    (∃ s', calls Os.sound (State.init "" 0 0) ([wtHeader 0 ++ dot, dot].map (3, ·)) = some s' ∧
      s'.savedFor 3 = (State.init "" 0 0).savedFor 3 ++ [dot, dot]) ↔ ∀ c ∈ [dot], Guessed c :=
  images_saved_iff Os.sound_succeeds rfl rfl (by decide) (List.forall_mem_cons.2 ⟨dot_isJpeg, by simp [dot_isJpeg]⟩)
    (by simp [State.init]) (by decide)

/-- An image with a byte `02` in it. -/
def dash : List UInt8 := [0xFF, 0xD8, 0, 0, 0, 0, 0, 0, 0x02, 0xAA, 0xFF, 0xD9]

/-- The same image, cut before that byte: the byte is taken for a length, what was retained of the image is lost, and
the two bytes behind it are saved as a frame. -/
theorem images_lost :
    IsJpeg dash ∧ [wtHeader 0 ++ dash.take 8, dash.drop 8].flatten = wtHeader 0 ++ [dash].flatten ∧
      (wtHeader 0).length + 8 ≤ (wtHeader 0 ++ dash.take 8).length ∧
      ∃ s', calls Os.sound (State.init "" 0 0) ([wtHeader 0 ++ dash.take 8, dash.drop 8].map (3, ·)) = some s' ∧
        s'.savedFor 3 = [[0xAA, 0xFF]] := by
  refine ⟨.of_places (by decide) (by decide) (by decide) (by decide), by decide, by decide, ?_⟩
  have hnew : (State.init "" 0 0).record 3 = none := rfl
  obtain ⟨s', h1, h2, -⟩ := calls_unseen Os.sound_succeeds rfl hnew [wtHeader 0 ++ dash.take 8, dash.drop 8]
  refine ⟨s', h1, ?_⟩
  -- the first call retains the start of the image
  have hfirst : absorb 0 .header (wtHeader 0 ++ dash.take 8) = ⟨.scan (dash.take 8), [], false⟩ := by
    have hopen : extractJpegs (dash.take 8) = ([], (dash.take 8).drop 0) := extractJpegs_open (by decide) (by decide)
    have hdec : Varint.decode (dash.take 8) = some (0x3FD8000000000000, 8) := by decide
    rw [absorb_wtHeader (by decide), absorb_scan_some [] hdec, if_pos (.inr (by decide)), List.nil_append, hopen]
    rfl
  -- the second one reads a length of 2, two payload bytes, and drops the last byte
  have hsecond : absorb 0 (.scan (dash.take 8)) (dash.drop 8) = ⟨.scan [], [[0xAA, 0xFF]], false⟩ := by
    have hdec : Varint.decode (dash.drop 8) = some (2, 1) := by decide
    have hlast : absorb 0 (.scan []) [0xD9] = ⟨.scan [], [], false⟩ := absorb_scan_none (by decide)
    have hpay : absorb 0 (.payload 2 []) [0xAA, 0xFF, 0xD9] = (absorb 0 (.scan []) [0xD9]).after [[0xAA, 0xFF]] :=
      absorb_payload_ge (by decide)
    have hgood : ¬ BadLength 2 := by decide
    rw [absorb_scan_some _ hdec, if_neg hgood]
    apply Eq.trans hpay
    rw [hlast]
    rfl
  have hsid : (State.init "" 0 0).app.sessionCtrlId = 0 := rfl
  rw [h2, hsid, savedOver, hfirst, savedOver, hsecond, savedOver]
  rfl

end Mquic.WtClient
