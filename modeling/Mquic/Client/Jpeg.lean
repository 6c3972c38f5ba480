/-
`extract_jpegs` (wt_client.c): the segments from an SOI marker to the next EOI marker, and what the
buffer retains of a segment not yet complete. Scanning is incremental: the retained bytes stand for all
that was scanned before.
-/
import Mquic.Lib.Marker

namespace Mquic.WtClient

/-! ## The scanner -/

/-- The bytes kept of a buffer without SOI. -/
def garbageKept : Nat := 64 * 1024

/-- The buffer a scan without SOI leaves: at most the last 64 KiB. -/
def trim (b : List UInt8) : List UInt8 := if b.length > garbageKept then b.drop (b.length - garbageKept) else b

/-- `extract_jpegs` on the bytes of the buffer: the frames handed to `on_frame`, in order, and the bytes
left in the buffer. -/
def extractJpegs (b : List UInt8) : List (List UInt8) × List UInt8 :=
  match Marker.find 0xFF 0xD8 b with
  | none => ([], trim b)
  | some s =>
    match _h : Marker.find 0xFF 0xD9 ((b.drop s).drop 2) with
    | none => ([], b.drop s)
    | some e =>
      let (frames, rest) := extractJpegs ((b.drop s).drop (e + 4))
      ((b.drop s).take (e + 4) :: frames, rest)
termination_by b.length
decreasing_by
  have := Marker.find_lt _h
  simp only [List.length_drop] at this ⊢
  omega

theorem extractJpegs_none {b : List UInt8} (h : Marker.find 0xFF 0xD8 b = none) : extractJpegs b = ([], trim b) := by
  rw [extractJpegs, h]

theorem extractJpegs_open {b : List UInt8} {s : Nat} (hs : Marker.find 0xFF 0xD8 b = some s)
    (he : Marker.find 0xFF 0xD9 ((b.drop s).drop 2) = none) : extractJpegs b = ([], b.drop s) := by
  rw [extractJpegs, hs]
  simp only
  split
  · rfl
  · rename_i h; rw [he] at h; cases h

theorem extractJpegs_frame {b : List UInt8} {s e : Nat} (hs : Marker.find 0xFF 0xD8 b = some s)
    (he : Marker.find 0xFF 0xD9 ((b.drop s).drop 2) = some e) :
    extractJpegs b = ((b.drop s).take (e + 4) :: (extractJpegs ((b.drop s).drop (e + 4))).1,
      (extractJpegs ((b.drop s).drop (e + 4))).2) := by
  rw [extractJpegs, hs]
  simp only
  split
  · rename_i h; rw [he] at h; cases h
  · rename_i h; rw [he] at h; cases h; rfl

/-- Two buffers whose first SOI opens the same bytes are scanned alike. -/
theorem extractJpegs_congr {b b' : List UInt8} {s s' : Nat} (hs : Marker.find 0xFF 0xD8 b = some s)
    (hs' : Marker.find 0xFF 0xD8 b' = some s') (h : b.drop s = b'.drop s') : extractJpegs b = extractJpegs b' := by
  cases he : Marker.find 0xFF 0xD9 ((b.drop s).drop 2) with
  | none =>
    rw [extractJpegs_open hs he, extractJpegs_open hs' (by rw [← h]; exact he), h]
  | some e =>
    rw [extractJpegs_frame hs he, extractJpegs_frame hs' (by rw [← h]; exact he), h]

/-! ## Bytes that carry more -/

section Carried

variable {β : Type} (byte : β → UInt8)

/-- The same scan of entries that carry a byte: the entries of each frame, and those left in the buffer. -/
def extractBy (b : List β) : List (List β) × List β :=
  match Marker.find 0xFF 0xD8 (b.map byte) with
  | none => ([], if b.length > garbageKept then b.drop (b.length - garbageKept) else b)
  | some s =>
    match _h : Marker.find 0xFF 0xD9 (((b.map byte).drop s).drop 2) with
    | none => ([], b.drop s)
    | some e =>
      let (frames, rest) := extractBy ((b.drop s).drop (e + 4))
      ((b.drop s).take (e + 4) :: frames, rest)
termination_by b.length
decreasing_by
  have := Marker.find_lt _h
  simp only [List.length_drop, List.length_map] at this ⊢
  omega

variable {byte} {b : List β} {s e : Nat}

theorem extractBy_open (hs : Marker.find 0xFF 0xD8 (b.map byte) = some s)
    (he : Marker.find 0xFF 0xD9 (((b.map byte).drop s).drop 2) = none) : extractBy byte b = ([], b.drop s) := by
  rw [extractBy, hs]
  simp only
  split
  · rfl
  · rename_i h; rw [he] at h; cases h

theorem extractBy_frame (hs : Marker.find 0xFF 0xD8 (b.map byte) = some s)
    (he : Marker.find 0xFF 0xD9 (((b.map byte).drop s).drop 2) = some e) :
    extractBy byte b = ((b.drop s).take (e + 4) :: (extractBy byte ((b.drop s).drop (e + 4))).1,
      (extractBy byte ((b.drop s).drop (e + 4))).2) := by
  rw [extractBy, hs]
  simp only
  split
  · rename_i h; rw [he] at h; cases h
  · rename_i h; rw [he] at h; cases h; rfl

/-- The bytes they carry are scanned alike. -/
theorem extractBy_map (b : List β) :
    extractJpegs (b.map byte) = ((extractBy byte b).1.map (List.map byte), (extractBy byte b).2.map byte) := by
  cases hs : Marker.find 0xFF 0xD8 (b.map byte) with
  | none =>
    rw [extractJpegs_none hs, extractBy, hs, trim, List.length_map]
    simp only
    by_cases hlong : b.length > garbageKept
    · rw [if_pos hlong, if_pos hlong, List.map_drop, List.map_nil]
    · rw [if_neg hlong, if_neg hlong, List.map_nil]
  | some s =>
    cases he : Marker.find 0xFF 0xD9 (((b.map byte).drop s).drop 2) with
    | none => rw [extractJpegs_open hs he, extractBy_open hs he, List.map_drop, List.map_nil]
    | some e =>
      have hlt := Marker.find_lt he
      have ih := extractBy_map ((b.drop s).drop (e + 4))
      rw [List.map_drop, List.map_drop] at ih
      rw [extractJpegs_frame hs he, extractBy_frame hs he, ih, List.map_cons, List.map_take, List.map_drop]
termination_by b.length
decreasing_by
  simp only [List.length_drop, List.length_map] at hlt ⊢
  omega

/-- Each entry is in one frame, or left over, or dropped, and their order is kept. -/
theorem extractBy_sublist (b : List β) : ((extractBy byte b).1.flatten ++ (extractBy byte b).2).Sublist b := by
  cases hs : Marker.find 0xFF 0xD8 (b.map byte) with
  | none =>
    rw [extractBy, hs]
    simp only [List.flatten_nil, List.nil_append]
    by_cases hlong : b.length > garbageKept
    · rw [if_pos hlong]
      exact List.drop_sublist _ b
    · rw [if_neg hlong]
  | some s =>
    cases he : Marker.find 0xFF 0xD9 (((b.map byte).drop s).drop 2) with
    | none =>
      rw [extractBy_open hs he]
      exact List.drop_sublist s b
    | some e =>
      have hlt := Marker.find_lt he
      have hrest := (extractBy_sublist ((b.drop s).drop (e + 4))).append_left ((b.drop s).take (e + 4))
      rw [List.take_append_drop] at hrest
      rw [extractBy_frame hs he, List.flatten_cons, List.append_assoc]
      exact hrest.trans (List.drop_sublist s b)
termination_by b.length
decreasing_by
  simp only [List.length_drop, List.length_map] at hlt ⊢
  omega

end Carried

/-- No frame is empty. -/
theorem extractJpegs_ne_nil (b : List UInt8) : ∀ frame ∈ (extractJpegs b).1, frame ≠ [] := by
  cases hs : Marker.find 0xFF 0xD8 b with
  | none =>
    rw [extractJpegs_none hs]
    exact List.forall_mem_nil _
  | some s =>
    cases he : Marker.find 0xFF 0xD9 ((b.drop s).drop 2) with
    | none =>
      rw [extractJpegs_open hs he]
      exact List.forall_mem_nil _
    | some e =>
      have hlt := Marker.find_lt he
      rw [extractJpegs_frame hs he]
      have hrest := extractJpegs_ne_nil ((b.drop s).drop (e + 4))
      refine List.forall_mem_cons.2 ⟨?_, hrest⟩
      apply List.ne_nil_of_length_pos
      simp only [List.length_take, List.length_drop] at hlt ⊢
      omega
termination_by b.length
decreasing_by
  simp only [List.length_drop] at hlt ⊢
  omega

/-! ## Trimming -/

theorem trim_split (b : List UInt8) : ∃ w, b = w ++ trim b ∧ (w = [] ∨ (trim b).length = garbageKept) := by
  unfold trim
  split
  · rename_i h
    exact ⟨b.take (b.length - garbageKept), (List.take_append_drop _ _).symm, .inr (by rw [List.length_drop]; omega)⟩
  · exact ⟨[], rfl, .inl rfl⟩

/-- Bytes before a full buffer of garbage are trimmed anyway. -/
theorem trim_prefix {w r : List UInt8} (hr : r.length = garbageKept) (y : List UInt8) :
    trim (w ++ r ++ y) = trim (r ++ y) := by
  unfold trim
  simp only [List.length_append, hr, List.append_assoc]
  by_cases hy : 0 < y.length
  · rw [if_pos (by omega), if_pos (by omega), show w.length + (garbageKept + y.length) - garbageKept =
      w.length + (garbageKept + y.length - garbageKept) by omega, List.drop_append]
    simp
  · have hy0 : y = [] := List.length_eq_zero_iff.1 (by omega)
    subst hy0
    by_cases hw : 0 < w.length
    · rw [if_pos (by simp; omega)]
      simp
    · have hw0 : w = [] := List.length_eq_zero_iff.1 (by omega)
      subst hw0; rfl

/-- Without SOI, the trimmed buffer stands for the whole when more bytes arrive. -/
theorem extractJpegs_trim {x : List UInt8} (hs : Marker.find 0xFF 0xD8 x = none) (y : List UInt8) :
    extractJpegs (x ++ y) = extractJpegs (trim x ++ y) := by
  obtain ⟨w, hw, h⟩ := trim_split x
  rcases h with rfl | hlen
  · rw [← List.nil_append (trim x), ← hw]
  · generalize trim x = r at hw hlen
    subst hw
    have hr : r ≠ [] := by
      rintro rfl
      exact absurd hlen (by decide)
    have hskip := Marker.find_skip w hr hs y
    cases hf : Marker.find 0xFF 0xD8 (r ++ y) with
    | none =>
      rw [hf] at hskip
      rw [extractJpegs_none hskip, extractJpegs_none hf, trim_prefix hlen]
    | some i =>
      rw [hf] at hskip
      apply extractJpegs_congr hskip hf
      rw [List.append_assoc, List.drop_append]
      simp

/-- Segments and what is retained are no longer than what was scanned. -/
theorem extractJpegs_length (b : List UInt8) :
    ((extractJpegs b).1.map List.length).sum + (extractJpegs b).2.length ≤ b.length := by
  cases hs : Marker.find 0xFF 0xD8 b with
  | none =>
    rw [extractJpegs_none hs]
    obtain ⟨w, hw, -⟩ := trim_split b
    have := congrArg List.length hw
    rw [List.length_append] at this
    simp only [List.map_nil, List.sum_nil]
    omega
  | some s =>
    cases he : Marker.find 0xFF 0xD9 ((b.drop s).drop 2) with
    | none =>
      rw [extractJpegs_open hs he]
      simp
    | some e =>
      have hlt := Marker.find_lt he
      simp only [List.length_drop] at hlt
      have ih := extractJpegs_length ((b.drop s).drop (e + 4))
      rw [extractJpegs_frame hs he]
      simp only [List.map_cons, List.sum_cons, List.length_take, List.length_drop] at ih ⊢
      omega
termination_by b.length
decreasing_by
  have := Marker.find_lt he
  simp only [List.length_drop] at this ⊢
  omega

/-! ## Incremental scanning -/

/-- Scanning what was retained and the next bytes gives what scanning all bytes at once gives. -/
theorem extractJpegs_append (x y : List UInt8) :
    extractJpegs (x ++ y) = ((extractJpegs x).1 ++ (extractJpegs ((extractJpegs x).2 ++ y)).1,
      (extractJpegs ((extractJpegs x).2 ++ y)).2) := by
  cases hs : Marker.find 0xFF 0xD8 x with
  | none =>
    rw [extractJpegs_none hs, extractJpegs_trim hs]
    rfl
  | some s =>
    have hlt := Marker.find_lt hs
    have hs' := Marker.find_append hs y
    have hdrop : (x ++ y).drop s = x.drop s ++ y := List.drop_append_of_le_length (by omega)
    cases he : Marker.find 0xFF 0xD9 ((x.drop s).drop 2) with
    | none =>
      rw [extractJpegs_open hs he]
      exact extractJpegs_congr hs' (Marker.find_append (Marker.find_drop hs) y) hdrop
    | some e =>
      have hle := Marker.find_lt he
      simp only [List.length_drop] at hle
      have he' : Marker.find 0xFF 0xD9 (((x ++ y).drop s).drop 2) = some e := by
        rw [hdrop, List.drop_append_of_le_length (by rw [List.length_drop]; omega)]
        exact Marker.find_append he y
      rw [extractJpegs_frame hs' he', extractJpegs_frame hs he, hdrop,
        List.take_append_of_le_length (by rw [List.length_drop]; omega),
        List.drop_append_of_le_length (by rw [List.length_drop]; omega),
        extractJpegs_append ((x.drop s).drop (e + 4)) y]
      rfl
termination_by x.length
decreasing_by
  simp only [List.length_drop]
  omega

/-- Nothing is found in what a scan retained. -/
theorem extractJpegs_retained (x : List UInt8) : extractJpegs (extractJpegs x).2 = ([], (extractJpegs x).2) := by
  have h := extractJpegs_append x []
  rw [List.append_nil, List.append_nil] at h
  have h1 := congrArg Prod.fst h
  have h2 := congrArg Prod.snd h
  simp only at h1 h2
  exact Prod.ext (List.self_eq_append_right.1 h1) h2.symm

end Mquic.WtClient
