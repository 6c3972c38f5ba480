/-
`extract_jpegs` as a scanner of a byte string that arrives in chunks: its frames are the segments of a greedy scan
of the whole string, whatever the chunks.
-/
import Mquic.Client.WtReceiver
import Mathlib.Data.List.DropRight

namespace Mquic.WtClient

open Marker

/-! ## The greedy scan -/

/-- The greedy scan of `l` from place `k` on: the segments, each from the first `FF D8` up to and including the
first `FF D9` that starts at least two bytes later, and what is left over: an unfinished segment from its `FF D8`,
or the last bytes of what holds no `FF D8`, 65536 at most. -/
inductive GreedyScan (l : List UInt8) : Nat → List (List UInt8) → List UInt8 → Prop where
  | noStart {k : Nat} (hs : ∀ i, k ≤ i → ¬ At 0xFF 0xD8 l i) : GreedyScan l k [] ((l.drop k).rtake 65536)
  | noEnd {k s : Nat} (hs : FirstFrom 0xFF 0xD8 l k s) (he : ∀ i, s + 2 ≤ i → ¬ At 0xFF 0xD9 l i) :
    GreedyScan l k [] (l.drop s)
  | segment {k s e : Nat} {segments : List (List UInt8)} {left : List UInt8} (hs : FirstFrom 0xFF 0xD8 l k s)
    (he : FirstFrom 0xFF 0xD9 l (s + 2) e) (hrest : GreedyScan l (e + 2) segments left) :
    GreedyScan l k (l.extract s (e + 2) :: segments) left

theorem trim_eq_rtake (b : List UInt8) : trim b = b.rtake 65536 := by
  have hkept : garbageKept = 65536 := by norm_num [garbageKept]
  unfold trim List.rtake
  rw [hkept]
  by_cases h : b.length > 65536
  · rw [if_pos h]
  · rw [if_neg h, Nat.sub_eq_zero_of_le (Nat.le_of_not_lt h), List.drop_zero]

/-- `extract_jpegs` computes the greedy scan. -/
theorem extractJpegs_greedy (l : List UInt8) (k : Nat) :
    GreedyScan l k (extractJpegs (l.drop k)).1 (extractJpegs (l.drop k)).2 := by
  cases hs : find 0xFF 0xD8 (l.drop k) with
  | none =>
    rw [extractJpegs_none hs]
    show GreedyScan l k [] (trim (l.drop k))
    rw [trim_eq_rtake]
    exact .noStart (find_drop_none.1 hs)
  | some s =>
    have hfirst := find_drop_some.1 hs
    have hdrop : (l.drop k).drop s = l.drop (k + s) := by rw [List.drop_drop]
    have hdrop2 : ((l.drop k).drop s).drop 2 = l.drop (k + s + 2) := by rw [hdrop, List.drop_drop]
    cases he : find 0xFF 0xD9 (((l.drop k).drop s).drop 2) with
    | none =>
      rw [extractJpegs_open hs he, hdrop]
      rw [hdrop2] at he
      exact .noEnd hfirst (find_drop_none.1 he)
    | some e =>
      have hlt := find_lt he
      simp only [List.length_drop] at hlt
      have hrest : ((l.drop k).drop s).drop (e + 4) = l.drop (k + s + 2 + e + 2) := by
        rw [hdrop, List.drop_drop]
        congr 1
        omega
      have hseg : ((l.drop k).drop s).take (e + 4) = l.extract (k + s) (k + s + 2 + e + 2) := by
        rw [hdrop, List.extract_eq_take_drop]
        congr 1
        omega
      -- the scan goes on behind the end of the first image
      rw [extractJpegs_frame hs he, hrest, hseg]
      rw [hdrop2] at he
      exact .segment hfirst (find_drop_some.1 he) (extractJpegs_greedy l (k + s + 2 + e + 2))
termination_by l.length - k
decreasing_by
  have := find_lt he
  simp only [List.length_drop] at this
  omega

/-- A string has one greedy scan. -/
theorem GreedyScan.unique {l : List UInt8} {k : Nat} {segments segments' : List (List UInt8)} {left left' : List UInt8}
    (h : GreedyScan l k segments left) (h' : GreedyScan l k segments' left') : segments = segments' ∧ left = left' := by
  induction h generalizing segments' left' with
  | noStart hs =>
    cases h' with
    | noStart _ => exact ⟨rfl, rfl⟩
    | noEnd hs' _ => exact absurd hs'.here (hs _ hs'.le)
    | segment hs' _ _ => exact absurd hs'.here (hs _ hs'.le)
  | noEnd hs he =>
    cases h' with
    | noStart hs' => exact absurd hs.here (hs' _ hs.le)
    | noEnd hs' _ =>
      obtain rfl := hs.unique hs'
      exact ⟨rfl, rfl⟩
    | segment hs' he' _ =>
      obtain rfl := hs.unique hs'
      exact absurd he'.here (he _ he'.le)
  | segment hs he _ ih =>
    cases h' with
    | noStart hs' => exact absurd hs.here (hs' _ hs.le)
    | noEnd hs' he' =>
      obtain rfl := hs.unique hs'
      exact absurd he.here (he' _ he.le)
    | segment hs' he' hrest' =>
      obtain rfl := hs.unique hs'
      obtain rfl := he.unique he'
      obtain ⟨rfl, rfl⟩ := ih hrest'
      exact ⟨rfl, rfl⟩

/-! ## Chunks -/

/-- One more chunk behind the bytes retained: the frames so far, and the bytes retained. -/
def scanChunk (x : List (List UInt8) × List UInt8) (chunk : List UInt8) : List (List UInt8) × List UInt8 :=
  (x.1 ++ (extractJpegs (x.2 ++ chunk)).1, (extractJpegs (x.2 ++ chunk)).2)

/-- A string that arrives in chunks. -/
def scanChunks (chunks : List (List UInt8)) : List (List UInt8) × List UInt8 := chunks.foldl scanChunk ([], [])

/-- What is retained stands for all that came before it. -/
theorem foldl_scanChunk : ∀ (chunks : List (List UInt8)) (x : List UInt8) (frames : List (List UInt8)),
    chunks.foldl scanChunk (frames ++ (extractJpegs x).1, (extractJpegs x).2) =
      (frames ++ (extractJpegs (x ++ chunks.flatten)).1, (extractJpegs (x ++ chunks.flatten)).2)
  | [], x, frames => by rw [List.flatten_nil, List.append_nil, List.foldl_nil]
  | c :: cs, x, frames => by
    have happend := extractJpegs_append x c
    have hstep : scanChunk (frames ++ (extractJpegs x).1, (extractJpegs x).2) c =
        (frames ++ (extractJpegs (x ++ c)).1, (extractJpegs (x ++ c)).2) := by
      unfold scanChunk
      rw [happend, List.append_assoc]
    rw [List.foldl_cons, hstep, foldl_scanChunk cs (x ++ c) frames, List.flatten_cons, List.append_assoc]

theorem scanChunks_eq (chunks : List (List UInt8)) : scanChunks chunks = extractJpegs chunks.flatten := by
  have h0 : extractJpegs [] = ([], []) := extractJpegs_none rfl
  have := foldl_scanChunk chunks [] []
  rw [h0] at this
  exact this

theorem scanned_iff (chunks : List (List UInt8)) (segments : List (List UInt8)) (left : List UInt8) :
    scanChunks chunks = (segments, left) ↔ GreedyScan chunks.flatten 0 segments left := by
  have hgreedy := extractJpegs_greedy chunks.flatten 0
  rw [List.drop_zero, ← scanChunks_eq] at hgreedy
  constructor
  · intro h
    rw [h] at hgreedy
    exact hgreedy
  · intro h
    obtain ⟨h1, h2⟩ := hgreedy.unique h
    exact Prod.ext h1 h2

/-! ## The receiver for JPEG data -/

/-- A stream of JPEG data is scanned chunk by chunk. -/
theorem savedOver_raw (S : Nat) : ∀ (chunks : List (List UInt8)) (x : List UInt8) (frames : List (List UInt8)),
    frames ++ savedOver S (.raw (extractJpegs x).2) chunks =
      (chunks.foldl scanChunk (frames, (extractJpegs x).2)).1
  | [], x, frames => by rw [savedOver, List.append_nil, List.foldl_nil]
  | c :: cs, x, frames => by
    have happend := extractJpegs_append x c
    have habs : absorb S (.raw (extractJpegs x).2) c =
        ⟨.raw (extractJpegs (x ++ c)).2, (extractJpegs ((extractJpegs x).2 ++ c)).1, false⟩ := by
      by_cases hc : c = []
      · subst hc
        rw [absorb_nil S (fun _ _ h => by cases h), List.append_nil, List.append_nil, extractJpegs_retained]
      · rw [absorb_raw hc, happend]
    have hstep : scanChunk (frames, (extractJpegs x).2) c =
        (frames ++ (extractJpegs ((extractJpegs x).2 ++ c)).1, (extractJpegs (x ++ c)).2) := by
      unfold scanChunk
      rw [happend]
    rw [savedOver, habs, List.foldl_cons, hstep, ← savedOver_raw S cs (x ++ c), List.append_assoc]

/-- On a stream that is in SOI/EOI mode, calls with `chunks` save the segments of the greedy scan of their bytes. -/
theorem calls_raw {os : Os} (ho : os.Succeeds) {s : State} (hm : s.app.maxFrames = 0) {sid : Nat}
    (hst : Stands sid (recordOf s sid) (.raw [])) {chunks segments : List (List UInt8)} {left : List UInt8}
    (hscan : GreedyScan chunks.flatten 0 segments left) :
    ∃ s', calls os s (chunks.map (sid, ·)) = some s' ∧ s'.savedFor sid = s.savedFor sid ++ segments := by
  obtain ⟨s', h1, h2, -⟩ := calls_ok ho chunks s (.raw []) hm hst
  refine ⟨s', h1, ?_⟩
  have hempty : extractJpegs [] = ([], []) := extractJpegs_none rfl
  have hraw := savedOver_raw s.app.sessionCtrlId chunks [] []
  rw [hempty] at hraw
  have hsegments : savedOver s.app.sessionCtrlId (.raw []) chunks = segments := by
    rw [← List.nil_append (savedOver _ _ _), hraw]
    exact congrArg Prod.fst ((scanned_iff chunks segments left).2 hscan)
  rw [savedFor_append h2, if_pos rfl, hsegments]

/-- For every string and every way to cut it into chunks, extraction emits the segments of the greedy scan of the
whole string and retains what that leaves over; and these segments are what the receiver saves of a stream in SOI/EOI
mode. -/
theorem scanChunks_iff (chunks : List (List UInt8)) (segments : List (List UInt8)) (left : List UInt8) :
    (scanChunks chunks = (segments, left) ↔ GreedyScan chunks.flatten 0 segments left) ∧
    ∀ (os : Os) (s : State) (sid : Nat), os.Succeeds → s.app.maxFrames = 0 →
      Stands sid (recordOf s sid) (.raw []) → GreedyScan chunks.flatten 0 segments left →
      ∃ s', calls os s (chunks.map (sid, ·)) = some s' ∧ s'.savedFor sid = s.savedFor sid ++ segments :=
  ⟨scanned_iff chunks segments left, fun _ _ _ ho hm hst hscan => calls_raw ho hm hst hscan⟩

end Mquic.WtClient
