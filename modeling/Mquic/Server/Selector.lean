/-
The path selector (path_algo.c) over tables of any length and runs of any calls: the send path is the first sendable
one of least RTT, and successful probes keep their distance in time and go to another existing path.
-/
import Mquic.Lib.Argmin
import Mquic.Server.Path

namespace Mquic.Server

open Argmin (FirstMin)

/-! ## The send path -/

/-- What `is_path_sendable` asks of a path that exists. -/
def Path.Sendable (p : Path) : Prop := p.firstTuple = some true ∧ p.pathIsDemoted = false

theorem isPathSendable_iff (p : Path) : isPathSendable (some p) = true ↔ p.Sendable := by
  simp [isPathSendable, Path.Sendable]

/-- The RTT an entry of the table is ranked by, nothing when it is not sendable. -/
def rank : Option Path → Option Nat
  | none => none
  | some p => if isPathSendable (some p) then some p.rtt else none

theorem rank_eq_some {e : Option Path} {r : Nat} : rank e = some r ↔ ∃ p, e = some p ∧ p.Sendable ∧ p.rtt = r := by
  cases e with
  | none => simp [rank]
  | some p => simp [rank, isPathSendable_iff]

/-- The best path as the source keeps it: -1 and the largest RTT while there is none. -/
def sentinel : Option (Nat × Nat) → Int × Nat
  | none => (-1, 2 ^ 64 - 1)
  | some (k, r) => (k, r)

/-- With all ranks below the largest RTT the loop is the pass of the first minimum. -/
theorem bestPath_eq : ∀ (paths : Paths) (i : Nat) (best : Option (Nat × Nat)),
    (∀ e ∈ paths, ∀ r, rank e = some r → r < 2 ^ 64 - 1) →
      bestPath i paths (sentinel best).1 (sentinel best).2 = (sentinel (Argmin.pass i best (paths.map rank))).1
  | [], _, _, _ => rfl
  | e :: paths, i, best, h => by
    have ih := fun best => bestPath_eq paths (i + 1) best fun e he => h e (List.mem_cons_of_mem _ he)
    rw [List.map_cons, Argmin.pass, ← ih]
    cases e with
    | none => rfl
    | some p =>
      have hr := h (some p) List.mem_cons_self
      by_cases hs : isPathSendable (some p) = true
      · rw [show rank (some p) = some p.rtt from if_pos hs] at hr ⊢
        cases best with
        | none =>
          have hlt : p.rtt < 2 ^ 64 - 1 := hr _ rfl
          simp only [bestPath, Argmin.keep, sentinel, hs, hlt, and_self, if_true]
        | some b =>
          obtain ⟨k, r₀⟩ := b
          by_cases hlt : p.rtt < r₀
          · simp only [bestPath, Argmin.keep, sentinel, hs, hlt, and_self, if_true]
          · simp only [bestPath, Argmin.keep, sentinel, hs, hlt, and_false, if_false]
      · rw [show rank (some p) = none from if_neg hs]
        simp only [bestPath, Argmin.keep, hs, false_and, if_false, Bool.false_eq_true]

theorem getElem?_map_rank {paths : Paths} {j r : Nat} :
    (paths.map rank)[j]? = some (some r) ↔ ∃ p, paths.at j = some p ∧ p.Sendable ∧ p.rtt = r := by
  unfold Paths.at
  rw [List.getElem?_map]
  cases paths[j]? with
  | none => simp
  | some e => simp [rank_eq_some]

/-- The loop keeps the index it had or takes one of those it goes over. -/
theorem bestPath_range : ∀ (paths : Paths) (i : Nat) (best : Int) (bestRtt : Nat),
    bestPath i paths best bestRtt = best ∨
      ((i : Int) ≤ bestPath i paths best bestRtt ∧ bestPath i paths best bestRtt < (i + paths.length : Nat))
  | [], _, _, _ => .inl rfl
  | e :: paths, i, best, bestRtt => by
    have hcons : (e :: paths).length = paths.length + 1 := List.length_cons
    -- the entry is passed over
    have hskip : bestPath i (e :: paths) best bestRtt = bestPath (i + 1) paths best bestRtt →
        bestPath i (e :: paths) best bestRtt = best ∨ ((i : Int) ≤ bestPath i (e :: paths) best bestRtt ∧
          bestPath i (e :: paths) best bestRtt < (i + (e :: paths).length : Nat)) := by
      intro heq
      rw [heq, hcons]
      exact (bestPath_range paths (i + 1) best bestRtt).imp id fun h => ⟨by omega, by omega⟩
    cases e with
    | none => exact hskip rfl
    | some p =>
      by_cases hp : isPathSendable (some p) ∧ p.rtt < bestRtt
      · rw [bestPath, if_pos hp, hcons]
        rcases bestPath_range paths (i + 1) i p.rtt with h | h
        · rw [h]
          exact .inr ⟨le_rfl, by omega⟩
        · exact .inr ⟨by omega, by omega⟩
      · exact hskip (by rw [bestPath, if_neg hp])

/-- An index that is picked for sending is one of the table, and recorded. -/
theorem pickSendPath_recorded {a : Option PathAlgo} {paths : Paths} {i : Nat}
    (h : (pathAlgoPickSendPath a paths).2 = (i : Int)) :
    i < paths.length ∧ ∃ b, (pathAlgoPickSendPath a paths).1 = some b ∧ b.lastSend = i := by
  cases a with
  | none => simp only [pathAlgoPickSendPath] at h; omega
  | some a =>
    by_cases h0 : paths.length = 0
    · rw [pathAlgoPickSendPath, if_pos h0] at h
      simp only at h
      omega
    · rw [pathAlgoPickSendPath, if_neg h0] at h ⊢
      simp only at h ⊢
      refine ⟨?_, _, rfl, h⟩
      have hrange := bestPath_range paths 0 (-1) (2 ^ 64 - 1)
      split_ifs at h <;> omega

/-- An RTT below the bound that both fields keep. -/
theorem Path.rtt_lt {p : Path} {n : Nat} (hn : 1 < n) (h : p.rttMin < n ∧ p.smoothedRtt < n) : p.rtt < n := by
  unfold Path.rtt
  grind

/-- The send path is the first of the sendable paths of least RTT, or 0 when no path is sendable; it is recorded as
`last_send`, and nothing else changes. -/
theorem pickSendPath_first_least (a : PathAlgo) (paths : Paths) (hn : 1 ≤ paths.length)
    (hrtt : ∀ p, some p ∈ paths → p.rttMin < 2 ^ 64 - 1 ∧ p.smoothedRtt < 2 ^ 64 - 1) :
    ∃ k < paths.length, pathAlgoPickSendPath (some a) paths = (some { a with lastSend := k }, (k : Int)) ∧
      ((∃ p, paths.at k = some p ∧ p.Sendable ∧
          (∀ j q, paths.at j = some q → q.Sendable → p.rtt ≤ q.rtt) ∧
          ∀ j < k, ∀ q, paths.at j = some q → q.Sendable → p.rtt < q.rtt) ∨
        k = 0 ∧ ∀ j q, paths.at j = some q → ¬q.Sendable) := by
  have hranks : ∀ e ∈ paths, ∀ r, rank e = some r → r < 2 ^ 64 - 1 := by
    intro e he r hr
    obtain ⟨p, rfl, -, rfl⟩ := rank_eq_some.1 hr
    exact Path.rtt_lt (by norm_num) (hrtt p he)
  have hbest := bestPath_eq paths 0 none hranks
  have hpass := Argmin.pass_holds (paths.map rank)
  have hcall : pathAlgoPickSendPath (some a) paths =
      (let best := bestPath 0 paths (-1) (2 ^ 64 - 1)
       let best := if best < 0 then 0 else best
       (some { a with lastSend := best }, best)) := if_neg (by omega)
  rw [hcall, show bestPath 0 paths (-1) (2 ^ 64 - 1) = _ from hbest]
  cases hp : Argmin.pass 0 none (paths.map rank) with
  | none =>
    rw [hp] at hpass
    refine ⟨0, hn, rfl, .inr ⟨rfl, fun j q hq hs => ?_⟩⟩
    exact hpass j q.rtt (getElem?_map_rank.2 ⟨q, hq, hs, rfl⟩)
  | some b =>
    obtain ⟨k, r⟩ := b
    rw [hp] at hpass
    have hmin : FirstMin (paths.map rank) k r := hpass
    have hk : ¬(k : Int) < 0 := by omega
    obtain ⟨p, hat, hs, rfl⟩ := getElem?_map_rank.1 hmin.rank
    refine ⟨k, by simpa using hmin.lt_length, ?_, .inl ⟨p, hat, hs, fun j q hq hqs => ?_, fun j hj q hq hqs => ?_⟩⟩
    · simp only [sentinel, hk, if_false]
    · exact hmin.least j q.rtt (getElem?_map_rank.2 ⟨q, hq, hqs, rfl⟩)
    · exact hmin.first j hj q.rtt (getElem?_map_rank.2 ⟨q, hq, hqs, rfl⟩)

/-- Three sendable paths, the last two with the least RTT. -/
theorem pickSendPath_first_least_three :
    let path (rtt : Nat) : Option Path := some ⟨0, some true, false, rtt, 0⟩
    ∃ k : Nat, k < 3 ∧ pathAlgoPickSendPath (some ⟨-1, 0⟩) [path 30, path 20, path 20] =
      (some { lastSend := k, nextProbeUs := 0 }, (k : Int)) := by
  intro path
  obtain ⟨k, hk, hcall, -⟩ := pickSendPath_first_least ⟨-1, 0⟩ [path 30, path 20, path 20] (by decide) (by
    intro p hp
    simp only [path, List.mem_cons, Option.some.injEq, List.not_mem_nil, or_false] at hp
    rcases hp with rfl | rfl | rfl <;> decide)
  exact ⟨k, hk, hcall⟩

/-! ## The probe path -/

/-- What a scan returns is an index of the table, not the send path's, of an entry that is not empty. Indices are
unbounded here; those of the source are `int`, far above any number of paths. -/
theorem probeFrom_some {lastSend : Int} {paths : Paths} {start i : Nat} :
    ∀ n k : Nat, probeFrom lastSend paths start n k = some i →
      (∃ m, i = (start + m) % paths.length) ∧ (i : Int) ≠ lastSend ∧ paths.at i ≠ none
  | 0, _, h => by cases h
  | n + 1, k, h => by
    rw [probeFrom] at h
    split_ifs at h with h1 h2
    · exact probeFrom_some n (k + 1) h
    · exact probeFrom_some n (k + 1) h
    · cases h
      exact ⟨⟨k, rfl⟩, h1, by simpa [Option.isNone_iff_eq_none] using h2⟩

/-- When a scan returns nothing, every entry it met is the send path or empty. -/
theorem probeFrom_none {lastSend : Int} {paths : Paths} {start : Nat} :
    ∀ n k : Nat, probeFrom lastSend paths start n k = none → ∀ m, k ≤ m → m < k + n →
      ((start + m) % paths.length : Nat) = lastSend ∨ paths.at ((start + m) % paths.length) = none
  | 0, _, _, _, _, _ => by omega
  | n + 1, k, h, m, h1, h2 => by
    rw [probeFrom] at h
    rcases h1.eq_or_lt with rfl | hlt
    · split_ifs at h with hs he
      · exact .inl hs
      · exact .inr (Option.isNone_iff_eq_none.1 he)
    · split_ifs at h <;> exact probeFrom_none n (k + 1) h m hlt (by omega)

/-- A scan of a whole round meets every index. -/
theorem scan_covers (start : Nat) {i n : Nat} (hi : i < n) : ∃ m < n, (start + m) % n = i := by
  have hs : start % n < n := Nat.mod_lt _ (by omega)
  by_cases hle : start % n ≤ i
  · refine ⟨i - start % n, by omega, ?_⟩
    rw [← Nat.mod_add_mod, Nat.add_sub_cancel' hle, Nat.mod_eq_of_lt hi]
  · refine ⟨i + n - start % n, by omega, ?_⟩
    rw [← Nat.mod_add_mod, show start % n + (i + n - start % n) = i + n by omega, Nat.add_mod_right,
      Nat.mod_eq_of_lt hi]

/-- The three ways a call of `path_algo_pick_probe_path` can end without an index. -/
def NoProbe (a : PathAlgo) (paths : Paths) (nowUs : Nat) : Prop :=
  paths.length < 2 ∨ nowUs < a.nextProbeUs ∨ ∀ i < paths.length, (i : Int) ≠ a.lastSend → paths.at i = none

/-- One call: another path that exists, and the next probe 250 ms later at the earliest; or -1 for one of three
reasons, and nothing changes. -/
theorem pickProbePath_cases (a : PathAlgo) (paths : Paths) {nowUs : Nat} (hnow : nowUs < 2 ^ 64 - 250000) :
    (a.nextProbeUs ≤ nowUs ∧ ∃ i < paths.length, paths.at i ≠ none ∧ (i : Int) ≠ a.lastSend ∧
        pathAlgoPickProbePath (some a) paths nowUs = (some { a with nextProbeUs := nowUs + 250000 }, (i : Int))) ∨
      NoProbe a paths nowUs ∧ pathAlgoPickProbePath (some a) paths nowUs = (some a, -1) := by
  unfold pathAlgoPickProbePath
  simp only
  by_cases h1 : paths.length ≤ 1
  · rw [if_pos h1]
    exact .inr ⟨.inl (by omega), rfl⟩
  by_cases h2 : nowUs < a.nextProbeUs
  · rw [if_neg h1, if_pos h2]
    exact .inr ⟨.inr (.inl h2), rfl⟩
  rw [if_neg h1, if_neg h2]
  generalize (if 0 ≤ a.lastSend then (a.lastSend.toNat + 1) % paths.length else 0) = start
  cases hp : probeFrom a.lastSend paths start paths.length 0 with
  | some i =>
    obtain ⟨⟨m, rfl⟩, hne, hat⟩ := probeFrom_some _ _ hp
    have hmod : (nowUs + 250000) % 2 ^ 64 = nowUs + 250000 := Nat.mod_eq_of_lt (by omega)
    refine .inl ⟨by omega, _, Nat.mod_lt _ (by omega), hat, hne, ?_⟩
    simp only [hmod]
  | none =>
    refine .inr ⟨.inr (.inr fun i hi hne => ?_), rfl⟩
    obtain ⟨m, hm, rfl⟩ := scan_covers start hi
    exact (probeFrom_none _ _ hp m (Nat.zero_le m) (by omega)).resolve_left hne

/-! ## Runs of calls -/

/-- A call on the selector with the table it finds; an index passed to `path_algo_on_sent` is one of that table. -/
inductive Call where
  | pickSend (paths : Paths)
  | onSent (paths : Paths) (pathIdx : Fin paths.length)
  | pickProbe (paths : Paths) (nowUs : Nat)

/-- The selector after a call. -/
def Call.after (a : Option PathAlgo) : Call → Option PathAlgo
  | pickSend paths => (pathAlgoPickSendPath a paths).1
  | onSent _ pathIdx => pathAlgoOnSent a pathIdx
  | pickProbe paths nowUs => (pathAlgoPickProbePath a paths nowUs).1

/-- The selector after a list of calls. -/
def calls (a : Option PathAlgo) (cs : List Call) : Option PathAlgo := cs.foldl Call.after a

/-- The times of the successful probes of a list of calls, in call order. -/
def probeTimes : Option PathAlgo → List Call → List Nat
  | _, [] => []
  | a, c :: cs =>
    match c with
    | .pickProbe paths nowUs =>
      if 0 ≤ (pathAlgoPickProbePath a paths nowUs).2 then nowUs :: probeTimes (c.after a) cs
      else probeTimes (c.after a) cs
    | _ => probeTimes (c.after a) cs

/-- The time of a probe leaves room for 250 ms more. -/
def Call.InTime : Call → Prop
  | pickProbe _ nowUs => nowUs < 2 ^ 64 - 250000
  | _ => True

/-- A call keeps the selector, and brings the recorded deadline forward at most. -/
theorem Call.after_some (a : PathAlgo) {c : Call} (hc : c.InTime) :
    ∃ b, c.after (some a) = some b ∧ a.nextProbeUs ≤ b.nextProbeUs := by
  cases c with
  | pickSend paths =>
    by_cases h : paths.length = 0
    · exact ⟨a, by simp only [after, pathAlgoPickSendPath, if_pos h], le_rfl⟩
    · refine ⟨{ a with lastSend := (pathAlgoPickSendPath (some a) paths).2 }, ?_, le_rfl⟩
      simp only [after, pathAlgoPickSendPath, if_neg h]
  | onSent paths pathIdx => exact ⟨_, rfl, le_rfl⟩
  | pickProbe paths nowUs =>
    obtain ⟨hle, i, -, -, -, hcall⟩ | ⟨-, hcall⟩ := pickProbePath_cases a paths (show nowUs < 2 ^ 64 - 250000 from hc)
    · exact ⟨_, by rw [after, hcall], Nat.le_add_right_of_le hle⟩
    · exact ⟨a, by rw [after, hcall], le_rfl⟩

theorem calls_some : ∀ (cs : List Call) (a : PathAlgo), (∀ c ∈ cs, c.InTime) → ∃ b, calls (some a) cs = some b
  | [], a, _ => ⟨a, rfl⟩
  | c :: cs, a, h => by
    obtain ⟨b, hb, -⟩ := c.after_some a (h c List.mem_cons_self)
    obtain ⟨b', hb'⟩ := calls_some cs b fun c hc => h c (List.mem_cons_of_mem _ hc)
    exact ⟨b', by rw [calls, List.foldl_cons, hb]; exact hb'⟩

/-- Successful probes come no sooner than the recorded deadline, and 250 ms after one another. -/
theorem probeTimes_spaced : ∀ (cs : List Call) (a : PathAlgo), (∀ c ∈ cs, c.InTime) →
    (∀ t ∈ probeTimes (some a) cs, a.nextProbeUs ≤ t) ∧
      (probeTimes (some a) cs).Pairwise fun t1 t2 => t1 + 250000 ≤ t2
  | [], _, _ => ⟨List.forall_mem_nil _, List.Pairwise.nil⟩
  | c :: cs, a, h => by
    have hc := h c List.mem_cons_self
    have hcs : ∀ c ∈ cs, c.InTime := fun c hc => h c (List.mem_cons_of_mem _ hc)
    obtain ⟨b, hb, hle⟩ := c.after_some a hc
    obtain ⟨hfrom, hpair⟩ := probeTimes_spaced cs b hcs
    have hrest : (∀ t ∈ probeTimes (c.after (some a)) cs, a.nextProbeUs ≤ t) ∧
        (probeTimes (c.after (some a)) cs).Pairwise fun t1 t2 => t1 + 250000 ≤ t2 := by
      rw [hb]
      exact ⟨fun t ht => hle.trans (hfrom t ht), hpair⟩
    cases c with
    | pickSend paths => exact hrest
    | onSent paths pathIdx => exact hrest
    | pickProbe paths nowUs =>
      rw [probeTimes]
      have htime : nowUs < 2 ^ 64 - 250000 := hc
      obtain ⟨hnow, i, -, -, -, hcall⟩ | ⟨-, hcall⟩ := pickProbePath_cases a paths htime
      · -- a success: the deadline becomes its time and 250 ms
        rw [Call.after, hcall] at hb
        obtain rfl := Option.some.inj hb
        rw [Call.after, hcall, if_pos (Int.natCast_nonneg i)]
        refine ⟨fun t ht => ?_, List.pairwise_cons.2 ⟨hfrom, hpair⟩⟩
        rcases List.mem_cons.1 ht with rfl | ht
        · exact hnow
        · exact (Nat.le_add_right_of_le hnow).trans (hfrom t ht)
      · have hneg : ¬(0 : Int) ≤ (pathAlgoPickProbePath (some a) paths nowUs).2 := by rw [hcall]; simp
        rw [if_neg hneg]
        exact hrest

/-- Over every run of calls on a selector, with tables that change at will: successful probes are 250 ms apart, and
after any of the calls a probe returns the index of another path that exists, or -1 for one of its three reasons
and then changes nothing, no more than a send pick that returns -1. -/
theorem probes_paced_and_valid (a : PathAlgo) (cs : List Call) (h : ∀ c ∈ cs, c.InTime) :
    ((probeTimes (some a) cs).Pairwise fun t1 t2 => t1 + 250000 ≤ t2) ∧
      ∃ b, calls (some a) cs = some b ∧
        (∀ paths nowUs, nowUs < 2 ^ 64 - 250000 →
          ((pathAlgoPickProbePath (some b) paths nowUs).2 ≠ -1 →
            ∃ i < paths.length, (pathAlgoPickProbePath (some b) paths nowUs).2 = (i : Int) ∧ paths.at i ≠ none ∧
              (i : Int) ≠ b.lastSend) ∧
          ((pathAlgoPickProbePath (some b) paths nowUs).2 = -1 →
            NoProbe b paths nowUs ∧ (pathAlgoPickProbePath (some b) paths nowUs).1 = some b)) ∧
        ∀ paths, (pathAlgoPickSendPath (some b) paths).2 = -1 → (pathAlgoPickSendPath (some b) paths).1 = some b := by
  refine ⟨(probeTimes_spaced cs a h).2, ?_⟩
  obtain ⟨b, hb⟩ := calls_some cs a h
  refine ⟨b, hb, fun paths nowUs hnow => ?_, fun paths hneg => ?_⟩
  · obtain ⟨-, i, hi, hat, hne, hcall⟩ | ⟨hno, hcall⟩ := pickProbePath_cases b paths hnow
    · rw [hcall]
      exact ⟨fun _ => ⟨i, hi, rfl, hat, hne⟩, fun h => by simp only at h; omega⟩
    · rw [hcall]
      exact ⟨fun h => absurd rfl h, fun _ => ⟨hno, rfl⟩⟩
  · by_cases h0 : paths.length = 0
    · rw [pathAlgoPickSendPath, if_pos h0]
    · rw [pathAlgoPickSendPath, if_neg h0] at hneg
      simp only at hneg
      split_ifs at hneg
      omega

/-- A selector as created: a probe, one too soon, a table that lost its second path, and a probe again. -/
theorem probes_paced_and_valid_run :
    let path : Option Path := some ⟨0, some true, false, 1, 1⟩
    let cs : List Call := [.pickSend [path, path], .pickProbe [path, path] 5, .pickProbe [path, path] 100,
      .onSent [path, path] 1, .pickProbe [path] 250005, .pickProbe [path, path] 250005]
    probeTimes (some ⟨-1, 0⟩) cs = [5, 250005] ∧
      (probeTimes (some ⟨-1, 0⟩) cs).Pairwise fun t1 t2 => t1 + 250000 ≤ t2 := by
  intro path cs
  refine ⟨by decide, (probes_paced_and_valid ⟨-1, 0⟩ cs ?_).1⟩
  intro c hc
  simp only [cs, List.mem_cons, List.not_mem_nil, or_false] at hc
  rcases hc with rfl | rfl | rfl | rfl | rfl | rfl <;> first | trivial | (show (_ : Nat) < _; decide)

end Mquic.Server
