/-
The path selector of the server (path_algo.c) over the fields of `picoquic_path_t` it reads: the send path is
the sendable path of least RTT, the probe path the next other path at most every 250 ms.
-/
import Mathlib.Tactic

namespace Mquic.Server

/-! ## Paths -/

/-- The fields of `picoquic_path_t` that are read here; `firstTuple` is `challenge_verified` of the first
tuple, or nothing when there is none. -/
structure Path where
  uniquePathId : Nat
  firstTuple : Option Bool
  pathIsDemoted : Bool
  rttMin : Nat
  smoothedRtt : Nat
deriving DecidableEq

/-- `cnx->path[0 .. nb_paths)`, entries possibly `NULL`. -/
abbrev Paths := List (Option Path)

/-- `cnx->path[idx]`; beyond the table there is nothing. -/
def Paths.at (paths : Paths) (idx : Nat) : Option Path := (paths[idx]?).join

/-- `is_path_sendable`. -/
def isPathSendable : Option Path → Bool
  | none => false
  | some p => p.firstTuple == some true && !p.pathIsDemoted

/-- The RTT a path is ranked by: the minimum seen, or else the smoothed one, or else 1. -/
def Path.rtt (p : Path) : Nat :=
  let rtt := if p.rttMin = 0 then p.smoothedRtt else p.rttMin
  if rtt = 0 then 1 else rtt

/-! ## The selector -/

/-- `path_algo_t`. -/
structure PathAlgo where
  lastSend : Int
  nextProbeUs : Nat
deriving DecidableEq

/-- `path_algo_create`; `allocated` is whether `calloc` succeeded. -/
def pathAlgoCreate (allocated : Bool) : Option PathAlgo := if allocated then some ⟨-1, 0⟩ else none

/-- The loop of `path_algo_pick_send_path` from index `i` on. -/
def bestPath : Nat → Paths → Int → Nat → Int
  | _, [], best, _ => best
  | i, none :: paths, best, bestRtt => bestPath (i + 1) paths best bestRtt
  | i, some p :: paths, best, bestRtt =>
    if isPathSendable (some p) ∧ p.rtt < bestRtt then bestPath (i + 1) paths i p.rtt
    else bestPath (i + 1) paths best bestRtt

/-- `path_algo_pick_send_path`; the selector is `NULL` when it could not be allocated. -/
def pathAlgoPickSendPath (a : Option PathAlgo) (paths : Paths) : Option PathAlgo × Int :=
  match a with
  | none => (none, -1)
  | some a =>
    if paths.length = 0 then (some a, -1)
    else
      let best := bestPath 0 paths (-1) (2 ^ 64 - 1)
      -- no path is sendable: index 0 all the same
      let best := if best < 0 then 0 else best
      (some { a with lastSend := best }, best)

/-- The loop of `path_algo_pick_probe_path`, `n` rounds of it from the `k`-th on. -/
def probeFrom (lastSend : Int) (paths : Paths) (start : Nat) : Nat → Nat → Option Nat
  | 0, _ => none
  | n + 1, k =>
    let i := (start + k) % paths.length
    -- whether the path is verified does not matter here
    if (i : Int) = lastSend then probeFrom lastSend paths start n (k + 1)
    else if (paths.at i).isNone then probeFrom lastSend paths start n (k + 1)
    else some i

/-- `path_algo_pick_probe_path`. -/
def pathAlgoPickProbePath (a : Option PathAlgo) (paths : Paths) (nowUs : Nat) : Option PathAlgo × Int :=
  match a with
  | none => (none, -1)
  | some a =>
    if paths.length ≤ 1 then (some a, -1)
    else if nowUs < a.nextProbeUs then (some a, -1)
    else
      let start := if 0 ≤ a.lastSend then (a.lastSend.toNat + 1) % paths.length else 0
      match probeFrom a.lastSend paths start paths.length 0 with
      | some i => (some { a with nextProbeUs := (nowUs + 250000) % 2 ^ 64 }, i)
      | none => (some a, -1)

/-- `path_algo_on_sent`. -/
def pathAlgoOnSent (a : Option PathAlgo) (pathIdx : Nat) : Option PathAlgo :=
  a.map fun a => { a with lastSend := pathIdx }

end Mquic.Server
