/-
The indices and path pointers of the network thread over runs in which paths come and go: `send_idx` and `cur_idx`
are checked against `nb_paths` alone, and `cur_idx` and `cur_path` survive from rounds with another table.
-/
import Mquic.Server.Footprint

namespace Mquic.Server.Network

/-! ## Accesses in range -/

/-- `p` points to an entry of the table; a path is told by its id. -/
def Entry (paths : List Path) : Option Path → Prop
  | some p => p.uniquePathId ∈ paths.map (·.uniquePathId)
  | none => False

instance (paths : List Path) : ∀ p, Decidable (Entry paths p)
  | some p => inferInstanceAs (Decidable (p.uniquePathId ∈ paths.map (·.uniquePathId)))
  | none => isFalse id

/-- Indices into `mp.bind` are below `MAX_PATHS`, indices into `cnx->path` below `nb_paths`, and data is sent on
entries of the table. -/
def Accesses.InRange (a : Accesses) (paths : List Path) : Prop :=
  (∀ i ∈ a.binds, i < maxPaths) ∧ (∀ i ∈ a.paths, i < paths.length) ∧ ∀ p ∈ a.sends, Entry paths p

instance (a : Accesses) (paths : List Path) : Decidable (a.InRange paths) := inferInstanceAs (Decidable (_ ∧ _ ∧ _))

/-- The accesses of a step are in range. -/
def InRange (w : World) : Label → Prop
  | .thread e => (w.step (.thread e)).isSome → (accesses w.thread e).InRange w.paths
  | _ => True

instance (w : World) : ∀ l, Decidable (InRange w l)
  | .thread _ => inferInstanceAs (Decidable (_ → _))
  | .append _ | .remove _ | .refresh _ _ => isTrue trivial

/-- A frame is taken only for an index within both arrays, and keep-alive finds `cur_idx` within `mp.bind` and,
if its binding is ready, `cur_path` in the table. -/
def SoundStep (w : World) : Step → Prop
  | .serve _ _ (some _) => ∀ idx, w.thread.pc = .serve idx → idx < maxPaths ∧ idx < w.paths.length
  | .idle _ _ _ nowUs => usSub nowUs w.thread.lastActivityUs > oneSecondUs → w.thread.curIdx < maxPaths ∧
    ((w.thread.bind w.thread.curIdx).ready = true → Entry w.paths w.thread.curPath)
  | _ => True

def Sound (w : World) : Label → Prop
  | .thread e => (w.step (.thread e)).isSome → SoundStep w e
  | _ => True

theorem Accesses.none_inRange (paths : List Path) : Accesses.none.InRange paths := ⟨nofun, nofun, nofun⟩

theorem Accesses.and_inRange {a b : Accesses} {paths : List Path} :
    (a.and b).InRange paths ↔ a.InRange paths ∧ b.InRange paths := by
  unfold Accesses.InRange Accesses.and
  simp only [List.forall_mem_append]
  constructor
  · rintro ⟨⟨h1, h2⟩, ⟨h3, h4⟩, h5, h6⟩
    exact ⟨⟨h1, h3, h5⟩, h2, h4, h6⟩
  · rintro ⟨⟨h1, h3, h5⟩, h2, h4, h6⟩
    exact ⟨⟨h1, h2⟩, ⟨h3, h4⟩, h5, h6⟩

theorem Accesses.single_inRange {i : Nat} {paths : List Path} (hbind : i < maxPaths) (hpath : i < paths.length)
    {sends : List (Option Path)} (hsends : ∀ p ∈ sends, Entry paths p) :
    Accesses.InRange ⟨[i], [i], sends⟩ paths := by
  constructor
  · rintro j hj
    rwa [List.mem_singleton.1 hj]
  constructor
  · rintro j hj
    rwa [List.mem_singleton.1 hj]
  · exact hsends

theorem entry_at {w : World} {i : Nat} (hi : i < w.paths.length) : Entry w.paths (w.table.at i) := by
  rw [World.table_at, List.getElem?_eq_getElem hi]
  exact List.mem_map_of_mem (List.getElem_mem hi)

/-! ## The checks that are made -/

/-- `ensure_stream_for_path` checks its index against both arrays. -/
theorem ensure_inRange (w : World) (idx : Nat) (o : Opening) :
    (ensureAccesses w.thread w.table idx o).InRange w.paths := by
  unfold ensureAccesses
  split
  · exact Accesses.none_inRange _
  rename_i hout
  rw [World.table_length] at hout
  have hpath : idx < w.paths.length := by omega
  have hbind : idx < maxPaths := by omega
  split
  · refine ⟨?_, nofun, nofun⟩
    rintro i hi
    rwa [List.mem_singleton.1 hi]
  · apply Accesses.single_inRange hbind hpath
    split
    · rintro p hp
      rw [List.mem_singleton.1 hp]
      exact entry_at hpath
    · nofun

theorem sendReads_lt {a : Option PathAlgo} {paths : Paths} : ∀ i ∈ sendReads a paths, i < paths.length := by
  rintro i hi
  unfold sendReads at hi
  split at hi
  · exact List.mem_range.1 hi
  · cases hi

theorem probeReadsFrom_lt {lastSend : Int} {paths : Paths} (hpos : 0 < paths.length) (start : Nat) :
    ∀ n k, ∀ i ∈ probeReadsFrom lastSend paths start n k, i < paths.length
  | 0, _, i, hi => by cases hi
  | n + 1, k, i, hi => by
    simp only [probeReadsFrom] at hi
    split at hi
    · exact probeReadsFrom_lt hpos start n (k + 1) i hi
    · rcases List.mem_cons.1 hi with rfl | hi
      · exact Nat.mod_lt _ hpos
      · split at hi
        · exact probeReadsFrom_lt hpos start n (k + 1) i hi
        · cases hi

theorem probeReads_lt {a : Option PathAlgo} {paths : Paths} {nowUs : Nat} :
    ∀ i ∈ probeReads a paths nowUs, i < paths.length := by
  rintro i hi
  unfold probeReads at hi
  split at hi
  · cases hi
  · split at hi
    · cases hi
    · rename_i hmany
      exact probeReadsFrom_lt (by omega) _ _ _ i hi

theorem clampIdx_lt {paths : Paths} {cur : Nat} (hcur : cur < paths.length) (idx : Int) :
    clampIdx idx paths cur < paths.length := by
  unfold clampIdx
  split <;> omega

/-! ## What survives between the checks -/

/-- The places where nothing that was read from the table is waiting to be used within the round. -/
def Pc.quiet : Pc → Bool
  | .openFirst | .openProbe _ | .length _ | .payload _ | .piece _ => false
  | _ => true

/-- What was checked or read earlier in the round still fits the table, and a binding names its own index. -/
structure Within (w : World) : Prop where
  first : w.thread.pc = .openFirst → w.thread.curIdx < w.paths.length
  probe : ∀ idx, w.thread.pc = .openProbe idx → idx < w.paths.length ∧ idx < maxPaths
  sending : ∀ x, w.thread.pc = .length x ∨ w.thread.pc = .payload x ∨ w.thread.pc = .piece x → Entry w.paths x.path
  bound : ∀ i < maxPaths, (w.thread.bind i).ready = true → (w.thread.bind i).pathIdx = i

/-- Every ready binding names its own index. -/
def State.NamesItself (s : State) : Prop := ∀ i < maxPaths, (s.bind i).ready = true → (s.bind i).pathIdx = i

theorem Within.of_quiet {w : World} (hpc : w.thread.pc.quiet = true) (hbound : w.thread.NamesItself) : Within w := by
  constructor
  · intro h
    rw [h] at hpc
    cases hpc
  · intro idx h
    rw [h] at hpc
    cases hpc
  · rintro x (h | h | h)
    · rw [h] at hpc
      cases hpc
    · rw [h] at hpc
      cases hpc
    · rw [h] at hpc
      cases hpc
  · exact hbound

/-- While a frame is sent, its path stays in the table. -/
theorem Within.of_sending {w : World} {x : Sending}
    (hpc : w.thread.pc = .length x ∨ w.thread.pc = .payload x ∨ w.thread.pc = .piece x) (hx : Entry w.paths x.path)
    (hbound : w.thread.NamesItself) : Within w := by
  constructor
  · intro h
    rw [h] at hpc
    simp at hpc
  · intro idx h
    rw [h] at hpc
    simp at hpc
  · intro y hy
    have heq : y = x := by
      rcases hpc with hpc | hpc | hpc
      · simpa [hpc, eq_comm] using hy
      · simpa [hpc, eq_comm] using hy
      · simpa [hpc, eq_comm] using hy
    rwa [heq]
  · exact hbound

theorem between_quiet {pc : Pc} (h : pc.between = true) : pc.quiet = true := by
  cases pc <;> first | rfl | cases h

theorem names_moved {s s' : State} {e : Step} (h : s.NamesItself) (hm : Moved s e s') : s'.NamesItself := by
  have hkept : s'.bind = s.bind ∨ ∃ idx sid, s'.bind = Function.update s.bind idx ⟨idx, sid, true⟩ := by
    rcases moved_rebound hm with ⟨hbind, -⟩ | ⟨paths, -, ⟨hbind, -⟩ | ⟨idx, path, sid, -, hbind, -⟩⟩
    · exact .inl hbind
    · exact .inl hbind
    · exact .inr ⟨idx, sid, hbind⟩
  rintro i hi hready
  rcases hkept with hbind | ⟨idx, sid, hbind⟩
  · rw [hbind] at hready ⊢
    exact h i hi hready
  · rw [hbind] at hready ⊢
    rcases eq_or_ne i idx with rfl | hne
    · rw [Function.update_self]
    · rw [Function.update_of_ne hne] at hready ⊢
      exact h i hi hready

theorem refresh_ids {paths : List Path} {i : Nat} {p : Path}
    (hsame : (paths[i]?).map (·.uniquePathId) = some p.uniquePathId) :
    (paths.set i p).map (·.uniquePathId) = paths.map (·.uniquePathId) := by
  rw [List.map_set]
  apply List.ext_getElem?
  intro j
  rcases eq_or_ne i j with rfl | hne
  · obtain ⟨q, hq, hid⟩ := Option.map_eq_some_iff.1 hsame
    obtain ⟨hlt, -⟩ := List.getElem?_eq_some_iff.1 hq
    rw [List.getElem?_set_self (by simpa using hlt), List.getElem?_map, hsame]
  · rw [List.getElem?_set_ne hne]

/-- The same table but for what a path measures. -/
theorem Within.refresh {w : World} (h : Within w) {i : Nat} {p : Path}
    (hsame : (w.paths[i]?).map (·.uniquePathId) = some p.uniquePathId) :
    Within { w with paths := w.paths.set i p } := by
  have hlength : (w.paths.set i p).length = w.paths.length := List.length_set
  constructor
  · intro hpc
    show w.thread.curIdx < (w.paths.set i p).length
    rw [hlength]
    exact h.first hpc
  · intro idx hpc
    show idx < (w.paths.set i p).length ∧ idx < maxPaths
    rw [hlength]
    exact h.probe idx hpc
  · intro x hpc
    show Entry (w.paths.set i p) x.path
    have hentry := h.sending x hpc
    unfold Entry at hentry ⊢
    rwa [refresh_ids hsame]
  · exact h.bound

/-- The thread's own step. -/
theorem Within.moved {w : World} {e : Step} {s : State} (h : Within w) (hpaths : w.paths ≠ [])
    (hsees : ∀ paths, e.sees = some paths → paths = w.table) (hm : Moved w.thread e s)
    (hsound : ∀ idx fbSz, w.thread.pc = .serve idx → (∃ paths o, e = .serve paths o (some fbSz)) →
      idx < w.paths.length) :
    Within { w with thread := s } := by
  have hnames : s.NamesItself := names_moved h.bound hm
  have hpos := List.length_pos_of_ne_nil hpaths
  cases hm with
  | @pickFirst paths hpc =>
    obtain rfl := hsees paths rfl
    refine ⟨fun _ => ?_, nofun, nofun, hnames⟩
    have hclamp := @clampIdx_lt w.table 0 (by rw [World.table_length]; exact hpos)
      (pathAlgoPickSendPath w.thread.algo w.table).2
    rwa [World.table_length] at hclamp
  | openFirst hpc => exact .of_quiet rfl hnames
  | @head disconnecting hpc =>
    refine .of_quiet ?_ hnames
    show (if _ then Pc.pickProbe else Pc.finish).quiet = true
    split <;> rfl
  | @pickProbe paths nowUs hpc =>
    obtain rfl := hsees paths rfl
    unfold pickProbe
    generalize pathAlgoPickProbePath w.thread.algo w.table nowUs = r
    by_cases hchecked : 0 ≤ r.2 ∧ r.2 < w.table.length ∧ r.2 < maxPaths
    · simp only [if_pos hchecked]
      refine ⟨nofun, ?_, nofun, hnames⟩
      rintro idx hidx
      cases hidx
      rw [World.table_length] at hchecked
      show r.2.toNat < w.paths.length ∧ r.2.toNat < maxPaths
      omega
    · simp only [if_neg hchecked]
      exact .of_quiet rfl hnames
  | openProbe hpc => exact .of_quiet rfl hnames
  | pickSend hpc => exact .of_quiet rfl hnames
  | @serve paths o frame idx hpc hsz =>
    obtain rfl := hsees paths rfl
    cases frame with
    | none => exact .of_quiet rfl hnames
    | some fbSz =>
      -- `send_path` is fetched at an index that is in range by the condition
      have hidx := hsound idx fbSz hpc ⟨_, _, rfl⟩
      exact .of_sending (.inl rfl) (entry_at hidx) hnames
  | @idle paths o accepted nowUs hpc =>
    refine .of_quiet ?_ hnames
    unfold idle
    split <;> rfl
  | @sendLength accepted x hpc =>
    cases accepted with
    | true => exact .of_sending (.inr (.inl rfl)) (h.sending x (.inl hpc)) hnames
    | false => exact .of_quiet rfl hnames
  | @checkPayload nowUs x hpc =>
    by_cases hmore : x.payload.length < x.fbSz ∧ w.thread.isSending = true
    · have hpc' : (checkPayload w.thread x nowUs).pc = .piece x := by rw [checkPayload, if_pos hmore]
      exact .of_sending (.inr (.inr hpc')) (h.sending x (.inr (.inl hpc))) hnames
    · have hpc' : (checkPayload w.thread x nowUs).pc = .tail := by rw [checkPayload, if_neg hmore]; rfl
      exact .of_quiet (by rw [hpc']; rfl) hnames
  | @sendPiece bytes accepted nowUs x hpc hlen =>
    have hx := h.sending x (.inr (.inr hpc))
    cases accepted with
    | true => exact .of_sending (x := x.add bytes) (.inr (.inl rfl)) hx hnames
    | false => exact .of_quiet rfl hnames
  | tail hpc =>
    refine .of_quiet ?_ hnames
    show (if _ then Pc.finish else Pc.head).quiet = true
    split <;> rfl
  | finish hpc => exact .of_quiet rfl hnames
  | stopRequest => exact ⟨h.first, h.probe, h.sending, hnames⟩

/-- Under the condition every step keeps what survives in range. -/
theorem within_step {w w' : World} {l : Label} (h : Within w) (hs : Sound w l) (hstep : w.step l = some w') :
    Within w' := by
  have hsome : (w.step l).isSome := by rw [hstep]; rfl
  cases World.step_changed hstep with
  | append hpc hnew => exact .of_quiet (between_quiet hpc) h.bound
  | remove hpc hi hone => exact .of_quiet (between_quiet hpc) h.bound
  | refresh hsame => exact h.refresh hsame
  | @thread e s hpaths hsees hmoved =>
    refine h.moved hpaths hsees hmoved ?_
    rintro idx fbSz hpc ⟨paths, o, rfl⟩
    exact (hs hsome idx hpc).2

/-! ## The condition is exact -/

theorem finish_inRange {w : World} (h : w.thread.NamesItself) : (finishAccesses w.thread w.table).InRange w.paths := by
  have hwithin : ∀ i ∈ (List.range (min maxPaths w.table.length)).filter (fun i => (w.thread.bind i).ready),
      (w.thread.bind i).pathIdx < w.paths.length := by
    rintro i hi
    obtain ⟨hrange, hready⟩ := List.mem_filter.1 hi
    have hlt := List.mem_range.1 hrange
    rw [World.table_length] at hlt
    rw [h i (by omega) hready]
    omega
  constructor
  · rintro i hi
    have hlt := List.mem_range.1 hi
    omega
  constructor
  · rintro j hj
    obtain ⟨i, hi, rfl⟩ := List.mem_map.1 hj
    exact hwithin i hi
  · rintro p hp
    obtain ⟨i, hi, rfl⟩ := List.mem_map.1 hp
    exact entry_at (hwithin i hi)

theorem serve_inRange_iff {w : World} {idx fbSz : Nat} {o : Opening} :
    (serveAccesses w.thread w.table idx o (some fbSz)).InRange w.paths ↔ idx < maxPaths ∧ idx < w.paths.length := by
  unfold serveAccesses
  rw [Accesses.and_inRange, Option.isSome_some, if_pos rfl]
  constructor
  · rintro ⟨-, hbinds, hpaths, -⟩
    exact ⟨hbinds idx (List.mem_singleton.2 rfl), hpaths idx (List.mem_singleton.2 rfl)⟩
  · rintro ⟨hbind, hpath⟩
    exact ⟨ensure_inRange w idx o, Accesses.single_inRange hbind hpath nofun⟩

theorem idle_inRange_iff {w : World} {o : Opening} {nowUs : Nat} :
    (idleAccesses w.thread w.table o nowUs).InRange w.paths ↔
      (usSub nowUs w.thread.lastActivityUs > oneSecondUs → w.thread.curIdx < maxPaths ∧
        ((w.thread.bind w.thread.curIdx).ready = true → Entry w.paths w.thread.curPath)) := by
  unfold idleAccesses
  by_cases hdue : usSub nowUs w.thread.lastActivityUs > oneSecondUs
  · rw [if_pos hdue]
    by_cases hready : (w.thread.bind w.thread.curIdx).ready = true
    · rw [if_pos hready]
      constructor
      · rintro ⟨hbinds, -, hsends⟩ -
        exact ⟨hbinds _ (List.mem_singleton.2 rfl), fun _ => hsends _ (List.mem_singleton.2 rfl)⟩
      · intro h
        obtain ⟨hbind, hentry⟩ := h hdue
        refine ⟨?_, nofun, ?_⟩
        · rintro i hi
          rwa [List.mem_singleton.1 hi]
        · rintro p hp
          rw [List.mem_singleton.1 hp]
          exact hentry hready
    · rw [if_neg hready, Accesses.and_inRange]
      constructor
      · rintro ⟨⟨hbinds, -⟩, -⟩ -
        exact ⟨hbinds _ (List.mem_singleton.2 rfl), fun h => absurd h hready⟩
      · intro h
        obtain ⟨hbind, -⟩ := h hdue
        refine ⟨⟨?_, nofun, nofun⟩, ensure_inRange w _ o⟩
        rintro i hi
        rwa [List.mem_singleton.1 hi]
  · rw [if_neg hdue]
    constructor
    · intro _ h
      exact absurd h hdue
    · intro _
      exact Accesses.none_inRange _

/-- A step of the thread accesses in range just when it meets the condition. -/
theorem moved_inRange_iff {w : World} (h : Within w) {e : Step} {s : State}
    (hsees : ∀ paths, e.sees = some paths → paths = w.table) (hm : Moved w.thread e s) :
    (accesses w.thread e).InRange w.paths ↔ SoundStep w e := by
  have hlength := w.table_length
  cases hm with
  | head | checkPayload | tail | stopRequest => exact iff_of_true (Accesses.none_inRange _) trivial
  | @pickFirst paths hpc =>
    obtain rfl := hsees paths rfl
    exact iff_of_true ⟨nofun, fun i hi => hlength ▸ sendReads_lt i hi, nofun⟩ trivial
  | @openFirst paths o nowUs hpc =>
    obtain rfl := hsees paths rfl
    refine iff_of_true (Accesses.and_inRange.2 ⟨ensure_inRange w _ o, nofun, ?_, nofun⟩) trivial
    rintro i hi
    rw [List.mem_singleton.1 hi]
    exact h.first hpc
  | @pickProbe paths nowUs hpc =>
    obtain rfl := hsees paths rfl
    exact iff_of_true ⟨nofun, fun i hi => hlength ▸ probeReads_lt i hi, nofun⟩ trivial
  | @openProbe paths o accepted idx hpc =>
    obtain rfl := hsees paths rfl
    obtain ⟨hpath, hbind⟩ := h.probe idx hpc
    rw [accesses_openProbe hpc]
    refine iff_of_true (Accesses.and_inRange.2 ⟨ensure_inRange w idx o, ?_⟩) trivial
    split
    · apply Accesses.single_inRange hbind hpath
      rintro p hp
      rw [List.mem_singleton.1 hp]
      exact entry_at hpath
    · exact Accesses.none_inRange _
  | @pickSend paths hpc =>
    obtain rfl := hsees paths rfl
    exact iff_of_true ⟨nofun, fun i hi => hlength ▸ sendReads_lt i hi, nofun⟩ trivial
  | @serve paths o frame idx hpc hsz =>
    obtain rfl := hsees paths rfl
    rw [accesses_serve hpc]
    cases frame with
    | none =>
      exact iff_of_true (Accesses.and_inRange.2 ⟨ensure_inRange w idx o, Accesses.none_inRange _⟩) trivial
    | some fbSz =>
      -- a frame is sent on `send_path`, which the condition speaks of
      rw [serve_inRange_iff]
      constructor
      · rintro hidx idx' hpc'
        rw [hpc] at hpc'
        cases hpc'
        exact hidx
      · intro hidx
        exact hidx idx hpc
  | @idle paths o accepted nowUs hpc =>
    obtain rfl := hsees paths rfl
    exact idle_inRange_iff
  | @sendLength accepted x hpc =>
    rw [accesses_sendLength hpc]
    refine iff_of_true ⟨nofun, nofun, ?_⟩ trivial
    rintro p hp
    rw [List.mem_singleton.1 hp]
    exact h.sending x (.inl hpc)
  | @sendPiece bytes accepted nowUs x hpc hlen =>
    rw [accesses_sendPiece hpc]
    refine iff_of_true ⟨nofun, nofun, ?_⟩ trivial
    rintro p hp
    rw [List.mem_singleton.1 hp]
    exact h.sending x (.inr (.inr hpc))
  | @finish paths accepted hpc =>
    obtain rfl := hsees paths rfl
    exact iff_of_true (finish_inRange h.bound) trivial

theorem inRange_iff_sound {w : World} (h : Within w) : ∀ l, InRange w l ↔ Sound w l
  | .append _ | .remove _ | .refresh _ _ => Iff.rfl
  | .thread e => by
    apply forall_congr'
    intro hsome
    obtain ⟨w', hstep⟩ := Option.isSome_iff_exists.1 hsome
    cases World.step_changed hstep with
    | thread hpaths hsees hmoved => exact moved_inRange_iff h hsees hmoved

/-! ## Runs -/

/-- In a run every access is in range just when every frame is taken for an index within both arrays, and every
keep-alive finds its index and its path. The accesses are those of the steps: each step sends on the paths they say,
and depends on no other binding or path. -/
theorem in_range_iff (allocated : Bool) (behind : Nat → MpBinding) (controlStreamId maxFrames : Nat)
    (ls : List Label) :
    (Lts.Meets World.step InRange (World.enter allocated behind controlStreamId maxFrames) ls ↔
      Lts.Meets World.step Sound (World.enter allocated behind controlStreamId maxFrames) ls) ∧
    ∀ (s s' : State) (e : Step), Network.step s e = some s' →
      SendsOn s s' (accesses s e).sends ∧ Footprint (accesses s e) s e s' := by
  refine ⟨?_, fun s s' e h => ⟨moved_sends (step_moved h), step_footprint h⟩⟩
  apply Lts.meets_iff (I := Within)
  · exact fun _ _ _ h hs hstep => within_step h hs hstep
  · exact fun _ l h => inRange_iff_sound h l
  · refine ⟨nofun, nofun, nofun, ?_⟩
    rintro i hi hready
    -- the array is cleared when the thread enters
    have hbind : (State.enter allocated behind controlStreamId maxFrames).bind i = ⟨0, 0, false⟩ := if_pos hi
    have hready' : ((State.enter allocated behind controlStreamId maxFrames).bind i).ready = true := hready
    rw [hbind] at hready'
    cases hready'

/-- The best of nine paths is the last one, and a frame is ready. -/
def ninePaths : List Label :=
  let nine : Paths := (List.range 9).map fun i => some ⟨i, some true, false, 9 - i, 0⟩
  (List.range 9).map (fun i => .append ⟨i, some true, false, 9 - i, 0⟩) ++
    [.thread (.pickFirst nine), .thread (.openFirst nine ⟨3, true⟩ 1), .thread (.head false),
      .thread (.pickProbe nine 2), .thread (.openProbe nine ⟨3, true⟩ true), .thread (.pickSend nine),
      .thread (.serve nine ⟨7, true⟩ (some 2))]

/-- The path used last is removed, and after a second without a frame keep-alive sends on it. -/
def goneAndIdle : List Label :=
  let both : Paths := [some ⟨0, some true, false, 1, 0⟩, some ⟨1, some true, false, 2, 0⟩]
  let second : Paths := [some ⟨1, some true, false, 2, 0⟩]
  [.append ⟨0, some true, false, 1, 0⟩, .append ⟨1, some true, false, 2, 0⟩, .thread (.pickFirst both),
    .thread (.openFirst both ⟨3, true⟩ 1), .remove 0, .thread (.head false), .thread (.pickProbe second 2),
    .thread (.pickSend second), .thread (.serve second ⟨7, true⟩ none), .thread (.idle second ⟨7, true⟩ true 1000002)]

/-- Binding 8 is behind the array, and a path that is gone is sent on. -/
theorem out_of_range :
    ¬ Lts.Meets World.step InRange (World.enter true (fun _ => ⟨0, 0, false⟩) 0 10) ninePaths ∧
      ¬ Lts.Meets World.step InRange (World.enter true (fun _ => ⟨0, 0, false⟩) 0 10) goneAndIdle := by
  constructor
  · decide
  · decide

end Mquic.Server.Network
