/-
The bindings of streams to paths over runs in which paths come and go. `mp.bind` is kept by index and never
cleared, while the table it indexes is rearranged: a binding follows its path only as long as no other path moves
to its index.
-/
import Mquic.Server.PathTable

namespace Mquic.Server.Network

/-! ## Bindings and the paths at their indices -/

/-- Where there is a path at index `i` and binding `i` is ready, its stream has been pinned to that path. -/
def World.Follows (w : World) (i : Nat) : Prop :=
  ∀ p ∈ w.paths[i]?, (w.thread.bind i).ready = true →
    ((w.thread.bind i).sid, p.uniquePathId) ∈ w.thread.affinity

instance (w : World) (i : Nat) : Decidable (w.Follows i) :=
  inferInstanceAs (Decidable (∀ p ∈ w.paths[i]?, _ → _))

/-- The bindings a step uses. -/
def Label.uses (w : World) : Label → List Nat
  | .thread e => (accesses w.thread e).binds
  | _ => []

/-- Every binding that a step uses follows its path. -/
def UsesFollow (w : World) (l : Label) : Prop := ∀ w' ∈ w.step l, ∀ i ∈ l.uses w, w'.Follows i

instance (w : World) (l : Label) : Decidable (UsesFollow w l) :=
  inferInstanceAs (Decidable (∀ w' ∈ w.step l, ∀ i ∈ l.uses w, w'.Follows i))

/-- The table changes clear of the bindings: a path comes to an index that has none, and when one goes, no path
moves to an index that has one. -/
def ClearOfBindings (w : World) : Label → Prop
  | .append _ => (w.thread.bind w.paths.length).ready = false
  | .remove i => ∀ j < w.paths.length - 1, i ≤ j → (w.thread.bind j).ready = false
  | _ => True

instance (w : World) : ∀ l, Decidable (ClearOfBindings w l)
  | .append _ => inferInstanceAs (Decidable (_ = false))
  | .remove i => inferInstanceAs (Decidable (∀ j < w.paths.length - 1, i ≤ j → (w.thread.bind j).ready = false))
  | .refresh _ _ => isTrue trivial
  | .thread _ => isTrue trivial

/-! ## One step -/

/-- A step of the thread keeps the bindings at their paths. -/
theorem follows_rebound {w : World} {s : State} (h : ∀ i, w.Follows i) (hr : Rebound w.table w.thread s) (i : Nat) :
    World.Follows { w with thread := s } i := by
  rcases hr with ⟨hbind, haff⟩ | ⟨idx, path, sid, hpath, hbind, haff⟩
  · intro p hp hready
    show ((s.bind i).sid, p.uniquePathId) ∈ s.affinity
    rw [hbind, haff]
    exact h i p hp (by rw [← hbind]; exact hready)
  · intro p hp hready
    have hready' : (s.bind i).ready = true := hready
    show ((s.bind i).sid, p.uniquePathId) ∈ s.affinity
    rw [hbind] at hready' ⊢
    rw [haff]
    rcases eq_or_ne i idx with rfl | hne
    · rw [World.table_at] at hpath
      have hsame : some path = some p := hpath.symm.trans hp
      cases hsame
      rw [Function.update_self]
      exact List.mem_append_right _ (List.mem_singleton.2 rfl)
    · rw [Function.update_of_ne hne] at hready' ⊢
      exact List.mem_append_left _ (h i p hp hready')

/-- Clear of the bindings, every step keeps the bindings at their paths. -/
theorem follows_step {w w' : World} {l : Label} (h : ∀ i, w.Follows i) (hc : ClearOfBindings w l)
    (hstep : w.step l = some w') (i : Nat) : w'.Follows i := by
  cases World.step_changed hstep with
  | @append q hpc hnew =>
    intro p hp hready
    have hp' : (w.paths ++ [q])[i]? = some p := hp
    rcases lt_trichotomy i w.paths.length with hi | rfl | hi
    · rw [List.getElem?_append_left hi] at hp'
      exact h i p hp' hready
    · -- by the condition nothing is bound behind the table
      rw [hc] at hready
      cases hready
    · rw [List.getElem?_eq_none (by simpa using hi)] at hp'
      cases hp'
  | @remove k hpc hk hone =>
    intro p hp hready
    have hp' : (w.paths.eraseIdx k)[i]? = some p := hp
    rcases Nat.lt_or_ge i k with hi | hi
    · rw [List.getElem?_eraseIdx_of_lt hi] at hp'
      exact h i p hp' hready
    · rw [List.getElem?_eraseIdx_of_ge hi] at hp'
      -- from `k` on the paths move down by one, and nothing is bound there
      obtain ⟨hlt, -⟩ := List.getElem?_eq_some_iff.1 hp'
      have hclear := hc i (by omega) hi
      rw [hclear] at hready
      cases hready
  | @refresh k q hsame =>
    intro p hp hready
    have hp' : (w.paths.set k q)[i]? = some p := hp
    rcases eq_or_ne k i with rfl | hne
    · obtain ⟨q', hq', hid⟩ := Option.map_eq_some_iff.1 hsame
      obtain ⟨hlt, -⟩ := List.getElem?_eq_some_iff.1 hq'
      rw [List.getElem?_set_self hlt] at hp'
      cases hp'
      rw [← hid]
      exact h k q' hq' hready
    · rw [List.getElem?_set_ne hne] at hp'
      exact h i p hp' hready
  | thread hpaths hsees hmoved =>
    apply follows_rebound h
    rcases moved_rebound hmoved with hsame | ⟨paths, hp, hr⟩
    · exact .inl hsame
    · rwa [hsees paths hp] at hr

/-! ## Runs -/

/-- While the table changes clear of the bindings, every binding is at the path it was pinned to, in every state
and at every use. -/
theorem bindings_follow (allocated : Bool) (behind : Nat → MpBinding) (controlStreamId maxFrames : Nat)
    {ls : List Label}
    (hclear : Lts.Meets World.step ClearOfBindings (World.enter allocated behind controlStreamId maxFrames) ls) :
    Lts.Meets World.step UsesFollow (World.enter allocated behind controlStreamId maxFrames) ls ∧
      ∀ w, Lts.run World.step (World.enter allocated behind controlStreamId maxFrames) ls = some w →
        ∀ i, w.Follows i := by
  have hkeep : ∀ w l w', (∀ i, w.Follows i) → ClearOfBindings w l → w.step l = some w' → ∀ i, w'.Follows i :=
    fun _ _ _ h hc hstep => follows_step h hc hstep
  have hinit : ∀ i, (World.enter allocated behind controlStreamId maxFrames).Follows i := by
    rintro i p hp -
    cases hp
  constructor
  · exact Lts.meets_of_inv hkeep (fun w l h hc w' hstep i _ => hkeep w l w' h hc hstep i) ls _ hinit hclear
  · exact fun w hrun => Lts.inv_run hkeep ls _ w hinit hclear hrun

/-- Two verified paths. -/
def firstPath : Path := ⟨0, some true, false, 1, 0⟩
def secondPath : Path := ⟨1, some true, false, 2, 0⟩

/-- No memory behind the array looks like a binding. -/
def World.start : World := World.enter true (fun _ => ⟨0, 0, false⟩) 0 10

/-- A round without a frame, in which both paths get their streams, 3 and 7. -/
def bindBoth : List Label :=
  let both : Paths := [some firstPath, some secondPath]
  [.append firstPath, .append secondPath, .thread (.pickFirst both), .thread (.openFirst both ⟨3, true⟩ 1),
    .thread (.head false), .thread (.pickProbe both 2), .thread (.openProbe both ⟨7, true⟩ true),
    .thread (.pickSend both), .thread (.serve both ⟨11, true⟩ none), .thread (.idle both ⟨11, true⟩ true 3),
    .thread .tail]

/-- A third path that comes and goes before it is bound. -/
def passing : List Label := [.append ⟨2, some false, false, 0, 0⟩, .remove 2, .thread (.head false)]

theorem passing_follows :
    Lts.Meets World.step UsesFollow World.start (bindBoth ++ passing) ∧
      ∀ w, Lts.run World.step World.start (bindBoth ++ passing) = some w → ∀ i, w.Follows i :=
  bindings_follow true (fun _ => ⟨0, 0, false⟩) 0 10 (by decide)

/-- A round that sends a frame on the second path, alone in the table. -/
def sendOnSecond : List Label :=
  let second : Paths := [some secondPath]
  [.thread (.head false), .thread (.pickProbe second 4), .thread (.pickSend second),
    .thread (.serve second ⟨11, true⟩ (some 2)), .thread (.sendLength true)]

/-- The first path goes, the second one moves to index 0, and the frame goes out on stream 3, which is pinned to
the path that is gone. -/
theorem moved_path_unfollowed :
    (Lts.run World.step World.start (bindBoth ++ .remove 0 :: sendOnSecond)).map (fun w =>
        (w.thread.writes.getLast?.map (·.sid), w.thread.affinity, w.paths)) =
      some (some 3, [(3, 0), (7, 1)], [secondPath]) ∧
    ¬ ∀ ls, Lts.Meets World.step UsesFollow World.start ls := by
  constructor
  · decide
  · intro hall
    have hrun := hall (bindBoth ++ .remove 0 :: sendOnSecond)
    revert hrun
    decide

end Mquic.Server.Network
