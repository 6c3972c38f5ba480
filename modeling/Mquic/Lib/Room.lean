/-
Writers into a buffer of a fixed size: each appends what it has to write, or fails where there is no room for it. What
writers in a row do is again of that kind, so that a text written piece by piece fails just where the whole does not
fit.
-/
import Mathlib.Tactic

namespace Room

variable {α β : Type*}

/-- A writer: behind what stands in the buffer. -/
abbrev Writer (α : Type*) := List α → Option (List α)

/-- The writer writes `w` if there is room for it, and fails if there is not. -/
def Writes (cap : Nat) (f : Writer α) (w : List α) : Prop :=
  ∀ out : List α, out.length ≤ cap → f out = if out.length + w.length ≤ cap then some (out ++ w) else none

/-- Content behind its length, in a buffer of `cap` bytes: the length is first written for `space`, the most there can
be; then it is written anew in the room it took, and the content is moved up to it. -/
def framed (head : Nat → Nat → Writer α) (cap space : Nat) (content : Writer α) : Writer α := fun out =>
  head cap space out >>= fun kept => content kept >>= fun all =>
    (head kept.length (all.length - kept.length) out).map (· ++ all.drop kept.length)

/-- A writer where there is something to write. -/
def whenSome (f : β → Writer α) : Option β → Writer α
  | none => some
  | some v => f v

section Writes

variable {cap : Nat} {f g : Writer α} {w u : List α}

theorem writes_nothing (cap : Nat) : Writes cap (some : Writer α) [] := fun out h => by
  rw [List.append_nil]
  exact (if_pos h).symm

/-- A copy. -/
theorem writes_copy (cap : Nat) (w : List α) :
    Writes cap (fun out => if out.length + w.length > cap then none else some (out ++ w)) w := fun out _ => by
  simp only [gt_iff_lt, ← not_le, ite_not]

theorem Writes.comp (hf : Writes cap f w) (hg : Writes cap g u) : Writes cap (fun out => f out >>= g) (w ++ u) := by
  intro out h
  simp only [hf out h, List.length_append]
  by_cases hw : out.length + w.length ≤ cap
  · rw [if_pos hw]
    show g (out ++ w) = _
    rw [hg _ (by rw [List.length_append]; exact hw), List.length_append, List.append_assoc, Nat.add_assoc]
  · rw [if_neg hw, if_neg (by omega)]
    rfl

theorem writes_whenSome {F : β → Writer α} {W : β → List α} (h : ∀ v, Writes cap (F v) (W v)) (o : Option β) :
    Writes cap (whenSome F o) (o.elim [] W) := by
  cases o with
  | none => exact writes_nothing cap
  | some v => exact h v

/-- What is written fits, and nothing is written only where it does not fit. -/
theorem Writes.run (h : Writes cap f w) {out : List α} (hout : out.length ≤ cap) :
    (f out = none ↔ cap < out.length + w.length) ∧
      ∀ block, f out = some block → block = out ++ w ∧ block.length ≤ cap := by
  rw [h out hout]
  by_cases hle : out.length + w.length ≤ cap
  · rw [if_pos hle]
    refine ⟨⟨nofun, fun hlt => absurd hle (Nat.not_le.2 hlt)⟩, fun block hb => ?_⟩
    cases hb
    exact ⟨rfl, by rw [List.length_append]; exact hle⟩
  · rw [if_neg hle]
    exact ⟨⟨fun _ => Nat.not_le.1 hle, fun _ => rfl⟩, nofun⟩

/-- Content behind its length fits just where it fits behind the length of all the space there is. -/
theorem framed_eq {head : Nat → Nat → Writer α} {H : Nat → List α} {space : Nat}
    (hhead : ∀ cap n, n ≤ space → Writes cap (head cap n) (H n))
    (hmono : ∀ n ≤ space, (H n).length ≤ (H space).length) (hf : Writes cap f w) {out : List α}
    (hout : out.length ≤ cap) (hspace : cap - out.length ≤ space) :
    framed head cap space f out =
      if out.length + (H space).length + w.length ≤ cap then some (out ++ H w.length ++ w) else none := by
  have hlen : (out ++ H space).length = out.length + (H space).length := List.length_append
  unfold framed
  rw [hhead cap space (le_refl _) out hout]
  by_cases hkept : out.length + (H space).length ≤ cap
  · -- the content is written behind a head for all the space, then moved down behind its own
    rw [if_pos hkept]
    show (f (out ++ H space) >>= fun all =>
      (head (out ++ H space).length (all.length - (out ++ H space).length) out).map
        (· ++ all.drop (out ++ H space).length)) = _
    rw [hf _ (hlen ▸ hkept), hlen]
    by_cases hall : out.length + (H space).length + w.length ≤ cap
    · have hw : w.length ≤ space := by omega
      have hroom : out.length + (H w.length).length ≤ out.length + (H space).length := by
        have hle := hmono _ hw
        omega
      have hcontent : (out ++ H space ++ w).length - (out.length + (H space).length) = w.length := by
        rw [List.length_append, hlen]
        omega
      have hdrop : (out ++ H space ++ w).drop (out.length + (H space).length) = w := by
        rw [← hlen, List.drop_left]
      rw [if_pos hall, if_pos hall]
      show (head (out.length + (H space).length)
        ((out ++ H space ++ w).length - (out.length + (H space).length)) out).map
          (· ++ (out ++ H space ++ w).drop (out.length + (H space).length)) = _
      rw [hcontent, hhead _ _ hw out (Nat.le_add_right _ _), if_pos hroom, Option.map_some, hdrop]
    · rw [if_neg hall, if_neg hall]
      rfl
  · rw [if_neg hkept, if_neg (by omega)]
    rfl

end Writes

end Room
