/-
The first least element of a list with gaps, as one pass over it finds it: what the pass holds after each element.
-/
import Mathlib.Tactic

namespace Argmin

variable {α : Type*} [LinearOrder α]

/-! ## The first minimum -/

/-- `k` is the first position of the least rank `r`; positions without a rank do not count. -/
structure FirstMin (xs : List (Option α)) (k : Nat) (r : α) : Prop where
  rank : xs[k]? = some (some r)
  least : ∀ (j : Nat) (r' : α), xs[j]? = some (some r') → r ≤ r'
  first : ∀ j < k, ∀ r', xs[j]? = some (some r') → r < r'

theorem FirstMin.lt_length {xs : List (Option α)} {k : Nat} {r : α} (h : FirstMin xs k r) : k < xs.length :=
  (List.getElem?_eq_some_iff.1 h.rank).1

/-! ## One pass -/

/-- What the pass keeps at position `i`: the first rank, and later only a smaller one. -/
def keep (i : Nat) (best : Option (Nat × α)) : Option α → Option (Nat × α)
  | none => best
  | some r =>
    match best with
    | none => some (i, r)
    | some (k, r₀) => if r < r₀ then some (i, r) else some (k, r₀)

/-- The pass over the positions from `i` on. -/
def pass : Nat → Option (Nat × α) → List (Option α) → Option (Nat × α)
  | _, best, [] => best
  | i, best, x :: xs => pass (i + 1) (keep i best x) xs

/-- The pass is right about the elements it has seen. -/
def Holds (xs : List (Option α)) : Option (Nat × α) → Prop
  | none => ∀ (j : Nat) (r : α), xs[j]? ≠ some (some r)
  | some (k, r) => FirstMin xs k r

omit [LinearOrder α] in
theorem getElem?_snoc {xs : List (Option α)} {x y : Option α} {j : Nat} :
    (xs ++ [x])[j]? = some y ↔ xs[j]? = some y ∨ j = xs.length ∧ x = y := by
  rcases lt_trichotomy j xs.length with hlt | rfl | hgt
  · rw [List.getElem?_append_left hlt]
    simp [hlt.ne]
  · simp
  · rw [List.getElem?_eq_none (by simpa using hgt), List.getElem?_eq_none hgt.le]
    simp [hgt.ne']

theorem Holds.keep {xs : List (Option α)} {best : Option (Nat × α)} (h : Holds xs best) (x : Option α) :
    Holds (xs ++ [x]) (keep xs.length best x) := by
  match x, best with
  | none, none =>
    intro j r hj
    rcases getElem?_snoc.1 hj with hj | ⟨-, hx⟩
    · exact h j r hj
    · cases hx
  | none, some (k, r₀) =>
    have h : FirstMin xs k r₀ := h
    refine ⟨getElem?_snoc.2 (.inl h.rank), fun j r hj => ?_, fun j hlt r hj => ?_⟩
    · exact (getElem?_snoc.1 hj).elim (h.least j r) fun e => by cases e.2
    · exact (getElem?_snoc.1 hj).elim (h.first j hlt r) fun e => by cases e.2
  | some r, none =>
    refine ⟨getElem?_snoc.2 (.inr ⟨rfl, rfl⟩), fun j r' hj => ?_, fun j hlt r' hj => ?_⟩
    · rcases getElem?_snoc.1 hj with hj | ⟨-, hx⟩
      · exact absurd hj (h j r')
      · exact (Option.some.inj hx).le
    · rcases getElem?_snoc.1 hj with hj | ⟨hlen, -⟩
      · exact absurd hj (h j r')
      · exact absurd hlen hlt.ne
  | some r, some (k, r₀) =>
    have h : FirstMin xs k r₀ := h
    by_cases hr : r < r₀
    · -- the new element is smaller than all before it
      simp only [Argmin.keep, if_pos hr]
      refine ⟨getElem?_snoc.2 (.inr ⟨rfl, rfl⟩), fun j r' hj => ?_, fun j hlt r' hj => ?_⟩
      · rcases getElem?_snoc.1 hj with hj | ⟨-, hx⟩
        · exact hr.le.trans (h.least j r' hj)
        · exact (Option.some.inj hx).le
      · rcases getElem?_snoc.1 hj with hj | ⟨hlen, -⟩
        · exact hr.trans_le (h.least j r' hj)
        · exact absurd hlen hlt.ne
    · simp only [Argmin.keep, if_neg hr]
      refine ⟨getElem?_snoc.2 (.inl h.rank), fun j r' hj => ?_, fun j hlt r' hj => ?_⟩
      · rcases getElem?_snoc.1 hj with hj | ⟨-, hx⟩
        · exact h.least j r' hj
        · exact (not_lt.1 hr).trans (Option.some.inj hx).le
      · rcases getElem?_snoc.1 hj with hj | ⟨hlen, -⟩
        · exact h.first j hlt r' hj
        · exact absurd (hlen ▸ hlt) (not_lt.2 h.lt_length.le)

/-- The pass finds the first minimum, or that there is none. -/
theorem Holds.pass : ∀ (ys : List (Option α)) {xs : List (Option α)} {best : Option (Nat × α)},
    Holds xs best → Holds (xs ++ ys) (pass xs.length best ys)
  | [], xs, best, h => by rw [List.append_nil]; exact h
  | y :: ys, xs, best, h => by
    have hstep := (h.keep y).pass ys
    rw [List.append_assoc, List.length_append] at hstep
    exact hstep

theorem pass_holds (xs : List (Option α)) : Holds xs (pass 0 none xs) :=
  @Holds.pass _ _ xs [] none fun j r => by simp

end Argmin
