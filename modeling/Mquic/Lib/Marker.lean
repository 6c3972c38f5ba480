/-
The first place of a two-symbol marker in a list, and how it moves when the list is extended: what was
found stays, and of a list without the marker any suffix that keeps the last symbol is enough to find
the markers that the extension completes.
-/
import Mathlib.Tactic

namespace Marker

variable {α : Type*}

/-! ## Places -/

/-- The marker stands at place `i`. -/
def At (a b : α) (l : List α) (i : Nat) : Prop := l[i]? = some a ∧ l[i + 1]? = some b

/-- `i` is the first place of the marker from place `k` on. -/
structure FirstFrom (a b : α) (l : List α) (k i : Nat) : Prop where
  le : k ≤ i
  here : At a b l i
  first : ∀ j, k ≤ j → j < i → ¬ At a b l j

theorem at_drop {a b : α} {l : List α} {k i : Nat} : At a b (l.drop k) i ↔ At a b l (k + i) := by
  unfold At
  rw [List.getElem?_drop, List.getElem?_drop, Nat.add_assoc]

theorem at_zero {a b x y : α} {l : List α} : At a b (x :: y :: l) 0 ↔ x = a ∧ y = b := by simp [At]

theorem at_succ {a b x : α} {l : List α} {i : Nat} : At a b (x :: l) (i + 1) ↔ At a b l i := by simp [At]

/-- There is one first place. -/
theorem FirstFrom.unique {a b : α} {l : List α} {k i j : Nat} (hi : FirstFrom a b l k i) (hj : FirstFrom a b l k j) :
    i = j := by
  rcases Nat.lt_trichotomy i j with hlt | heq | hgt
  · exact absurd hi.here (hj.first i hi.le hlt)
  · exact heq
  · exact absurd hj.here (hi.first j hj.le hgt)

theorem FirstFrom.drop {a b : α} {l : List α} {k i : Nat} (h : FirstFrom a b (l.drop k) 0 i) :
    FirstFrom a b l k (k + i) := by
  refine ⟨Nat.le_add_right k i, at_drop.1 h.here, fun j hk hj hat => ?_⟩
  obtain ⟨m, rfl⟩ := Nat.exists_eq_add_of_le hk
  exact h.first m (Nat.zero_le m) (Nat.lt_of_add_lt_add_left hj) (at_drop.2 hat)

/-! ## The search -/

variable [DecidableEq α]

/-- The index of the first `a` followed by `b`. -/
def find (a b : α) : List α → Option Nat
  | [] => none
  | [_] => none
  | x :: y :: l => if x = a ∧ y = b then some 0 else (find a b (y :: l)).map (· + 1)

@[simp] theorem find_nil (a b : α) : find a b [] = none := rfl

@[simp] theorem find_singleton (a b x : α) : find a b [x] = none := rfl

theorem find_cons_cons (a b x y : α) (l : List α) :
    find a b (x :: y :: l) = if x = a ∧ y = b then some 0 else (find a b (y :: l)).map (· + 1) := rfl

/-- The marker and what precedes it lie in the list. -/
theorem find_lt {a b : α} : ∀ {l : List α} {i : Nat}, find a b l = some i → i + 2 ≤ l.length
  | [], _, h => by simp at h
  | [_], _, h => by simp at h
  | x :: y :: l, i, h => by
    rw [find_cons_cons] at h
    split at h
    · cases h; simp
    · obtain ⟨j, hj, rfl⟩ := Option.map_eq_some_iff.1 h
      have := find_lt hj
      simp only [List.length_cons] at this ⊢
      omega

/-- A marker found is found again when more symbols follow. -/
theorem find_append {a b : α} : ∀ {l : List α} {i : Nat}, find a b l = some i → ∀ s, find a b (l ++ s) = some i
  | [], _, h, _ => by simp at h
  | [_], _, h, _ => by simp at h
  | x :: y :: l, i, h, s => by
    rw [List.cons_append, List.cons_append, find_cons_cons]
    rw [find_cons_cons] at h
    split at h
    · rename_i hxy
      rw [if_pos hxy]; exact h
    · rename_i hxy
      obtain ⟨j, hj, rfl⟩ := Option.map_eq_some_iff.1 h
      have := find_append hj s
      rw [List.cons_append] at this
      rw [if_neg hxy, this]
      rfl

/-- At the marker itself. -/
theorem find_drop {a b : α} : ∀ {l : List α} {i : Nat}, find a b l = some i → find a b (l.drop i) = some 0
  | [], _, h => by simp at h
  | [_], _, h => by simp at h
  | x :: y :: l, i, h => by
    rw [find_cons_cons] at h
    split at h
    · rename_i hxy
      cases h
      rw [List.drop_zero, find_cons_cons, if_pos hxy]
    · obtain ⟨j, hj, rfl⟩ := Option.map_eq_some_iff.1 h
      rw [List.drop_succ_cons]
      exact find_drop hj

/-- Symbols before a marker-free list's kept end do not matter for what an extension completes. -/
theorem find_skip {a b : α} : ∀ (w : List α) {r : List α}, r ≠ [] → find a b (w ++ r) = none → ∀ s,
    find a b (w ++ r ++ s) = (find a b (r ++ s)).map (w.length + ·)
  | [], r, _, _, s => by
    cases h : find a b (r ++ s) <;> simp [h]
  | x :: w, r, hr, h, s => by
    obtain ⟨y, l, hl⟩ : ∃ y l, w ++ r = y :: l := List.exists_cons_of_ne_nil (by simp [hr])
    have ih := find_skip w hr (a := a) (b := b)
    rw [hl] at ih
    rw [List.cons_append, hl, find_cons_cons] at h
    split at h
    · cases h
    · rename_i hxy
      rw [List.cons_append, hl, List.cons_append, List.cons_append, find_cons_cons, if_neg hxy,
        ← List.cons_append, ih (by simpa using h) s, Option.map_map]
      congr 1
      funext i
      simp only [Function.comp_apply, List.length_cons]
      omega

/-! ## What is found -/

/-- What `find` finds is the first place of the marker. -/
theorem find_some {a b : α} : ∀ {l : List α} {i : Nat}, find a b l = some i → FirstFrom a b l 0 i
  | [], _, h => by simp at h
  | [_], _, h => by simp at h
  | x :: y :: l, i, h => by
    rw [find_cons_cons] at h
    split at h
    · rename_i hxy
      cases h
      exact ⟨le_refl 0, at_zero.2 hxy, fun j _ hj => absurd hj (Nat.not_lt_zero j)⟩
    · rename_i hxy
      obtain ⟨j, hj, rfl⟩ := Option.map_eq_some_iff.1 h
      have ih := find_some hj
      refine ⟨Nat.zero_le _, at_succ.2 ih.here, fun m _ hm => ?_⟩
      cases m with
      | zero => exact fun h0 => hxy (at_zero.1 h0)
      | succ m => exact fun hs => ih.first m (Nat.zero_le m) (Nat.lt_of_succ_lt_succ hm) (at_succ.1 hs)

theorem find_none {a b : α} : ∀ {l : List α}, find a b l = none → ∀ i, ¬ At a b l i
  | [], _, _ => by simp [At]
  | [_], _, _ => by simp [At]
  | x :: y :: l, h, i => by
    rw [find_cons_cons] at h
    split at h
    · cases h
    · rename_i hxy
      cases i with
      | zero => exact fun h0 => hxy (at_zero.1 h0)
      | succ i => exact fun hs => find_none (Option.map_eq_none_iff.1 h) i (at_succ.1 hs)

/-- The search from place `k` on, as a search in what is left of the list there. -/
theorem find_drop_some {a b : α} {l : List α} {k i : Nat} :
    find a b (l.drop k) = some i ↔ FirstFrom a b l k (k + i) := by
  constructor
  · intro h
    exact (find_some h).drop
  · intro h
    cases hf : find a b (l.drop k) with
    | none => exact absurd (at_drop.2 h.here) (find_none hf i)
    | some j =>
      have := (find_some hf).drop.unique h
      rw [Nat.add_left_cancel this]

theorem find_drop_none {a b : α} {l : List α} {k : Nat} : find a b (l.drop k) = none ↔ ∀ i, k ≤ i → ¬ At a b l i := by
  constructor
  · intro h i hi hat
    obtain ⟨m, rfl⟩ := Nat.exists_eq_add_of_le hi
    exact find_none h m (at_drop.2 hat)
  · intro h
    cases hf : find a b (l.drop k) with
    | none => rfl
    | some j => exact absurd (at_drop.1 (find_some hf).here) (h (k + j) (Nat.le_add_right k j))

end Marker
