/-
Events that carry a key, as of streams that share a connection: what the events of one key do to its own state, and
the first event of a list that some key's own events make a stop. Neither depends on how the keys interleave, up to
which of the keys that come to a stop is the first.
-/
import Mathlib.Tactic

namespace Keyed

variable {κ δ σ : Type*} [DecidableEq κ]

/-- The data of the events of a key, in order. -/
def onKey (k : κ) (es : List (κ × δ)) : List δ := (es.filter fun e => e.1 = k).map Prod.snd

/-- The events of every key are the same, in the same order. -/
def Interleaves (es fs : List (κ × δ)) : Prop := ∀ k, onKey k es = onKey k fs

theorem onKey_self (k : κ) (d : δ) (es : List (κ × δ)) : onKey k ((k, d) :: es) = d :: onKey k es := by
  simp [onKey]

theorem onKey_other {k j : κ} (h : j ≠ k) (d : δ) (es : List (κ × δ)) : onKey k ((j, d) :: es) = onKey k es := by
  simp [onKey, h]

theorem onKey_append (k : κ) (es fs : List (κ × δ)) : onKey k (es ++ fs) = onKey k es ++ onKey k fs := by
  simp [onKey]

/-- The events of a key are its data with the key. -/
theorem filter_key (k : κ) : ∀ es : List (κ × δ), es.filter (fun e => e.1 = k) = (onKey k es).map (k, ·)
  | [] => rfl
  | (j, d) :: es => by
    by_cases h : j = k
    · subst h
      rw [onKey_self, List.map_cons, ← filter_key j es, List.filter_cons_of_pos (by simp)]
    · rw [onKey_other h, ← filter_key k es, List.filter_cons_of_neg (by simpa using h)]

/-- Two neighbours of different keys may change places. -/
theorem interleaves_swap {j k : κ} (h : j ≠ k) (d d' : δ) (es : List (κ × δ)) :
    Interleaves ((j, d) :: (k, d') :: es) ((k, d') :: (j, d) :: es) := by
  intro i
  by_cases hj : j = i
  · subst hj
    rw [onKey_self, onKey_other h.symm, onKey_other h.symm, onKey_self]
  · by_cases hk : k = i
    · subst hk
      rw [onKey_other hj, onKey_self, onKey_self, onKey_other hj]
    · rw [onKey_other hj, onKey_other hk, onKey_other hk, onKey_other hj]

/-! ## States of the keys -/

section Cut

variable (step : κ → σ → δ → σ) (stop : κ → σ → δ → Bool)

/-- An event changes the state of its key. -/
def apply (f : κ → σ) (e : κ × δ) : κ → σ := Function.update f e.1 (step e.1 (f e.1) e.2)

/-- Some event of a key is a stop, its state and events given. -/
def stops (k : κ) : σ → List δ → Bool
  | _, [] => false
  | x, d :: ds => stop k x d || stops k (step k x d) ds

/-- The events before the first stop, and its key. -/
def cut : (κ → σ) → List (κ × δ) → List (κ × δ) × Option κ
  | _, [] => ([], none)
  | f, e :: es =>
    if stop e.1 (f e.1) e.2 then ([], some e.1) else (e :: (cut (apply step f e) es).1, (cut (apply step f e) es).2)

variable {step stop} {f : κ → σ}

theorem cut_stop {e : κ × δ} (h : stop e.1 (f e.1) e.2 = true) (es : List (κ × δ)) :
    cut step stop f (e :: es) = ([], some e.1) := by
  rw [cut, if_pos h]

theorem cut_go {e : κ × δ} (h : stop e.1 (f e.1) e.2 ≠ true) (es : List (κ × δ)) :
    cut step stop f (e :: es) =
      (e :: (cut step stop (apply step f e) es).1, (cut step stop (apply step f e) es).2) := by
  rw [cut, if_neg h]

/-- What a key's events do to it does not depend on the other keys. -/
theorem stops_apply {e : κ × δ} (h : stop e.1 (f e.1) e.2 ≠ true) (k : κ) (es : List (κ × δ)) :
    stops step stop k (f k) (onKey k (e :: es)) = stops step stop k (apply step f e k) (onKey k es) := by
  obtain ⟨j, d⟩ := e
  by_cases hj : j = k
  · subst hj
    rw [onKey_self, stops, Bool.eq_false_iff.2 h, Bool.false_or, apply, Function.update_self]
  · rw [onKey_other hj, apply, Function.update_of_ne (Ne.symm hj)]

/-- There is a first stop exactly if some key's own events come to one. -/
theorem cut_isSome : ∀ (es : List (κ × δ)) (f : κ → σ),
    (cut step stop f es).2.isSome = true ↔ ∃ k, stops step stop k (f k) (onKey k es) = true
  | [], f => by simp [cut, onKey, stops]
  | e :: es, f => by
    by_cases h : stop e.1 (f e.1) e.2 = true
    · rw [cut_stop h]
      refine ⟨fun _ => ⟨e.1, ?_⟩, fun _ => rfl⟩
      rw [show onKey e.1 (e :: es) = e.2 :: onKey e.1 es from onKey_self e.1 e.2 es, stops, h, Bool.true_or]
    · rw [cut_go h, cut_isSome es]
      simp only [stops_apply h]

theorem Interleaves.cut_isSome {es fs : List (κ × δ)} (h : Interleaves es fs) (f : κ → σ) :
    (cut step stop f es).2.isSome = (cut step stop f fs).2.isSome := by
  have hiff : (cut step stop f es).2.isSome = true ↔ (cut step stop f fs).2.isSome = true := by
    rw [Keyed.cut_isSome, Keyed.cut_isSome]
    simp only [h _]
  exact Bool.eq_iff_iff.2 hiff

theorem cut_before : ∀ (es : List (κ × δ)) (f : κ → σ), (cut step stop f es).1 <+: es
  | [], _ => List.prefix_refl []
  | e :: es, f => by
    by_cases h : stop e.1 (f e.1) e.2 = true
    · rw [cut_stop h]
      exact List.nil_prefix
    · rw [cut_go h]
      exact List.cons_prefix_cons.2 ⟨rfl, cut_before es _⟩

end Cut

end Keyed
