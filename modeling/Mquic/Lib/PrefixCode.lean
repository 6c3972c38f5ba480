/-
Prefix codes, read bit by bit by a machine: a state is inside a word, and each bit leads on from it, or it is the end of
a word, which stands for a symbol. The words are the paths to the ends; none is the beginning of another.
-/
import Mathlib.Tactic

namespace PrefixCode

/-- The states of a reader. -/
structure Machine (σ α : Type*) where
  next : σ → Bool → σ
  /-- The symbol, at the end of a word. -/
  ends : σ → Option α

namespace Machine

variable {σ α : Type*} (M : Machine σ α)

/-- `w` leads from the state to the end of a word, for `a`. -/
def Word (a : α) : σ → List Bool → Prop
  | s, [] => M.ends s = some a
  | s, b :: w => M.ends s = none ∧ Word a (M.next s b) w

instance decidableWord [DecidableEq α] (a : α) : ∀ (s : σ) (w : List Bool), Decidable (M.Word a s w)
  | s, [] => inferInstanceAs (Decidable (M.ends s = some a))
  | s, b :: w =>
    have := decidableWord a (M.next s b) w
    inferInstanceAs (Decidable (M.ends s = none ∧ M.Word a (M.next s b) w))

/-- `u` leads from the state to `t`, inside a word all the way. -/
def Inside (t : σ) : σ → List Bool → Prop
  | s, [] => s = t ∧ M.ends s = none
  | s, b :: u => M.ends s = none ∧ Inside t (M.next s b) u

/-- The words from a state on, if none has more than `n` bits. -/
def words (n : Nat) (s : σ) : Option (List (List Bool × α)) :=
  match M.ends s with
  | some a => some [([], a)]
  | none =>
    match n with
    | 0 => none
    | n + 1 =>
      (words n (M.next s false)).bind fun zero => (words n (M.next s true)).map fun one =>
        zero.map (fun w => (false :: w.1, w.2)) ++ one.map fun w => (true :: w.1, w.2)

variable {M} {s t : σ} {a b : α} {u v w x : List Bool} {bit : Bool}

/-- Of two words that a string begins with, neither is longer. -/
theorem Word.unique (hv : M.Word a s v) (hw : M.Word b s w) (hvx : v <+: x) (hwx : w <+: x) : v = w ∧ a = b := by
  induction v generalizing s w x with
  | nil =>
    cases w with
    | nil => exact ⟨rfl, Option.some.inj (hv.symm.trans hw)⟩
    | cons d w => exact absurd (hv.symm.trans hw.1) (Option.some_ne_none a)
  | cons c v ih =>
    cases w with
    | nil => exact absurd (hw.symm.trans hv.1) (Option.some_ne_none b)
    | cons d w =>
      obtain ⟨x, rfl⟩ := hvx
      obtain ⟨rfl, hrest⟩ := List.cons_prefix_cons.1 hwx
      obtain ⟨rfl, rfl⟩ := ih hv.2 hw.2 (List.prefix_append v x) hrest
      exact ⟨rfl, rfl⟩

theorem Inside.snoc_inside (h : M.Inside t s u) (hn : M.ends (M.next t bit) = none) :
    M.Inside (M.next t bit) s (u ++ [bit]) := by
  induction u generalizing s with
  | nil => exact ⟨h.2, by rw [← h.1], by rw [h.1]; exact hn⟩
  | cons c u ih => exact ⟨h.1, ih h.2⟩

theorem Inside.snoc_word (h : M.Inside t s u) (hn : M.ends (M.next t bit) = some a) : M.Word a s (u ++ [bit]) := by
  induction u generalizing s with
  | nil => exact ⟨h.2, by rw [h.1]; exact hn⟩
  | cons c u ih => exact ⟨h.1, ih h.2⟩

/-- A word does not end inside one. -/
theorem Inside.not_word (h : M.Inside t s u) (hw : M.Word a s w) : ¬ w <+: u := by
  induction u generalizing s w with
  | nil =>
    intro hp
    obtain rfl := List.prefix_nil.1 hp
    exact Option.some_ne_none _ (hw.symm.trans h.2)
  | cons c u ih =>
    cases w with
    | nil => exact fun _ => Option.some_ne_none _ (hw.symm.trans h.1)
    | cons d w =>
      intro hp
      obtain ⟨rfl, hwu⟩ := List.cons_prefix_cons.1 hp
      exact ih h.2 hw.2 hwu

theorem word_end (he : M.ends s = some b) : M.Word a s w ↔ w = [] ∧ a = b := by
  cases w with
  | nil =>
    constructor
    · intro h
      exact ⟨rfl, Option.some.inj (h.symm.trans he)⟩
    · rintro ⟨-, rfl⟩
      exact he
  | cons bit w =>
    constructor
    · intro h
      exact absurd (he.symm.trans h.1) (Option.some_ne_none b)
    · rintro ⟨h, -⟩
      exact absurd h (List.cons_ne_nil bit w)

/-- The words listed are all the words there are. -/
theorem words_iff {n : Nat} {ws : List (List Bool × α)} (h : M.words n s = some ws) :
    (w, a) ∈ ws ↔ M.Word a s w := by
  induction n generalizing s ws w with
  | zero =>
    unfold words at h
    cases he : M.ends s with
    | some c =>
      simp only [he, Option.some.injEq] at h
      rw [← h, List.mem_singleton, Prod.mk.injEq, word_end he]
    | none =>
      simp only [he] at h
      cases h
  | succ n ih =>
    unfold words at h
    cases he : M.ends s with
    | some c =>
      simp only [he, Option.some.injEq] at h
      rw [← h, List.mem_singleton, Prod.mk.injEq, word_end he]
    | none =>
      simp only [he] at h
      obtain ⟨zero, hzero, h⟩ := Option.bind_eq_some_iff.1 h
      obtain ⟨one, hone, rfl⟩ := Option.map_eq_some_iff.1 h
      rw [List.mem_append, List.mem_map, List.mem_map]
      constructor
      · -- the first bit says in which half of the table the word is
        rintro (⟨v, hv, heq⟩ | ⟨v, hv, heq⟩)
        · cases heq
          exact ⟨he, (ih hzero).1 hv⟩
        · cases heq
          exact ⟨he, (ih hone).1 hv⟩
      · intro hw
        cases w with
        | nil => exact absurd (hw.symm.trans he) (Option.some_ne_none a)
        | cons bit w =>
          cases bit with
          | false => exact .inl ⟨(w, a), (ih hzero).2 hw.2, rfl⟩
          | true => exact .inr ⟨(w, a), (ih hone).2 hw.2, rfl⟩

end Machine

end PrefixCode
