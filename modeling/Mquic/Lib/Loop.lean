/-
A `while` loop given by its body, which leaves the loop with a result or goes on with the next state. The loop
heads are the states between two rounds; what rounds keep holds at every head, and a loop ends exactly when it
keeps coming nearer to its end.
-/
import Mathlib.Tactic

namespace Loop

variable {σ ρ : Type*} (body : σ → ρ ⊕ σ)

/-- The loop for at most `n` rounds; `none` when it has not ended by then. -/
def run : Nat → σ → Option ρ
  | 0, _ => none
  | n + 1, x =>
    match body x with
    | .inl r => some r
    | .inr y => run n y

/-- The loop ends. -/
def Ends (x : σ) : Prop := ∃ n, (run body n x).isSome

/-- `y` is the state after some number of rounds of the loop that starts in `x`. -/
def Heads (x y : σ) : Prop := Relation.ReflTransGen (fun y z => body y = .inr z) x y

variable {body}

theorem run_exit {x : σ} {r : ρ} (h : body x = .inl r) (n : Nat) : run body (n + 1) x = some r := by
  rw [run, h]

theorem run_next {x y : σ} (h : body x = .inr y) (n : Nat) : run body (n + 1) x = run body n y := by
  rw [run, h]

theorem ends_exit {x : σ} {r : ρ} (h : body x = .inl r) : Ends body x := ⟨1, by rw [run_exit h]; rfl⟩

theorem ends_next {x y : σ} (h : body x = .inr y) : Ends body x ↔ Ends body y := by
  constructor
  · rintro ⟨_ | n, hn⟩
    · cases hn
    · rw [run_next h] at hn
      exact ⟨n, hn⟩
  · rintro ⟨n, hn⟩
    exact ⟨n + 1, by rw [run_next h]; exact hn⟩

/-! ## Loop heads -/

theorem Heads.refl (x : σ) : Heads body x x := Relation.ReflTransGen.refl

theorem Heads.next {x y z : σ} (h : Heads body x y) (hz : body y = .inr z) : Heads body x z := h.tail hz

theorem Heads.trans {x y z : σ} (h : Heads body x y) (h' : Heads body y z) : Heads body x z :=
  Relation.ReflTransGen.trans h h'

/-- The heads of a loop: its start, and the heads after its first round. -/
theorem heads_cases {x y : σ} (h : Heads body x y) : y = x ∨ ∃ z, body x = .inr z ∧ Heads body z y := by
  rcases Relation.ReflTransGen.cases_head h with rfl | hz
  · exact .inl rfl
  · exact .inr hz

/-- What every round keeps holds at every loop head. -/
theorem heads_inv {I : σ → Prop} (hI : ∀ y z, I y → body y = .inr z → I z) {x y : σ} (h0 : I x)
    (h : Heads body x y) : I y := by
  induction h with
  | refl => exact h0
  | tail _ hz ih => exact hI _ _ ih hz

/-- Every head of a loop that ends comes before its last one. -/
theorem Heads.to_exit {x y z : σ} {r : ρ} (hy : Heads body x y) (hz : Heads body x z) (hexit : body z = .inl r) :
    Heads body y z := by
  induction hy with
  | refl => exact hz
  | tail _ hstep ih =>
    rcases heads_cases ih with rfl | ⟨w, hw, hwz⟩
    · rw [hstep] at hexit
      cases hexit
    · rw [hstep] at hw
      cases hw
      exact hwz

/-! ## Termination -/

theorem Ends.heads {x y : σ} (he : Ends body x) (h : Heads body x y) : Ends body y :=
  heads_inv (fun _ _ hy hz => (ends_next hz).1 hy) he h

theorem ends_of_heads {x y : σ} (h : Heads body x y) (he : Ends body y) : Ends body x := by
  induction h with
  | refl => exact he
  | tail _ hz ih => exact ih ((ends_next hz).2 he)

/-- A loop ends if from every head it comes to its end or to a head of smaller measure. -/
theorem ends_of_progress (μ : σ → Nat) {x : σ}
    (h : ∀ y, Heads body x y → Ends body y ∨ ∃ z, Heads body y z ∧ μ z < μ y) : Ends body x := by
  suffices key : ∀ n y, Heads body x y → μ y < n → Ends body y from key (μ x + 1) x (Heads.refl x) (Nat.lt_succ_self _)
  intro n
  induction n with
  | zero => intro y _ hn; omega
  | succ n ih =>
    intro y hy hn
    rcases h y hy with he | ⟨z, hz, hlt⟩
    · exact he
    · exact ends_of_heads hz (ih z (hy.trans hz) (by omega))

/-- A set of states that the loop cannot leave. -/
theorem not_ends_of_trap {T : σ → Prop} (hT : ∀ y, T y → ∃ z, body y = .inr z ∧ T z) {x : σ} (hx : T x) :
    ¬ Ends body x := by
  rintro ⟨n, hn⟩
  induction n generalizing x with
  | zero => cases hn
  | succ n ih =>
    obtain ⟨z, hz, htz⟩ := hT x hx
    rw [run_next hz] at hn
    exact ih htz hn

end Loop
