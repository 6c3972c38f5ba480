/-
Runs of a labelled step function. A step returns the next state, or nothing when the label is not
enabled; a run takes a list of labels. Invariants are proved once for one step under a condition on
the state before it, and hold of every run whose steps all meet that condition.
-/
import Mathlib.Tactic

namespace Lts

section Run

variable {σ ε : Type*} (step : σ → ε → Option σ)

/-- The state after a list of labels. -/
def run : σ → List ε → Option σ
  | s, [] => some s
  | s, e :: es => (step s e).bind fun s' => run s' es

/-- Every step of the run of `es` from `s` meets `C`, a condition on the state before the step. -/
def Meets (C : σ → ε → Prop) : σ → List ε → Prop
  | _, [] => True
  | s, e :: es => C s e ∧ ∀ s', step s e = some s' → Meets C s' es

/-- A condition that can be decided of a step can be decided of a run. -/
instance decidableMeets (C : σ → ε → Prop) [∀ s e, Decidable (C s e)] :
    ∀ (s : σ) (es : List ε), Decidable (Meets step C s es)
  | _, [] => isTrue trivial
  | s, e :: es =>
    match h : step s e with
    | none => decidable_of_iff (C s e) (by simp [Meets, h])
    | some s' =>
      have := decidableMeets C s' es
      decidable_of_iff (C s e ∧ Meets step C s' es) (by simp [Meets, h])

/-- The states some run from `init` ends in. -/
def Reachable (init s : σ) : Prop := ∃ es, run step init es = some s

@[simp] theorem run_nil (s : σ) : run step s [] = some s := rfl

@[simp] theorem run_cons (s : σ) (e : ε) (es : List ε) :
    run step s (e :: es) = (step s e).bind fun s' => run step s' es := rfl

theorem run_append : ∀ (es fs : List ε) (s : σ),
    run step s (es ++ fs) = (run step s es).bind fun s' => run step s' fs
  | [], fs, s => by simp
  | e :: es, fs, s => by
    simp only [List.cons_append, run_cons]
    cases step s e with
    | none => rfl
    | some s' => simp only [Option.bind_some, run_append es fs s']

variable {step}

theorem run_append_some {es fs : List ε} {s s'' : σ} (h : run step s (es ++ fs) = some s'') :
    ∃ s', run step s es = some s' ∧ run step s' fs = some s'' := by
  rw [run_append] at h
  exact Option.bind_eq_some_iff.1 h

theorem run_cons_some {e : ε} {es : List ε} {s s'' : σ} (h : run step s (e :: es) = some s'') :
    ∃ s', step s e = some s' ∧ run step s' es = some s'' := by
  rw [run_cons] at h
  exact Option.bind_eq_some_iff.1 h

/-- Where every label is enabled everywhere, every list of labels has a run. -/
theorem run_isSome (h : ∀ s e, (step s e).isSome) : ∀ (es : List ε) (s : σ), (run step s es).isSome
  | [], _ => rfl
  | e :: es, s => by
    obtain ⟨s1, h1⟩ := Option.isSome_iff_exists.1 (h s e)
    rw [run_cons, h1, Option.bind_some]
    exact run_isSome h es s1

/-! ## Invariants -/

/-- What one step preserves under `C`, a run whose steps all meet `C` preserves. -/
theorem inv_run {I : σ → Prop} {C : σ → ε → Prop}
    (hI : ∀ s e s', I s → C s e → step s e = some s' → I s') :
    ∀ (es : List ε) (s s' : σ), I s → Meets step C s es → run step s es = some s' → I s'
  | [], s, s', hs, _, h => by cases h; exact hs
  | e :: es, s, s', hs, hc, h => by
    obtain ⟨s1, h1, h2⟩ := run_cons_some h
    exact inv_run hI es s1 s' (hI s e s1 hs hc.1 h1) (hc.2 s1 h1) h2

/-- What the invariant and the condition give of each step holds along the whole run. -/
theorem meets_of_inv {I : σ → Prop} {C P : σ → ε → Prop}
    (hI : ∀ s e s', I s → C s e → step s e = some s' → I s') (hP : ∀ s e, I s → C s e → P s e) :
    ∀ (es : List ε) (s : σ), I s → Meets step C s es → Meets step P s es
  | [], _, _, _ => trivial
  | e :: es, s, hs, hc =>
    ⟨hP s e hs hc.1, fun s1 h1 => meets_of_inv hI hP es s1 (hI s e s1 hs hc.1 h1) (hc.2 s1 h1)⟩

/-- Two conditions that agree under an invariant are met by the same runs, if one of them keeps the invariant. -/
theorem meets_iff {I : σ → Prop} {C P : σ → ε → Prop}
    (hI : ∀ s e s', I s → C s e → step s e = some s' → I s') (hPC : ∀ s e, I s → (P s e ↔ C s e)) :
    ∀ (es : List ε) (s : σ), I s → (Meets step P s es ↔ Meets step C s es)
  | [], _, _ => Iff.rfl
  | e :: es, s, hs => by
    have hstep := hPC s e hs
    constructor
    · rintro ⟨hp, hrest⟩
      have hc := hstep.1 hp
      exact ⟨hc, fun s1 h1 => (meets_iff hI hPC es s1 (hI s e s1 hs hc h1)).1 (hrest s1 h1)⟩
    · rintro ⟨hc, hrest⟩
      exact ⟨hstep.2 hc, fun s1 h1 => (meets_iff hI hPC es s1 (hI s e s1 hs hc h1)).2 (hrest s1 h1)⟩

theorem meets_and {C D : σ → ε → Prop} : ∀ (es : List ε) (s : σ), Meets step C s es → Meets step D s es →
    Meets step (fun s e => C s e ∧ D s e) s es
  | [], _, _, _ => trivial
  | _ :: es, _, hc, hd => ⟨⟨hc.1, hd.1⟩, fun s' h => meets_and es s' (hc.2 s' h) (hd.2 s' h)⟩

/-- A condition met by a run is met by what follows a part of it. -/
theorem meets_append {C : σ → ε → Prop} : ∀ (es : List ε) {fs : List ε} {s s' : σ}, Meets step C s (es ++ fs) →
    run step s es = some s' → Meets step C s' fs
  | [], _, _, _, hc, h => by cases h; exact hc
  | _ :: es, _, _, _, hc, h => by
    obtain ⟨s1, h1, h2⟩ := run_cons_some h
    exact meets_append es (hc.2 s1 h1) h2

theorem meets_true : ∀ (es : List ε) (s : σ), Meets step (fun _ _ => True) s es
  | [], _ => trivial
  | _ :: es, _ => ⟨trivial, fun s' _ => meets_true es s'⟩

/-- A condition on labels alone is met by a run whose labels all meet it. -/
theorem meets_forall {D : ε → Prop} : ∀ (es : List ε) (s : σ), (∀ e ∈ es, D e) → Meets step (fun _ e => D e) s es
  | [], _, _ => trivial
  | e :: es, _, h =>
    ⟨h e List.mem_cons_self, fun s' _ => meets_forall es s' fun e he => h e (List.mem_cons_of_mem _ he)⟩

/-- An invariant every step preserves holds of every reachable state. -/
theorem Reachable.inv {I : σ → Prop} {init s : σ} (h0 : I init)
    (hI : ∀ s e s', I s → step s e = some s' → I s') (h : Reachable step init s) : I s := by
  obtain ⟨es, hes⟩ := h
  exact inv_run (C := fun _ _ => True) (fun s e s' hs _ h => hI s e s' hs h) es init s h0 (meets_true es init) hes

/-! ## Two runs -/

/-- If `R` survives an own label taken on both sides, and another label taken on the left alone, then a run
and the run of its own labels end in related states. -/
theorem run_filter {R : σ → σ → Prop} (own : ε → Bool)
    (hown : ∀ s t e s', own e = true → R s t → step s e = some s' → ∃ t', step t e = some t' ∧ R s' t')
    (hother : ∀ s t e s', own e = false → R s t → step s e = some s' → R s' t) :
    ∀ (es : List ε) (s t s' : σ), R s t → run step s es = some s' →
      ∃ t', run step t (es.filter own) = some t' ∧ R s' t'
  | [], s, t, s', hr, h => by
    cases h
    exact ⟨t, rfl, hr⟩
  | e :: es, s, t, s', hr, h => by
    obtain ⟨s1, h1, h2⟩ := run_cons_some h
    cases ho : own e with
    | true =>
      obtain ⟨t1, ht, hr1⟩ := hown s t e s1 ho hr h1
      obtain ⟨t', ht', hr'⟩ := run_filter own hown hother es s1 t1 s' hr1 h2
      refine ⟨t', ?_, hr'⟩
      rw [List.filter_cons_of_pos ho, run_cons, ht, Option.bind_some, ht']
    | false =>
      rw [List.filter_cons_of_neg (by simp [ho])]
      exact run_filter own hown hother es s1 t s' (hother s t e s1 ho hr h1) h2

/-! ## Labels that may be absent -/

variable (step) in
/-- The step of a component that a label of the system may leave alone. -/
def perhaps (s : σ) : Option ε → Option σ
  | none => some s
  | some e => step s e

/-- What a step preserves, an absent label preserves too. -/
theorem perhaps_inv {I : σ → Prop} {s s' : σ} {l : Option ε} (hI : ∀ e ∈ l, ∀ s', step s e = some s' → I s') (hs : I s)
    (h : perhaps step s l = some s') : I s' := by
  cases l with
  | none =>
    cases h
    exact hs
  | some e => exact hI e rfl s' h

end Run

end Lts
