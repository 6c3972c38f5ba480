/-
`wait_for_pacing` (quic_server.c), through which every write of the server goes: it asks picoquic for leave to
send, and looks at the clock again only after a refusal that names a time still to come.
-/
import Mquic.Lib.Loop

namespace Mquic.Server.Pacing

open Loop

/-! ## The loop -/

/-- What `picoquic_is_sending_authorized_by_pacing` answers; a refusal comes with what it leaves in `*next_us`. -/
inductive Answer where
  | authorized
  | refused (nextUs : Nat)

/-- The answers of the pacing: to the `k`-th query, at a time and with a value of `*next_us`. -/
abbrev Oracle := Nat → Nat → Nat → Answer

/-- The locals of `wait_for_pacing`, and how often it has asked and has read the clock. -/
structure Wait where
  queries : Nat
  reads : Nat
  nowUs : Nat
  nextUs : Nat

/-- Before the loop. -/
def Wait.init (clock : Nat → Nat) : Wait := ⟨0, 1, clock 0, clock 0⟩

/-- One round of the loop. `usleep` lets time pass, which is the clock's matter. -/
def waitForPacing (oracle : Oracle) (clock : Nat → Nat) (w : Wait) : Unit ⊕ Wait :=
  match oracle w.queries w.nowUs w.nextUs with
  | .authorized => .inl ()
  | .refused nextUs =>
    if nextUs > w.nowUs then .inr ⟨w.queries + 1, w.reads + 1, clock w.reads, nextUs⟩
    -- the time that was refused is asked about again
    else .inr ⟨w.queries + 1, w.reads, w.nowUs, nextUs⟩

/-- From time `T` on every query is authorised. -/
def Oracle.OpensAt (oracle : Oracle) (T : Nat) : Prop := ∀ k now next, T ≤ now → oracle k now next = .authorized

/-! ## Queries at one time -/

/-- Asked about the time `now` again and again, from the `k`-th query on, the pacing in the end authorises it or
names a later time. -/
inductive Answers (oracle : Oracle) (now : Nat) : Nat → Nat → Prop where
  | authorized {k next : Nat} (h : oracle k now next = .authorized) : Answers oracle now k next
  | later {k next t : Nat} (h : oracle k now next = .refused t) (ht : now < t) : Answers oracle now k next
  | again {k next t : Nat} (h : oracle k now next = .refused t) (ht : t ≤ now) (ha : Answers oracle now (k + 1) t) :
    Answers oracle now k next

section Wait

variable {oracle : Oracle} {clock : Nat → Nat}

theorem wait_authorized {w : Wait} (h : oracle w.queries w.nowUs w.nextUs = .authorized) :
    waitForPacing oracle clock w = .inl () := by
  unfold waitForPacing
  rw [h]

theorem wait_later {w : Wait} {t : Nat} (h : oracle w.queries w.nowUs w.nextUs = .refused t) (ht : w.nowUs < t) :
    waitForPacing oracle clock w = .inr ⟨w.queries + 1, w.reads + 1, clock w.reads, t⟩ := by
  unfold waitForPacing
  rw [h]
  exact if_pos ht

theorem wait_again {w : Wait} {t : Nat} (h : oracle w.queries w.nowUs w.nextUs = .refused t) (ht : t ≤ w.nowUs) :
    waitForPacing oracle clock w = .inr ⟨w.queries + 1, w.reads, w.nowUs, t⟩ := by
  unfold waitForPacing
  rw [h]
  exact if_neg (Nat.not_lt.2 ht)

/-- The last reading of the clock is the time asked about. -/
def Wait.Current (clock : Nat → Nat) (w : Wait) : Prop := 0 < w.reads ∧ w.nowUs = clock (w.reads - 1)

theorem Wait.init_current : (Wait.init clock).Current clock := ⟨Nat.one_pos, rfl⟩

theorem wait_current {w w' : Wait} (hw : w.Current clock) (h : waitForPacing oracle clock w = .inr w') :
    w'.Current clock := by
  cases ho : oracle w.queries w.nowUs w.nextUs with
  | authorized =>
    rw [wait_authorized ho] at h
    cases h
  | refused t =>
    by_cases ht : w.nowUs < t
    · rw [wait_later ho ht] at h
      cases h
      exact ⟨Nat.succ_pos _, rfl⟩
    · rw [wait_again ho (Nat.not_lt.1 ht)] at h
      cases h
      exact hw

/-- Where the pacing answers, the loop ends or reads the clock again. -/
theorem answers_progress {now k next : Nat} (ha : Answers oracle now k next) (reads : Nat) :
    Ends (waitForPacing oracle clock) ⟨k, reads, now, next⟩ ∨
      ∃ k' next', Heads (waitForPacing oracle clock) ⟨k, reads, now, next⟩ ⟨k', reads + 1, clock reads, next'⟩ := by
  induction ha with
  | authorized h => exact .inl (ends_exit (wait_authorized h))
  | later h ht => exact .inr ⟨_, _, (Heads.refl _).next (wait_later h ht)⟩
  | @again k next t h ht _ ih =>
    have hstep : waitForPacing oracle clock ⟨k, reads, now, next⟩ = .inr ⟨k + 1, reads, now, t⟩ := wait_again h ht
    rcases ih with he | ⟨k', next', hh⟩
    · exact .inl ((ends_next hstep).2 he)
    · exact .inr ⟨k', next', ((Heads.refl _).next hstep).trans hh⟩

/-- Where it does not, every further query is about the same time and gets the same kind of refusal. -/
theorem not_answers_trap {w : Wait} (hw : ¬ Answers oracle w.nowUs w.queries w.nextUs) :
    ∃ w', waitForPacing oracle clock w = .inr w' ∧ ¬ Answers oracle w'.nowUs w'.queries w'.nextUs := by
  cases ho : oracle w.queries w.nowUs w.nextUs with
  | authorized => exact absurd (.authorized ho) hw
  | refused t =>
    by_cases ht : w.nowUs < t
    · exact absurd (.later ho ht) hw
    · have hle : t ≤ w.nowUs := Nat.not_lt.1 ht
      exact ⟨_, wait_again ho hle, fun ha => hw (.again ho hle ha)⟩

/-- Under a pacing that opens at some time, on a clock that advances, the wait ends exactly when every time it
asks about is in the end authorised or put off to a later time. -/
theorem wait_ends_iff (oracle : Oracle) (clock : Nat → Nat) (hclock : StrictMono clock) (T : Nat)
    (hopen : oracle.OpensAt T) :
    Ends (waitForPacing oracle clock) (Wait.init clock) ↔
      ∀ w, Heads (waitForPacing oracle clock) (Wait.init clock) w → Answers oracle w.nowUs w.queries w.nextUs := by
  constructor
  · intro he w hw
    by_contra hna
    exact not_ends_of_trap (T := fun w => ¬ Answers oracle w.nowUs w.queries w.nextUs) (fun _ => not_answers_trap)
      hna (he.heads hw)
  · intro ha
    -- every reading of the clock leaves less time up to `T`
    refine ends_of_progress (fun w => T - w.nowUs) fun w hw => ?_
    obtain ⟨hpos, hnow⟩ := heads_inv (fun _ _ => wait_current) Wait.init_current hw
    by_cases hT : T ≤ w.nowUs
    · exact .inl (ends_exit (wait_authorized (hopen _ _ _ hT)))
    · have hprogress : Ends (waitForPacing oracle clock) w ∨ ∃ k' next',
          Heads (waitForPacing oracle clock) w ⟨k', w.reads + 1, clock w.reads, next'⟩ :=
        answers_progress (ha w hw) w.reads
      rcases hprogress with he | ⟨k', next', hh⟩
      · exact .inl he
      · have hlt : w.nowUs < clock w.reads := by
          rw [hnow]
          exact hclock (by omega)
        refine .inr ⟨_, hh, ?_⟩
        show T - clock w.reads < T - w.nowUs
        omega

end Wait

/-- A pacing that puts the sender off to the next time until it opens at time 3. -/
def dueOracle : Oracle := fun _ now _ => if 3 ≤ now then .authorized else .refused (now + 1)

/-- The first three queries are refused. -/
theorem wait_ends_iff_open : (∀ now < 3, ∀ k next, dueOracle k now next = .refused (now + 1)) ∧
    (Ends (waitForPacing dueOracle fun i => i) (Wait.init fun i => i) ↔
      ∀ w, Heads (waitForPacing dueOracle fun i => i) (Wait.init fun i => i) w →
        Answers dueOracle w.nowUs w.queries w.nextUs) :=
  ⟨fun _ hnow _ _ => if_neg (Nat.not_le.2 hnow),
    wait_ends_iff dueOracle (fun i => i) strictMono_id 3 fun _ _ _ hnow => if_pos hnow⟩

/-- A pacing that opens at time 1 and leaves `*next_us` as it is. -/
def lateOracle : Oracle := fun _ now next => if 1 ≤ now then .authorized else .refused next

/-- It keeps a wait that starts at time 0 for ever. -/
theorem wait_spins : lateOracle.OpensAt 1 ∧ (∀ k now next t, lateOracle k now next = .refused t → t = next) ∧
    ¬ Ends (waitForPacing lateOracle fun i => i) (Wait.init fun i => i) := by
  refine ⟨fun k now next h => if_pos h, ?_, ?_⟩
  · intro k now next t h
    unfold lateOracle at h
    split at h
    · cases h
    · cases h
      rfl
  · refine not_ends_of_trap (T := fun w => w.nowUs = 0 ∧ w.nextUs = 0) ?_ ⟨rfl, rfl⟩
    rintro ⟨k, reads, now, next⟩ ⟨hnow, hnext⟩
    cases hnow
    cases hnext
    exact ⟨_, wait_again rfl (le_refl 0), rfl, rfl⟩

/-! ## The pacing of picoquic -/

/-- picoquic's answer at a time depends on that time alone, and a refusal lowers `*next_us` to its own time, which
is still to come, when that is earlier. -/
structure Oracle.Lowers (oracle : Oracle) (opens : Nat → Bool) (own : Nat → Nat) : Prop where
  authorized : ∀ k now next, opens now = true → oracle k now next = .authorized
  refused : ∀ k now next, opens now = false → oracle k now next = .refused (min next (own now))
  later : ∀ now, now < own now

/-- So a wait that is not over at once is never over: `*next_us` starts at the time asked about. -/
theorem wait_ends_iff_first {oracle : Oracle} {opens : Nat → Bool} {own : Nat → Nat} (ho : oracle.Lowers opens own)
    (clock : Nat → Nat) :
    Ends (waitForPacing oracle clock) (Wait.init clock) ↔ opens (clock 0) = true := by
  constructor
  · intro he
    by_contra hno
    have hrefused := fun k next => ho.refused k (clock 0) next (Bool.eq_false_iff.2 hno)
    have hlater := ho.later (clock 0)
    refine not_ends_of_trap (T := fun w => w.nowUs = clock 0 ∧ w.nextUs = clock 0) ?_ ⟨rfl, rfl⟩ he
    rintro ⟨k, reads, now, next⟩ ⟨hnow, hnext⟩
    cases hnow
    cases hnext
    refine ⟨_, wait_again (hrefused k _) ?_, rfl, ?_⟩
    · exact min_le_left _ _
    · exact min_eq_left hlater.le
  · intro hopen
    exact ends_exit (wait_authorized (ho.authorized 0 _ _ hopen))

end Mquic.Server.Pacing
