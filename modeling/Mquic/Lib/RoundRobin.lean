/-
Turns in a circle: a list is gone through from behind the member that was served last, round to that member, and the
turn ends at the first that is served. Whoever is not reached is nearer the front at the next turn, so that each member
is reached within as many turns as there are members.
-/
import Mathlib.Data.List.TakeWhile
import Mathlib.Tactic

namespace RoundRobin

variable {ι : Type*} [DecidableEq ι]

/-! ## The order of a turn -/

/-- What stands behind `last`. -/
def behind (last : ι) (xs : List ι) : List ι := (xs.dropWhile (· ≠ last)).tail

/-- From the front to `last`, or all if it is not there. -/
def upTo (last : ι) (xs : List ι) : List ι :=
  xs.takeWhile (· ≠ last) ++ if last ∈ xs then [last] else []

/-- The order in which `xs` is gone through after `last`. -/
def order (last : ι) (xs : List ι) : List ι := behind last xs ++ upTo last xs

section Order

variable {last : ι} {xs as bs : List ι}

/-- The members before `last` are none of it. -/
theorem passed (h : last ∉ as) : ∀ x ∈ as, decide (x ≠ last) = true := by
  intro x hx
  refine decide_eq_true ?_
  rintro rfl
  exact h hx

theorem order_absent (h : last ∉ xs) : order last xs = xs := by
  have hdrop : xs.dropWhile (· ≠ last) = [] := List.dropWhile_eq_nil_iff.2 (passed h)
  rw [order, behind, upTo, hdrop, List.takeWhile_eq_self_iff.2 (passed h), if_neg h]
  simp

theorem behind_mid (h : last ∉ as) : behind last (as ++ last :: bs) = bs := by
  rw [behind, List.dropWhile_append_of_pos (passed h), List.dropWhile_cons_of_neg (by simp)]
  rfl

theorem upTo_mid (h : last ∉ as) : upTo last (as ++ last :: bs) = as ++ [last] := by
  rw [upTo, List.takeWhile_append_of_pos (passed h), List.takeWhile_cons_of_neg (by simp), if_pos (by simp),
    List.append_nil]

theorem order_mid (h : last ∉ as) : order last (as ++ last :: bs) = bs ++ (as ++ [last]) := by
  rw [order, behind_mid h, upTo_mid h]

/-- Each member has its place in the order. -/
theorem order_perm (last : ι) (xs : List ι) : (order last xs).Perm xs := by
  by_cases h : last ∈ xs
  · obtain ⟨as, bs, rfl, has⟩ := List.eq_append_cons_of_mem h
    rw [order_mid has]
    refine List.perm_append_comm.trans ?_
    rw [List.append_assoc, List.singleton_append]
  · rw [order_absent h]

/-- Behind whoever is served, the others keep their order. -/
theorem order_next (hnd : xs.Nodup) {q : ι} {ys zs : List ι} (h : order last xs = ys ++ q :: zs) :
    zs <+: order q xs := by
  have hmid : ∀ us vs : List ι, xs = us ++ q :: vs → order q xs = vs ++ (us ++ [q]) := by
    rintro us vs rfl
    exact order_mid fun hmem => (List.nodup_append.1 hnd).2.2 q hmem q List.mem_cons_self rfl
  by_cases hlast : last ∈ xs
  · obtain ⟨as, bs, rfl, has⟩ := List.eq_append_cons_of_mem hlast
    rw [order_mid has, ← List.append_assoc] at h
    rcases List.eq_nil_or_concat zs with rfl | ⟨tl, t, rfl⟩
    · exact List.nil_prefix
    · -- the one behind which the turn began comes last
      have hsplit : bs ++ as ++ [last] = (ys ++ q :: tl) ++ [t] := by
        rw [h]
        simp
      obtain ⟨hinit, rfl⟩ := List.append_singleton_inj.1 hsplit
      rcases List.append_eq_append_iff.1 hinit with ⟨mid, rfl, hq⟩ | ⟨mid, rfl, hq⟩
      · rw [hmid mid (tl ++ last :: bs) (by rw [hq]; simp)]
        exact ⟨bs ++ (mid ++ [q]), by simp⟩
      · cases mid with
        | nil =>
          have hq' : as = q :: tl := by simpa using hq.symm
          rw [hmid [] (tl ++ last :: (ys ++ [])) (by rw [hq']; simp)]
          exact ⟨ys ++ [q], by simp⟩
        | cons u mid =>
          obtain ⟨rfl, rfl⟩ := List.cons.inj hq
          rw [hmid (as ++ last :: ys) mid (by simp)]
          exact ⟨ys ++ [q], by simp⟩
  · rw [order_absent hlast] at h
    subst h
    rw [hmid _ _ rfl]
    exact List.prefix_append _ _

end Order

/-! ## Turns -/

/-- Turn after turn, each from behind the member served last: a turn reaches `ts`, and serves the last of them if it
does not reach all. -/
inductive Turns (xs : List ι) : ι → List (List ι) → Prop where
  | nil (last : ι) : Turns xs last []
  | all {last next : ι} {tss : List (List ι)} (h : Turns xs next tss) : Turns xs last (order last xs :: tss)
  | served {last next : ι} {ts rest : List ι} {tss : List (List ι)} (ho : order last xs = ts ++ next :: rest)
    (h : Turns xs next tss) : Turns xs last ((ts ++ [next]) :: tss)

/-- Every member is reached in as many turns as there are members before it, and one. -/
theorem Turns.reached {xs : List ι} (hnd : xs.Nodup) {last : ι} {tss : List (List ι)} (h : Turns xs last tss) {p : ι}
    {ys zs : List ι} (ho : order last xs = ys ++ p :: zs) (hlen : ys.length < tss.length) : ∃ ts ∈ tss, p ∈ ts := by
  induction h generalizing ys zs with
  | nil last => simp at hlen
  | @all last next tss h ih => exact ⟨_, List.mem_cons_self, by rw [ho]; simp⟩
  | @served last next ts rest tss hts h ih =>
    rw [hts] at ho
    rcases List.append_eq_append_iff.1 ho with ⟨mid, rfl, hmid⟩ | ⟨mid, rfl, hmid⟩
    · cases mid with
      | nil =>
        obtain ⟨rfl, -⟩ := List.cons.inj hmid
        exact ⟨_, List.mem_cons_self, by simp⟩
      | cons u mid =>
        -- it was behind the one served, and is as much nearer to the front
        have hrest : rest = mid ++ p :: zs := (List.cons.inj hmid).2
        obtain ⟨more, hmore⟩ := order_next hnd hts
        rw [hrest, List.append_assoc, List.cons_append] at hmore
        obtain ⟨us, hus, hp⟩ := ih hmore.symm (by simp only [List.length_append, List.length_cons] at hlen; omega)
        exact ⟨us, List.mem_cons_of_mem _ hus, hp⟩
    · refine ⟨_, List.mem_cons_self, ?_⟩
      cases mid with
      | nil =>
        obtain ⟨rfl, -⟩ := List.cons.inj hmid
        simp
      | cons u mid =>
        obtain ⟨rfl, -⟩ := List.cons.inj hmid
        simp

/-- Every member is reached in as many turns as there are members. -/
theorem Turns.reached_all {xs : List ι} (hnd : xs.Nodup) {last : ι} {tss : List (List ι)} (h : Turns xs last tss)
    {p : ι} (hp : p ∈ xs) (hlen : xs.length ≤ tss.length) : ∃ ts ∈ tss, p ∈ ts := by
  have hperm := order_perm last xs
  obtain ⟨ys, zs, ho⟩ := List.append_of_mem (hperm.symm.subset hp)
  refine h.reached hnd ho (lt_of_lt_of_le ?_ hlen)
  rw [← hperm.length_eq, ho, List.length_append, List.length_cons]
  omega

end RoundRobin
