/-
Doubly linked lists as links between cells: each cell names the one before it and the one behind it, and both ends are
kept. A list of cells says what the links amount to; putting a cell behind the last and taking a cell out are what they
are for lists, whatever the other cells' links are.
-/
import Mathlib.Tactic

namespace Dll

variable {ι : Type*}

/-! ## Links -/

/-- Both ends, and of every cell the one behind it and the one before it. -/
structure Links (ι : Type*) where
  first : Option ι
  last : Option ι
  next : ι → Option ι
  previous : ι → Option ι

/-- No cells. -/
def Links.empty (next previous : ι → Option ι) : Links ι := ⟨none, none, next, previous⟩

/-- The same links from the other end. -/
def Links.mirror (l : Links ι) : Links ι := ⟨l.last, l.first, l.previous, l.next⟩

/-- From `a` the links `next` visit `xs` and come to `b`. -/
def Seg (next : ι → Option ι) : Option ι → List ι → Option ι → Prop
  | a, [], b => a = b
  | a, x :: xs, b => a = some x ∧ Seg next (next x) xs b

/-- The cells of the list are `xs`, each once, from both ends. -/
structure IsList (l : Links ι) (xs : List ι) : Prop where
  nodup : xs.Nodup
  forth : Seg l.next l.first xs none
  back : Seg l.previous l.last xs.reverse none

theorem IsList.mirror {l : Links ι} {xs : List ι} (h : IsList l xs) : IsList l.mirror xs.reverse :=
  ⟨List.nodup_reverse.2 h.nodup, h.back, by rw [List.reverse_reverse]; exact h.forth⟩

theorem empty_isList (next previous : ι → Option ι) : IsList (Links.empty next previous) [] :=
  ⟨List.nodup_nil, rfl, rfl⟩

/-! ## Segments -/

section Seg

variable {next next' : ι → Option ι}

theorem seg_append : ∀ {xs ys : List ι} {a b : Option ι},
    Seg next a (xs ++ ys) b ↔ ∃ m, Seg next a xs m ∧ Seg next m ys b
  | [], ys, a, b => by simp [Seg]
  | x :: xs, ys, a, b => by simp only [List.cons_append, Seg, @seg_append xs, and_assoc, exists_and_left]

/-- A segment is about the links of its own cells. -/
theorem Seg.congr : ∀ {xs : List ι} {a b : Option ι}, Seg next a xs b → (∀ x ∈ xs, next' x = next x) →
    Seg next' a xs b
  | [], _, _, h, _ => h
  | x :: xs, a, b, h, heq => by
    refine ⟨h.1, ?_⟩
    rw [heq x List.mem_cons_self]
    exact h.2.congr fun y hy => heq y (List.mem_cons_of_mem _ hy)

theorem Seg.head : ∀ {xs : List ι} {a : Option ι}, Seg next a xs none → a = xs.head?
  | [], _, h => h
  | _ :: _, _, h => h.1

/-- Following the links, the first cell that `p` holds of. -/
def walk (next : ι → Option ι) (p : ι → Bool) : Nat → Option ι → Option (Option ι)
  | _, none => some none
  | 0, some _ => none
  | n + 1, some x => if p x then some (some x) else walk next p n (next x)

/-- A walk along a list ends, at the first of its cells of which `p` holds. -/
theorem walk_seg (p : ι → Bool) : ∀ {xs : List ι} {n : Nat} {a : Option ι}, Seg next a xs none → xs.length ≤ n →
    walk next p n a = some (xs.find? p)
  | [], n, a, h, _ => by
    have ha : a = none := h
    subst ha
    cases n <;> rfl
  | x :: xs, 0, a, _, hn => by simp at hn
  | x :: xs, n + 1, a, h, hn => by
    obtain ⟨rfl, h⟩ := h
    rw [walk]
    cases hp : p x with
    | true => rw [if_pos rfl, List.find?_cons_of_pos hp]
    | false =>
      rw [if_neg (by simp), List.find?_cons_of_neg (by simp [hp])]
      exact walk_seg p h (Nat.le_of_succ_le_succ hn)

end Seg

/-! ## Neighbours -/

theorem IsList.last_eq {l : Links ι} {xs : List ι} (h : IsList l xs) : l.last = xs.getLast? := by
  rw [h.back.head, List.head?_reverse]

/-- The cell behind `x`. -/
theorem IsList.next_eq {l : Links ι} {xs ys : List ι} {x : ι} (h : IsList l (xs ++ x :: ys)) : l.next x = ys.head? := by
  obtain ⟨m, -, h2⟩ := seg_append.1 h.forth
  exact h2.2.head

theorem IsList.previous_eq {l : Links ι} {xs ys : List ι} {x : ι} (h : IsList l (xs ++ x :: ys)) :
    l.previous x = xs.getLast? := by
  have hm := h.mirror
  rw [List.reverse_append, List.reverse_cons, List.append_assoc, List.singleton_append] at hm
  rw [← List.head?_reverse]
  exact hm.next_eq

/-! ## A cell more -/

variable [DecidableEq ι]

/-- `x` behind the last cell. -/
def Links.push (l : Links ι) (x : ι) : Links ι where
  first := if l.last = none then some x else l.first
  last := some x
  next :=
    match l.last with
    | none => Function.update l.next x none
    | some y => Function.update (Function.update l.next x none) y (some x)
  previous := Function.update l.previous x l.last

theorem push_isList {l : Links ι} {xs : List ι} (h : IsList l xs) {x : ι} (hx : x ∉ xs) :
    IsList (l.push x) (xs ++ [x]) := by
  have hlast := h.last_eq
  refine ⟨?_, ?_, ?_⟩
  · rw [List.nodup_append]
    refine ⟨h.nodup, List.nodup_singleton x, fun y hy z hz => ?_⟩
    rw [List.mem_singleton.1 hz]
    rintro rfl
    exact hx hy
  · -- the element becomes the first, or the one behind the last
    rcases List.eq_nil_or_concat xs with rfl | ⟨ys, y, rfl⟩
    · have hnone : l.last = none := hlast
      simp only [Links.push, hnone, List.nil_append]
      exact ⟨rfl, Function.update_self _ _ _⟩
    · have hsome : l.last = some y := by rw [hlast]; simp
      have hnd := h.nodup
      simp only [List.concat_eq_append] at h hx hnd ⊢
      have hne : y ≠ x := by
        rintro rfl
        exact hx (by simp)
      have hys : ∀ z ∈ ys, z ≠ y ∧ z ≠ x := by
        intro z hz
        refine ⟨?_, fun hzx => hx (hzx ▸ List.mem_append_left _ hz)⟩
        rintro rfl
        exact (List.nodup_append.1 hnd).2.2 z hz z (List.mem_singleton_self z) rfl
      obtain ⟨m, h1, h2⟩ := seg_append.1 h.forth
      simp only [Links.push, hsome]
      rw [if_neg (by simp)]
      refine seg_append.2 ⟨some x, seg_append.2 ⟨m, h1.congr fun z hz => ?_, h2.1, ?_⟩, rfl, ?_⟩
      · rw [Function.update_of_ne (hys z hz).1, Function.update_of_ne (hys z hz).2]
      · exact Function.update_self _ _ _
      · show Function.update (Function.update l.next x none) y (some x) x = none
        rw [Function.update_of_ne hne.symm, Function.update_self]
  · rw [List.reverse_append]
    refine ⟨rfl, ?_⟩
    show Seg (Function.update l.previous x l.last) (Function.update l.previous x l.last x) xs.reverse none
    rw [Function.update_self]
    refine h.back.congr fun z hz => Function.update_of_ne ?_ _ _
    rintro rfl
    exact hx (List.mem_reverse.1 hz)

/-! ## A cell less -/

/-- The links of the neighbours of `x` past it; its own stay. -/
def Links.unlink (l : Links ι) (x : ι) : Links ι where
  first := if l.previous x = none then l.next x else l.first
  last := if l.next x = none then l.previous x else l.last
  next :=
    match l.previous x with
    | none => l.next
    | some y => Function.update l.next y (l.next x)
  previous :=
    match l.next x with
    | none => l.previous
    | some z => Function.update l.previous z (l.previous x)

theorem unlink_mirror (l : Links ι) (x : ι) : (l.unlink x).mirror = l.mirror.unlink x := rfl

/-- One direction: without `x` the links from the first visit the other cells. -/
theorem unlink_forth {l : Links ι} {xs ys : List ι} {x : ι} (h : IsList l (xs ++ x :: ys)) :
    Seg (l.unlink x).next (l.unlink x).first (xs ++ ys) none := by
  have hprev := h.previous_eq
  obtain ⟨m, h1, h2⟩ := seg_append.1 h.forth
  rcases List.eq_nil_or_concat xs with rfl | ⟨zs, z, rfl⟩
  · have hnone : l.previous x = none := hprev
    simp only [Links.unlink, hnone, if_true]
    exact h2.2
  · have hsome : l.previous x = some z := by rw [hprev]; simp
    have hnd := h.nodup
    simp only [List.concat_eq_append] at h1 hnd ⊢
    obtain ⟨k, h3, h4⟩ := seg_append.1 h1
    rw [List.append_assoc, List.nodup_append] at hnd
    obtain ⟨-, hright, hdisj⟩ := hnd
    have hzs : ∀ w ∈ zs, w ≠ z := fun w hw => hdisj w hw z List.mem_cons_self
    have hys : ∀ w ∈ ys, w ≠ z := by
      rintro w hw rfl
      exact (List.nodup_cons.1 hright).1 (List.mem_cons_of_mem _ hw)
    simp only [Links.unlink, hsome]
    rw [if_neg (by simp), List.append_assoc]
    refine seg_append.2 ⟨k, h3.congr fun w hw => Function.update_of_ne (hzs w hw) _ _, h4.1, ?_⟩
    rw [Function.update_self]
    exact h2.2.congr fun w hw => Function.update_of_ne (hys w hw) _ _

theorem unlink_isList {l : Links ι} {xs ys : List ι} {x : ι} (h : IsList l (xs ++ x :: ys)) :
    IsList (l.unlink x) (xs ++ ys) := by
  refine ⟨?_, unlink_forth h, ?_⟩
  · exact h.nodup.sublist (List.Sublist.append_left (List.sublist_cons_self x ys) xs)
  · have hm := h.mirror
    rw [List.reverse_append, List.reverse_cons, List.append_assoc, List.singleton_append] at hm
    have hback := unlink_forth hm
    rw [← unlink_mirror] at hback
    rw [List.reverse_append]
    exact hback

end Dll
