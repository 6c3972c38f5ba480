/-
The stream prefixes of a connection (h3zero_common.c): cells linked both ways, declared at the end of the list, found by
walking it, and deleted with a call of their owner, who may delete other prefixes in turn. The links stay a list of the
declared prefixes; deleting ends, whatever the owners delete, and frees every cell once, behind its owner's call.
-/
import Mquic.Lib.Dll
import Mquic.Lib.Lts

namespace Mquic.H3.Registry

open Dll

variable {κ : Type}

/-! ## State -/

/-- `h3zero_stream_prefix_t` without its links; `functionCall` comes with `function_ctx`. -/
structure PrefixCtx (κ : Type) where
  streamPrefix : Nat
  readyToSendDatagrams : Bool
  functionCall : Option κ
deriving DecidableEq

/-- What is done with a cell: its owner is called with `picohttp_callback_deregister`, or it is freed. -/
inductive Event (κ : Type) where
  | deregister (cell streamPrefix : Nat) (functionCall : κ)
  | free (cell : Nat)
deriving DecidableEq

/-- `stream_prefixes`, the cells by their addresses, and as history the cells allocated so far, those of them not yet
freed, and what was done. -/
structure State (κ : Type) where
  links : Links Nat
  data : Nat → PrefixCtx κ
  allocated : List Nat
  live : List Nat
  log : List (Event κ)

/-- No prefixes. -/
def State.init (next previous : Nat → Option Nat) (data : Nat → PrefixCtx κ) : State κ :=
  ⟨.empty next previous, data, [], [], []⟩

/-! ## Functions -/

/-- `h3zero_find_stream_prefix`, with room for a walk past every cell there is. -/
def findStreamPrefix (s : State κ) (streamPrefix : Nat) : Option (Option Nat) :=
  walk s.links.next (fun x => (s.data x).streamPrefix = streamPrefix) s.live.length s.links.first

/-- A new cell at the end of the list. -/
def State.add (s : State κ) (cell : Nat) (c : PrefixCtx κ) : State κ where
  links := s.links.push cell
  data := Function.update s.data cell c
  allocated := s.allocated ++ [cell]
  live := s.live ++ [cell]
  log := s.log

/-- `h3zero_declare_stream_prefix`, with the cell that `malloc` returns. -/
def declareStreamPrefix (s : State κ) (streamPrefix : Nat) (functionCall : Option κ) (malloc : Option Nat) :
    Option (State κ × Int) :=
  (findStreamPrefix s streamPrefix).map fun found =>
    match found with
    | some _ => (s, -1)
    | none =>
      match malloc with
      | none => (s, -1)
      | some cell => (s.add cell ⟨streamPrefix, false, functionCall⟩, 0)

/-- A cell out of the list. -/
def State.unlink (s : State κ) (cell : Nat) : State κ := { s with links := s.links.unlink cell }

def State.note (s : State κ) (e : Event κ) : State κ := { s with log := s.log ++ [e] }

def State.freed (s : State κ) (cell : Nat) : State κ := { s.note (.free cell) with live := s.live.erase cell }

/-- Whom deleting the cell calls: its owner, if the control stream is there. -/
def callee (data : Nat → PrefixCtx κ) (streams : Nat → Bool) (cell : Nat) : Option κ :=
  if streams (data cell).streamPrefix then (data cell).functionCall else none

/-- `h3zero_delete_stream_prefix`, one call inside another to a depth of `n`. An owner that is called deletes the
prefixes that `app` says, one after the other. -/
def deleteStreamPrefix (app : κ → Nat → List Nat) (streams : Nat → Bool) : Nat → State κ → Nat → Option (State κ)
  | 0, _, _ => none
  | n + 1, s, streamPrefix =>
    (findStreamPrefix s streamPrefix).bind fun found =>
      match found with
      | none => some s
      | some cell =>
        -- the cell is out of the list before its owner is called
        (match callee s.data streams cell with
          | none => some (s.unlink cell)
          | some call =>
            (app call streamPrefix).foldlM (deleteStreamPrefix app streams n)
              ((s.unlink cell).note (.deregister cell streamPrefix call))).map (State.freed · cell)

/-- `h3zero_delete_all_stream_prefixes`, for at most `n` rounds. -/
def deleteAllStreamPrefixes (app : κ → Nat → List Nat) (streams : Nat → Bool) : Nat → State κ → Option (State κ)
  | n, s =>
    match s.links.first with
    | none => some s
    | some cell =>
      match n with
      | 0 => none
      | n + 1 =>
        (deleteStreamPrefix app streams (s.live.length + 1) s (s.data cell).streamPrefix).bind
          (deleteAllStreamPrefixes app streams n)

/-- `h3zero_set_datagram_ready`, as far as the prefix is concerned, and whether it found one. -/
def setDatagramReady (s : State κ) (streamId : Nat) : Option (State κ × Bool) :=
  (findStreamPrefix s streamId).map fun found =>
    match found with
    | none => (s, false)
    | some cell =>
      ({ s with data := Function.update s.data cell { s.data cell with readyToSendDatagrams := true } }, true)

/-- The calls. Deleting finds the control streams that `streams` says. -/
inductive Op (κ : Type) where
  | declare (streamPrefix : Nat) (functionCall : Option κ) (malloc : Option Nat)
  | setReady (streamId : Nat)
  | delete (streams : Nat → Bool) (streamPrefix : Nat)
  | deleteAll (streams : Nat → Bool)

/-- One call. `malloc` returns no cell that is in use. -/
def step (app : κ → Nat → List Nat) (s : State κ) : Op κ → Option (State κ)
  | .declare streamPrefix functionCall malloc =>
    if ∀ cell ∈ malloc, cell ∉ s.live then (declareStreamPrefix s streamPrefix functionCall malloc).map (·.1) else none
  | .setReady streamId => (setDatagramReady s streamId).map (·.1)
  | .delete streams streamPrefix => deleteStreamPrefix app streams (s.live.length + 1) s streamPrefix
  | .deleteAll streams => deleteAllStreamPrefixes app streams s.live.length s

/-! ## What the cells are -/

/-- The list is `xs`; the other cells in use, `held`, are out of it and wait for their owners. No prefix is declared
twice. -/
structure Holds (s : State κ) (xs held : List Nat) : Prop where
  list : IsList s.links xs
  live : s.live.Perm (xs ++ held)
  nodup : (xs ++ held).Nodup
  prefixes : (xs.map fun x => (s.data x).streamPrefix).Nodup

/-- The cells freed. -/
def freed (log : List (Event κ)) : List Nat :=
  log.filterMap fun
    | .free cell => some cell
    | .deregister _ _ _ => none

/-- The owners called, by their cells. -/
def called (log : List (Event κ)) : List (Nat × κ) :=
  log.filterMap fun
    | .deregister cell _ call => some (cell, call)
    | .free _ => none

/-- The cells `xs` are released: each is freed, behind the call of its owner if there is one to call, and what that
owner releases is released between them. -/
inductive Released (data : Nat → PrefixCtx κ) (streams : Nat → Bool) : List (Event κ) → List Nat → Prop where
  | nil : Released data streams [] []
  | silent {x : Nat} (h : callee data streams x = none) : Released data streams [.free x] [x]
  | calling {x : Nat} {call : κ} {es : List (Event κ)} {xs : List Nat} (h : callee data streams x = some call)
    (hr : Released data streams es xs) :
    Released data streams (.deregister x (data x).streamPrefix call :: (es ++ [.free x])) (xs ++ [x])
  | append {es fs : List (Event κ)} {xs ys : List Nat} (he : Released data streams es xs)
    (hf : Released data streams fs ys) : Released data streams (es ++ fs) (xs ++ ys)

theorem freed_append (es fs : List (Event κ)) : freed (es ++ fs) = freed es ++ freed fs := List.filterMap_append

theorem called_append (es fs : List (Event κ)) : called (es ++ fs) = called es ++ called fs := List.filterMap_append

section Released

variable {data : Nat → PrefixCtx κ} {streams : Nat → Bool} {es : List (Event κ)} {xs : List Nat}

/-- Each of the cells is freed once. -/
theorem Released.freed (h : Released data streams es xs) : Registry.freed es = xs := by
  induction h with
  | nil => rfl
  | silent h => rfl
  | @calling x call es xs h hr ih =>
    show Registry.freed (es ++ [.free x]) = xs ++ [x]
    rw [freed_append, ih]
    rfl
  | append he hf ihe ihf => rw [freed_append, ihe, ihf]

/-- Each owner that is to be called is called once, and no other. -/
theorem Released.called (h : Released data streams es xs) :
    (Registry.called es).Perm (xs.filterMap fun x => (callee data streams x).map (x, ·)) := by
  induction h with
  | nil => exact .nil
  | silent h =>
    rw [List.filterMap_cons, h]
    exact .nil
  | @calling x call es xs h hr ih =>
    have hlog : Registry.called (.deregister x (data x).streamPrefix call :: (es ++ [.free x])) =
        (x, call) :: Registry.called es := by
      show (x, call) :: Registry.called (es ++ [.free x]) = _
      rw [called_append]
      exact congrArg _ (List.append_nil _)
    rw [hlog, List.filterMap_append, List.filterMap_cons, h]
    exact (ih.cons _).trans (List.perm_append_singleton _ _).symm
  | append he hf ihe ihf =>
    rw [called_append, List.filterMap_append]
    exact ihe.append ihf

/-- An owner is called before its cell is freed. -/
theorem Released.before (h : Released data streams es xs) {x : Nat} {call : κ}
    (hc : callee data streams x = some call) :
    ∀ pre post, es = pre ++ .free x :: post → .deregister x (data x).streamPrefix call ∈ pre := by
  induction h with
  | nil => simp
  | @silent y h =>
    intro pre post heq
    cases pre with
    | nil =>
      cases heq
      rw [h] at hc
      cases hc
    | cons e pre => simp at heq
  | @calling y call' es ys h hr ih =>
    intro pre post heq
    cases pre with
    | nil => cases heq
    | cons e pre =>
      have hhead : e = .deregister y (data y).streamPrefix call' := (List.cons.inj heq).1.symm
      have htail : es ++ [.free y] = pre ++ .free x :: post := (List.cons.inj heq).2
      rcases List.append_eq_append_iff.1 htail with ⟨mid, -, hmid⟩ | ⟨mid, hes, hmid⟩
      · -- it is the cell whose owner was called first
        have hxy : Event.free y = Event.free (κ := κ) x := by
          cases mid with
          | nil => exact (List.cons.inj hmid).1
          | cons f mid => simp at hmid
        cases hxy
        rw [h] at hc
        cases hc
        rw [hhead]
        exact List.mem_cons_self
      · cases mid with
        | nil =>
          cases hmid
          rw [h] at hc
          cases hc
          rw [hhead]
          exact List.mem_cons_self
        | cons f mid =>
          have hf : f = .free x := (List.cons.inj hmid).1.symm
          subst hf
          exact List.mem_cons_of_mem _ (ih pre mid hes)
  | @append es fs xs ys he hf ihe ihf =>
    intro pre post heq
    rcases List.append_eq_append_iff.1 heq with ⟨mid, rfl, hmid⟩ | ⟨mid, hes, hmid⟩
    · exact List.mem_append_right _ (ihf mid post hmid)
    · cases mid with
      | nil => exact absurd (ihf [] post hmid.symm) (by simp)
      | cons f mid =>
        have hx : f = .free x := (List.cons.inj hmid).1.symm
        subst hx
        exact ihe pre mid hes

end Released

/-! ## What the registry is for -/

/-- The prefixes in the order of their declaration, each once; an owner without control stream is not called. -/
def remove (app : κ → Nat → List Nat) (streams : Nat → Bool) : Nat → List (PrefixCtx κ) → Nat → List (PrefixCtx κ)
  | 0, cs, _ => cs
  | n + 1, cs, p =>
    match cs.find? (·.streamPrefix = p) with
    | none => cs
    | some c =>
      match if streams p then c.functionCall else none with
      | none => cs.filter (·.streamPrefix ≠ p)
      | some call => (app call p).foldl (remove app streams n) (cs.filter (·.streamPrefix ≠ p))

/-- A call, on the prefixes in order. -/
def abstractStep (app : κ → Nat → List Nat) (cs : List (PrefixCtx κ)) : Op κ → List (PrefixCtx κ)
  | .declare streamPrefix functionCall malloc =>
    if malloc = none ∨ ∃ c ∈ cs, c.streamPrefix = streamPrefix then cs else cs ++ [⟨streamPrefix, false, functionCall⟩]
  | .setReady streamId =>
    cs.map fun c => if c.streamPrefix = streamId then { c with readyToSendDatagrams := true } else c
  | .delete streams streamPrefix => remove app streams (cs.length + 1) cs streamPrefix
  | .deleteAll _ => []

/-! ## One call -/

section Calls

variable {s : State κ} {xs held : List Nat}

theorem Holds.length_le (h : Holds s xs held) : xs.length ≤ s.live.length := by
  rw [h.live.length_eq, List.length_append]
  exact Nat.le_add_right _ _

/-- The walk finds the first cell with the prefix, if there is one. -/
theorem Holds.find (h : Holds s xs held) (streamPrefix : Nat) :
    findStreamPrefix s streamPrefix = some (xs.find? fun x => (s.data x).streamPrefix = streamPrefix) :=
  walk_seg _ h.list.forth h.length_le

theorem Holds.find_mem (h : Holds s xs held) {streamPrefix x : Nat}
    (hf : findStreamPrefix s streamPrefix = some (some x)) : x ∈ xs := by
  rw [h.find] at hf
  exact List.mem_of_find?_eq_some (Option.some.inj hf)

/-- A cell of the list is found by its own prefix. -/
theorem Holds.find_self (h : Holds s xs held) {x : Nat} (hx : x ∈ xs) :
    findStreamPrefix s (s.data x).streamPrefix = some (some x) := by
  rw [h.find]
  cases hy : xs.find? fun y => (s.data y).streamPrefix = (s.data x).streamPrefix with
  | none => exact absurd (decide_eq_true rfl) (List.find?_eq_none.1 hy x hx)
  | some y =>
    have heq : (s.data y).streamPrefix = (s.data x).streamPrefix := by simpa using List.find?_some hy
    rw [List.inj_on_of_nodup_map h.prefixes (List.mem_of_find?_eq_some hy) hx heq]

/-- What is found is the one cell with the prefix. -/
theorem Holds.found (h : Holds s xs held) {streamPrefix x : Nat}
    (hx : xs.find? (fun x => (s.data x).streamPrefix = streamPrefix) = some x) :
    ∃ ys zs, xs = ys ++ x :: zs ∧ (s.data x).streamPrefix = streamPrefix ∧
      ∀ y ∈ ys ++ zs, (s.data y).streamPrefix ≠ streamPrefix := by
  obtain ⟨hp, ys, zs, rfl, hys⟩ := List.find?_eq_some_iff_append.1 hx
  have hp' : (s.data x).streamPrefix = streamPrefix := of_decide_eq_true hp
  refine ⟨ys, zs, rfl, hp', fun y hy => ?_⟩
  have hnd := h.prefixes
  rw [List.map_append, List.map_cons, List.nodup_append] at hnd
  rcases List.mem_append.1 hy with hy | hy
  · simpa using hys y hy
  · intro heq
    have hzs := (List.nodup_cons.1 hnd.2.1).1
    exact hzs (by rw [hp', ← heq]; exact List.mem_map_of_mem hy)

/-- A cell that is taken out is held for its owner. -/
theorem Holds.unlink {ys zs : List Nat} {x : Nat} (h : Holds s (ys ++ x :: zs) held) :
    Holds (s.unlink x) (ys ++ zs) (x :: held) := by
  have hperm : (ys ++ x :: zs ++ held).Perm (ys ++ zs ++ x :: held) := by
    rw [List.append_assoc, List.append_assoc, List.cons_append]
    exact List.Perm.append_left ys List.perm_middle.symm
  refine ⟨unlink_isList h.list, h.live.trans hperm, hperm.nodup_iff.1 h.nodup, ?_⟩
  exact h.prefixes.sublist ((List.Sublist.append_left (List.sublist_cons_self x zs) ys).map _)

theorem Holds.note (h : Holds s xs held) (e : Event κ) : Holds (s.note e) xs held :=
  ⟨h.list, h.live, h.nodup, h.prefixes⟩

/-- A cell that was held is freed. -/
theorem Holds.freed {x : Nat} (h : Holds s xs (x :: held)) : Holds (s.freed x) xs held := by
  have hperm : (xs ++ x :: held).Perm (x :: (xs ++ held)) := List.perm_middle
  refine ⟨h.list, ?_, (List.nodup_cons.1 (hperm.nodup_iff.1 h.nodup)).2, h.prefixes⟩
  show (s.live.erase x).Perm (xs ++ held)
  exact ((h.live.trans hperm).erase x).trans (by rw [List.erase_cons_head])

/-- What a deletion comes to: of the cells `xs` the list keeps some, none with the prefix, and the others are released.
The cells' data, and what is held, stay. -/
structure Deleted (streams : Nat → Bool) (s : State κ) (xs held : List Nat) (s' : State κ) (ys : List Nat) : Prop where
  holds : Holds s' ys held
  sublist : ys.Sublist xs
  data : s'.data = s.data
  allocated : s'.allocated = s.allocated
  released : ∃ es gone, s'.log = s.log ++ es ∧ Released s.data streams es gone ∧ xs.Perm (ys ++ gone)

theorem Deleted.refl {streams : Nat → Bool} (h : Holds s xs held) : Deleted streams s xs held s xs :=
  ⟨h, List.Sublist.refl _, rfl, rfl, [], [], (List.append_nil _).symm, .nil, by rw [List.append_nil]⟩

theorem Deleted.trans {streams : Nat → Bool} {s' s'' : State κ} {ys zs : List Nat}
    (h : Deleted streams s xs held s' ys) (h' : Deleted streams s' ys held s'' zs) :
    Deleted streams s xs held s'' zs := by
  obtain ⟨es, gone, hlog, hrel, hperm⟩ := h.released
  obtain ⟨fs, gone', hlog', hrel', hperm'⟩ := h'.released
  refine ⟨h'.holds, h'.sublist.trans h.sublist, h'.data.trans h.data, h'.allocated.trans h.allocated, es ++ fs,
    gone ++ gone', ?_, .append hrel (h.data ▸ hrel'), ?_⟩
  · rw [hlog', hlog, List.append_assoc]
  · refine hperm.trans ((hperm'.append_right gone).trans ?_)
    rw [List.append_assoc]
    exact List.Perm.append_left zs List.perm_append_comm

section Delete

variable {app : κ → Nat → List Nat} {streams : Nat → Bool}

/-- Deletions one after the other, each of which ends. -/
theorem fold_deleted {n : Nat} (ih : ∀ {s : State κ} {xs held : List Nat} (p : Nat), Holds s xs held → xs.length < n →
      ∃ s' ys, deleteStreamPrefix app streams n s p = some s' ∧ Deleted streams s xs held s' ys ∧
        (∀ y ∈ ys, (s.data y).streamPrefix ≠ p) ∧ ys.map s.data = remove app streams n (xs.map s.data) p) :
    ∀ (ps : List Nat) {s : State κ} {xs held : List Nat}, Holds s xs held → xs.length < n →
      ∃ s' ys, ps.foldlM (deleteStreamPrefix app streams n) s = some s' ∧ Deleted streams s xs held s' ys ∧
        ys.map s.data = ps.foldl (remove app streams n) (xs.map s.data)
  | [], s, xs, held, h, _ => ⟨s, xs, rfl, .refl h, rfl⟩
  | p :: ps, s, xs, held, h, hn => by
    obtain ⟨s1, ys, h1, hd, -, heq⟩ := ih p h hn
    obtain ⟨s2, zs, h2, hd', heq'⟩ := fold_deleted ih ps hd.holds (lt_of_le_of_lt hd.sublist.length_le hn)
    rw [hd.data] at heq'
    refine ⟨s2, zs, ?_, hd.trans hd', ?_⟩
    · rw [List.foldlM_cons, h1]
      exact h2
    · rw [List.foldl_cons, ← heq, heq']

theorem find_map (data : Nat → PrefixCtx κ) (p : Nat) (xs : List Nat) :
    (xs.map data).find? (·.streamPrefix = p) = (xs.find? fun x => (data x).streamPrefix = p).map data := by
  rw [List.find?_map]
  rfl

/-- Deleting a prefix ends, whatever its owner deletes in turn, and nothing is left with the prefix. -/
theorem delete_deleted : ∀ (n : Nat) {s : State κ} {xs held : List Nat} (p : Nat), Holds s xs held → xs.length < n →
    ∃ s' ys, deleteStreamPrefix app streams n s p = some s' ∧ Deleted streams s xs held s' ys ∧
      (∀ y ∈ ys, (s.data y).streamPrefix ≠ p) ∧ ys.map s.data = remove app streams n (xs.map s.data) p
  | 0, _, _, _, _, _, hn => by simp at hn
  | n + 1, s, xs, held, p, h, hn => by
    rw [deleteStreamPrefix, h.find p, Option.bind_some, remove, find_map]
    cases hx : xs.find? fun x => (s.data x).streamPrefix = p with
    | none =>
      refine ⟨s, xs, rfl, .refl h, fun y hy => ?_, rfl⟩
      simpa using List.find?_eq_none.1 hx y hy
    | some x =>
      obtain ⟨ys, zs, rfl, hp, hother⟩ := h.found hx
      have hun : Holds (s.unlink x) (ys ++ zs) (x :: held) := h.unlink
      have hlen : (ys ++ zs).length < n := by
        simp only [List.length_append, List.length_cons] at hn ⊢
        omega
      have hmid : (ys ++ x :: zs).Perm (ys ++ zs ++ [x]) :=
        List.perm_middle.trans (List.perm_append_singleton x (ys ++ zs)).symm
      have hsub : (ys ++ zs).Sublist (ys ++ x :: zs) := List.Sublist.append_left (List.sublist_cons_self x zs) ys
      -- one cell has the prefix, so that unlinking it is filtering the list
      have hfilter : ((ys ++ x :: zs).map s.data).filter (·.streamPrefix ≠ p) = (ys ++ zs).map s.data := by
        have hall : ∀ c ∈ (ys ++ zs).map s.data, decide (c.streamPrefix ≠ p) = true := by
          intro c hc
          obtain ⟨y, hy, rfl⟩ := List.mem_map.1 hc
          exact decide_eq_true (hother y hy)
        rw [List.map_append, List.map_cons, List.filter_append, List.filter_cons_of_neg (by simp [hp]),
          ← List.filter_append, ← List.map_append, List.filter_eq_self.2 hall]
      have hcallee : callee s.data streams x = if streams p then (s.data x).functionCall else none := by
        unfold callee
        rw [hp]
      rw [Option.map_some, hfilter]
      cases hc : callee s.data streams x with
      | none =>
        rw [hc] at hcallee
        refine ⟨(s.unlink x).freed x, ys ++ zs, by simp only [hc, Option.map_some],
          ⟨hun.freed, hsub, rfl, rfl, [.free x], [x], rfl, .silent hc, hmid⟩, hother, by simp only [← hcallee]⟩
      | some call =>
        rw [hc] at hcallee
        -- the owner deletes among fewer cells: the induction
        obtain ⟨s1, ws, h1, hd, heq⟩ := fold_deleted (fun p h hn => delete_deleted n p h hn) (app call p)
          (hun.note (.deregister x p call)) hlen
        obtain ⟨es, gone, hlog, hrel, hperm⟩ := hd.released
        refine ⟨s1.freed x, ws, by simp only [hc, h1, Option.map_some], ⟨hd.holds.freed, hd.sublist.trans hsub,
          hd.data, hd.allocated, _, _, ?_, .calling hc hrel, ?_⟩, fun y hy => hother y (hd.sublist.subset hy),
          by simp only [← hcallee]; exact heq⟩
        · show s1.log ++ [.free x] = s.log ++ (.deregister x (s.data x).streamPrefix call :: (es ++ [.free x]))
          rw [hlog, hp]
          simp [State.note, State.unlink]
        · rw [← List.append_assoc]
          exact hmid.trans (hperm.append_right [x])

/-- Deleting all ends with no prefix left. -/
theorem deleteAll_deleted : ∀ (n : Nat) {s : State κ} {xs : List Nat}, Holds s xs [] → xs.length ≤ n →
    ∃ s', deleteAllStreamPrefixes app streams n s = some s' ∧ Deleted streams s xs [] s' []
  | n, s, [], h, _ => by
    have hfirst : s.links.first = none := h.list.forth.head
    refine ⟨s, ?_, .refl h⟩
    unfold deleteAllStreamPrefixes
    rw [hfirst]
  | 0, s, x :: xs, _, hn => by simp at hn
  | n + 1, s, x :: xs, h, hn => by
    have hfirst : s.links.first = some x := h.list.forth.head
    obtain ⟨s1, ys, h1, hd, hother, -⟩ := @delete_deleted κ app streams (s.live.length + 1) s (x :: xs) []
      (s.data x).streamPrefix h (Nat.lt_succ_of_le h.length_le)
    have hys : ys.Sublist xs := by
      refine (List.sublist_cons_iff.1 hd.sublist).resolve_right ?_
      rintro ⟨zs, rfl, -⟩
      exact hother x List.mem_cons_self rfl
    have hlen : ys.length ≤ n := hys.length_le.trans (Nat.le_of_succ_le_succ hn)
    obtain ⟨s2, h2, hd'⟩ := deleteAll_deleted n hd.holds hlen
    refine ⟨s2, ?_, hd.trans hd'⟩
    unfold deleteAllStreamPrefixes
    rw [hfirst]
    simp only [h1, Option.bind_some, h2]

end Delete

end Calls

/-! ## The abstract registry -/

section Remove

variable {app : κ → Nat → List Nat} {streams : Nat → Bool}

theorem remove_sublist : ∀ (n : Nat) (cs : List (PrefixCtx κ)) (p : Nat), (remove app streams n cs p).Sublist cs
  | 0, cs, _ => List.Sublist.refl cs
  | n + 1, cs, p => by
    have hfold : ∀ (ps : List Nat) (ds : List (PrefixCtx κ)), (ps.foldl (remove app streams n) ds).Sublist ds := by
      intro ps
      induction ps with
      | nil => exact fun ds => List.Sublist.refl ds
      | cons q ps ih => exact fun ds => (ih _).trans (remove_sublist n ds q)
    unfold remove
    cases cs.find? (·.streamPrefix = p) with
    | none => exact List.Sublist.refl cs
    | some c =>
      simp only
      cases if streams p then c.functionCall else none with
      | none => exact List.filter_sublist
      | some call => exact (hfold _ _).trans List.filter_sublist

/-- A prefix that is found is one less in the list without it. -/
theorem filter_length_lt {cs : List (PrefixCtx κ)} {p : Nat} {c : PrefixCtx κ}
    (h : cs.find? (·.streamPrefix = p) = some c) : (cs.filter (·.streamPrefix ≠ p)).length < cs.length := by
  refine List.length_filter_lt_length_iff_exists.2 ⟨c, List.mem_of_find?_eq_some h, ?_⟩
  have hp : c.streamPrefix = p := by simpa using List.find?_some h
  simp [hp]

/-- How deep the calls may go does not matter, as long as there is room for every prefix. -/
theorem remove_depth : ∀ (n m : Nat) (cs : List (PrefixCtx κ)) (p : Nat), cs.length < n → cs.length < m →
    remove app streams n cs p = remove app streams m cs p
  | 0, _, _, _, hn, _ => by simp at hn
  | _ + 1, 0, _, _, _, hm => by simp at hm
  | n + 1, m + 1, cs, p, hn, hm => by
    have hfold : ∀ (ps : List Nat) (ds : List (PrefixCtx κ)), ds.length < n → ds.length < m →
        ps.foldl (remove app streams n) ds = ps.foldl (remove app streams m) ds := by
      intro ps
      induction ps with
      | nil => exact fun ds _ _ => rfl
      | cons q ps ih =>
        intro ds h1 h2
        rw [List.foldl_cons, List.foldl_cons, ← remove_depth n m ds q h1 h2]
        have hle : (remove app streams n ds q).length ≤ ds.length := (remove_sublist n ds q).length_le
        exact ih _ (lt_of_le_of_lt hle h1) (lt_of_le_of_lt hle h2)
    rw [remove, remove]
    cases hc : cs.find? (·.streamPrefix = p) with
    | none => rfl
    | some c =>
      have hlt := filter_length_lt hc
      simp only
      cases if streams p then c.functionCall else none with
      | none => rfl
      | some call =>
        exact hfold _ _ (lt_of_lt_of_le hlt (Nat.le_of_lt_succ hn)) (lt_of_lt_of_le hlt (Nat.le_of_lt_succ hm))

end Remove

/-! ## Runs -/

/-- The registry as the calls so far leave it: the list is `xs`, in use are its cells and no other, and each cell that
was ever allocated is in use or was freed. -/
structure Kept (s : State κ) (xs : List Nat) : Prop where
  holds : Holds s xs []
  cells : s.allocated.Perm (s.live ++ freed s.log)

section Runs

variable {app : κ → Nat → List Nat} {s s' : State κ} {xs : List Nat}

theorem init_kept (next previous : Nat → Option Nat) (data : Nat → PrefixCtx κ) :
    Kept (.init next previous data) [] :=
  ⟨⟨empty_isList next previous, .nil, List.nodup_nil, List.nodup_nil⟩, .nil⟩

theorem Kept.live (h : Kept s xs) : s.live.Perm xs := by
  have hl := h.holds.live
  rwa [List.append_nil] at hl

/-- Deleting keeps the account of the cells. -/
theorem Deleted.kept {streams : Nat → Bool} {ys : List Nat} (h : Kept s xs) (hd : Deleted streams s xs [] s' ys) :
    Kept s' ys := by
  obtain ⟨es, gone, hlog, hrel, hperm⟩ := hd.released
  refine ⟨hd.holds, ?_⟩
  have hlive : s'.live.Perm ys := by
    have hl := hd.holds.live
    rwa [List.append_nil] at hl
  rw [hd.allocated, hlog, freed_append, hrel.freed]
  refine h.cells.trans (((h.live.trans hperm).append_right _).trans ?_)
  rw [List.append_assoc]
  exact (hlive.symm.append List.perm_append_comm)

/-- The cell of a prefix that is declared anew goes to the end. -/
theorem add_kept (h : Kept s xs) {cell : Nat} {c : PrefixCtx κ} (hcell : cell ∉ s.live)
    (hnew : ∀ x ∈ xs, (s.data x).streamPrefix ≠ c.streamPrefix) :
    Kept (s.add cell c) (xs ++ [cell]) ∧ (xs ++ [cell]).map (s.add cell c).data = xs.map s.data ++ [c] := by
  have hxs : cell ∉ xs := fun hx => hcell (h.live.symm.subset hx)
  have hdata : xs.map (s.add cell c).data = xs.map s.data := by
    refine List.map_congr_left fun x hx => Function.update_of_ne ?_ _ _
    rintro rfl
    exact hxs hx
  have hself : (s.add cell c).data cell = c := Function.update_self _ _ _
  have hlist := push_isList h.holds.list hxs
  refine ⟨⟨⟨hlist, ?_, ?_, ?_⟩, ?_⟩, ?_⟩
  · rw [List.append_nil]
    exact h.live.append_right _
  · rw [List.append_nil]
    exact hlist.nodup
  · -- the new prefix is none of those declared
    have hold : xs.map (fun x => ((s.add cell c).data x).streamPrefix) = xs.map fun x => (s.data x).streamPrefix := by
      refine List.map_congr_left fun x hx => congrArg PrefixCtx.streamPrefix (Function.update_of_ne ?_ _ _)
      rintro rfl
      exact hxs hx
    rw [List.map_append, hold, List.nodup_append]
    refine ⟨h.holds.prefixes, List.nodup_singleton _, fun p hp q hq => ?_⟩
    obtain ⟨x, hx, rfl⟩ := List.mem_map.1 hp
    rw [List.mem_singleton.1 hq]
    show (s.data x).streamPrefix ≠ ((s.add cell c).data cell).streamPrefix
    rw [hself]
    exact hnew x hx
  · show (s.allocated ++ [cell]).Perm ((s.live ++ [cell]) ++ freed s.log)
    rw [List.append_assoc]
    refine (h.cells.append_right [cell]).trans ?_
    rw [List.append_assoc]
    exact List.Perm.append_left _ List.perm_append_comm
  · rw [List.map_append, hdata, List.map_singleton, hself]

/-- Marking a prefix leaves the links alone. -/
theorem ready_kept (h : Kept s xs) {cell : Nat} :
    Kept { s with data := Function.update s.data cell { s.data cell with readyToSendDatagrams := true } } xs := by
  have hpre : ∀ x, (Function.update s.data cell { s.data cell with readyToSendDatagrams := true } x).streamPrefix =
      (s.data x).streamPrefix := by
    intro x
    by_cases hx : x = cell
    · subst hx
      rw [Function.update_self]
    · rw [Function.update_of_ne hx]
  refine ⟨⟨h.holds.list, h.holds.live, h.holds.nodup, ?_⟩, h.cells⟩
  simp only [hpre]
  exact h.holds.prefixes

/-- A call that is made returns, on the links as on the list. -/
theorem step_kept (h : Kept s xs) (op : Op κ)
    (hm : ∀ p call cell, op = .declare p call (some cell) → cell ∉ s.live) :
    ∃ s' ys, step app s op = some s' ∧ Kept s' ys ∧ ys.map s'.data = abstractStep app (xs.map s.data) op := by
  cases op with
  | declare p call malloc =>
    have hfree : ∀ cell ∈ malloc, cell ∉ s.live := fun cell hcell => hm p call cell (by rw [hcell])
    have hex : (∃ c ∈ xs.map s.data, c.streamPrefix = p) ↔ ∃ x ∈ xs, (s.data x).streamPrefix = p := by simp
    simp only [step, abstractStep, hex]
    rw [if_pos hfree]
    unfold declareStreamPrefix
    rw [h.holds.find p]
    cases hx : xs.find? fun x => (s.data x).streamPrefix = p with
    | some x =>
      have hmem : ∃ x ∈ xs, (s.data x).streamPrefix = p :=
        ⟨x, List.mem_of_find?_eq_some hx, by simpa using List.find?_some hx⟩
      rw [if_pos (.inr hmem)]
      exact ⟨s, xs, rfl, h, rfl⟩
    | none =>
      have hnew : ∀ x ∈ xs, (s.data x).streamPrefix ≠ p := fun x hmem => by simpa using List.find?_eq_none.1 hx x hmem
      cases malloc with
      | none => exact ⟨s, xs, rfl, h, by rw [if_pos (.inl rfl)]⟩
      | some cell =>
        -- a new cell goes to the end of the list
        obtain ⟨hk, hdata⟩ := add_kept h (c := ⟨p, false, call⟩) (hfree cell rfl) hnew
        refine ⟨_, _, rfl, hk, hdata.trans ?_⟩
        rw [if_neg]
        rintro (hno | ⟨x, hmem, hp⟩)
        · cases hno
        · exact hnew x hmem hp
  | setReady streamId =>
    simp only [step, abstractStep]
    unfold setDatagramReady
    rw [h.holds.find streamId]
    cases hx : xs.find? fun x => (s.data x).streamPrefix = streamId with
    | none =>
      refine ⟨s, xs, rfl, h, ?_⟩
      rw [List.map_map]
      refine List.map_congr_left fun x hmem => ?_
      exact (if_neg (by simpa using List.find?_eq_none.1 hx x hmem)).symm
    | some cell =>
      obtain ⟨ys, zs, rfl, hp, hother⟩ := h.holds.found hx
      refine ⟨_, _, rfl, ready_kept h, ?_⟩
      rw [List.map_map]
      refine List.map_congr_left fun x hmem => ?_
      show Function.update s.data cell { s.data cell with readyToSendDatagrams := true } x =
        if (s.data x).streamPrefix = streamId then { s.data x with readyToSendDatagrams := true } else s.data x
      -- one cell has the prefix, and it alone changes
      by_cases hxc : x = cell
      · subst hxc
        rw [Function.update_self, if_pos hp]
      · have hx' : x ∈ ys ++ zs := by
          rcases List.mem_append.1 hmem with hmem | hmem
          · exact List.mem_append_left _ hmem
          · exact List.mem_append_right _ ((List.mem_cons.1 hmem).resolve_left hxc)
        rw [Function.update_of_ne hxc, if_neg (hother x hx')]
  | delete streams p =>
    obtain ⟨s', ys, h1, hd, -, heq⟩ := @delete_deleted κ app streams (s.live.length + 1) s xs [] p h.holds
      (Nat.lt_succ_of_le h.holds.length_le)
    refine ⟨s', ys, h1, hd.kept h, ?_⟩
    rw [hd.data, heq]
    -- the links and the list are given different depths of recursion, both enough
    refine remove_depth _ _ _ _ ?_ (Nat.lt_succ_self _)
    rw [List.length_map]
    exact Nat.lt_succ_of_le h.holds.length_le
  | deleteAll streams =>
    obtain ⟨s', h1, hd⟩ := @deleteAll_deleted κ app streams s.live.length s xs h.holds h.holds.length_le
    exact ⟨s', [], h1, hd.kept h, rfl⟩

/-- `malloc` returned no cell in use. -/
theorem step_fresh {op : Op κ} (h : step app s op = some s') :
    ∀ p call cell, op = .declare p call (some cell) → cell ∉ s.live := by
  rintro p call cell rfl
  simp only [step] at h
  split at h
  · rename_i hfree
    exact hfree cell rfl
  · cases h

/-- In every run of calls, whatever cells `malloc` returns and whatever the owners delete in turn, the links are the
list of the prefixes, which the calls change as they say. -/
theorem run_refines : ∀ (es : List (Op κ)) {s s' : State κ} {xs : List Nat}, Kept s xs →
    Lts.run (step app) s es = some s' →
      ∃ ys, Kept s' ys ∧ ys.map s'.data = es.foldl (abstractStep app) (xs.map s.data)
  | [], s, s', xs, hk, h => by
    cases h
    exact ⟨xs, hk, rfl⟩
  | e :: es, s, s', xs, hk, h => by
    obtain ⟨s1, h1, h2⟩ := Lts.run_cons_some h
    obtain ⟨t, ys, ht, hk1, hdata⟩ := step_kept hk e (step_fresh h1)
    cases h1.symm.trans ht
    obtain ⟨zs, hk2, hdata2⟩ := run_refines es hk1 h2
    exact ⟨zs, hk2, by rw [hdata2, hdata, List.foldl_cons]⟩

end Runs

/-- In every run of calls, whatever cells `malloc` returns and whatever the owners delete in turn, the prefixes that are
found are those of the list of declared prefixes, and a call that follows returns. -/
theorem registry_refines (app : κ → Nat → List Nat) (next previous : Nat → Option Nat) (data : Nat → PrefixCtx κ)
    {es : List (Op κ)} {s : State κ} (h : Lts.run (step app) (.init next previous data) es = some s) :
    (∀ p, ∃ found, findStreamPrefix s p = some found ∧
      found.map s.data = (es.foldl (abstractStep app) []).find? (·.streamPrefix = p)) ∧
    ∀ op : Op κ, (∀ p call cell, op = .declare p call (some cell) → cell ∉ s.live) → (step app s op).isSome := by
  obtain ⟨xs, hk, hdata⟩ := run_refines es (init_kept next previous data) h
  refine ⟨fun p => ⟨_, hk.holds.find p, ?_⟩, fun op hm => ?_⟩
  · rw [← List.map_nil (f := (State.init next previous data).data), ← hdata, find_map]
  · obtain ⟨s', ys, h1, -⟩ := @step_kept κ app s xs hk op hm
    rw [h1]
    rfl

/-- The owner of prefix 0 deletes prefix 4 with it. -/
def chain (_ p : Nat) : List Nat := if p = 0 then [4] else []

/-- Two prefixes, of which the second goes with the first. -/
def chained : List (Op Nat) :=
  [.declare 0 (some 7) (some 16), .declare 4 (some 7) (some 32), .declare 8 none (some 48), .declare 4 none (some 64),
    .delete (fun _ => true) 0]

theorem chained_refines :
    (Lts.run (step chain) (.init (fun _ => none) (fun _ => none) fun _ => ⟨0, false, none⟩) chained).map (·.log) =
        some [.deregister 16 0 7, .deregister 32 4 7, .free 32, .free 16] ∧
      ∀ s, Lts.run (step chain) (.init (fun _ => none) (fun _ => none) fun _ => ⟨0, false, none⟩) chained = some s →
        (∀ p, ∃ found, findStreamPrefix s p = some found ∧
          found.map s.data = (chained.foldl (abstractStep chain) []).find? (·.streamPrefix = p)) ∧
        ∀ op : Op Nat, (∀ p call cell, op = .declare p call (some cell) → cell ∉ s.live) →
          (step chain s op).isSome :=
  ⟨by decide, fun _ h => registry_refines chain _ _ _ h⟩

/-- What deleting all prefixes in state `s` comes to: no prefix is left, every cell that was ever allocated was freed,
and as often as it was allocated; `log` is what is done now, cell by cell, each freed once, and behind one call of its
owner if that is declared and its control stream is there. -/
structure Emptied (app : κ → Nat → List Nat) (streams : Nat → Bool) (s s' : State κ) (log : List (Event κ)) : Prop where
  returns : step app s (.deleteAll streams) = some s'
  empty : s'.links.first = none ∧ s'.links.last = none ∧ s'.live = []
  cells : s'.allocated.Perm (freed s'.log)
  logged : s'.log = s.log ++ log
  freed : (freed log).Perm s.live
  called : (called log).Perm (s.live.filterMap fun x => (callee s.data streams x).map (x, ·))
  before : ∀ x call pre post, callee s.data streams x = some call → log = pre ++ .free x :: post →
    .deregister x (s.data x).streamPrefix call ∈ pre

/-- After every run of calls, whatever the owners delete in turn. -/
theorem deleteAll_releases (app : κ → Nat → List Nat) (next previous : Nat → Option Nat) (data : Nat → PrefixCtx κ)
    {es : List (Op κ)} {s : State κ} (h : Lts.run (step app) (.init next previous data) es = some s)
    (streams : Nat → Bool) : ∃ s' log, Emptied app streams s s' log := by
  obtain ⟨xs, hk, -⟩ := run_refines es (init_kept next previous data) h
  obtain ⟨s', h1, hd⟩ := @deleteAll_deleted κ app streams s.live.length s xs hk.holds hk.holds.length_le
  have hk' := hd.kept hk
  obtain ⟨log, gone, hlog, hrel, hperm⟩ := hd.released
  have hgone : gone.Perm s.live := (hk.live.trans hperm).symm
  have hlive : s'.live = [] := List.perm_nil.1 hk'.live
  have hcells := hk'.cells
  rw [hlive] at hcells
  refine ⟨s', log, h1, ⟨hk'.holds.list.forth.head, hk'.holds.list.back.head, hlive⟩, hcells, hlog, ?_, ?_, ?_⟩
  · rw [hrel.freed]
    exact hgone
  · exact hrel.called.trans (hgone.filterMap _)
  · intro x call pre post hc heq
    exact hrel.before hc pre post heq

/-- The two prefixes are deleted one inside the other. -/
theorem chained_releases :
    ((Lts.run (step chain) (.init (fun _ => none) (fun _ => none) fun _ => ⟨0, false, none⟩)
      (chained.take 3)).bind fun s => (step chain s (.deleteAll fun _ => true)).map (·.log)) =
        some [.deregister 16 0 7, .deregister 32 4 7, .free 32, .free 16, .free 48] ∧
      ∀ s, Lts.run (step chain) (.init (fun _ => none) (fun _ => none) fun _ => ⟨0, false, none⟩)
        (chained.take 3) = some s → ∃ s' log, Emptied chain (fun _ => true) s s' log :=
  ⟨by decide, fun _ h => deleteAll_releases chain _ _ _ h _⟩

end Mquic.H3.Registry
