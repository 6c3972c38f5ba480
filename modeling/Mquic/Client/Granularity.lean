/-
How the bytes of one stream are cut into events matters to `client_cb`: two deliveries agree for every cut, and
for every share the FIN event has of them, just when the callback is between frames and no place in the bytes
reads as a length. Deliveries that cut no length and leave nothing to the FIN event agree with a single event.
-/
import Mquic.Client.Delivery

namespace Mquic.ClientMain

open Framing

/-! ## What is compared -/

/-- The states reached without a close event, with `max_frames` 0. -/
def Unclosed (env : Env) (outDir : String) (s : State) : Prop :=
  ∃ es, (∀ e ∈ es, e ≠ .close ∧ e ≠ .applicationClose) ∧ events env (State.init 0 outDir) es = some s

theorem Unclosed.init (env : Env) (outDir : String) : Unclosed env outDir (State.init 0 outDir) := ⟨[], by simp, rfl⟩

/-- `frame_size`, `received_size`, and the bytes received of the frame. -/
def State.progress (s : State) : Nat × Nat × List UInt8 :=
  (s.app.frameSize, s.app.receivedSize, ((s.app.frameBuffer.map (·.data)).getD []).take s.app.receivedSize)

/-- Whatever the delivery of `bs` on stream `sid`, the callback ends with the same frames and the same progress. -/
def SameHowever (env : Env) (s : State) (sid : Nat) (bs : List UInt8) : Prop :=
  ∀ d e : Delivery bs, ∃ s1 s2, events env s (d.events sid) = some s1 ∧ events env s (e.events sid) = some s2 ∧
    s1.frames = s2.frames ∧ s1.progress = s2.progress

/-- No suffix of `bs` begins with a complete varint other than 0. -/
def Mute (bs : List UInt8) : Prop := ∀ q n c, q <:+ bs → Varint.decode q = some (n, c) → n = 0

/-! ## Between frames nothing is received -/

/-- `received_size` is 0 between frames. -/
def Rested (s : State) : Prop := s.app.frameSize = 0 → s.app.receivedSize = 0

section Rested

variable {env : Env} {sid : Nat} {s : State}

/-- The state a round ends in. -/
def Round.state : Round → State
  | .brk s => s
  | .next s _ => s

theorem startFrame_rested (s : State) : Rested (startFrame env s) := by
  intro _
  unfold startFrame
  simp only
  split
  · split
    · rfl
    · rfl
  · rfl

theorem copyPayload_rested (h : Rested s) (p : List UInt8) : Rested (copyPayload env sid s p).state := by
  unfold copyPayload
  cases s.app.frameBuffer with
  | none => exact h
  | some fb =>
    by_cases hpos : 0 < s.app.frameSize
    · simp only [if_pos hpos]
      generalize (if s.app.receivedSize + p.length > s.app.frameSize then _ else _) = toCopy
      split
      · exact fun _ => rfl
      · intro h0
        have : s.app.frameSize = 0 := h0
        omega
    · simp only [if_neg hpos]
      exact h

theorem round_rested (h : Rested s) (p : List UInt8) : Rested (round env sid s p).state := by
  unfold round
  by_cases h0 : s.app.frameSize = 0
  · simp only [if_pos h0]
    split
    · exact fun _ => h h0
    · exact copyPayload_rested (startFrame_rested _) _
  · rw [if_neg h0]
    exact copyPayload_rested h p

theorem loop_rested : ∀ (fuel : Nat) (s : State) (p : List UInt8) {s' : State}, Rested s →
    loop env sid fuel s p = some s' → Rested s'
  | 0, s, [], _, h, he => by cases he; exact h
  | _ + 1, s, [], _, h, he => by cases he; exact h
  | fuel + 1, s, b :: p, s', h, he => by
    have hr : Rested (round env sid s (b :: p)).state := round_rested h (b :: p)
    rw [loop] at he
    cases hround : round env sid s (b :: p) with
    | brk s1 =>
      rw [hround] at he hr
      cases he
      exact hr
    | next s1 p1 =>
      rw [hround] at he hr
      exact loop_rested fuel s1 p1 hr he

theorem clientCb_rested (h : Rested s) {e : Event} {s' : State} (he : clientCb env s e = some s') : Rested s' := by
  cases e with
  | streamData sid bytes => exact loop_rested _ s bytes h he
  | streamFin sid bytes => cases he; exact h
  | close => cases he; exact h
  | applicationClose => cases he; exact h
  | other => cases he; exact h

end Rested

/-! ## The states before the bytes -/

/-- The callback holds the open record `cur`, and nothing between frames. -/
structure Resting (s : State) (cur : Option (Nat × List UInt8)) : Prop where
  holds : Holds s.app cur
  isOpen : Rx.Open (⟨cur, []⟩ : Rx UInt8)
  rested : Rested s

/-- Every state reached without a close event is at some place of a frame. -/
theorem Unclosed.resting {env : Env} (hd : env.Rfc9000) (hm : ∀ i, env.malloc i = true) {outDir : String} {s : State}
    (h : Unclosed env outDir s) : ∃ cur, Resting s cur := by
  obtain ⟨es, hes, hrun⟩ := h
  have hinit : ∃ cur, Resting (State.init 0 outDir) cur :=
    ⟨none, (init_stands 0 0 outDir).holds, Rx.empty_open, fun _ => rfl⟩
  refine Lts.inv_run (I := fun s => ∃ cur, Resting s cur) ?_ es _ s hinit (Lts.meets_forall es _ hes) hrun
  rintro s e s' ⟨cur, hr⟩ hc he
  have hrest := clientCb_rested hr.rested he
  cases e with
  | streamData sid bytes =>
    have hs : Stands sid s.frames s ⟨cur, []⟩ := ⟨hr.holds, by simp⟩
    obtain ⟨s1, h1, hs1⟩ := clientCb_feed hd hm hr.isOpen bytes hs
    rw [he] at h1
    cases h1
    exact ⟨_, hs1.holds, feed_open _ bytes hr.isOpen, hrest⟩
  | streamFin sid bytes =>
    cases he
    exact ⟨cur, hr⟩
  | close => exact absurd rfl hc.1
  | applicationClose => exact absurd rfl hc.2
  | other =>
    cases he
    exact ⟨cur, hr⟩

/-- The progress that goes with an open record. -/
def progressOf : Option (Nat × List UInt8) → Nat × Nat × List UInt8
  | none => (0, 0, [])
  | some (n, acc) => (n, acc.length, acc)

theorem Resting.progress {s : State} {cur : Option (Nat × List UInt8)} (h : Resting s cur) :
    s.progress = progressOf cur := by
  cases cur with
  | none =>
    have h0 := h.holds.idle rfl
    have hr := h.rested h0
    simp [State.progress, progressOf, h0, hr]
  | some c =>
    obtain ⟨n, acc⟩ := c
    obtain ⟨hn, hr, -, fb, hfb, htake⟩ := h.holds.isOpen n acc rfl
    simp [State.progress, progressOf, hn, hr, hfb, htake]

theorem progressOf_inj {r r' : Rx UInt8} (h : r.Open) (h' : r'.Open) (heq : progressOf r.cur = progressOf r'.cur) :
    r.cur = r'.cur := by
  cases hc : r.cur with
  | none =>
    cases hc' : r'.cur with
    | none => rfl
    | some c' =>
      have hlt := h' c'.1 c'.2 hc'
      rw [hc, hc'] at heq
      have hn : (0 : Nat) = c'.1 := (Prod.ext_iff.1 heq).1
      omega
  | some c =>
    have hlt := h c.1 c.2 hc
    cases hc' : r'.cur with
    | none =>
      rw [hc, hc'] at heq
      have hn : c.1 = 0 := (Prod.ext_iff.1 heq).1
      omega
    | some c' =>
      rw [hc, hc'] at heq
      have hn : c.1 = c'.1 := (Prod.ext_iff.1 heq).1
      have hacc : c.2 = c'.2 := (Prod.ext_iff.1 (Prod.ext_iff.1 heq).2).2
      rw [Prod.ext hn hacc]

/-- A delivery takes the callback where it takes the receiver. -/
theorem Resting.deliver {env : Env} (hd : env.Rfc9000) (hm : ∀ i, env.malloc i = true) {s : State}
    {cur : Option (Nat × List UInt8)} (h : Resting s cur) (sid : Nat) {bs : List UInt8} (d : Delivery bs) :
    ∃ s', events env s (d.events sid) = some s' ∧ Resting s' (d.data.foldl feed ⟨cur, []⟩).cur ∧
      s'.frames = s.frames ++ (d.data.foldl feed ⟨cur, []⟩).out.map (sid, ·) := by
  have hs : Stands sid s.frames s ⟨cur, []⟩ := ⟨h.holds, by simp⟩
  obtain ⟨s', h1, hs'⟩ := events_feed hd hm d.data s _ h.isOpen hs
  have hrun : events env s (d.events sid) = some s' := by
    unfold events Delivery.events at *
    rw [Lts.run_append, h1]
    cases d.fin <;> rfl
  have hrest : Rested s' := Lts.inv_run (C := fun _ _ => True) (fun _ _ _ hi _ he => clientCb_rested hi he) _ s s'
    h.rested (Lts.meets_true _ s) hrun
  exact ⟨s', hrun, ⟨hs'.holds, foldl_feed_open d.data _ h.isOpen, hrest⟩, hs'.frames⟩

theorem Resting.sameHowever {env : Env} (hd : env.Rfc9000) (hm : ∀ i, env.malloc i = true) {s : State}
    {cur : Option (Nat × List UInt8)} (h : Resting s cur) (sid : Nat) (bs : List UInt8) :
    SameHowever env s sid bs ↔
      ∀ d e : Delivery bs, d.data.foldl feed ⟨cur, []⟩ = e.data.foldl feed ⟨cur, []⟩ := by
  have hinj : Function.Injective (List.map (fun f : List UInt8 => (sid, f))) :=
    List.map_injective_iff.2 fun f g h => congrArg Prod.snd h
  constructor
  · intro hsame d e
    obtain ⟨s1, s2, h1, h2, hf, hp⟩ := hsame d e
    obtain ⟨t1, ht1, hr1, hf1⟩ := h.deliver hd hm sid d
    obtain ⟨t2, ht2, hr2, hf2⟩ := h.deliver hd hm sid e
    rw [h1] at ht1
    rw [h2] at ht2
    cases ht1
    cases ht2
    rw [hr1.progress, hr2.progress] at hp
    have hcur := progressOf_inj (foldl_feed_open d.data _ h.isOpen) (foldl_feed_open e.data _ h.isOpen) hp
    rw [hf1, hf2] at hf
    exact congrArg₂ Rx.mk hcur (hinj (List.append_cancel_left hf))
  · intro hsame d e
    obtain ⟨s1, h1, hr1, hf1⟩ := h.deliver hd hm sid d
    obtain ⟨s2, h2, hr2, hf2⟩ := h.deliver hd hm sid e
    rw [hsame d e] at hr1 hf1
    exact ⟨s1, s2, h1, h2, hf1.trans hf2.symm, hr1.progress.trans hr2.progress.symm⟩

/-! ## Mute bytes -/

theorem Mute.suffix {bs q : List UInt8} (h : Mute bs) (hq : q <:+ bs) : Mute q :=
  fun _ n c hx hd => h _ n c (hx.trans hq) hd

/-- In mute bytes a receiver between frames stays there. -/
theorem Mute.feed_idle {bs : List UInt8} (h : Mute bs) (out : List (List UInt8)) : ∀ (k : Nat) (p q : List UInt8),
    p.length ≤ k → p ++ q <:+ bs → feed ⟨none, out⟩ p = ⟨none, out⟩
  | 0, p, _, hk, _ => by
    rw [List.length_eq_zero_iff.1 (Nat.le_zero.1 hk)]
    exact feed_idle_none rfl
  | k + 1, p, q, hk, hs => by
    cases hd : Varint.decode p with
    | none => exact feed_idle_none hd
    | some r =>
      obtain ⟨n, c⟩ := r
      obtain ⟨hc, hle⟩ := Varint.decode_bounds hd
      have hn : n = 0 := h _ n c hs (Varint.decode_append hd q)
      have hrest : p.drop c ++ q <:+ bs := by
        rw [← List.drop_append_of_le_length hle]
        exact (List.drop_suffix c _).trans hs
      rw [feed_idle_some hd, if_pos hn]
      exact h.feed_idle out k (p.drop c) q (by rw [List.length_drop]; omega) hrest

theorem Mute.foldl_feed {bs : List UInt8} (h : Mute bs) (out : List (List UInt8)) : ∀ (ds : List (List UInt8))
    (q : List UInt8), ds.flatten ++ q <:+ bs → ds.foldl feed ⟨none, out⟩ = ⟨none, out⟩
  | [], _, _ => rfl
  | p :: ds, q, hs => by
    rw [List.flatten_cons, List.append_assoc] at hs
    rw [List.foldl_cons, h.feed_idle out p.length p _ le_rfl hs]
    exact h.foldl_feed out ds q ((List.suffix_append p _).trans hs)

/-- Bytes in an open frame show. -/
theorem feed_open_ne {n : Nat} {acc p : List UInt8} (hp : p ≠ []) :
    feed ⟨some (n, acc), []⟩ p ≠ ⟨some (n, acc), []⟩ := by
  intro heq
  by_cases hlt : acc.length + p.length < n
  · rw [feed_open_lt hlt] at heq
    have hacc : acc ++ p = acc := by simpa using congrArg Rx.cur heq
    exact hp (List.append_right_eq_self.1 hacc)
  · have hout := feed_out_prefix ⟨none, [] ++ [acc ++ p.take (n - acc.length)]⟩ (p.drop (n - acc.length))
    rw [feed_open_ge (by omega)] at heq
    rw [heq] at hout
    simp at hout

/-- So does a length other than 0. -/
theorem feed_len_ne {p : List UInt8} {n c : Nat} (hd : Varint.decode p = some (n, c)) (hn : n ≠ 0) :
    feed ⟨none, []⟩ p ≠ ⟨none, []⟩ := by
  intro heq
  rw [feed_idle_some hd, if_neg hn] at heq
  by_cases hlt : ([] : List UInt8).length + (p.drop c).length < n
  · rw [feed_open_lt hlt] at heq
    cases congrArg Rx.cur heq
  · have hout := feed_out_prefix ⟨none, [] ++ [[] ++ (p.drop c).take (n - ([] : List UInt8).length)]⟩
      ((p.drop c).drop (n - ([] : List UInt8).length))
    rw [feed_open_ge (by omega)] at heq
    rw [heq] at hout
    simp at hout

/-- Bytes that no delivery shows are mute. -/
theorem mute_of_unseen : ∀ (bs : List UInt8), (∀ ds : List (List UInt8), (∀ p ∈ ds, p ≠ []) → ds.flatten = bs →
    ds.foldl feed ⟨none, []⟩ = ⟨none, []⟩) → Mute bs
  | [], _ => by
    intro q n c hq hd
    rw [List.suffix_nil.1 hq] at hd
    cases hd
  | b :: bs, h => by
    have hwhole : ∀ n c, Varint.decode (b :: bs) = some (n, c) → n = 0 := by
      intro n c hd
      by_contra hn
      exact feed_len_ne hd hn (h [b :: bs] (by simp) (by simp))
    have hfirst : feed ⟨none, []⟩ [b] = ⟨none, []⟩ := by
      cases hd : Varint.decode [b] with
      | none => exact feed_idle_none hd
      | some r =>
        have hn := hwhole r.1 r.2 (Varint.decode_append hd bs)
        obtain ⟨hc, -⟩ := Varint.decode_bounds hd
        rw [feed_idle_some hd, if_pos hn, List.drop_eq_nil_of_le (show [b].length ≤ r.2 from hc)]
        exact feed_idle_none rfl
    -- behind a first event of one byte any delivery of the rest is as unseen
    have hrest : Mute bs := mute_of_unseen bs fun ds hne hfl => by
      have := h ([b] :: ds) (by simpa using hne) (by simp [hfl])
      rwa [List.foldl_cons, hfirst] at this
    intro q n c hq hd
    rcases List.suffix_cons_iff.1 hq with rfl | hq
    · exact hwhole n c hd
    · exact hrest q n c hq hd

/-! ## Events that cut no length -/

/-- The bytes `p`, received from `r`, end inside no length. -/
inductive Whole : Rx UInt8 → List UInt8 → Prop where
  | idle (out : List (List UInt8)) : Whole ⟨none, out⟩ []
  | fill {n : Nat} {acc p : List UInt8} (out : List (List UInt8)) (h : acc.length + p.length < n) :
    Whole ⟨some (n, acc), out⟩ p
  | complete {n : Nat} {acc p : List UInt8} {out : List (List UInt8)} (h : n ≤ acc.length + p.length)
    (hw : Whole ⟨none, out ++ [acc ++ p.take (n - acc.length)]⟩ (p.drop (n - acc.length))) :
    Whole ⟨some (n, acc), out⟩ p
  | length {p : List UInt8} {out : List (List UInt8)} {n c : Nat} (h : Varint.decode p = some (n, c))
    (hw : Whole ⟨if n = 0 then none else some (n, []), out⟩ (p.drop c)) : Whole ⟨none, out⟩ p

/-- No event but the last ends inside a length. -/
inductive Clean : Rx UInt8 → List (List UInt8) → Prop where
  | nil (r : Rx UInt8) : Clean r []
  | last (r : Rx UInt8) (p : List UInt8) : Clean r [p]
  | step {r : Rx UInt8} {p : List UInt8} {ds : List (List UInt8)} (h : Whole r p) (hs : Clean (feed r p) ds) :
    Clean r (p :: ds)

theorem Whole.feed_append {r : Rx UInt8} {p : List UInt8} (h : Whole r p) (q : List UInt8) :
    feed r (p ++ q) = feed (feed r p) q := by
  induction h with
  | idle out => rw [feed_idle_none (p := []) rfl, List.nil_append]
  | @fill n acc p out h =>
    rw [feed_open_lt h]
    by_cases hq : acc.length + (p ++ q).length < n
    · have hq' : (acc ++ p).length + q.length < n := by simp at hq ⊢; omega
      rw [feed_open_lt hq, feed_open_lt hq', List.append_assoc]
    · have hge : n ≤ acc.length + (p ++ q).length := by omega
      have hge' : n ≤ (acc ++ p).length + q.length := by simp at hq ⊢; omega
      have hsplit : n - acc.length = p.length + (n - (acc ++ p).length) := by simp; omega
      rw [feed_open_ge hge, feed_open_ge hge', hsplit, List.drop_append, List.take_append,
        List.drop_eq_nil_of_le (Nat.le_add_right ..), List.take_of_length_le (Nat.le_add_right ..),
        Nat.add_sub_cancel_left, List.nil_append, List.append_assoc]
  | @complete n acc p out h _ ih =>
    have hge : n ≤ acc.length + (p ++ q).length := by simp; omega
    rw [feed_open_ge h, feed_open_ge hge, List.drop_append_of_le_length (by omega),
      List.take_append_of_le_length (by omega), ih]
  | length h _ ih =>
    obtain ⟨-, hc⟩ := Varint.decode_bounds h
    rw [feed_idle_some h, feed_idle_some (Varint.decode_append h q), List.drop_append_of_le_length hc, ih]

/-- Clean events are received as one. -/
theorem Clean.foldl_feed {r : Rx UInt8} {ds : List (List UInt8)} (h : Clean r ds) (ho : r.Open) :
    ds.foldl feed r = feed r ds.flatten := by
  induction h with
  | nil r => exact (feed_nil r ho).symm
  | last r p => simp
  | step h _ ih => rw [List.foldl_cons, ih (feed_open _ _ ho), List.flatten_cons, h.feed_append]

/-- Deliveries whose events cut no length, with nothing left to the FIN event, end alike. -/
theorem Resting.clean_same {env : Env} (hd : env.Rfc9000) (hm : ∀ i, env.malloc i = true) {s : State}
    {cur : Option (Nat × List UInt8)} (h : Resting s cur) (sid : Nat) {bs : List UInt8} {d e : Delivery bs}
    (hdc : Clean ⟨cur, []⟩ d.data) (hec : Clean ⟨cur, []⟩ e.data)
    (hdf : d.fin.getD [] = []) (hef : e.fin.getD [] = []) :
    ∃ s1 s2, events env s (d.events sid) = some s1 ∧ events env s (e.events sid) = some s2 ∧
      s1.frames = s2.frames ∧ s1.progress = s2.progress := by
  have hwhole : ∀ d : Delivery bs, d.fin.getD [] = [] → d.data.flatten = bs := by
    intro d hdf
    have := d.whole
    rwa [hdf, List.append_nil] at this
  obtain ⟨s1, h1, hr1, hf1⟩ := h.deliver hd hm sid d
  obtain ⟨s2, h2, hr2, hf2⟩ := h.deliver hd hm sid e
  rw [hdc.foldl_feed h.isOpen, hwhole d hdf] at hr1 hf1
  rw [hec.foldl_feed h.isOpen, hwhole e hef] at hr2 hf2
  exact ⟨s1, s2, h1, h2, hf1.trans hf2.symm, hr1.progress.trans hr2.progress.symm⟩

/-! ## The exact condition -/

/-- The callback takes the bytes alike in every delivery just when there are none, or it is between frames and
the bytes are mute: those of a FIN event, and of a length an event cuts, are not looked at. -/
theorem same_however_iff {env : Env} (hd : env.Rfc9000) (hm : ∀ i, env.malloc i = true) {outDir : String} {s : State}
    (hs : Unclosed env outDir s) (sid : Nat) (bs : List UInt8) :
    SameHowever env s sid bs ↔ bs = [] ∨ (s.app.frameSize = 0 ∧ Mute bs) := by
  obtain ⟨cur, hr⟩ := hs.resting hd hm
  rw [hr.sameHowever hd hm]
  constructor
  · intro h
    by_cases hbs : bs = []
    · exact .inl hbs
    -- all bytes may come with the FIN event
    have hunseen : ∀ ds : List (List UInt8), (∀ p ∈ ds, p ≠ []) → ds.flatten = bs →
        ds.foldl feed ⟨cur, []⟩ = ⟨cur, []⟩ :=
      fun ds hne hfl => h ⟨ds, none, hne, by simpa using hfl⟩ ⟨[], some bs, by simp, by simp⟩
    cases cur with
    | none => exact .inr ⟨hr.holds.idle rfl, mute_of_unseen bs hunseen⟩
    | some c =>
      have hsingle := hunseen [bs] (by simpa using hbs) (by simp)
      exact absurd hsingle (feed_open_ne hbs)
  · rintro (rfl | ⟨h0, hmute⟩) d e
    · have hdata : ∀ d : Delivery [], d.data = [] := by
        intro d
        have hfl : d.data.flatten = [] := (List.append_eq_nil_iff.1 d.whole).1
        rw [List.eq_nil_iff_forall_not_mem]
        intro p hp
        exact d.nonempty p hp (List.flatten_eq_nil_iff.1 hfl p hp)
      rw [hdata d, hdata e]
    · have hcur : cur = none := by
        cases cur with
        | none => rfl
        | some c =>
          obtain ⟨hn, -, hlt, -⟩ := hr.holds.isOpen c.1 c.2 rfl
          omega
      subst hcur
      have hall : ∀ d : Delivery bs, d.data.foldl feed ⟨none, []⟩ = ⟨none, []⟩ := fun d =>
        hmute.foldl_feed [] d.data (d.fin.getD []) (by rw [d.whole])
      rw [hall d, hall e]

/-- The bytes `01 FF` in the initial state: not taken alike. -/
theorem same_however_iff_frame :
    SameHowever Env.sound (State.init 0 "") 4 [0x01, 0xFF] ↔
      ([0x01, 0xFF] : List UInt8) = [] ∨ ((State.init 0 "").app.frameSize = 0 ∧ Mute [0x01, 0xFF]) :=
  same_however_iff Env.sound_rfc9000 (fun _ => rfl) (Unclosed.init Env.sound "") 4 [0x01, 0xFF]

/-- With the FIN event the bytes `01 FF` complete no frame, in a data event one. The length `40 40`, cut in two,
is forgotten. -/
theorem fin_bytes_lost :
    (events Env.sound (State.init 0 "") [.streamData 4 [0x01, 0xFF]]).map (·.frames) = some [(4, [0xFF])] ∧
      (events Env.sound (State.init 0 "") [.streamFin 4 [0x01, 0xFF]]).map (·.frames) = some [] ∧
      (events Env.sound (State.init 0 "") [.streamData 4 [0x40, 0x40]]).map (·.progress) = some (64, 0, []) ∧
      (events Env.sound (State.init 0 "") [.streamData 4 [0x40], .streamData 4 [0x40]]).map (·.progress) =
        some (0, 0, []) ∧
      ¬ ∀ s, Unclosed Env.sound "" s → ∀ sid bs, SameHowever Env.sound s sid bs := by
  have hdata : (events Env.sound (State.init 0 "") [.streamData 4 [0x01, 0xFF]]).map (·.frames) =
      some [(4, [0xFF])] := by
    decide
  have hfin : (events Env.sound (State.init 0 "") [.streamFin 4 [0x01, 0xFF]]).map (·.frames) = some [] := by decide
  refine ⟨hdata, hfin, by decide, by decide, fun h => ?_⟩
  have hsame := h (State.init 0 "") (Unclosed.init Env.sound "") 4 [0x01, 0xFF]
  obtain ⟨s1, s2, h1, h2, hf, -⟩ := hsame (Delivery.single _ (by simp)) ⟨[], some [0x01, 0xFF], by simp, by simp⟩
  have h3 : events Env.sound (State.init 0 "") [.streamData 4 [0x01, 0xFF]] = some s1 := h1
  have h4 : events Env.sound (State.init 0 "") [.streamFin 4 [0x01, 0xFF]] = some s2 := h2
  rw [h3] at hdata
  rw [h4] at hfin
  have : [(4, [0xFF])] = ([] : List (Nat × List UInt8)) := by
    rw [← Option.some.inj hdata, ← Option.some.inj hfin]
    exact hf
  cases this

end Mquic.ClientMain
