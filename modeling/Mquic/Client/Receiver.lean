/-
The reassembly `client_cb` performs, without its buffer: an abstract receiver that takes one event's
bytes at a time, and the proof that the callback refines it as long as `malloc` succeeds and no
close event frees the buffer under a frame.
-/
import Mquic.Client.Main
import Mquic.Lib.Framing

namespace Mquic.ClientMain

open Framing

/-! ## The abstract receiver -/

/-- One event's bytes: fill the open record, or read a length. A length varint the event cuts short is
lost: nothing of it is kept for the next event. -/
def feed (r : Rx UInt8) (p : List UInt8) : Rx UInt8 :=
  match r with
  | ⟨some (n, acc), out⟩ =>
    if acc.length + p.length < n then ⟨some (n, acc ++ p), out⟩
    else feed ⟨none, out ++ [acc ++ p.take (n - acc.length)]⟩ (p.drop (n - acc.length))
  | ⟨none, out⟩ =>
    match _h : Varint.decode p with
    | none => ⟨none, out⟩
    | some (n, c) => feed ⟨if n = 0 then none else some (n, []), out⟩ (p.drop c)
termination_by 2 * p.length + (if r.cur.isSome then 1 else 0)
decreasing_by
  · simp
  · have := Varint.decode_bounds _h
    simp only [List.length_drop]
    split <;> simp <;> omega

theorem feed_open_lt {n : Nat} {acc p : List UInt8} {out : List (List UInt8)} (h : acc.length + p.length < n) :
    feed ⟨some (n, acc), out⟩ p = ⟨some (n, acc ++ p), out⟩ := by
  rw [feed, if_pos h]

theorem feed_open_ge {n : Nat} {acc p : List UInt8} {out : List (List UInt8)} (h : n ≤ acc.length + p.length) :
    feed ⟨some (n, acc), out⟩ p =
      feed ⟨none, out ++ [acc ++ p.take (n - acc.length)]⟩ (p.drop (n - acc.length)) := by
  rw [feed, if_neg (by omega)]

theorem feed_idle_none {p : List UInt8} {out : List (List UInt8)} (h : Varint.decode p = none) :
    feed ⟨none, out⟩ p = ⟨none, out⟩ := by
  rw [feed]; split
  · rfl
  · rename_i h'; rw [h] at h'; cases h'

theorem feed_idle_some {p : List UInt8} {out : List (List UInt8)} {n c : Nat} (h : Varint.decode p = some (n, c)) :
    feed ⟨none, out⟩ p = feed ⟨if n = 0 then none else some (n, []), out⟩ (p.drop c) := by
  rw [feed]; split
  · rename_i h'; rw [h] at h'; cases h'
  · rename_i h'; rw [h] at h'; cases h'; rfl

@[simp] theorem feed_nil (r : Rx UInt8) (ho : r.Open) : feed r [] = r := by
  obtain ⟨_ | ⟨n, acc⟩, out⟩ := r
  · exact feed_idle_none rfl
  · rw [feed_open_lt (by have := ho n acc rfl; simpa using this), List.append_nil]

/-- An induction principle for `feed`: fill without completing, complete, lose, read a length. -/
theorem feed_induction {P : Rx UInt8 → List UInt8 → Prop}
    (fill : ∀ n acc out p, acc.length + p.length < n → P ⟨some (n, acc), out⟩ p)
    (complete : ∀ n acc out p, n ≤ acc.length + p.length →
      P ⟨none, out ++ [acc ++ p.take (n - acc.length)]⟩ (p.drop (n - acc.length)) → P ⟨some (n, acc), out⟩ p)
    (lose : ∀ out p, Varint.decode p = none → P ⟨none, out⟩ p)
    (len : ∀ out p n c, Varint.decode p = some (n, c) →
      P ⟨if n = 0 then none else some (n, []), out⟩ (p.drop c) → P ⟨none, out⟩ p)
    (r : Rx UInt8) (p : List UInt8) : P r p := by
  induction r, p using feed.induct with
  | case1 p n acc out h => exact fill n acc out p h
  | case2 p n acc out h ih => exact complete n acc out p (by omega) ih
  | case3 p out h => exact lose out p h
  | case4 p out n c h ih => exact len out p n c h ih

/-- Completed records stay. -/
theorem feed_out_prefix (r : Rx UInt8) (p : List UInt8) : r.out <+: (feed r p).out := by
  induction r, p using feed_induction with
  | fill n acc out p h => rw [feed_open_lt h]
  | complete n acc out p h ih => rw [feed_open_ge h]; exact (List.prefix_append _ _).trans ih
  | lose out p h => rw [feed_idle_none h]
  | len out p n c h ih => rw [feed_idle_some h]; exact ih

theorem feed_open (r : Rx UInt8) (p : List UInt8) (ho : r.Open) : (feed r p).Open := by
  induction r, p using feed_induction with
  | fill n acc out p h =>
    rw [feed_open_lt h]
    intro m acc' hc; cases hc; simpa using h
  | complete n acc out p h ih => rw [feed_open_ge h]; exact ih (by intro m acc' hc; cases hc)
  | lose out p h => rw [feed_idle_none h]; exact ho
  | len out p n c h ih =>
    rw [feed_idle_some h]
    apply ih
    intro m acc hc
    by_cases hn : n = 0
    · simp [hn] at hc
    · simp only [hn, if_false, Option.some.injEq, Prod.mk.injEq] at hc
      obtain ⟨rfl, rfl⟩ := hc
      simp; omega

theorem foldl_feed_open : ∀ (ds : List (List UInt8)) (r : Rx UInt8), r.Open → (ds.foldl feed r).Open
  | [], _, ho => ho
  | p :: ds, r, ho => foldl_feed_open ds (feed r p) (feed_open r p ho)

/-! ## Whole tokens -/

/-- A token that lies whole in an event is taken as such. -/
theorem feed_tok {r r' : Rx UInt8} {t : Tok UInt8} (ho : r.Open) (ht : ∀ n, t = .len n → n < 2 ^ 62)
    (h : r.tok t = some r') (q : List UInt8) : feed r (wire Varint.encode [t] ++ q) = feed r' q := by
  obtain ⟨cur, out⟩ := r
  cases t with
  | len n =>
    simp only [Rx.tok] at h
    cases cur with
    | some c => cases h
    | none =>
      by_cases hn : 0 < n
      · simp only [hn, if_true, Option.some.injEq] at h
        subst h
        have hdec := Varint.decode_encode (ht n rfl) q
        rw [wire_len, wire_nil, List.append_nil, feed_idle_some hdec, if_neg (by omega), List.drop_left' (by simp)]
      · simp [hn] at h
  | byte a =>
    simp only [Rx.tok] at h
    cases cur with
    | none => cases h
    | some c =>
      obtain ⟨n, acc⟩ := c
      have hlt := ho n acc rfl
      rw [wire_byte, wire_nil, List.cons_append, List.nil_append]
      -- the byte is the last one of its record, or one more of it
      by_cases hn : acc.length + 1 = n
      · simp only [hn, if_true, Option.some.injEq] at h
        subst h
        rw [feed_open_ge (by simp; omega), show n - acc.length = 1 by omega]
        simp
      · simp only [hn, if_false, Option.some.injEq] at h
        subst h
        by_cases hq : acc.length + (a :: q).length < n
        · rw [feed_open_lt hq, feed_open_lt (by simp at hq ⊢; omega)]
          simp
        · rw [feed_open_ge (by omega), feed_open_ge (by simp at hq ⊢; omega),
            show n - acc.length = (n - (acc ++ [a]).length) + 1 by simp; omega]
          simp

/-- On whole tokens the callback's receiver is the record receiver. -/
theorem feed_toks : ∀ (ts : List (Tok UInt8)) {r r' : Rx UInt8} (q : List UInt8), r.Open →
    (∀ n, Tok.len n ∈ ts → n < 2 ^ 62) → r.toks ts = some r' → feed r (wire Varint.encode ts ++ q) = feed r' q
  | [], r, r', q, _, _, h => by cases h; rfl
  | t :: ts, r, r', q, ho, hl, h => by
    obtain ⟨r1, h1, h2⟩ := Lts.run_cons_some h
    have ht : ∀ n, t = .len n → n < 2 ^ 62 := by
      rintro n rfl; exact hl n (List.mem_cons_self ..)
    have hcons : wire Varint.encode (t :: ts) ++ q = wire Varint.encode [t] ++ (wire Varint.encode ts ++ q) := by
      rw [← List.append_assoc, ← wire_append]; rfl
    rw [hcons, feed_tok ho ht h1]
    exact feed_toks ts q (tok_open ho h1) (fun n hn => hl n (List.mem_cons_of_mem _ hn)) h2

/-! ## Refinement -/

/-- The frame being received, as the context holds it; a buffer freed or never allocated has size 0,
so that the next frame allocates one. -/
structure Holds (app : AppCtx) (cur : Option (Nat × List UInt8)) : Prop where
  idle : cur = none → app.frameSize = 0
  isOpen : ∀ n acc, cur = some (n, acc) → app.frameSize = n ∧ app.receivedSize = acc.length ∧ acc.length < n ∧
    ∃ fb, app.frameBuffer = some fb ∧ fb.data.take acc.length = acc
  room : app.frameBuffer = none → app.bufferSize = 0

/-- The callback's state stands for the receiver `r`, for an event of stream `sid` that began with
`done` on the list of completed frames. -/
structure Stands (sid : Nat) (done : List (Nat × List UInt8)) (s : State) (r : Rx UInt8) : Prop where
  holds : Holds s.app r.cur
  frames : s.frames = done ++ r.out.map (sid, ·)

theorem take_write (fb : Block) {acc : List UInt8} (bytes : List UInt8) (h : fb.data.take acc.length = acc) :
    (fb.write acc.length bytes).data.take (acc.length + bytes.length) = acc ++ bytes := by
  have hlen : (acc ++ bytes).length = acc.length + bytes.length := List.length_append
  simp only [Block.write, h]
  rw [← hlen, List.take_left']
  rfl

section Refine

variable {env : Env} {sid : Nat} {done : List (Nat × List UInt8)} {s : State}

/-- The payload step while the frame stays incomplete. -/
theorem copyPayload_lt {n : Nat} {acc p : List UInt8} {out : List (List UInt8)}
    (hs : Stands sid done s ⟨some (n, acc), out⟩) (h : acc.length + p.length < n) :
    ∃ s', copyPayload env sid s p = .next s' [] ∧ Stands sid done s' ⟨some (n, acc ++ p), out⟩ := by
  obtain ⟨hn, hr, hlt, fb, hfb, htake⟩ := hs.holds.isOpen n acc rfl
  have hpos : 0 < s.app.frameSize := by omega
  have hle : ¬ s.app.receivedSize + p.length > s.app.frameSize := by omega
  have hne : ¬ s.app.receivedSize + p.length = s.app.frameSize := by omega
  unfold copyPayload
  simp only [hfb, if_pos hpos, if_neg hle, if_neg hne, List.drop_length, List.take_length]
  refine ⟨_, rfl, ⟨⟨nofun, fun m acc' hc => ?_, nofun⟩, hs.frames⟩⟩
  cases hc
  refine ⟨hn, by simp [hr], by simpa using h, _, rfl, ?_⟩
  rw [hr, List.length_append]
  exact take_write fb p htake

/-- The payload step that completes the frame. -/
theorem copyPayload_ge {n : Nat} {acc p : List UInt8} {out : List (List UInt8)}
    (hs : Stands sid done s ⟨some (n, acc), out⟩) (h : n ≤ acc.length + p.length) :
    ∃ s', copyPayload env sid s p = .next s' (p.drop (n - acc.length)) ∧
      Stands sid done s' ⟨none, out ++ [acc ++ p.take (n - acc.length)]⟩ := by
  obtain ⟨hn, hr, hlt, fb, hfb, htake⟩ := hs.holds.isOpen n acc rfl
  have hpos : 0 < s.app.frameSize := by omega
  have hcopy : (if s.app.receivedSize + p.length > s.app.frameSize then s.app.frameSize - s.app.receivedSize
      else p.length) = n - acc.length := by split <;> omega
  have hfull : s.app.receivedSize + (n - acc.length) = s.app.frameSize := by omega
  -- what is copied completes the frame exactly
  have hbytes : (p.take (n - acc.length)).length = n - acc.length := by rw [List.length_take]; omega
  have hframe : (fb.write acc.length (p.take (n - acc.length))).data.take n = acc ++ p.take (n - acc.length) := by
    have := take_write fb (p.take (n - acc.length)) htake
    rwa [hbytes, show acc.length + (n - acc.length) = n by omega] at this
  unfold copyPayload
  simp only [hfb, if_pos hpos, hcopy, if_pos hfull]
  refine ⟨_, rfl, ⟨⟨fun _ => rfl, nofun, nofun⟩, ?_⟩⟩
  simp only [completeFrame]
  rw [hs.frames, hr, hn, hframe]
  simp

/-- Reading a length varint: room is made, and the frame starts empty. -/
theorem startFrame_stands (hm : ∀ i, env.malloc i = true) {n : Nat} {out : List (List UInt8)}
    (hs : Stands sid done s ⟨none, out⟩) :
    Stands sid done (startFrame env { s with app := { s.app with frameSize := n } })
      ⟨if n = 0 then none else some (n, []), out⟩ := by
  have hroom := hs.holds.room
  unfold startFrame
  simp only [hm, if_true]
  split
  · rename_i hgt
    refine ⟨⟨fun hc => ?_, fun m acc hc => ?_, nofun⟩, hs.frames⟩
    · by_cases hn : n = 0
      · exact hn
      · simp [hn] at hc
    · by_cases hn : n = 0
      · simp [hn] at hc
      · simp only [hn, if_false, Option.some.injEq, Prod.mk.injEq] at hc
        obtain ⟨rfl, rfl⟩ := hc
        exact ⟨rfl, rfl, by simp; omega, _, rfl, rfl⟩
  · -- the buffer of an earlier frame is large enough; one that was freed has size 0
    rename_i hle
    refine ⟨⟨fun hc => ?_, fun m acc hc => ?_, hroom⟩, hs.frames⟩
    · by_cases hn : n = 0
      · exact hn
      · simp [hn] at hc
    · by_cases hn : n = 0
      · simp [hn] at hc
      · simp only [hn, if_false, Option.some.injEq, Prod.mk.injEq] at hc
        obtain ⟨rfl, rfl⟩ := hc
        cases hb : s.app.frameBuffer with
        | none => have := hroom hb; omega
        | some fb => exact ⟨rfl, rfl, by simp; omega, fb, rfl, rfl⟩

/-- A zero length starts no frame, and the payload step does nothing. -/
theorem copyPayload_idle {p : List UInt8} {out : List (List UInt8)} (hs : Stands sid done s ⟨none, out⟩) :
    copyPayload env sid s p = .next s p := by
  have h0 : ¬ 0 < s.app.frameSize := by have := hs.holds.idle rfl; omega
  unfold copyPayload
  cases s.app.frameBuffer with
  | none => rfl
  | some fb => simp only [if_neg h0]

/-- The loop on `p` from any state standing for `r` ends within `p.length` rounds, in a state standing
for `feed r p`. -/
def LoopFeeds (env : Env) (sid : Nat) (done : List (Nat × List UInt8)) (r : Rx UInt8) (p : List UInt8) : Prop :=
  ∀ (s : State) (fuel : Nat), Stands sid done s r → p.length ≤ fuel →
    ∃ s', loop env sid fuel s p = some s' ∧ Stands sid done s' (feed r p)

theorem loopFeeds_nil {r : Rx UInt8} (ho : r.Open) : LoopFeeds env sid done r [] := by
  intro s fuel hs _
  refine ⟨s, by cases fuel <;> rfl, ?_⟩
  rwa [feed_nil r ho]

/-- The payload step and the rounds after it, when the loop is right between frames. -/
theorem copyPayload_feed {n : Nat} {acc p : List UInt8} {out : List (List UInt8)}
    (hs : Stands sid done s ⟨some (n, acc), out⟩)
    (ih : ∀ out, LoopFeeds env sid done ⟨none, out⟩ (p.drop (n - acc.length))) :
    ∃ s1 p1, copyPayload env sid s p = .next s1 p1 ∧ p1.length ≤ p.length - min p.length (n - acc.length) ∧
      ∀ fuel, p1.length ≤ fuel → ∃ s', loop env sid fuel s1 p1 = some s' ∧
        Stands sid done s' (feed ⟨some (n, acc), out⟩ p) := by
  by_cases h : acc.length + p.length < n
  · obtain ⟨s1, h1, h2⟩ := copyPayload_lt hs h
    refine ⟨s1, [], h1, by simp, fun fuel _ => ⟨s1, by cases fuel <;> rfl, ?_⟩⟩
    rwa [feed_open_lt h]
  · have hge : n ≤ acc.length + p.length := by omega
    obtain ⟨s1, h1, h2⟩ := copyPayload_ge hs hge
    refine ⟨s1, p.drop (n - acc.length), h1, by rw [List.length_drop]; omega, fun fuel hf => ?_⟩
    rw [feed_open_ge hge]
    exact ih _ s1 fuel h2 hf

theorem loopFeeds_idle (hd : env.Rfc9000) (hm : ∀ i, env.malloc i = true) :
    ∀ (k : Nat) (p : List UInt8) (out : List (List UInt8)), p.length ≤ k → LoopFeeds env sid done ⟨none, out⟩ p := by
  intro k
  induction k with
  | zero =>
    intro p out hk
    rw [List.length_eq_zero_iff.1 (Nat.le_zero.1 hk)]
    exact loopFeeds_nil (by intro n acc h; cases h)
  | succ k ih =>
    intro p out hk s fuel hs hf
    cases p with
    | nil => exact loopFeeds_nil (by intro n acc h; cases h) s fuel hs hf
    | cons b p =>
      obtain ⟨fuel, rfl⟩ : ∃ f, fuel = f + 1 := ⟨fuel - 1, by simp at hf; omega⟩
      have h0 : s.app.frameSize = 0 := hs.holds.idle rfl
      have hdp := hd (b :: p)
      cases hdec : Varint.decode (b :: p) with
      | none =>
        -- a cut length ends the loop, with `frame_size` 0 again
        rw [hdec] at hdp
        simp only [loop, round, h0, if_true, hdp]
        refine ⟨_, rfl, ?_⟩
        rw [feed_idle_none hdec]
        exact ⟨⟨fun _ => rfl, nofun, hs.holds.room⟩, hs.frames⟩
      | some nc =>
        obtain ⟨n, c⟩ := nc
        obtain ⟨hc, hcp⟩ := Varint.decode_bounds hdec
        have hstart := startFrame_stands hm (n := n) hs
        rw [hdec] at hdp
        rw [feed_idle_some hdec]
        simp only [loop, round, h0, if_true, hdp, if_neg (show ¬ c = 0 by omega)]
        have hlen : ((b :: p).drop c).length ≤ k := by rw [List.length_drop]; omega
        by_cases hn : n = 0
        · -- a zero length: the next round reads the next length
          subst hn
          simp only [if_true] at hstart ⊢
          rw [copyPayload_idle hstart]
          exact ih _ out hlen _ fuel hstart (by rw [List.length_drop]; omega)
        · simp only [hn, if_false] at hstart ⊢
          obtain ⟨s1, p1, h1, h2, h3⟩ := copyPayload_feed hstart
            (fun out => ih (((b :: p).drop c).drop (n - 0)) out (by rw [List.length_drop]; omega))
          rw [h1]
          exact h3 fuel (by rw [List.length_drop] at h2; omega)

/-- The parsing loop computes `feed`, in at most one round a byte. -/
theorem loopFeeds (hd : env.Rfc9000) (hm : ∀ i, env.malloc i = true) {r : Rx UInt8} (ho : r.Open)
    (p : List UInt8) : LoopFeeds env sid done r p := by
  obtain ⟨_ | ⟨n, acc⟩, out⟩ := r
  · exact loopFeeds_idle hd hm p.length p out (le_refl _)
  · intro s fuel hs hf
    cases p with
    | nil => exact loopFeeds_nil ho s fuel hs hf
    | cons b p =>
      obtain ⟨fuel, rfl⟩ : ∃ f, fuel = f + 1 := ⟨fuel - 1, by simp at hf; omega⟩
      obtain ⟨hn, -, hlt, -⟩ := hs.holds.isOpen n acc rfl
      have h0 : ¬ s.app.frameSize = 0 := by omega
      obtain ⟨s1, p1, h1, h2, h3⟩ := copyPayload_feed hs
        (fun out => loopFeeds_idle hd hm ((b :: p).drop (n - acc.length)).length _ out (le_refl _))
      simp only [loop, round, if_neg h0, h1]
      exact h3 fuel (by simp at h2 hf ⊢; omega)

/-- One data event computes `feed`. -/
theorem clientCb_feed (hd : env.Rfc9000) (hm : ∀ i, env.malloc i = true) {r : Rx UInt8} (ho : r.Open)
    (p : List UInt8) (hs : Stands sid done s r) :
    ∃ s', clientCb env s (.streamData sid p) = some s' ∧ Stands sid done s' (feed r p) :=
  loopFeeds hd hm ho p s p.length hs (le_refl _)

end Refine

/-! ## One stream -/

/-- The initial context stands for the empty receiver. -/
theorem init_stands (sid : Nat) (maxFrames : Int) (outDir : String) :
    Stands sid [] (State.init maxFrames outDir) Rx.empty :=
  ⟨⟨fun _ => rfl, nofun, fun _ => rfl⟩, rfl⟩

/-- A run of data events on one stream computes `feed` event by event. -/
theorem events_feed {env : Env} (hd : env.Rfc9000) (hm : ∀ i, env.malloc i = true) {sid : Nat}
    {done : List (Nat × List UInt8)} : ∀ (ds : List (List UInt8)) (s : State) (r : Rx UInt8), r.Open →
      Stands sid done s r → ∃ s', events env s (ds.map (.streamData sid)) = some s' ∧
        Stands sid done s' (ds.foldl feed r)
  | [], s, r, _, hs => ⟨s, rfl, hs⟩
  | d :: ds, s, r, ho, hs => by
    obtain ⟨s1, h1, hs1⟩ := clientCb_feed hd hm ho d hs
    obtain ⟨s2, h2, hs2⟩ := events_feed hd hm ds s1 (feed r d) (feed_open r d ho) hs1
    refine ⟨s2, ?_, hs2⟩
    unfold events at *
    rw [List.map_cons, Lts.run_cons, h1, Option.bind_some, h2]

end Mquic.ClientMain
