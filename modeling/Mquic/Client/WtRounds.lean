/-
The rounds of `wt_handle_stream_data` one by one: in the states that calls lead to, a round that goes on consumes a
byte or only leaves length framing, and the round after such a one consumes a byte or leaves the loop.
-/
import Mquic.Client.WtParts
import Mquic.Client.WtTermination

namespace Mquic.WtClient

open Mquic.Codec Loop

/-! ## Whole frames -/

/-- What is known of the record at hand: it holds a whole frame only when the limit is reached. -/
def Checked (s : State) (st : WtStream) : Prop := Finished st → limitReached s = true

/-- The same of all records. -/
def AllChecked (s : State) : Prop := ∀ st ∈ s.app.streams, Checked s st

/-- A limit once reached stays so: the limit is fixed, and saved frames stay saved. -/
structure Saving (s s' : State) : Prop where
  maxFrames : s'.app.maxFrames = s.app.maxFrames
  saved : s.app.saved ≤ s'.app.saved

theorem Saving.refl (s : State) : Saving s s := ⟨rfl, le_rfl⟩

theorem Saving.trans {s s' s'' : State} (h : Saving s s') (h' : Saving s' s'') : Saving s s'' :=
  ⟨h'.maxFrames.trans h.maxFrames, h.saved.trans h'.saved⟩

theorem Saving.limitReached {s s' : State} (h : Saving s s') (hl : limitReached s = true) : limitReached s' = true := by
  unfold WtClient.limitReached at hl ⊢
  obtain ⟨hpos, hle⟩ := of_decide_eq_true hl
  rw [h.maxFrames]
  exact decide_eq_true ⟨hpos, hle.trans h.saved⟩

theorem Checked.saving {s s' : State} {st : WtStream} (h : Checked s st) (hs : Saving s s') : Checked s' st :=
  fun hf => hs.limitReached (h hf)

/-! ## One round -/

section Rounds

variable {os : Os} {s s1 : State} {st st1 : WtStream} {p p1 : List UInt8}

theorem round_saving (os : Os) (s : State) (st : WtStream) (p : List UInt8) : Saving s (round os s st p).state := by
  have h : Effect os (handed os s st p) s st (round os s st p) := round_effect
  exact ⟨h.tried.maxFrames, round_saved_le os s st p⟩

/-- However a round ends, the record it leaves is checked. -/
theorem round_checked (h : Checked s st) : Checked (round os s st p).state (round os s st p).record := by
  have heff : Effect os (handed os s st p) s st (round os s st p) := round_effect
  intro hf
  rcases heff.finished hf with hold | hlim
  · exact (round_saving os s st p).limitReached (h hold)
  · exact hlim

/-- In length framing: the record of a frame that needs nothing leaves length framing, and otherwise a byte is taken. A
whole frame would be saved without one, but such a record means the limit, which ends the call. -/
theorem receive_next_cases (hu : st.useLenFraming = true) (hc : Checked s st) (hp : p ≠ [])
    (h : receive os s st p = .next s1 st1 p1) :
    p1.length < p.length ∨ (s1 = s ∧ st1 = st.unframed ∧ p1 = p) := by
  have hpos := List.length_pos_of_ne_nil hp
  unfold receive at h
  simp only at h
  by_cases hn : payloadNeed st = 0
  · rw [if_pos hn] at h
    cases h
    exact .inr ⟨rfl, rfl, rfl⟩
  rw [if_neg hn] at h
  refine .inl ?_
  by_cases htake : takeLen st p.length = 0
  · -- nothing is taken of the bytes there are: the frame is whole
    have hfits := got_le_need st hu
    have hwhole : st.got = payloadNeed st := by
      unfold takeLen at htake
      split_ifs at htake <;> omega
    have hsame : (copyPayload st p).got = payloadNeed st := by
      rw [WtStream.got, copyPayload_buf, htake, List.take_zero, List.append_nil]
      exact hwhole
    have hsaved : Saving s (saveFrame os st.streamId s (copyPayload st p).buf) := by
      have ht := saveFrame_tried os st.streamId s (copyPayload st p).buf
      exact ⟨ht.maxFrames, by rw [ht.saved]; omega⟩
    rw [if_pos hsame, if_pos (hsaved.limitReached (hc ⟨hu, hn, hwhole⟩))] at h
    cases h
  · by_cases hfull : (copyPayload st p).got = payloadNeed st
    · rw [if_pos hfull] at h
      split at h
      · cases h
      · cases h
        rw [List.length_drop]
        omega
    · rw [if_neg hfull] at h
      cases h
      rw [List.length_drop]
      omega

/-- A round that goes on consumes a byte, or it only clears `use_len_framing`. -/
theorem round_next_cases (hc : Checked s st) (hp : p ≠ []) (h : round os s st p = .next s1 st1 p1) :
    p1.length < p.length ∨ (s1 = s ∧ st1 = st.unframed ∧ p1 = p) ∧ st.useLenFraming = true := by
  cases hh : st.headerOk with
  | false =>
    rw [round, if_pos (by simp [hh])] at h
    have := readHeader_measure h
    exact .inl (by omega)
  | true =>
    cases hu : st.useLenFraming with
    | true =>
      rw [round_on hh hu] at h
      exact (receive_next_cases hu hc hp h).imp id fun h => ⟨h, rfl⟩
    | false =>
      rw [round_off hh hu] at h
      split at h
      · have := detect_measure hu h
        exact .inl (by omega)
      · exact absurd h (accumulate_ne_next hu)

end Rounds

/-! ## The loop and the calls -/

section Calls

variable {os : Os}

/-- At every head of the loop the record is checked. -/
theorem heads_checked {x y : State × WtStream × List UInt8} (h : Heads (whileBody os) x y) (hx : Checked x.1 x.2.1) :
    Checked y.1 y.2.1 := by
  refine heads_inv (I := fun y => Checked y.1 y.2.1) ?_ hx h
  rintro ⟨s, st, p⟩ ⟨s1, st1, p1⟩ hy hz
  obtain ⟨-, hr⟩ := whileBody_next hz
  have h := @round_checked os s st p hy
  rw [hr] at h
  exact h

theorem Flow.leads_of {Q : State → WtStream → Prop} {f : Flow} (h : Q f.state f.record) :
    f.Leads (fun s st _ => Q s st) Q := by
  cases f <;> exact h

theorem loop_saving {fuel : Nat} {s s' : State} {st st' : WtStream} {p : List UInt8} {code : Int}
    (h : loop os fuel s st p = some (s', st', code)) (hc : Checked s st) : Saving s s' ∧ Checked s' st' := by
  refine loop_rule (I := fun s1 st1 _ => Saving s s1 ∧ Checked s1 st1) (Q := fun s1 st1 => Saving s s1 ∧ Checked s1 st1)
    (fun s1 st1 p1 _ h1 => Flow.leads_of ?_) (fun _ _ h1 => h1) fuel s st p s' st' code ⟨Saving.refl s, hc⟩ h
  exact ⟨h1.1.trans (round_saving os s1 st1 p1), round_checked h1.2⟩

theorem getStream_saving (os : Os) (s : State) (sid : Nat) : Saving s (getStream os s sid).2 := by
  obtain ⟨hsaved, hmax⟩ := getStream_app os s sid
  exact ⟨hmax, hsaved.ge⟩

/-- The records with the one a call works on, found or made, are still checked. -/
theorem AllChecked.getStream {s s1 : State} {sid : Nat} {st : WtStream} (h : AllChecked s)
    (hg : getStream os s sid = (some st, s1)) : AllChecked s1 := by
  have hs : Saving s s1 := by
    have := getStream_saving os s sid
    rwa [hg] at this
  obtain ⟨-, -, -, -, -, hmem⟩ := getStream_some hg
  intro x hx
  rcases hmem x hx with hold | rfl
  · exact (h x hold).saving hs
  · exact fun hf => absurd hf (fresh_not_finished sid)

theorem AllChecked.call {s s' : State} {c : Nat × List UInt8} (h : AllChecked s) (hcall : call os s c = some s') :
    AllChecked s' := by
  unfold WtClient.call wtHandleStreamData at hcall
  cases hg : WtClient.getStream os s c.1 with
  | mk r s1 =>
    have hs : Saving s s1 := by
      have := getStream_saving os s c.1
      rwa [hg] at this
    rw [hg] at hcall
    cases r with
    | none =>
      cases hcall
      obtain ⟨happ, -⟩ := getStream_none hg
      intro x hx
      exact (h x (happ ▸ hx)).saving ⟨hs.maxFrames, hs.saved⟩
    | some st =>
      simp only [Option.map_map, Option.map_eq_some_iff] at hcall
      obtain ⟨⟨s2, st2, code⟩, hl, rfl⟩ := hcall
      obtain ⟨-, hrec, -⟩ := getStream_some hg
      have hall := h.getStream hg
      obtain ⟨hsaving, hst2⟩ := loop_saving hl (hall st (List.mem_of_find?_eq_some hrec))
      intro x hx
      rcases mem_putStream hx with rfl | hx
      · exact hst2
      · rw [(loop_served hl).grows.streams] at hx
        exact (hall x hx).saving ⟨hsaving.maxFrames, hsaving.saved⟩

/-- In every state that calls lead to, a record holds a whole frame only when the limit is reached. -/
theorem calls_checked {outDir : String} {maxFrames : Int} {sessionCtrlId : Nat} {cs : List (Nat × List UInt8)}
    {s : State} (h : calls os (State.init outDir maxFrames sessionCtrlId) cs = some s) : AllChecked s := by
  have hinit : AllChecked (State.init outDir maxFrames sessionCtrlId) := List.forall_mem_nil _
  exact Lts.Reachable.inv hinit (fun _ _ _ hs hcall => hs.call hcall) ⟨cs, h⟩

/-- From every state that calls lead to, the loop over `n` bytes takes at most `2n + 2` rounds. A round that goes on
consumes a byte, or it only clears `use_len_framing`, and the round after that one consumes a byte or does not go on. -/
theorem rounds_linear (os : Os) {outDir : String} {maxFrames : Int} {sessionCtrlId : Nat}
    {cs : List (Nat × List UInt8)} {s s1 : State} (h : calls os (State.init outDir maxFrames sessionCtrlId) cs = some s)
    {sid : Nat} {st : WtStream} (hg : getStream os s sid = (some st, s1)) (bytes : List UInt8) :
    (loop os (2 * bytes.length + 2) s1 st bytes).isSome ∧
      ∀ y z, Heads (whileBody os) (s1, st, bytes) y → whileBody os y = .inr z →
        z.2.2.length < y.2.2.length ∨
          z = (y.1, y.2.1.unframed, y.2.2) ∧ y.2.1.useLenFraming = true ∧
            ∀ w, whileBody os z = .inr w → w.2.2.length < z.2.2.length := by
  have hlag := lag_le st
  refine ⟨loop_isSome os _ s1 st bytes (by omega), ?_⟩
  obtain ⟨-, hrec, -⟩ := getStream_some hg
  have hst : Checked s1 st := (calls_checked h).getStream hg st (List.mem_of_find?_eq_some hrec)
  rintro ⟨sy, sty, py⟩ ⟨sz, stz, pz⟩ hy hz
  have hcy : Checked sy sty := heads_checked hy hst
  have hcz : Checked sz stz := heads_checked (hy.next hz) hst
  obtain ⟨hne, hr⟩ := whileBody_next hz
  rcases round_next_cases hcy hne hr with hlt | ⟨⟨rfl, rfl, rfl⟩, hu⟩
  · exact .inl hlt
  · refine .inr ⟨rfl, hu, ?_⟩
    rintro ⟨sw, stw, pw⟩ hw
    obtain ⟨hne', hr'⟩ := whileBody_next hw
    -- the record is out of length framing now
    exact (round_next_cases hcz hne' hr').resolve_right fun hbad => Bool.false_ne_true hbad.2

/-- A frame of one byte (length 2, a PTS byte among it) leaves the record in length framing with nothing to receive; the
next call clears that and reads on. -/
theorem rounds_linear_frame : ∃ s s1 st,
    calls Os.sound (State.init "" 0 0) [(2, [0x40, 0x54, 0x00, 0x02, 0x05, 0xAA])] = some s ∧
      getStream Os.sound s 2 = (some st, s1) ∧ (loop Os.sound (2 * 1 + 2) s1 st [0x02]).isSome := by
  obtain ⟨s, hs⟩ := Option.isSome_iff_exists.1
    (calls_isSome Os.sound [(2, [0x40, 0x54, 0x00, 0x02, 0x05, 0xAA])] (State.init "" 0 0))
  cases hg : getStream Os.sound s 2 with
  | mk r s1 =>
    cases r with
    | none =>
      unfold getStream at hg
      split at hg <;> cases hg
    | some st => exact ⟨s, s1, st, hs, hg, (rounds_linear Os.sound hs hg [0x02]).1⟩

end Calls

end Mquic.WtClient
