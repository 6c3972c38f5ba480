/-
The frame limit of `wt_handle_stream_data`. The limit is tested when frames are already saved: after all images that
an extraction found, and after a length-framed frame, whose record is then left as it is and saved again by the next
call. A frame is known here by its bytes and their places in its stream, which are followed through the buffer,
whatever the allocator and the file system do.
-/
import Mquic.Client.WtParts

namespace Mquic.WtClient

open Mquic.Codec Loop

/-! ## Frames by the places of their bytes -/

/-- A byte and its place among the bytes of its stream. -/
abbrev Placed := UInt8 × Nat

/-- Per stream the bytes that the calls brought, and those of them that its record holds; and the frames saved, each
with its stream. -/
structure Ledger where
  brought : Nat → List UInt8
  held : Nat → List Placed
  saved : List (Nat × List Placed)

/-- Before the first call. -/
def Ledger.empty : Ledger := ⟨fun _ => [], fun _ => [], []⟩

/-- `p`, the end of what the calls brought to the stream. -/
def Ledger.places (l : Ledger) (sid : Nat) (p : List UInt8) : List Placed :=
  (l.brought sid).zipIdx.drop ((l.brought sid).length - p.length)

/-- What the payload step makes of what the record holds: as many bytes behind it as it takes of `p`. -/
def Ledger.copied (l : Ledger) (st : WtStream) (p : List UInt8) : List Placed :=
  (l.held st.streamId).take st.got ++ (l.places st.streamId p).take (takeLen st p.length)

/-- What an extraction makes of it. -/
def Ledger.extracted (l : Ledger) (st : WtStream) (p : List UInt8) : List (List Placed) × List Placed :=
  extractBy Prod.fst (l.held st.streamId ++ l.places st.streamId p)

/-- The frames of a round, with the places of their bytes. -/
def Ledger.handed (l : Ledger) (os : Os) (s : State) (st : WtStream) (p : List UInt8) : List (List Placed) :=
  match part os s st p with
  | .quiet => []
  | .payload st1 p1 => if ReachesEnd st1 p1 then [l.copied st1 p1] else []
  | .jpeg => (l.extracted st p).1

/-- What the round leaves in the buffer, of which the record keeps `got` bytes. -/
def Ledger.filled (l : Ledger) (os : Os) (s : State) (st : WtStream) (p : List UInt8) : List Placed :=
  match part os s st p with
  | .quiet => l.held st.streamId
  | .payload st1 p1 => l.copied st1 p1
  | .jpeg => (l.extracted st p).2

/-- After a round. -/
def Ledger.after (l : Ledger) (os : Os) (s : State) (st : WtStream) (p : List UInt8) : Ledger where
  brought := l.brought
  held := Function.update l.held st.streamId ((l.filled os s st p).take (round os s st p).record.got)
  saved := l.saved ++ (openable os s.fopens (l.handed os s st p)).map (st.streamId, ·)

/-- After the loop. -/
def Ledger.loop (os : Os) : Nat → State → WtStream → List UInt8 → Ledger → Ledger
  | _, _, _, [], l => l
  | 0, _, _, _ :: _, l => l
  | fuel + 1, s, st, b :: p, l =>
    match round os s st (b :: p) with
    | .next s1 st1 p1 => Ledger.loop os fuel s1 st1 p1 (l.after os s st (b :: p))
    | .brk _ _ => l.after os s st (b :: p)
    | .ret _ _ _ => l.after os s st (b :: p)

/-- With the bytes of a call. -/
def Ledger.bring (l : Ledger) (sid : Nat) (p : List UInt8) : Ledger :=
  { l with brought := Function.update l.brought sid (l.brought sid ++ p) }

/-- After a call. -/
def Ledger.call (l : Ledger) (os : Os) (s : State) (c : Nat × List UInt8) : Ledger :=
  match getStream os s c.1 with
  | (none, _) => l.bring c.1 c.2
  | (some st, s1) => (l.bring c.1 c.2).loop os (2 * c.2.length + 3) s1 st c.2

/-- A call together with its ledger. -/
def callNoted (os : Os) (x : State × Ledger) (c : Nat × List UInt8) : Option (State × Ledger) :=
  (call os x.1 c).map (·, x.2.call os x.1 c)

/-- The frames saved for a stream. -/
def Ledger.savedFor (l : Ledger) (sid : Nat) : List (List Placed) := (l.saved.filter (·.1 = sid)).map Prod.snd

/-- The frames noted are the files; each is some of the bytes its stream brought, and no byte is in two of them. -/
structure Ledger.Notes (l : Ledger) (s : State) : Prop where
  contents : contents s = l.saved.map fun e => (e.1, e.2.map Prod.fst)
  nonempty : ∀ e ∈ l.saved, e.2 ≠ []
  once : ∀ sid, (l.savedFor sid).flatten.Sublist (l.brought sid).zipIdx

/-! ## The condition -/

/-- No frame ends in a payload step once `M` frames are saved, unless its file cannot be openable, and no extraction
finds more images than are missing to `M`. -/
def Fits (os : Os) (M : Nat) (y : State × WtStream × List UInt8) : Prop :=
  match part os y.1 y.2.1 y.2.2 with
  | .quiet => True
  | .payload st p => M ≤ y.1.app.saved → ReachesEnd st p → os.fopen y.1.fopens = false
  | .jpeg => y.1.app.saved + opens os y.1.fopens (extractJpegs (y.2.1.buf ++ y.2.2)).1.length ≤ M

/-- Every round of the call fits. -/
def CallFits (os : Os) (M : Nat) (x : State × Ledger) (c : Nat × List UInt8) : Prop :=
  ∀ st s1 y, getStream os x.1 c.1 = (some st, s1) → Heads (whileBody os) (s1, st, c.2) y → y.2.2 ≠ [] → Fits os M y

/-- After the call at most `M` frames are saved, none of them twice; and the files are these frames. -/
def KeepsLimit (os : Os) (M : Nat) (x : State × Ledger) (c : Nat × List UInt8) : Prop :=
  ∀ x', callNoted os x c = some x' → x'.1.app.saved ≤ M ∧ x'.2.saved.Nodup ∧ x'.2.Notes x'.1

section Fits

variable {os : Os} {M : Nat} {s : State}

/-- In numbers: a round fits if what it saves is not more than what is missing to `M`. -/
theorem fits_iff (os : Os) (st : WtStream) (p : List UInt8) (hM : s.app.saved ≤ M) :
    Fits os M (s, st, p) ↔ s.app.saved + opens os s.fopens (handed os s st p).length ≤ M := by
  unfold Fits handed
  cases part os s st p with
  | quiet => simpa [opens_zero] using hM
  | jpeg => rfl
  | payload st1 p1 =>
    simp only
    by_cases hend : ReachesEnd st1 p1
    · rw [if_pos hend, List.length_singleton, opens_one]
      cases os.fopen s.fopens with
      | false => simpa using hM
      | true =>
        simp only [if_true, Nat.cast_one]
        constructor
        · intro h
          by_contra hgt
          exact Bool.noConfusion (h (by omega) hend)
        · intro h hge
          omega
    · rw [if_neg hend, List.length_nil, opens_zero]
      simpa [hend] using hM

end Fits

/-! ## One stream -/

/-- What a record still has to save of what it holds: nothing of a frame that is saved already. -/
def Ledger.pending (l : Ledger) (st : WtStream) : List Placed := if Finished st then [] else l.held st.streamId

/-- The ledger knows what the record holds, with `p` still to be read; the frames saved, what is pending and `p` are
bytes of the stream in their order. -/
structure Follows (l : Ledger) (st : WtStream) (p : List UInt8) : Prop where
  held : (l.held st.streamId).map Prod.fst = st.buf
  left : p <:+ l.brought st.streamId
  once : ((l.savedFor st.streamId).flatten ++ l.pending st ++ l.places st.streamId p).Sublist
    (l.brought st.streamId).zipIdx

section Stream

variable {os : Os} {l : Ledger} {s : State} {st st0 : WtStream} {p p0 p1 : List UInt8}

theorem places_map {sid : Nat} (h : p <:+ l.brought sid) : (l.places sid p).map Prod.fst = p := by
  unfold Ledger.places
  rw [List.map_drop, List.zipIdx_map_fst]
  exact (List.suffix_iff_eq_drop.1 h).symm

theorem places_drop {sid n : Nat} (h : p <:+ l.brought sid) (hn : n ≤ p.length) :
    l.places sid (p.drop n) = (l.places sid p).drop n := by
  have hlen := h.length_le
  unfold Ledger.places
  rw [List.drop_drop, List.length_drop]
  congr 1
  omega

theorem places_sublist {sid : Nat} (h : p1 <:+ p) : (l.places sid p1).Sublist (l.places sid p) := by
  have hlen := h.length_le
  exact List.drop_sublist_drop_left _ (by omega)

/-- The bytes that the payload step copies; for a frame just adopted the record holds nothing yet. -/
theorem copied_map {st1 : WtStream} (h : Follows l st p) (hstart : Starts st p st1 p1) :
    (l.copied st1 p1).map Prod.fst = (copyPayload st1 p1).buf := by
  have hleft : p1 <:+ l.brought st1.streamId := hstart.streamId ▸ hstart.suffix.trans h.left
  unfold Ledger.copied
  rw [List.map_append, List.map_take, List.map_take, places_map hleft, copyPayload_buf, WtStream.got]
  cases hstart with
  | kept _ => rw [h.held, List.take_length]
  | adopted _ _ hbuf _ _ _ => rw [hbuf, List.length_nil, List.take_zero]

theorem extracted_map (h : Follows l st p) :
    extractJpegs (st.buf ++ p) = ((l.extracted st p).1.map (List.map Prod.fst), (l.extracted st p).2.map Prod.fst) := by
  have hmap : (l.held st.streamId ++ l.places st.streamId p).map Prod.fst = st.buf ++ p := by
    rw [List.map_append, h.held, places_map h.left]
  rw [← hmap]
  exact extractBy_map _

/-- What the payload step leaves in its record is the beginning of what it copied. -/
theorem receive_buf (os : Os) (s : State) (st : WtStream) (p : List UInt8) :
    (receive os s st p).record.buf <+: (copyPayload st p).buf := by
  unfold receive
  simp only
  split_ifs
  · exact List.prefix_append _ _
  · exact List.prefix_refl _
  · exact List.nil_prefix
  · exact List.prefix_refl _

/-- Behind a whole frame nothing is pending. -/
theorem receive_whole (hu : st.useLenFraming = true) (hend : ReachesEnd st p) :
    Finished (receive os s st p).record ∨ (receive os s st p).record.got = 0 := by
  have hfull := (copyPayload_full_iff p hu hend.1).2 hend
  unfold receive
  simp only [if_neg hend.1, if_pos hfull]
  split_ifs
  · exact .inl ⟨hu, hend.1, hfull⟩
  · exact .inr rfl

theorem receive_left (os : Os) (s : State) (st : WtStream) (p : List UInt8) :
    (receive os s st p).left <:+ p.drop (takeLen st p.length) := by
  unfold receive
  simp only
  split_ifs with hn
  · have htake : takeLen st p.length = 0 := by
      unfold takeLen
      rw [hn]
      split_ifs <;> omega
    rw [htake]
    exact List.suffix_refl p
  · exact List.nil_suffix
  · exact List.suffix_refl _
  · exact List.suffix_refl _

/-- The next round starts from an end of the bytes. -/
theorem round_left (os : Os) (s : State) (st : WtStream) (p : List UInt8) : (round os s st p).left <:+ p := by
  have hdoes := round_does os s st p
  generalize part os s st p = part, round os s st p = f at hdoes
  cases hdoes with
  | quiet n hstate hid hst hleft => exact hleft
  | @payload n cap st1 p1 hstart =>
    have hrest := receive_left os { s with allocs := n } { st1 with cap := cap } p1
    exact (hrest.trans (List.drop_suffix _ p1)).trans hstart.suffix
  | jpeg n cap hu => exact List.nil_suffix

/-- The frames of the ledger are those handed to `save_frame`. -/
theorem handed_map (h : Follows l st p) : (l.handed os s st p).map (List.map Prod.fst) = handed os s st p := by
  have hdoes := round_does os s st p
  unfold Ledger.handed handed
  generalize part os s st p = part, round os s st p = f at hdoes
  cases hdoes with
  | quiet n hstate hid hst hleft => rfl
  | payload n cap hstart =>
    simp only
    split_ifs
    · rw [List.map_singleton, copied_map h hstart]
    · rfl
  | jpeg n cap hu => exact (congrArg Prod.fst (extracted_map h)).symm

/-- What the record keeps is the beginning of what the ledger has for its buffer. -/
theorem record_begins (h : Follows l st p) :
    (round os s st p).record.buf <+: (l.filled os s st p).map Prod.fst := by
  have hdoes := round_does os s st p
  unfold Ledger.filled
  generalize part os s st p = part, round os s st p = f at hdoes
  cases hdoes with
  | quiet n hstate hid hst hleft =>
    rw [h.held]
    rcases hst with hsame | ⟨hnil, -⟩
    · rw [hsame]
    · rw [hnil]
      exact List.nil_prefix
  | @payload n cap st1 p1 hstart =>
    simp only
    rw [copied_map h hstart]
    exact receive_buf os { s with allocs := n } { st1 with cap := cap } p1
  | jpeg n cap hu =>
    have hrest := congrArg Prod.snd (extracted_map h)
    simp only at hrest ⊢
    rw [← hrest]
    exact List.prefix_refl _

/-- What a round leaves pending. -/
def Ledger.leaves (l : Ledger) (os : Os) (s : State) (st : WtStream) (p : List UInt8) : List Placed :=
  if Finished (round os s st p).record then [] else (l.filled os s st p).take (round os s st p).record.got

theorem leaves_sublist (l : Ledger) (os : Os) (s : State) (st : WtStream) (p : List UInt8) :
    (l.leaves os s st p).Sublist (l.filled os s st p) := by
  unfold Ledger.leaves
  split_ifs
  · exact List.nil_sublist _
  · exact List.take_sublist _ _

/-- The frames handed on, what is left pending and the bytes left are what was held and the bytes there were, in their
order. -/
theorem round_sublist (h : Follows l st p) :
    ((l.handed os s st p).flatten ++ l.leaves os s st p ++ l.places st.streamId (round os s st p).left).Sublist
      (l.held st.streamId ++ l.places st.streamId p) := by
  have hdoes := round_does os s st p
  have hleaves := leaves_sublist l os s st p
  have hwhole : ∀ r : Flow, round os s st p = r → Finished r.record ∨ r.record.got = 0 → l.leaves os s st p = [] := by
    rintro r rfl (hfin | hnone)
    · exact if_pos hfin
    · unfold Ledger.leaves
      rw [hnone, List.take_zero, ite_self]
  unfold Ledger.handed
  unfold Ledger.filled at hleaves
  generalize part os s st p = part at hdoes hleaves ⊢
  generalize hf : round os s st p = f at hdoes hwhole ⊢
  cases hdoes with
  | quiet n hstate hid hst hleft =>
    simp only [List.flatten_nil, List.nil_append] at hleaves ⊢
    exact hleaves.append (places_sublist hleft)
  | @payload n cap st1 p1 hstart =>
    -- the bytes copied, and those behind them
    have hcopied : (l.copied st1 p1 ++ l.places st.streamId (p1.drop (takeLen st1 p1.length))).Sublist
        (l.held st.streamId ++ l.places st.streamId p) := by
      unfold Ledger.copied
      rw [hstart.streamId, places_drop (hstart.suffix.trans h.left) (takeLen_le st1 _), List.append_assoc,
        List.take_append_drop]
      exact (List.take_sublist _ _).append (places_sublist hstart.suffix)
    have hrest := receive_left os { s with allocs := n } { st1 with cap := cap } p1
    refine List.Sublist.trans ?_ hcopied
    simp only at hleaves ⊢
    split_ifs with hend
    · have hends := @receive_whole os { s with allocs := n } { st1 with cap := cap } p1 hstart.framed hend
      have hnone := hwhole _ rfl hends
      rw [hnone, List.append_nil, List.flatten_singleton]
      exact (List.Sublist.refl _).append (places_sublist hrest)
    · rw [List.flatten_nil, List.nil_append]
      exact hleaves.append (places_sublist hrest)
  | jpeg n cap hu =>
    have hscan : ((l.extracted st p).1.flatten ++ (l.extracted st p).2).Sublist
        (l.held st.streamId ++ l.places st.streamId p) := extractBy_sublist _
    have hnone : l.places st.streamId [] = [] := by
      unfold Ledger.places
      rw [List.length_nil, Nat.sub_zero]
      exact List.drop_of_length_le (by rw [List.length_zipIdx])
    simp only at hleaves ⊢
    show ((l.extracted st p).1.flatten ++ l.leaves os s st p ++ l.places st.streamId []).Sublist _
    rw [hnone, List.append_nil]
    exact (hleaves.append_left _).trans hscan

/-- A record that holds a whole frame leaves nothing pending. -/
theorem leaves_finished (hst : Finished st) : l.leaves os s st p = [] := by
  have hdoes := round_does os s st p
  unfold Ledger.leaves
  generalize part os s st p = part at hdoes
  generalize round os s st p = f at hdoes ⊢
  have hwhole : Finished f.record ∨ f.record.got = 0 := by
    cases hdoes with
    | quiet n hstate hid hsame hleft =>
      rcases hsame with hsame | ⟨hnil, -⟩
      · exact .inl (hsame ▸ hst)
      · exact .inr (congrArg List.length hnil)
    | payload n cap hstart =>
      cases hstart with
      | kept hon =>
        have hend : ReachesEnd st p := ⟨hst.2.1, by rw [← hst.2.2]; exact Nat.le_add_right _ _⟩
        exact @receive_whole os { s with allocs := n } { st with cap := cap } p hon hend
      | adopted _ _ _ _ hold _ => exact absurd hst hold
    | jpeg n cap hu => exact absurd hst (not_finished_off hu)
  rcases hwhole with hfin | hnone
  · exact if_pos hfin
  · rw [hnone, List.take_zero, ite_self]

end Stream

/-! ## The ledger -/

section Notes

variable {os : Os} {M : Nat} {l : Ledger} {s s' : State} {st st0 : WtStream} {p p0 : List UInt8}

theorem savedFor_after (l : Ledger) (os : Os) (s : State) (st : WtStream) (p : List UInt8) (sid : Nat) :
    (l.after os s st p).savedFor sid =
      l.savedFor sid ++ if st.streamId = sid then openable os s.fopens (l.handed os s st p) else [] := by
  unfold Ledger.savedFor Ledger.after
  rw [List.filter_append, List.map_append]
  congr 1
  split_ifs with hid
  · have hall : (openable os s.fopens (l.handed os s st p)).map (st.streamId, ·) =
        ((openable os s.fopens (l.handed os s st p)).map (st.streamId, ·)).filter (·.1 = sid) := by
      refine (List.filter_eq_self.2 fun e he => ?_).symm
      obtain ⟨f, -, rfl⟩ := List.mem_map.1 he
      exact decide_eq_true hid
    rw [← hall, List.map_map]
    exact List.map_id _
  · refine List.map_eq_nil_iff.2 (List.filter_eq_nil_iff.2 fun e he => ?_)
    obtain ⟨f, -, rfl⟩ := List.mem_map.1 he
    simpa using hid

theorem pending_after (hid : (round os s st p).record.streamId = st.streamId) :
    (l.after os s st p).pending (round os s st p).record = l.leaves os s st p := by
  unfold Ledger.pending Ledger.leaves Ledger.after
  simp only [hid, Function.update_self]

/-- A round keeps the order; where the record holds a whole frame, if nothing is saved of it. -/
theorem Follows.round (h : Follows l st p)
    (hfin : Finished st → opens os s.fopens (handed os s st p).length = 0) :
    Follows (l.after os s st p) (WtClient.round os s st p).record (WtClient.round os s st p).left := by
  have heff : Effect os (WtClient.handed os s st p) s st (WtClient.round os s st p) := round_effect
  have hid := heff.streamId
  have hleft := round_left os s st p
  refine ⟨?_, ?_, ?_⟩
  · have hkept : (l.after os s st p).held (WtClient.round os s st p).record.streamId =
        (l.filled os s st p).take (WtClient.round os s st p).record.got := by
      rw [hid]
      exact Function.update_self ..
    rw [hkept, List.map_take]
    exact (List.prefix_iff_eq_take.1 (record_begins h)).symm
  · rw [hid]
    exact hleft.trans h.left
  · have honce := h.once
    rw [hid, pending_after hid, savedFor_after, if_pos rfl, List.flatten_append]
    unfold Ledger.pending at honce
    -- a whole frame is saved already, and nothing of the round follows it
    by_cases hwhole : Finished st
    · have hnone : openable os s.fopens (l.handed os s st p) = [] := by
        apply List.eq_nil_of_length_eq_zero
        rw [openable_length, ← hfin hwhole, ← handed_map h, List.length_map]
      rw [if_pos hwhole, List.append_nil] at honce
      rw [hnone, leaves_finished hwhole, List.flatten_nil, List.append_nil, List.append_nil]
      exact ((List.Sublist.refl _).append (places_sublist hleft)).trans honce
    · rw [if_neg hwhole, List.append_assoc] at honce
      have hsub := (openable_sublist os s.fopens (l.handed os s st p)).flatten
      have hround := @round_sublist os l s st p h
      rw [List.append_assoc] at hround
      rw [List.append_assoc, List.append_assoc]
      exact ((List.Sublist.refl _).append ((hsub.append (List.Sublist.refl _)).trans hround)).trans honce

/-- Another stream is followed as before. -/
theorem Follows.other (h : Follows l st0 p0) (hne : st0.streamId ≠ st.streamId) :
    Follows (l.after os s st p) st0 p0 := by
  have hheld : (l.after os s st p).held st0.streamId = l.held st0.streamId := Function.update_of_ne hne ..
  refine ⟨by rw [hheld]; exact h.held, h.left, ?_⟩
  have hpending : (l.after os s st p).pending st0 = l.pending st0 := by
    unfold Ledger.pending
    rw [hheld]
  rw [savedFor_after, if_neg hne.symm, List.append_nil, hpending]
  exact h.once

theorem handed_ne_nil (os : Os) (s : State) (st : WtStream) (p : List UInt8) : ∀ f ∈ handed os s st p, f ≠ [] := by
  have hdoes := round_does os s st p
  unfold handed
  generalize part os s st p = part at hdoes ⊢
  generalize round os s st p = r at hdoes
  cases hdoes with
  | quiet n hstate hid hst hleft => exact List.forall_mem_nil _
  | payload n cap hstart =>
    simp only
    split_ifs with hend
    · intro f hf
      rw [List.mem_singleton.1 hf]
      apply List.ne_nil_of_length_pos
      have hfull := (copyPayload_full_iff _ hstart.framed hend.1).2 hend
      have hpos := hend.1
      rw [WtStream.got] at hfull
      omega
    · exact List.forall_mem_nil _
  | jpeg n cap hu => exact extractJpegs_ne_nil _

/-- Between two rounds, and between two calls: the limit is kept, and the frames noted are the files. -/
structure Within (M : Nat) (s : State) (l : Ledger) : Prop where
  maxFrames : s.app.maxFrames = M
  saved : s.app.saved ≤ M
  contents : contents s = l.saved.map fun e => (e.1, e.2.map Prod.fst)
  nonempty : ∀ e ∈ l.saved, e.2 ≠ []

/-- A round that fits keeps the limit. -/
theorem Within.round (h : Within M s l) (hl : Follows l st p) (hst : Finished st → M ≤ s.app.saved)
    (hfits : Fits os M (s, st, p)) :
    Within M (round os s st p).state (l.after os s st p) ∧
      Follows (l.after os s st p) (WtClient.round os s st p).record (WtClient.round os s st p).left ∧
      (Finished (WtClient.round os s st p).record → M ≤ (WtClient.round os s st p).state.app.saved) := by
  have heff : Effect os (handed os s st p) s st (WtClient.round os s st p) := round_effect
  have hle := (fits_iff os st p h.saved).1 hfits
  have hmax := heff.tried.maxFrames.trans h.maxFrames
  refine ⟨⟨hmax, ?_, ?_, ?_⟩, hl.round fun hf => ?_, fun hf => ?_⟩
  · rw [heff.tried.saved]
    exact hle
  · rw [heff.tried.contents, h.contents, ← handed_map hl, openable_map]
    unfold Ledger.after
    simp only [List.map_append, List.map_map]
    rfl
  · intro e he
    rcases List.mem_append.1 he with hold | hnew
    · exact h.nonempty e hold
    · obtain ⟨f, hf, rfl⟩ := List.mem_map.1 hnew
      have hmem : f.map Prod.fst ∈ handed os s st p := by
        rw [← handed_map hl]
        exact List.mem_map_of_mem ((openable_sublist os s.fopens _).subset hf)
      exact fun hnil => handed_ne_nil os s st p _ hmem (List.map_eq_nil_iff.2 hnil)
  · have := hst hf
    omega
  · rcases heff.finished hf with hold | hlim
    · exact (hst hold).trans (round_saved_le os s st p)
    · unfold limitReached at hlim
      rw [hmax] at hlim
      exact (of_decide_eq_true hlim).2

/-- A loop whose rounds all fit keeps the limit. -/
theorem loop_within : ∀ (fuel : Nat) (s : State) (st : WtStream) (p : List UInt8) (l : Ledger)
    {s' : State} {st' : WtStream} {code : Int}, loop os fuel s st p = some (s', st', code) → Within M s l →
    Follows l st p → (Finished st → M ≤ s.app.saved) →
    (∀ y, Heads (whileBody os) (s, st, p) y → y.2.2 ≠ [] → Fits os M y) →
    Within M s' (l.loop os fuel s st p) ∧ Follows (l.loop os fuel s st p) st' [] ∧
      (Finished st' → M ≤ s'.app.saved) ∧
      ∀ st0 : WtStream, st0.streamId ≠ st.streamId → Follows l st0 [] → Follows (l.loop os fuel s st p) st0 []
  | fuel, s, st, [], l, s', st', code, h, hw, hl, hst, _ => by
    unfold loop at h
    cases h
    unfold Ledger.loop
    exact ⟨hw, hl, hst, fun _ _ h0 => h0⟩
  | 0, s, st, b :: p, l, s', st', code, h, _, _, _, _ => by cases h
  | fuel + 1, s, st, b :: p, l, s', st', code, h, hw, hl, hst, hfits => by
    obtain ⟨hw', hl', hst'⟩ := hw.round hl hst (hfits _ (Heads.refl _) (List.cons_ne_nil b p))
    have hid := (@round_effect os s st (b :: p)).streamId
    unfold loop at h
    unfold Ledger.loop
    cases hr : round os s st (b :: p) with
    | next s1 st1 p1 =>
      rw [hr] at h hw' hl' hst' hid
      have hstep : whileBody os (s, st, b :: p) = .inr (s1, st1, p1) := by simp only [whileBody, hr]
      obtain ⟨hw2, hl2, hst2, hothers⟩ := loop_within fuel s1 st1 p1 _ h hw' hl' hst' fun y hy =>
        hfits y (((Heads.refl _).next hstep).trans hy)
      have hid1 : st1.streamId = st.streamId := hid
      exact ⟨hw2, hl2, hst2, fun st0 hne h0 => hothers st0 (hid1 ▸ hne) (h0.other hne)⟩
    | brk s1 st1 =>
      rw [hr] at h hw' hl' hst'
      cases h
      exact ⟨hw', hl', hst', fun st0 hne h0 => h0.other hne⟩
    | ret s1 st1 c =>
      rw [hr] at h hw' hl' hst'
      cases h
      exact ⟨hw', hl', hst', fun st0 hne h0 => h0.other hne⟩

end Notes

/-! ## Calls -/

section Calls

variable {os : Os} {M : Nat}

/-- The bytes of a call on the stream of the record, not yet read. -/
theorem Follows.bring {l : Ledger} {st : WtStream} (h : Follows l st []) (p : List UInt8) :
    Follows (l.bring st.streamId p) st p := by
  have hbrought : (l.bring st.streamId p).brought st.streamId = l.brought st.streamId ++ p := Function.update_self ..
  have hplaces : (l.bring st.streamId p).places st.streamId p = p.zipIdx (l.brought st.streamId).length := by
    unfold Ledger.places
    rw [hbrought, List.length_append, Nat.add_sub_cancel, List.zipIdx_append, Nat.zero_add]
    exact List.drop_left' (by rw [List.length_zipIdx])
  have honce := (List.sublist_append_left _ _).trans h.once
  refine ⟨h.held, hbrought ▸ List.suffix_append _ _, ?_⟩
  rw [hplaces, hbrought, List.zipIdx_append, Nat.zero_add]
  exact honce.append (List.Sublist.refl _)

theorem Follows.bring_other {l : Ledger} {st : WtStream} (h : Follows l st []) {sid : Nat} (hne : st.streamId ≠ sid)
    (p : List UInt8) : Follows (l.bring sid p) st [] := by
  have hbrought : (l.bring sid p).brought st.streamId = l.brought st.streamId := Function.update_of_ne hne ..
  refine ⟨h.held, List.nil_suffix, ?_⟩
  unfold Ledger.places
  rw [hbrought]
  exact h.once

/-- The bytes that were not read are lost. -/
theorem Follows.lose {l : Ledger} {st : WtStream} {p : List UInt8} (h : Follows l st p) : Follows l st [] :=
  ⟨h.held, List.nil_suffix, ((List.Sublist.refl _).append (places_sublist List.nil_suffix)).trans h.once⟩

/-- Between two calls, for all streams. -/
structure Limited (M : Nat) (x : State × Ledger) : Prop where
  within : Within M x.1 x.2
  records : ∀ sid, Finished (recordOf x.1 sid) → M ≤ x.1.app.saved
  follows : ∀ sid, Follows x.2 (recordOf x.1 sid) []

theorem Limited.init (outDir : String) (M S : Nat) : Limited M (State.init outDir M S, Ledger.empty) where
  within := ⟨rfl, Int.natCast_nonneg M, rfl, List.forall_mem_nil _⟩
  records := fun _ hf => absurd hf (not_finished_off rfl)
  follows := fun _ => ⟨rfl, List.nil_suffix, List.Sublist.refl _⟩

/-- A call whose rounds all fit keeps the limit. -/
theorem Limited.call {x x' : State × Ledger} {c : Nat × List UInt8} (h : Limited M x) (hfits : CallFits os M x c)
    (hcall : callNoted os x c = some x') : Limited M x' := by
  obtain ⟨s, l⟩ := x
  obtain ⟨sid, p⟩ := c
  obtain ⟨s', hs', rfl⟩ := Option.map_eq_some_iff.1 hcall
  obtain ⟨hsaved, hmax⟩ := getStream_app os s sid
  have hid := recordOf_streamId s
  have hown := (h.follows sid).bring p
  rw [hid] at hown
  have hothers : ∀ y, y ≠ sid → Follows (l.bring sid p) (recordOf s y) [] := fun y hy =>
    (h.follows y).bring_other ((hid y).symm ▸ hy) p
  unfold Ledger.call
  rcases call_cases hs' with ⟨s1, hg, happ, hfiles⟩ | ⟨s1, s2, st', code, hg, hl, hfiles, happ⟩
  · -- no record could be made, so that the bytes of the call are lost
    have hrecs : ∀ y, recordOf s' y = recordOf s y := fun y => by
      unfold recordOf State.record
      rw [happ]
    simp only [hg]
    refine ⟨⟨happ ▸ h.within.maxFrames, happ ▸ h.within.saved, ?_, h.within.nonempty⟩, fun y hf => ?_, fun y => ?_⟩
    · exact (congrArg (List.map _) hfiles).trans h.within.contents
    · rw [hrecs] at hf
      rw [happ]
      exact h.records y hf
    · rw [hrecs]
      by_cases hy : y = sid
      · rw [hy]
        exact hown.lose
      · exact hothers y hy
  · obtain ⟨-, -, -, hfiles1, -⟩ := getStream_some hg
    rw [hg] at hsaved hmax
    simp only at hsaved hmax
    obtain ⟨hrec, hrecs⟩ := stored_records hg hl happ
    have hwithin : Within M s1 (l.bring sid p) :=
      ⟨hmax.trans h.within.maxFrames, hsaved ▸ h.within.saved, (congrArg (List.map _) hfiles1).trans h.within.contents,
        h.within.nonempty⟩
    -- a frame that is left whole was saved at the limit
    have hst : Finished (recordOf s sid) → (M : Int) ≤ s1.app.saved := fun hf => hsaved ▸ h.records sid hf
    obtain ⟨hw, hfollows, hfin, hrest⟩ :=
      loop_within _ s1 (recordOf s sid) p _ hl hwithin hown hst fun y hy hne => hfits _ s1 y hg hy hne
    -- the other records stay at the limit if they were there
    have hgrows : s1.app.saved ≤ s2.app.saved := loop_saved_le hl
    simp only [hg]
    refine ⟨⟨?_, ?_, ?_, hw.nonempty⟩, fun y hf => ?_, fun y => ?_⟩
    · rw [happ]
      exact hw.maxFrames
    · rw [happ]
      exact hw.saved
    · exact (congrArg (List.map _) hfiles).trans hw.contents
    · rw [happ]
      by_cases hy : y = sid
      · rw [hy, hrec] at hf
        exact hfin hf
      · rw [hrecs y hy] at hf
        have hold := h.records y hf
        simp only at hold ⊢
        omega
    · by_cases hy : y = sid
      · rw [hy, hrec]
        exact hfollows
      · rw [hrecs y hy]
        exact hrest _ (by rw [hid, hid]; exact hy) (hothers y hy)

/-- Frames of some bytes each, of which no two share one, are different. -/
theorem Ledger.Notes.nodup {l : Ledger} {s : State} (h : l.Notes s) : l.saved.Nodup := by
  have hzip : ∀ bytes : List UInt8, bytes.zipIdx.Nodup := fun bytes =>
    List.Nodup.of_map Prod.snd (by rw [List.zipIdx_map_snd]; exact List.nodup_range')
  have honce : ∀ sid, ((l.saved.filter (·.1 = sid)).map Prod.snd).flatten.Nodup := fun sid =>
    (hzip (l.brought sid)).sublist (h.once sid)
  have hne := h.nonempty
  generalize l.saved = saved at honce hne
  induction saved with
  | nil => exact List.nodup_nil
  | cons e saved ih =>
    obtain ⟨hehead, hetail⟩ := List.forall_mem_cons.1 hne
    refine List.nodup_cons.2 ⟨fun hmem => ?_, ih (fun sid => (honce sid).sublist ?_) hetail⟩
    · obtain ⟨b, hb⟩ := List.exists_mem_of_ne_nil e.2 hehead
      have hown := honce e.1
      have hfilter : (e :: saved).filter (·.1 = e.1) = e :: saved.filter (·.1 = e.1) :=
        List.filter_cons_of_pos (decide_eq_true rfl)
      rw [hfilter, List.map_cons, List.flatten_cons] at hown
      refine (List.disjoint_of_nodup_append hown) hb (List.mem_flatten.2 ⟨e.2, ?_, hb⟩)
      exact List.mem_map_of_mem (List.mem_filter.2 ⟨hmem, decide_eq_true rfl⟩)
    · exact (((List.sublist_cons_self e saved).filter _).map _).flatten

theorem Limited.notes {x : State × Ledger} (h : Limited M x) : x.2.Notes x.1 where
  contents := h.within.contents
  nonempty := h.within.nonempty
  once := fun sid => by
    have honce := (h.follows sid).once
    rw [recordOf_streamId, List.append_assoc] at honce
    exact (List.sublist_append_left _ _).trans honce

/-- A call keeps the limit exactly when its rounds fit. -/
theorem keepsLimit_iff {x : State × Ledger} (h : Limited M x) (c : Nat × List UInt8) :
    KeepsLimit os M x c ↔ CallFits os M x c := by
  constructor
  · rintro hkeep st s1 y hg hy hne
    obtain ⟨s', hs'⟩ := Option.isSome_iff_exists.1 (call_isSome os x.1 c)
    have hlim := (hkeep _ (by unfold callNoted; rw [hs']; rfl)).1
    obtain ⟨sid, p⟩ := c
    unfold call wtHandleStreamData at hs'
    rw [hg] at hs'
    simp only [Option.map_map, Option.map_eq_some_iff] at hs'
    obtain ⟨⟨s2, st2, code⟩, hl, rfl⟩ := hs'
    have hle := head_round_saved_le hl hy hne
    have heff : Effect os (handed os y.1 y.2.1 y.2.2) y.1 y.2.1 (round os y.1 y.2.1 y.2.2) := round_effect
    have hfinal : (round os y.1 y.2.1 y.2.2).state.app.saved ≤ M := hle.trans hlim
    rw [heff.tried.saved] at hfinal
    obtain ⟨sy, sty, py⟩ := y
    have hbefore : sy.app.saved ≤ M := by
      simp only at hfinal
      omega
    exact (fits_iff os sty py hbefore).2 hfinal
  · intro hfits x' hx'
    have hlim := h.call hfits hx'
    exact ⟨hlim.within.saved, hlim.notes.nodup, hlim.notes⟩

end Calls

/-- Over any calls on any streams at most `M` frames are saved, and none twice, exactly when in every round of every
call no frame ends in the payload step once `M` are saved, and no extraction finds more than are missing to `M`. -/
theorem save_limit_iff (os : Os) (outDir : String) (M S : Nat) (cs : List (Nat × List UInt8)) :
    Lts.Meets (callNoted os) (KeepsLimit os M) (State.init outDir M S, Ledger.empty) cs ↔
      Lts.Meets (callNoted os) (CallFits os M) (State.init outDir M S, Ledger.empty) cs :=
  Lts.meets_iff (fun _ _ _ h hfits hcall => h.call hfits hcall) (fun _ c h => keepsLimit_iff h c) cs _
    (Limited.init outDir M S)

/-- One frame of one byte (length 2, a PTS byte among it), and a byte more. -/
def oneFrameCalls : List (Nat × List UInt8) := [(2, [0x40, 0x54, 0x00, 0x02, 0x05, 0xAA]), (2, [0x01])]

/-- With limit 1 the second call, whatever its bytes, saves the frame of the first once more: the byte at place 5. -/
theorem save_limit_passed :
    (Lts.run (callNoted Os.sound) (State.init "" 1 0, Ledger.empty) oneFrameCalls).map
        (fun x => (x.1.app.saved, x.1.savedFor 2)) = some (2, [[0xAA], [0xAA]]) ∧
      (Lts.run (callNoted Os.sound) (State.init "" 1 0, Ledger.empty) oneFrameCalls).map (fun x => x.2.saved) =
        some [(2, [(0xAA, 5)]), (2, [(0xAA, 5)])] :=
  ⟨by decide, by decide⟩

end Mquic.WtClient
