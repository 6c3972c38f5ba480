/-
Datagrams of a connection (h3zero_common.c): when picoquic can send one, the declared prefixes that are marked ready are
polled in turn, from behind the one that sent last, until an application sends. What a call tells picoquic of the marks
left, how long a marked prefix waits, and that a datagram comes to the application of its prefix at the peer.
-/
import Mquic.H3.Connect
import Mquic.H3.Registry
import Mquic.Lib.RoundRobin

namespace Mquic.H3.Datagram

open Dll
open Registry (State PrefixCtx Holds Kept findStreamPrefix setDatagramReady)

variable {κ : Type}

/-! ## State -/

/-- What an application does when it is polled: its call of `h3zero_provide_datagram_buffer`, with the bytes it then
writes and `ready_to_send`, whether picoquic has a buffer for it, and its calls of `h3zero_set_datagram_ready`. -/
structure Answer where
  provided : Option (List UInt8 × Bool)
  buffer : Bool
  marks : List Nat

/-- The prefixes, `last_datagram_prefix`, what `picoquic_mark_datagram_ready` was told last, and as history the
datagrams sent, the prefixes whose application was called, and the prefixes each call went through. -/
structure Conn (κ : Type) where
  reg : State κ
  lastDatagramPrefix : Nat
  ready : Bool
  sent : List (List UInt8)
  asked : List Nat
  turns : List (List Nat)

/-! ## Functions -/

/-- The mark of a cell. -/
def mark (s : State κ) (cell : Nat) (b : Bool) : State κ :=
  { s with data := Function.update s.data cell { s.data cell with readyToSendDatagrams := b } }

/-- `h3zero_set_datagram_ready`. -/
def Conn.setDatagramReady (g : Conn κ) (streamId : Nat) : Option (Conn κ) :=
  (Registry.setDatagramReady g.reg streamId).map fun r => { g with reg := r.1, ready := g.ready || r.2 }

/-- `quarter_stream_id`, of a prefix of 64 bits. -/
def quarterStreamId (streamPrefix : Nat) : Nat := streamPrefix % 2 ^ 64 / 4

/-- What the application's call of `h3zero_provide_datagram_buffer` comes to, and whether it sent; `encodingLength` is
`stream_id_encoding_length`. -/
def provide (enc : VarintEncode) (space encodingLength : Nat) (a : Answer) (g : Conn κ) (cell : Nat) : Conn κ × Bool :=
  match a.provided with
  | none => (g, false)
  | some (bytes, again) =>
    let streamPrefix := (g.reg.data cell).streamPrefix
    let g := if again then { g with reg := mark g.reg cell true } else g
    if bytes = [] then (g, false)
    else
      -- it counts as sent, also if there is no buffer for it
      ({ g with
          lastDatagramPrefix := streamPrefix
          sent := g.sent ++
            if bytes.length + encodingLength ≤ space ∧ a.buffer = true then
              [enc encodingLength (quarterStreamId streamPrefix) ++ bytes]
            else [] }, true)

/-- `h3zero_callback_prepare_datagram_in_context`; `enc` is `picoquic_frames_varint_encode`. -/
def prepareDatagramInContext (enc : VarintEncode) (space : Nat) (answer : Nat → Answer) (g : Conn κ) (cell : Nat) :
    Option (Conn κ × Bool) :=
  let c := g.reg.data cell
  if c.readyToSendDatagrams = true ∧ c.functionCall.isSome = true then
    let g := { g with reg := mark g.reg cell false }
    let encoding := enc 8 (quarterStreamId c.streamPrefix)
    -- the mark is gone also where there is no room for the quarter stream id
    if encoding ≠ [] ∧ encoding.length < space then
      ((answer c.streamPrefix).marks.foldlM Conn.setDatagramReady
        { g with asked := g.asked ++ [c.streamPrefix] }).map fun g =>
          provide enc space encoding.length (answer c.streamPrefix) g cell
    else some (g, false)
  else some (g, false)

/-- `data_sent`, `still_active` and `all_checked` in the loops, and as history the cells gone through. -/
structure Scan (κ : Type) where
  g : Conn κ
  dataSent : Bool
  stillActive : Bool
  allChecked : Bool
  polled : List Nat

/-- One of the two polling loops, from cell to cell; the second one has a cell at which it ends. -/
def scan (enc : VarintEncode) (space : Nat) (answer : Nat → Answer) (stop : Option Nat) :
    Nat → Option Nat → Scan κ → Option (Scan κ)
  | _, none, r => some r
  | 0, some _, _ => none
  | n + 1, some cell, r =>
    (prepareDatagramInContext enc space answer r.g cell).bind fun (g, sent) =>
      let r' : Scan κ := ⟨g, sent, r.stillActive || (g.reg.data cell).readyToSendDatagrams, r.allChecked,
        r.polled ++ [cell]⟩
      if sent then some r'
      else if some cell = stop then some { r' with allChecked := true }
      else scan enc space answer stop n (g.reg.links.next cell) r'

/-- The loop that looks at all marks, unless one was seen. -/
def recheck (r : Scan κ) : Option Bool :=
  if r.stillActive then some true
  else
    (walk r.g.reg.links.next (fun x => (r.g.reg.data x).readyToSendDatagrams) r.g.reg.live.length
      r.g.reg.links.first).map (·.isSome)

/-- Both polling loops: the prefixes behind the one that sent last, then those up to it. -/
def pollAll (enc : VarintEncode) (space : Nat) (answer : Nat → Answer) (g : Conn κ) : Option (Scan κ) :=
  (findStreamPrefix g.reg g.lastDatagramPrefix).bind fun previous =>
    (scan enc space answer none g.reg.live.length (previous.bind g.reg.links.next) ⟨g, false, false, false, []⟩).bind
      fun r => if r.dataSent then some r else scan enc space answer previous g.reg.live.length r.g.reg.links.first r

/-- `h3zero_callback_prepare_datagram`. -/
def prepareDatagram (enc : VarintEncode) (space : Nat) (answer : Nat → Answer) (g : Conn κ) : Option (Conn κ) :=
  (pollAll enc space answer g).bind fun r =>
    (if r.allChecked then some r.stillActive else recheck r).map fun active =>
      { r.g with ready := active, turns := r.g.turns ++ [r.polled.map fun x => (g.reg.data x).streamPrefix] }

/-! ## Marks -/

/-- Of the registry nothing changes but marks. -/
structure Same (s s' : State κ) : Prop where
  links : s'.links = s.links
  live : s'.live = s.live
  allocated : s'.allocated = s.allocated
  log : s'.log = s.log
  streamPrefix : ∀ x, (s'.data x).streamPrefix = (s.data x).streamPrefix
  functionCall : ∀ x, (s'.data x).functionCall = (s.data x).functionCall

theorem Same.refl (s : State κ) : Same s s := ⟨rfl, rfl, rfl, rfl, fun _ => rfl, fun _ => rfl⟩

theorem Same.trans {s s' s'' : State κ} (h : Same s s') (h' : Same s' s'') : Same s s'' :=
  ⟨h'.links.trans h.links, h'.live.trans h.live, h'.allocated.trans h.allocated, h'.log.trans h.log,
    fun x => (h'.streamPrefix x).trans (h.streamPrefix x), fun x => (h'.functionCall x).trans (h.functionCall x)⟩

theorem Same.kept {s s' : State κ} {xs : List Nat} (h : Same s s') (hk : Kept s xs) : Kept s' xs := by
  refine ⟨⟨?_, ?_, hk.holds.nodup, ?_⟩, ?_⟩
  · rw [h.links]
    exact hk.holds.list
  · rw [h.live]
    exact hk.holds.live
  · simp only [h.streamPrefix]
    exact hk.holds.prefixes
  · rw [h.allocated, h.live, h.log]
    exact hk.cells

theorem mark_data (s : State κ) (cell : Nat) (b : Bool) :
    (mark s cell b).data = Function.update s.data cell { s.data cell with readyToSendDatagrams := b } := rfl

theorem mark_self (s : State κ) (cell : Nat) (b : Bool) : ((mark s cell b).data cell).readyToSendDatagrams = b := by
  rw [mark_data, Function.update_self]

theorem mark_other (s : State κ) {cell x : Nat} (h : x ≠ cell) (b : Bool) : (mark s cell b).data x = s.data x :=
  Function.update_of_ne h _ _

theorem mark_same (s : State κ) (cell : Nat) (b : Bool) : Same s (mark s cell b) := by
  refine ⟨rfl, rfl, rfl, rfl, fun x => ?_, fun x => ?_⟩
  · by_cases hx : x = cell
    · rw [hx, mark_data, Function.update_self]
    · rw [mark_other s hx]
  · by_cases hx : x = cell
    · rw [hx, mark_data, Function.update_self]
    · rw [mark_other s hx]

/-- The prefix of the cell is marked ready. -/
def Conn.Marked (g : Conn κ) (x : Nat) : Prop := (g.reg.data x).readyToSendDatagrams = true

/-- The prefix of the cell. -/
def Conn.prefixOf (g : Conn κ) (x : Nat) : Nat := (g.reg.data x).streamPrefix

/-- Prefixes among `ms` were marked, and nothing else was done. -/
structure MarkedBy (ms : List Nat) (g g' : Conn κ) : Prop where
  same : Same g.reg g'.reg
  last : g'.lastDatagramPrefix = g.lastDatagramPrefix
  sent : g'.sent = g.sent
  asked : g'.asked = g.asked
  turns : g'.turns = g.turns
  keeps : ∀ x, g.Marked x → g'.Marked x
  only : ∀ x, g'.Marked x → g.Marked x ∨ g.prefixOf x ∈ ms

section Marks

variable {g : Conn κ} {xs : List Nat}

/-- `h3zero_set_datagram_ready` returns, and tells picoquic of what it marks. -/
theorem setDatagramReady_markedBy (hk : Kept g.reg xs) (p : Nat) :
    ∃ g', g.setDatagramReady p = some g' ∧ MarkedBy [p] g g' ∧ (g.ready = true → g'.ready = true) ∧
      ∀ x ∈ xs, g.prefixOf x = p → g'.ready = true := by
  unfold Conn.setDatagramReady Registry.setDatagramReady
  rw [hk.holds.find p]
  cases hx : xs.find? fun x => (g.reg.data x).streamPrefix = p with
  | none =>
    refine ⟨_, rfl, ⟨.refl _, rfl, rfl, rfl, rfl, fun x h => h, fun x h => .inl h⟩, by simp, fun x hmem hp => ?_⟩
    exact absurd hp (by simpa [Conn.prefixOf] using List.find?_eq_none.1 hx x hmem)
  | some cell =>
    have hp : (g.reg.data cell).streamPrefix = p := by simpa using List.find?_some hx
    refine ⟨_, rfl, ⟨mark_same g.reg cell true, rfl, rfl, rfl, rfl, fun x h => ?_, fun x h => ?_⟩, by simp, by simp⟩
    · show ((mark g.reg cell true).data x).readyToSendDatagrams = true
      by_cases hxc : x = cell
      · rw [hxc]
        exact mark_self _ _ _
      · rw [mark_other _ hxc]
        exact h
    · by_cases hxc : x = cell
      · exact .inr (by rw [Conn.prefixOf, hxc, hp]; exact List.mem_singleton_self p)
      · left
        have h' : ((mark g.reg cell true).data x).readyToSendDatagrams = true := h
        rwa [mark_other _ hxc] at h'

/-- So does one call after the other. -/
theorem marks_markedBy : ∀ (ms : List Nat) {g : Conn κ}, Kept g.reg xs →
    ∃ g', ms.foldlM Conn.setDatagramReady g = some g' ∧ MarkedBy ms g g'
  | [], g, _ => ⟨g, rfl, .refl _, rfl, rfl, rfl, rfl, fun _ h => h, fun _ h => .inl h⟩
  | m :: ms, g, hk => by
    obtain ⟨g1, h1, hm, -, -⟩ := setDatagramReady_markedBy hk m
    obtain ⟨g2, h2, hms⟩ := marks_markedBy ms (hm.same.kept hk)
    refine ⟨g2, ?_, hm.same.trans hms.same, hms.last.trans hm.last, hms.sent.trans hm.sent, hms.asked.trans hm.asked,
      hms.turns.trans hm.turns, fun x h => hms.keeps x (hm.keeps x h), fun x h => ?_⟩
    · rw [List.foldlM_cons, h1]
      exact h2
    · rcases hms.only x h with h | h
      · rcases hm.only x h with h | h
        · exact .inl h
        · exact .inr (List.mem_cons.2 (.inl (List.mem_singleton.1 h)))
      · rw [Conn.prefixOf, hm.same.streamPrefix] at h
        exact .inr (List.mem_cons_of_mem _ h)

end Marks

/-! ## One poll -/

/-- The application of prefix `p` wrote datagram `d`: the quarter stream id, and its bytes. -/
def Written (space : Nat) (answer : Nat → Answer) (p : Nat) (d : List UInt8) : Prop :=
  ∃ bytes again, (answer p).provided = some (bytes, again) ∧ bytes ≠ [] ∧
    d = Varint.encode (quarterStreamId p) ++ bytes ∧ d.length ≤ space

/-- What polling cell `x` comes to. -/
structure Poll (space : Nat) (answer : Nat → Answer) (x : Nat) (g g' : Conn κ) (sent : Bool) : Prop where
  same : Same g.reg g'.reg
  keeps : ∀ y, y ≠ x → g.Marked y → g'.Marked y
  only : ∀ y, y ≠ x → g'.Marked y → g.Marked y ∨ g.prefixOf y ∈ (answer (g.prefixOf x)).marks
  last : g'.lastDatagramPrefix = if sent then g.prefixOf x else g.lastDatagramPrefix
  turns : g'.turns = g.turns
  asked : ∃ ps, g'.asked = g.asked ++ ps ∧ ps.length ≤ 1 ∧ (∀ p ∈ ps, p = g.prefixOf x) ∧
    (g.Marked x → (g.reg.data x).functionCall.isSome = true → 8 < space → g.prefixOf x ∈ ps)
  wrote : ∃ ds, g'.sent = g.sent ++ ds ∧ ds.length ≤ 1 ∧ (ds ≠ [] → sent = true) ∧
    ∀ d ∈ ds, Written space answer (g.prefixOf x) d

section Poll

variable {enc : VarintEncode} {space : Nat} {answer : Nat → Answer} {g : Conn κ} {xs : List Nat}

theorem quarterStreamId_lt (p : Nat) : quarterStreamId p < 2 ^ 62 := by
  have hlt := Nat.mod_lt p (by decide : 0 < 2 ^ 64)
  unfold quarterStreamId
  omega

/-- The quarter stream id takes what it needs, of its buffer and of the datagram. -/
theorem encodes_quarter (henc : enc.Shortest) (p : Nat) :
    enc 8 (quarterStreamId p) = Varint.encode (quarterStreamId p) ∧
      enc (Varint.encode (quarterStreamId p)).length (quarterStreamId p) = Varint.encode (quarterStreamId p) := by
  have hsize := Varint.size_le (quarterStreamId p)
  constructor
  · rw [henc _ _ (quarterStreamId_lt p)]
    exact if_pos hsize
  · rw [henc _ _ (quarterStreamId_lt p), Varint.encode_length]
    exact if_pos le_rfl

/-- The application's answer. -/
theorem provide_poll (henc : enc.Shortest) {x : Nat} {g' : Conn κ} {sent : Bool}
    (h : provide enc space (Varint.encode (quarterStreamId (g.prefixOf x))).length (answer (g.prefixOf x)) g x =
      (g', sent)) :
    Same g.reg g'.reg ∧ (∀ y, y ≠ x → g'.reg.data y = g.reg.data y) ∧
      g'.lastDatagramPrefix = (if sent then g.prefixOf x else g.lastDatagramPrefix) ∧ g'.turns = g.turns ∧
      g'.asked = g.asked ∧ ∃ ds, g'.sent = g.sent ++ ds ∧ ds.length ≤ 1 ∧ (ds ≠ [] → sent = true) ∧
        ∀ d ∈ ds, Written space answer (g.prefixOf x) d := by
  unfold provide at h
  cases hp : (answer (g.prefixOf x)).provided with
  | none =>
    rw [hp] at h
    cases h
    exact ⟨.refl _, fun _ _ => rfl, rfl, rfl, rfl, [], (List.append_nil _).symm, by simp⟩
  | some w =>
    obtain ⟨bytes, again⟩ := w
    simp only [hp] at h
    -- `ready_to_send` marks the prefix itself
    have hg : ∀ g1 : Conn κ, g1 = (if again then { g with reg := mark g.reg x true } else g) →
        Same g.reg g1.reg ∧ (∀ y, y ≠ x → g1.reg.data y = g.reg.data y) ∧
          g1.lastDatagramPrefix = g.lastDatagramPrefix ∧ g1.turns = g.turns ∧ g1.asked = g.asked ∧
          g1.sent = g.sent := by
      rintro g1 rfl
      cases again with
      | false => exact ⟨.refl _, fun _ _ => rfl, rfl, rfl, rfl, rfl⟩
      | true => exact ⟨mark_same _ _ _, fun y hy => mark_other _ hy _, rfl, rfl, rfl, rfl⟩
    obtain ⟨h1, h2, h3, h4, h5, h6⟩ := hg _ rfl
    by_cases hb : bytes = []
    · rw [if_pos hb] at h
      cases h
      exact ⟨h1, h2, h3, h4, h5, [], by rw [h6, List.append_nil], by simp⟩
    · rw [if_neg hb] at h
      cases h
      refine ⟨h1, h2, rfl, h4, h5, _, by rw [h6], ?_, fun _ => rfl, fun d hd => ?_⟩
      · split_ifs <;> simp
      · split_ifs at hd with hroom
        · rw [List.mem_singleton.1 hd]
          have hcode := (encodes_quarter henc (g.prefixOf x)).2
          refine ⟨bytes, again, hp, hb, congrArg (· ++ bytes) hcode, ?_⟩
          show (enc _ (quarterStreamId (g.prefixOf x)) ++ bytes).length ≤ space
          rw [hcode, List.length_append, Nat.add_comm]
          exact hroom.1
        · cases hd

/-- A poll returns. -/
theorem prepareDatagramInContext_poll (henc : enc.Shortest) (space : Nat) (answer : Nat → Answer) (hk : Kept g.reg xs)
    (x : Nat) :
    ∃ g' sent, prepareDatagramInContext enc space answer g x = some (g', sent) ∧ Poll space answer x g g' sent := by
  have hcode : enc 8 (quarterStreamId (g.reg.data x).streamPrefix) = Varint.encode (quarterStreamId (g.prefixOf x)) :=
    (encodes_quarter henc (g.prefixOf x)).1
  unfold prepareDatagramInContext
  simp only [hcode]
  by_cases hready : (g.reg.data x).readyToSendDatagrams = true ∧ (g.reg.data x).functionCall.isSome = true
  · rw [if_pos hready]
    have hun : ∀ y, y ≠ x → (mark g.reg x false).data y = g.reg.data y := fun y hy => mark_other _ hy _
    by_cases hroom : (Varint.encode (quarterStreamId (g.prefixOf x))).length < space
    · rw [if_pos ⟨Varint.encode_ne_nil _, hroom⟩]
      obtain ⟨g1, h1, hm⟩ := marks_markedBy (answer (g.prefixOf x)).marks
        (g := { g with reg := mark g.reg x false, asked := g.asked ++ [g.prefixOf x] })
        ((mark_same g.reg x false).kept hk)
      -- the marks that the application sets leave the prefixes alone
      have hpre : g1.prefixOf x = g.prefixOf x :=
        (hm.same.streamPrefix x).trans ((mark_same g.reg x false).streamPrefix x)
      obtain ⟨g2, sent, h2⟩ : ∃ g2 sent, provide enc space (Varint.encode (quarterStreamId (g.prefixOf x))).length
          (answer (g.prefixOf x)) g1 x = (g2, sent) := ⟨_, _, rfl⟩
      have h2' : provide enc space (Varint.encode (quarterStreamId (g1.prefixOf x))).length (answer (g1.prefixOf x))
          g1 x = (g2, sent) := by
        rw [hpre]
        exact h2
      obtain ⟨p1, p2, p3, p4, p5, ds, p6, p7, p8, p9⟩ := provide_poll henc h2'
      refine ⟨g2, sent, (congrArg (Option.map _) h1).trans (congrArg some h2),
        (mark_same _ _ _).trans (hm.same.trans p1), fun y hy h => ?_, fun y hy h => ?_, ?_, p4.trans hm.turns,
        ⟨[g.prefixOf x], p5.trans hm.asked, by simp, by simp, by simp⟩, ds, ?_, p7, p8, by rw [← hpre]; exact p9⟩
      · show (g2.reg.data y).readyToSendDatagrams = true
        rw [p2 y hy]
        refine hm.keeps y ?_
        show ((mark g.reg x false).data y).readyToSendDatagrams = true
        rw [hun y hy]
        exact h
      · have h' : (g2.reg.data y).readyToSendDatagrams = true := h
        rw [p2 y hy] at h'
        rcases hm.only y h' with h | h
        · left
          have h' : ((mark g.reg x false).data y).readyToSendDatagrams = true := h
          rwa [hun y hy] at h'
        · right
          have h' : ((mark g.reg x false).data y).streamPrefix ∈ (answer (g.prefixOf x)).marks := h
          rwa [hun y hy] at h'
      · rw [hpre, hm.last] at p3
        exact p3
      · rw [← hm.sent]
        exact p6
    · rw [if_neg fun h => hroom h.2]
      -- no room: the cell loses its mark and is not asked
      refine ⟨_, _, rfl, mark_same _ _ _, fun y hy h => ?_, fun y hy h => .inl ?_, rfl, rfl,
        ⟨[], (List.append_nil _).symm, by simp, by simp, fun _ _ hs => absurd ?_ hroom⟩, [],
        (List.append_nil _).symm, by simp⟩
      · show ((mark g.reg x false).data y).readyToSendDatagrams = true
        rw [hun y hy]
        exact h
      · have h' : ((mark g.reg x false).data y).readyToSendDatagrams = true := h
        rwa [hun y hy] at h'
      · rw [Varint.encode_length]
        exact lt_of_le_of_lt (Varint.size_le _) hs
  · rw [if_neg hready]
    exact ⟨g, false, rfl, .refl _, fun _ _ h => h, fun _ _ h => .inl h, rfl, rfl,
      ⟨[], (List.append_nil _).symm, by simp, by simp, fun h1 h2 _ => absurd ⟨h1, h2⟩ hready⟩, [],
      (List.append_nil _).symm, by simp⟩

end Poll

/-! ## One turn -/

/-- What the loops note of a poll. -/
def Scan.after (r : Scan κ) (x : Nat) (g : Conn κ) (sent : Bool) : Scan κ :=
  ⟨g, sent, r.stillActive || (g.reg.data x).readyToSendDatagrams, r.allChecked, r.polled ++ [x]⟩

/-- Of the cells of a turn, `polled` are polled one after the other, up to the first that sends; `rest` are left. -/
inductive Turn (space : Nat) (answer : Nat → Answer) : Scan κ → List Nat → List Nat → Scan κ → Prop where
  | done (r : Scan κ) (h : r.dataSent = false) : Turn space answer r [] [] r
  | sent {r : Scan κ} {x : Nat} {g : Conn κ} (rest : List Nat) (h : Poll space answer x r.g g true) :
    Turn space answer r [x] rest (r.after x g true)
  | on {r r' : Scan κ} {x : Nat} {polled rest : List Nat} {g : Conn κ} (h : Poll space answer x r.g g false)
    (ht : Turn space answer (r.after x g false) polled rest r') : Turn space answer r (x :: polled) rest r'

section Turn

variable {space : Nat} {answer : Nat → Answer} {r r' r'' : Scan κ} {polled rest : List Nat}

theorem Turn.same (h : Turn space answer r polled rest r') : Same r.g.reg r'.g.reg := by
  induction h with
  | done r h => exact .refl _
  | sent rest h => exact h.same
  | on h ht ih => exact h.same.trans ih

theorem Turn.allChecked (h : Turn space answer r polled rest r') : r'.allChecked = r.allChecked := by
  induction h with
  | done r h => rfl
  | sent rest h => rfl
  | on h ht ih => exact ih

theorem Turn.polled_eq (h : Turn space answer r polled rest r') : r'.polled = r.polled ++ polled := by
  induction h with
  | done r h => exact (List.append_nil _).symm
  | sent rest h => rfl
  | on h ht ih => rw [ih, Scan.after, List.append_assoc, List.singleton_append]

theorem Turn.turns (h : Turn space answer r polled rest r') : r'.g.turns = r.g.turns := by
  induction h with
  | done r h => rfl
  | sent rest h => exact h.turns
  | on h ht ih => exact ih.trans h.turns

/-- A turn in which none sends goes through all. -/
theorem Turn.all (h : Turn space answer r polled rest r') (hs : r'.dataSent = false) :
    rest = [] ∧ r'.g.lastDatagramPrefix = r.g.lastDatagramPrefix := by
  induction h with
  | done r h => exact ⟨rfl, rfl⟩
  | sent rest h => cases hs
  | on h ht ih => exact ⟨(ih hs).1, (ih hs).2.trans h.last⟩

/-- The one that sends is the last that is polled. -/
theorem Turn.sender (h : Turn space answer r polled rest r') (hs : r'.dataSent = true) :
    ∃ ys y, polled = ys ++ [y] ∧ r'.g.lastDatagramPrefix = r.g.prefixOf y := by
  induction h with
  | done r h =>
    rw [h] at hs
    cases hs
  | @sent r x g rest h => exact ⟨[], x, rfl, h.last⟩
  | @on r r' x polled rest g h ht ih =>
    obtain ⟨ys, y, rfl, hy⟩ := ih hs
    exact ⟨x :: ys, y, rfl, hy.trans (h.same.streamPrefix y)⟩

theorem Turn.append_sent (h : Turn space answer r polled rest r') (hs : r'.dataSent = true) (more : List Nat) :
    Turn space answer r polled (rest ++ more) r' := by
  induction h with
  | done r h =>
    rw [h] at hs
    cases hs
  | sent rest h => exact .sent _ h
  | on h ht ih => exact .on h (ih hs)

/-- A turn in which none has sent goes on. -/
theorem Turn.append {as : List Nat} (h : Turn space answer r as [] r') (hs : r'.dataSent = false)
    (h' : Turn space answer r' polled rest r'') : Turn space answer r (as ++ polled) rest r'' := by
  generalize hnil : ([] : List Nat) = none at h
  induction h with
  | done r h => exact h'
  | sent rest h => cases hs
  | on h ht ih => exact .on h (ih hs h' hnil)

/-- What is sent: at most one datagram, of one of the prefixes polled. -/
theorem Turn.wrote (h : Turn space answer r polled rest r') :
    ∃ ds, r'.g.sent = r.g.sent ++ ds ∧ ds.length ≤ 1 ∧
      ∀ d ∈ ds, ∃ x ∈ polled, Written space answer (r.g.prefixOf x) d := by
  induction h with
  | done r h => exact ⟨[], (List.append_nil _).symm, by simp, by simp⟩
  | @sent r x g rest h =>
    obtain ⟨ds, h1, h2, -, h4⟩ := h.wrote
    exact ⟨ds, h1, h2, fun d hd => ⟨x, List.mem_singleton_self x, h4 d hd⟩⟩
  | @on r r' x polled rest g h ht ih =>
    obtain ⟨ds, h1, -, h3, -⟩ := h.wrote
    obtain ⟨ds', h1', h2', h4'⟩ := ih
    have hds : ds = [] := by
      by_contra hne
      cases h3 hne
    subst hds
    refine ⟨ds', ?_, h2', fun d hd => ?_⟩
    · rw [h1']
      show g.sent ++ ds' = r.g.sent ++ ds'
      rw [h1, List.append_nil]
    · obtain ⟨y, hy, hw⟩ := h4' d hd
      refine ⟨y, List.mem_cons_of_mem _ hy, ?_⟩
      have hp : g.prefixOf y = r.g.prefixOf y := h.same.streamPrefix y
      rw [← hp]
      exact hw

/-- The applications asked are those of prefixes polled, each at most once, and of each that was marked before if there
is room. -/
theorem Turn.asked (h : Turn space answer r polled rest r') (hnd : polled.Nodup) :
    ∃ ps, r'.g.asked = r.g.asked ++ ps ∧ ps.Sublist (polled.map r.g.prefixOf) ∧
      ∀ y ∈ polled, r.g.Marked y → (r.g.reg.data y).functionCall.isSome = true → 8 < space → r.g.prefixOf y ∈ ps := by
  have hone : ∀ {ps : List Nat} {p : Nat}, ps.length ≤ 1 → (∀ q ∈ ps, q = p) → ps.Sublist [p] := by
    intro ps p hlen hall
    match ps, hlen, hall with
    | [], _, _ => exact List.nil_sublist _
    | [q], _, hall => rw [hall q (List.mem_singleton_self q)]
  induction h with
  | done r h => exact ⟨[], (List.append_nil _).symm, List.Sublist.refl _, by simp⟩
  | @sent r x g rest h =>
    obtain ⟨ps, h1, hlen, h2, h3⟩ := h.asked
    exact ⟨ps, h1, hone hlen h2, fun y hy => by rw [List.mem_singleton.1 hy]; exact h3⟩
  | @on r r' x polled rest g h ht ih =>
    obtain ⟨ps, h1, hlen, h2, h3⟩ := h.asked
    obtain ⟨hx, hnd⟩ := List.nodup_cons.1 hnd
    obtain ⟨qs, h1', h2', h3'⟩ := ih hnd
    have hp : g.prefixOf = r.g.prefixOf := funext h.same.streamPrefix
    refine ⟨ps ++ qs, ?_, ?_, fun y hy hm hc hs => ?_⟩
    · rw [h1']
      show g.asked ++ qs = _
      rw [h1, List.append_assoc]
    · have hqs : qs.Sublist (polled.map g.prefixOf) := h2'
      rw [hp] at hqs
      exact (hone hlen h2).append hqs
    · rcases List.mem_cons.1 hy with rfl | hy
      · exact List.mem_append_left _ (h3 hm hc hs)
      · -- it is still marked when its turn comes
        have hne : y ≠ x := fun heq => hx (heq ▸ hy)
        have hq : g.prefixOf y ∈ qs :=
          h3' y hy (h.keeps y hne hm) (by show (g.reg.data y).functionCall.isSome = true; rwa [h.same.functionCall]) hs
        rw [hp] at hq
        exact List.mem_append_right _ hq

/-- A mark stays until its prefix is polled. -/
theorem Turn.keeps (h : Turn space answer r polled rest r') {y : Nat} (hy : y ∉ polled) (hm : r.g.Marked y) :
    r'.g.Marked y := by
  induction h with
  | done r h => exact hm
  | sent rest h => exact h.keeps y (List.ne_of_not_mem_cons hy) hm
  | on h ht ih => exact ih (List.not_mem_of_not_mem_cons hy) (h.keeps y (List.ne_of_not_mem_cons hy) hm)

/-- What the loops have seen marked is marked. -/
theorem Turn.active (h : Turn space answer r polled rest r') (hnd : polled.Nodup) (hs : r'.stillActive = true) :
    r.stillActive = true ∨ ∃ x ∈ polled, r'.g.Marked x := by
  induction h with
  | done r h => exact .inl hs
  | @sent r x g rest h =>
    rcases Bool.or_eq_true_iff.1 hs with hs | hs
    · exact .inl hs
    · exact .inr ⟨x, List.mem_singleton_self x, hs⟩
  | @on r r' x polled rest g h ht ih =>
    obtain ⟨hx, hnd⟩ := List.nodup_cons.1 hnd
    rcases ih hnd hs with hs | ⟨y, hy, hm⟩
    · rcases Bool.or_eq_true_iff.1 hs with hs | hs
      · exact .inl hs
      · exact .inr ⟨x, List.mem_cons_self, ht.keeps hx hs⟩
    · exact .inr ⟨y, List.mem_cons_of_mem _ hy, hm⟩

theorem Turn.active_mono (h : Turn space answer r polled rest r') (hs : r.stillActive = true) :
    r'.stillActive = true := by
  induction h with
  | done r h => exact hs
  | sent rest h => exact Bool.or_eq_true_iff.2 (.inl hs)
  | on h ht ih => exact ih (Bool.or_eq_true_iff.2 (.inl hs))

/-- Every application marks its own prefix only. -/
def OwnMarks (answer : Nat → Answer) : Prop := ∀ p, ∀ m ∈ (answer p).marks, m = p

/-- If applications mark their own prefixes only, no mark appears at a prefix that is not polled. -/
theorem Turn.only (h : Turn space answer r polled rest r') (ho : OwnMarks answer) {y : Nat} (hy : y ∉ polled)
    (hp : ∀ x ∈ polled, r.g.prefixOf x ≠ r.g.prefixOf y) (hm : r'.g.Marked y) : r.g.Marked y := by
  have hone : ∀ {r : Scan κ} {x : Nat} {g : Conn κ} {sent : Bool}, Poll space answer x r.g g sent → y ≠ x →
      r.g.prefixOf x ≠ r.g.prefixOf y → g.Marked y → r.g.Marked y := by
    intro r x g sent h hne hp hm
    refine (h.only y hne hm).resolve_right fun hmem => hp ?_
    exact (ho _ _ hmem).symm
  induction h with
  | done r h => exact hm
  | sent rest h => exact hone h (List.ne_of_not_mem_cons hy) (hp _ List.mem_cons_self) hm
  | @on r r' x polled rest g h ht ih =>
    refine hone h (List.ne_of_not_mem_cons hy) (hp _ List.mem_cons_self)
      (ih (List.not_mem_of_not_mem_cons hy) (fun z hz => ?_) hm)
    have heq : g.prefixOf = r.g.prefixOf := funext h.same.streamPrefix
    show g.prefixOf z ≠ g.prefixOf y
    rw [heq]
    exact hp z (List.mem_cons_of_mem _ hz)

/-- Then the loops have seen every mark at the prefixes they polled. -/
theorem Turn.seen (h : Turn space answer r polled rest r') (ho : OwnMarks answer)
    (hnd : (polled.map r.g.prefixOf).Nodup) {x : Nat} (hx : x ∈ polled) (hm : r'.g.Marked x) :
    r'.stillActive = true := by
  induction h with
  | done r h => cases hx
  | @sent r y g rest h =>
    rw [List.mem_singleton.1 hx] at hm
    exact Bool.or_eq_true_iff.2 (.inr hm)
  | @on r r' y polled rest g h ht ih =>
    have heq : g.prefixOf = r.g.prefixOf := funext h.same.streamPrefix
    obtain ⟨hy, hnd⟩ := List.nodup_cons.1 hnd
    have hne : ∀ z ∈ polled, r.g.prefixOf z ≠ r.g.prefixOf y := by
      intro z hz heq
      exact hy (heq ▸ List.mem_map_of_mem hz)
    rcases List.mem_cons.1 hx with rfl | hx
    · -- it was marked right after its own poll, and was seen then
      refine ht.active_mono (Bool.or_eq_true_iff.2 (.inr (ht.only ho (fun hmem => hne x hmem rfl) ?_ hm)))
      show ∀ z ∈ polled, g.prefixOf z ≠ g.prefixOf x
      rw [heq]
      exact hne
    · refine ih ?_ hx hm
      show (polled.map g.prefixOf).Nodup
      rw [heq]
      exact hnd

end Turn

/-! ## The loops -/

section Loops

variable {enc : VarintEncode} {space : Nat} {answer : Nat → Answer} {xs : List Nat}

theorem scan_cons {stop : Option Nat} {n cell : Nat} {r : Scan κ} {g : Conn κ} {sent : Bool}
    (h : prepareDatagramInContext enc space answer r.g cell = some (g, sent)) :
    scan enc space answer stop (n + 1) (some cell) r =
      if sent then some (r.after cell g sent)
      else if some cell = stop then some { r.after cell g sent with allChecked := true }
      else scan enc space answer stop n (g.reg.links.next cell) (r.after cell g sent) := by
  rw [scan, h]
  rfl

/-- A loop that does not meet the cell at which it ends goes through the list. -/
theorem scan_through (henc : enc.Shortest) (space : Nat) (answer : Nat → Answer) (stop : Option Nat) :
    ∀ {cells : List Nat} {n : Nat} {a : Option Nat} {r : Scan κ},
    Kept r.g.reg xs → Seg r.g.reg.links.next a cells none → cells.length ≤ n → r.dataSent = false →
    (∀ x ∈ cells, some x ≠ stop) →
    ∃ r' polled rest, scan enc space answer stop n a r = some r' ∧ Turn space answer r polled rest r' ∧
      cells = polled ++ rest
  | [], n, a, r, _, hseg, _, hs, _ => by
    have ha : a = none := hseg
    subst ha
    exact ⟨r, [], [], by cases n <;> rfl, .done r hs, rfl⟩
  | x :: cells, 0, a, r, _, _, hn, _, _ => by simp at hn
  | x :: cells, n + 1, a, r, hk, hseg, hn, hs, hstop => by
    obtain ⟨rfl, hseg⟩ := hseg
    obtain ⟨g, sent, h1, hp⟩ := prepareDatagramInContext_poll henc space answer hk x
    rw [scan_cons h1]
    cases sent with
    | true => exact ⟨_, [x], cells, rfl, .sent cells hp, rfl⟩
    | false =>
      rw [if_neg (by simp), if_neg (hstop x List.mem_cons_self)]
      rw [← hp.same.links] at hseg
      obtain ⟨r', polled, rest, h2, ht, rfl⟩ := scan_through henc space answer stop (r := r.after x g false)
        (hp.same.kept hk) hseg (Nat.le_of_succ_le_succ hn) rfl fun y hy => hstop y (List.mem_cons_of_mem _ hy)
      exact ⟨r', x :: polled, rest, h2, .on hp ht, rfl⟩

/-- The second loop ends behind its last cell, and notes if none has sent. -/
theorem scan_upTo (henc : enc.Shortest) (space : Nat) (answer : Nat → Answer) {y : Nat} {zs : List Nat} :
    ∀ {as : List Nat} {n : Nat} {a : Option Nat} {r : Scan κ},
    Kept r.g.reg xs → Seg r.g.reg.links.next a (as ++ y :: zs) none → (as ++ y :: zs).length ≤ n → y ∉ as →
    ∃ r' polled rest, scan enc space answer (some y) n a r =
        some (if r'.dataSent then r' else { r' with allChecked := true }) ∧
      Turn space answer r polled rest r' ∧ as ++ [y] = polled ++ rest
  | _, 0, _, _, _, _, hn, _ => by simp at hn
  | [], n + 1, a, r, hk, hseg, hn, _ => by
    obtain ⟨rfl, hseg⟩ := hseg
    obtain ⟨g, sent, h1, hp⟩ := prepareDatagramInContext_poll henc space answer hk y
    rw [scan_cons h1]
    cases sent with
    | true => exact ⟨_, [y], [], rfl, .sent [] hp, rfl⟩
    | false => exact ⟨_, [y], [], by simp [Scan.after], .on hp (.done _ rfl), rfl⟩
  | x :: as, n + 1, a, r, hk, hseg, hn, hy => by
    obtain ⟨rfl, hseg⟩ := hseg
    obtain ⟨g, sent, h1, hp⟩ := prepareDatagramInContext_poll henc space answer hk x
    rw [scan_cons h1]
    cases sent with
    | true => exact ⟨_, [x], as ++ [y], rfl, .sent _ hp, rfl⟩
    | false =>
      have hne : some x ≠ some y := fun heq => List.ne_of_not_mem_cons hy (Option.some.inj heq).symm
      rw [if_neg (by simp), if_neg hne]
      rw [← hp.same.links] at hseg
      obtain ⟨r', polled, rest, h2, ht, heq⟩ := scan_upTo henc space answer (r := r.after x g false)
        (hp.same.kept hk) hseg (Nat.le_of_succ_le_succ hn) (List.not_mem_of_not_mem_cons hy)
      exact ⟨r', x :: polled, rest, h2, .on hp ht, by rw [List.cons_append, heq, List.cons_append]⟩

/-- The state in which the loops begin. -/
def Conn.start (g : Conn κ) : Scan κ := ⟨g, false, false, false, []⟩

/-- Both loops make one turn, over the prefixes in the order behind the one that sent last. -/
theorem pollAll_turn (henc : enc.Shortest) (space : Nat) (answer : Nat → Answer) {g : Conn κ} (hk : Kept g.reg xs) :
    ∃ r' polled rest b, pollAll enc space answer g = some { r' with allChecked := b } ∧
      Turn space answer g.start polled rest r' ∧ (polled ++ rest).Perm xs ∧
      (polled ++ rest).map g.prefixOf = RoundRobin.order g.lastDatagramPrefix (xs.map g.prefixOf) ∧
      (b = true → r'.dataSent = false) := by
  have hlen : xs.length ≤ g.reg.live.length := hk.holds.length_le
  unfold pollAll
  rw [hk.holds.find]
  cases hx : xs.find? fun x => (g.reg.data x).streamPrefix = g.lastDatagramPrefix with
  | none =>
    -- there is nothing behind it
    have hlast : g.lastDatagramPrefix ∉ xs.map g.prefixOf := by
      intro hmem
      obtain ⟨x, hmem, hp⟩ := List.mem_map.1 hmem
      exact absurd hp (by simpa [Conn.prefixOf] using List.find?_eq_none.1 hx x hmem)
    have hfirst : scan enc space answer none g.reg.live.length none ⟨g, false, false, false, []⟩ = some g.start := by
      cases g.reg.live.length <;> rfl
    obtain ⟨r', polled, rest, h1, ht, heq⟩ := scan_through henc space answer none (r := g.start) hk
      hk.holds.list.forth hlen rfl (by simp)
    refine ⟨r', polled, rest, r'.allChecked, ?_, ht, by rw [← heq], ?_, fun hb => ?_⟩
    · simp only [Option.bind_some, Option.bind_none, hfirst]
      exact h1
    · rw [← heq, RoundRobin.order_absent hlast]
    · rw [ht.allChecked] at hb
      cases hb
  | some y =>
    obtain ⟨as, zs, rfl, hp, hother⟩ := hk.holds.found hx
    have hnd := hk.holds.list.nodup
    have hnext : Seg g.reg.links.next (g.reg.links.next y) zs none := by
      obtain ⟨m, -, h2⟩ := seg_append.1 hk.holds.list.forth
      exact h2.2
    have hy : y ∉ as := fun hmem => (List.nodup_append.1 hnd).2.2 y hmem y List.mem_cons_self rfl
    have hpas : g.lastDatagramPrefix ∉ as.map g.prefixOf := by
      intro hmem
      obtain ⟨x, hmem, hp⟩ := List.mem_map.1 hmem
      exact hother x (List.mem_append_left _ hmem) hp
    have horder : RoundRobin.order g.lastDatagramPrefix ((as ++ y :: zs).map g.prefixOf) =
        (zs ++ (as ++ [y])).map g.prefixOf := by
      have hp' : g.prefixOf y = g.lastDatagramPrefix := hp
      rw [List.map_append, List.map_cons, hp', RoundRobin.order_mid hpas]
      simp [hp']
    have hperm : (zs ++ (as ++ [y])).Perm (as ++ y :: zs) := by
      refine List.perm_append_comm.trans ?_
      rw [List.append_assoc, List.singleton_append]
    have hzs : zs.length ≤ g.reg.live.length := by
      simp only [List.length_append, List.length_cons] at hlen
      omega
    obtain ⟨r1, polled, rest, h1, ht, hcells⟩ := scan_through henc space answer none (r := g.start) hk
      hnext hzs rfl (by simp)
    simp only [Option.bind_some]
    cases hs : r1.dataSent with
    | true =>
      subst hcells
      refine ⟨r1, polled, rest ++ (as ++ [y]), r1.allChecked, ?_, ht.append_sent hs _, ?_, ?_, fun hb => ?_⟩
      · rw [show scan enc space answer none g.reg.live.length (g.reg.links.next y) ⟨g, false, false, false, []⟩ =
          some r1 from h1, Option.bind_some, if_pos hs]
      · rwa [← List.append_assoc]
      · rw [← List.append_assoc, horder]
      · rw [ht.allChecked] at hb
        cases hb
    | false =>
      obtain ⟨rfl, -⟩ := ht.all hs
      rw [List.append_nil] at hcells
      subst hcells
      have hk1 : Kept r1.g.reg (as ++ y :: zs) := ht.same.kept hk
      have hforth : Seg r1.g.reg.links.next r1.g.reg.links.first (as ++ y :: zs) none := hk1.holds.list.forth
      have hlive : (as ++ y :: zs).length ≤ g.reg.live.length := hlen
      obtain ⟨r2, polled', rest', h2, ht', heq⟩ := scan_upTo henc space answer hk1 hforth hlive hy
      rw [heq, ← List.append_assoc] at hperm horder
      refine ⟨r2, zs ++ polled', rest', if r2.dataSent then r2.allChecked else true, ?_, ht.append hs ht', hperm,
        horder.symm, fun hb => ?_⟩
      · rw [show scan enc space answer none g.reg.live.length (g.reg.links.next y) ⟨g, false, false, false, []⟩ =
          some r1 from h1, Option.bind_some, if_neg (by simp [hs]), h2]
        split_ifs <;> rfl
      · cases hs2 : r2.dataSent with
        | false => rfl
        | true =>
          rw [hs2, if_pos rfl, ht'.allChecked, ht.allChecked] at hb
          cases hb

end Loops

/-! ## One call -/

/-- What a call comes to that polls the cells `polled` and leaves `rest`. -/
structure Prepared (space : Nat) (answer : Nat → Answer) (xs : List Nat) (g g' : Conn κ) (polled rest : List Nat) :
    Prop where
  same : Same g.reg g'.reg
  perm : (polled ++ rest).Perm xs
  order : (polled ++ rest).map g.prefixOf = RoundRobin.order g.lastDatagramPrefix (xs.map g.prefixOf)
  served : rest = [] ∨ ∃ ys y, polled = ys ++ [y] ∧ g'.lastDatagramPrefix = g.prefixOf y
  turns : g'.turns = g.turns ++ [polled.map g.prefixOf]
  wrote : ∃ ds, g'.sent = g.sent ++ ds ∧ ds.length ≤ 1 ∧
    ∀ d ∈ ds, ∃ x ∈ xs, Written space answer (g.prefixOf x) d
  asked : ∃ ps, g'.asked = g.asked ++ ps ∧ ps.Sublist (polled.map g.prefixOf) ∧
    ∀ y ∈ polled, g.Marked y → (g.reg.data y).functionCall.isSome = true → 8 < space → g.prefixOf y ∈ ps
  keeps : ∀ y, y ∉ polled → g.Marked y → g'.Marked y
  told : g'.ready = true → ∃ x ∈ xs, g'.Marked x
  owed : OwnMarks answer → ∀ x ∈ xs, g'.Marked x → g'.ready = true

section Call

variable {enc : VarintEncode} {space : Nat} {answer : Nat → Answer} {xs : List Nat}

/-- The last loop finds a mark if there is one. -/
theorem recheck_eq {r : Scan κ} (hk : Kept r.g.reg xs) :
    ∃ b, recheck r = some b ∧ (b = true ↔ r.stillActive = true ∨ ∃ x ∈ xs, r.g.Marked x) := by
  unfold recheck
  cases hs : r.stillActive with
  | true => exact ⟨true, rfl, by simp⟩
  | false =>
    have hwalk := walk_seg (fun x => (r.g.reg.data x).readyToSendDatagrams) hk.holds.list.forth hk.holds.length_le
    refine ⟨_, by rw [if_neg (by simp), hwalk]; rfl, ?_⟩
    rw [List.find?_isSome]
    simp [Conn.Marked]

/-- `h3zero_callback_prepare_datagram` returns. -/
theorem prepareDatagram_prepared (henc : enc.Shortest) {g : Conn κ} (hk : Kept g.reg xs) (space : Nat)
    (answer : Nat → Answer) :
    ∃ g' polled rest, prepareDatagram enc space answer g = some g' ∧ Prepared space answer xs g g' polled rest := by
  obtain ⟨r, polled, rest, b, h1, ht, hperm, horder, hb⟩ := pollAll_turn henc space answer hk
  have hk' : Kept r.g.reg xs := ht.same.kept hk
  have hnd : (polled ++ rest).Nodup := hperm.nodup_iff.2 hk.holds.list.nodup
  have hpnd : ((polled ++ rest).map g.prefixOf).Nodup := (hperm.map g.prefixOf).nodup_iff.2 hk.holds.prefixes
  have hsub : ∀ x ∈ polled, x ∈ xs := fun x hx => hperm.subset (List.mem_append_left _ hx)
  have hpolled : polled.Nodup := (List.nodup_append.1 hnd).1
  have hactive : r.stillActive = true → ∃ x ∈ xs, r.g.Marked x := by
    intro hs
    rcases ht.active hpolled hs with hs | ⟨x, hx, hm⟩
    · cases hs
    · exact ⟨x, hsub x hx, hm⟩
  have hseen : OwnMarks answer → ∀ x ∈ polled, r.g.Marked x → r.stillActive = true := by
    intro ho x hx hm
    refine ht.seen ho ?_ hx hm
    rw [List.map_append, List.nodup_append] at hpnd
    exact hpnd.1
  obtain ⟨active, ha, htold, howed⟩ : ∃ active,
      (if b then some r.stillActive else recheck { r with allChecked := b }) = some active ∧
        (active = true → ∃ x ∈ xs, r.g.Marked x) ∧
        (OwnMarks answer → ∀ x ∈ xs, r.g.Marked x → active = true) := by
    cases hbt : b with
    | true =>
      refine ⟨_, rfl, hactive, fun ho x hx hm => hseen ho x ?_ hm⟩
      -- all were polled
      have hrest := (ht.all (hb hbt)).1
      rw [hrest, List.append_nil] at hperm
      exact hperm.symm.subset hx
    | false =>
      obtain ⟨active, ha, hiff⟩ := recheck_eq (r := { r with allChecked := false }) hk'
      refine ⟨active, ha, fun h => ?_, fun _ x hx hm => hiff.2 (.inr ⟨x, hx, hm⟩)⟩
      rcases hiff.1 h with hs | hm
      · exact hactive hs
      · exact hm
  refine ⟨{ r.g with
    ready := active, turns := r.g.turns ++ [r.polled.map fun x => (g.reg.data x).streamPrefix] }, polled, rest, ?_,
    ht.same, hperm, horder, ?_, ?_, ?_, ht.asked hpolled, fun y hy hm => ht.keeps hy hm, htold, howed⟩
  · unfold prepareDatagram
    rw [h1, Option.bind_some]
    exact congrArg (Option.map _) ha
  · cases hs : r.dataSent with
    | true => exact .inr (ht.sender hs)
    | false => exact .inl (ht.all hs).1
  · show r.g.turns ++ [r.polled.map fun x => (g.reg.data x).streamPrefix] = _
    rw [ht.turns, ht.polled_eq]
    rfl
  · obtain ⟨ds, h1, h2, h3⟩ := ht.wrote
    exact ⟨ds, h1, h2, fun d hd => (h3 d hd).imp fun x hx => ⟨hsub x hx.1, hx.2⟩⟩

end Call

/-! ## Runs -/

/-- The calls: those on the prefixes, and picoquic's when it can send a datagram. -/
inductive Op (κ : Type) where
  | call (op : Registry.Op κ)
  | prepare (space : Nat) (answer : Nat → Answer)

def Op.isPrepare : Op κ → Bool
  | .prepare _ _ => true
  | .call _ => false

/-- One call. -/
def step (enc : VarintEncode) (app : κ → Nat → List Nat) (g : Conn κ) : Op κ → Option (Conn κ)
  | .call (.setReady streamId) => g.setDatagramReady streamId
  | .call op => (Registry.step app g.reg op).map fun reg => { g with reg := reg }
  | .prepare space answer => prepareDatagram enc space answer g

/-- As `h3zero_callback_create_context` leaves it. -/
def Conn.init (next previous : Nat → Option Nat) (data : Nat → PrefixCtx κ) : Conn κ :=
  ⟨.init next previous data, 0, false, [], [], []⟩

section Runs

variable {enc : VarintEncode} {app : κ → Nat → List Nat} {xs : List Nat}

/-- What a call on the prefixes leaves was there before, or is the one it declares. -/
theorem abstractStep_mem {cs : List (PrefixCtx κ)} {op : Registry.Op κ} {c : PrefixCtx κ}
    (hop : ∀ p, op ≠ .setReady p) (h : c ∈ Registry.abstractStep app cs op) :
    c ∈ cs ∨ c.readyToSendDatagrams = false ∧ ∃ call malloc, op = .declare c.streamPrefix call malloc := by
  cases op with
  | declare p call malloc =>
    simp only [Registry.abstractStep] at h
    split_ifs at h
    · exact .inl h
    · rcases List.mem_append.1 h with h | h
      · exact .inl h
      · rw [List.mem_singleton.1 h]
        exact .inr ⟨rfl, call, malloc, rfl⟩
  | setReady p => exact absurd rfl (hop p)
  | delete streams p => exact .inl ((Registry.remove_sublist _ _ _).subset h)
  | deleteAll streams => cases h

/-- What every call leaves as it was, or does to it. -/
structure Moved (app : κ → Nat → List Nat) (g g' : Conn κ) (xs ys : List Nat) (op : Op κ) : Prop where
  kept : Kept g'.reg ys
  /-- A prefix was declared before, or is now. -/
  origin : ∀ y ∈ ys, (∃ x ∈ xs, g.prefixOf x = g'.prefixOf y) ∨
    ∃ call malloc, op = .call (.declare (g'.prefixOf y) call malloc)
  wrote : ∃ ds, g'.sent = g.sent ++ ds ∧ ds.length ≤ (if op.isPrepare then 1 else 0) ∧
    ∀ d ∈ ds, ∃ space answer, op = .prepare space answer ∧ ∃ x ∈ xs, Written space answer (g.prefixOf x) d
  owed : (∀ space answer, op = .prepare space answer → OwnMarks answer) →
    (∀ x ∈ xs, g.Marked x → g.ready = true) → ∀ y ∈ ys, g'.Marked y → g'.ready = true

/-- Every call returns. -/
theorem step_moved (henc : enc.Shortest) {g g' : Conn κ} (hk : Kept g.reg xs) {op : Op κ}
    (h : step enc app g op = some g') :
    ∃ ys, Moved app g g' xs ys op := by
  -- calls that mark nothing: what is left was there before or has just been declared, unmarked
  have hcall : ∀ {op : Registry.Op κ} {s' : State κ}, (∀ p, op ≠ .setReady p) → Registry.step app g.reg op = some s' →
      ∃ ys, Moved app g { g with reg := s' } xs ys (.call op) := by
    intro op s' hop h
    obtain ⟨t, ys, ht, hk', hdata⟩ := @Registry.step_kept κ app g.reg xs hk op (Registry.step_fresh h)
    cases h.symm.trans ht
    have hmem : ∀ y ∈ ys, (∃ x ∈ xs, g.reg.data x = s'.data y) ∨
        (s'.data y).readyToSendDatagrams = false ∧
          ∃ call malloc, op = .declare (s'.data y).streamPrefix call malloc := by
      intro y hy
      have hin : s'.data y ∈ Registry.abstractStep app (xs.map g.reg.data) op := by
        rw [← hdata]
        exact List.mem_map_of_mem hy
      rcases abstractStep_mem hop hin with hin | hin
      · exact .inl (List.mem_map.1 hin)
      · exact .inr hin
    refine ⟨ys, hk', fun y hy => ?_, ⟨[], (List.append_nil _).symm, Nat.zero_le _, by simp⟩, fun _ howed y hy hm => ?_⟩
    · rcases hmem y hy with ⟨x, hx, heq⟩ | ⟨-, call, malloc, rfl⟩
      · exact .inl ⟨x, hx, congrArg PrefixCtx.streamPrefix heq⟩
      · exact .inr ⟨call, malloc, rfl⟩
    · have hm' : (s'.data y).readyToSendDatagrams = true := hm
      rcases hmem y hy with ⟨x, hx, heq⟩ | ⟨hno, -⟩
      · refine howed x hx ?_
        show (g.reg.data x).readyToSendDatagrams = true
        rw [heq]
        exact hm'
      · rw [hno] at hm'
        cases hm'
  cases op with
  | prepare space answer =>
    obtain ⟨t, polled, rest, ht, hp⟩ := prepareDatagram_prepared henc hk space answer
    cases h.symm.trans ht
    obtain ⟨ds, h1, h2, h3⟩ := hp.wrote
    exact ⟨xs, hp.same.kept hk, fun y hy => .inl ⟨y, hy, (hp.same.streamPrefix y).symm⟩,
      ⟨ds, h1, h2, fun d hd => ⟨space, answer, rfl, h3 d hd⟩⟩, fun ho _ => hp.owed (ho space answer rfl)⟩
  | call op =>
    cases op with
    | setReady p =>
      obtain ⟨t, ht, hm, hready, hfound⟩ := setDatagramReady_markedBy hk p
      cases h.symm.trans ht
      refine ⟨xs, hm.same.kept hk, fun y hy => .inl ⟨y, hy, (hm.same.streamPrefix y).symm⟩,
        ⟨[], by rw [hm.sent, List.append_nil], Nat.zero_le _, by simp⟩, fun _ howed y hy hmark => ?_⟩
      rcases hm.only y hmark with hmark | hmem
      · exact hready (howed y hy hmark)
      · exact hfound y hy (List.mem_singleton.1 hmem)
    | declare p call malloc =>
      obtain ⟨s', h1, rfl⟩ := Option.map_eq_some_iff.1 h
      exact hcall (by simp) h1
    | delete streams p =>
      obtain ⟨s', h1, rfl⟩ := Option.map_eq_some_iff.1 h
      exact hcall (by simp) h1
    | deleteAll streams =>
      obtain ⟨s', h1, rfl⟩ := Option.map_eq_some_iff.1 h
      exact hcall (by simp) h1

/-- What holds after a run of calls that began with the prefixes `xs`. -/
structure Ran (g g' : Conn κ) (xs ys : List Nat) (es : List (Op κ)) : Prop where
  kept : Kept g'.reg ys
  origin : ∀ y ∈ ys, (∃ x ∈ xs, g.prefixOf x = g'.prefixOf y) ∨
    ∃ call malloc, .call (.declare (g'.prefixOf y) call malloc) ∈ es
  wrote : ∃ ds, g'.sent = g.sent ++ ds ∧ ds.length ≤ es.countP Op.isPrepare ∧
    ∀ d ∈ ds, ∃ space answer p, .prepare space answer ∈ es ∧ Written space answer p d ∧
      ((∃ x ∈ xs, g.prefixOf x = p) ∨ ∃ call malloc, .call (.declare p call malloc) ∈ es)
  owed : (∀ space answer, .prepare space answer ∈ es → OwnMarks answer) →
    (∀ x ∈ xs, g.Marked x → g.ready = true) → ∀ y ∈ ys, g'.Marked y → g'.ready = true

theorem run_ran (henc : enc.Shortest) : ∀ (es : List (Op κ)) {g g' : Conn κ} {xs : List Nat}, Kept g.reg xs →
    Lts.run (step enc app) g es = some g' → ∃ ys, Ran g g' xs ys es
  | [], g, g', xs, hk, h => by
    cases h
    exact ⟨xs, hk, fun y hy => .inl ⟨y, hy, rfl⟩, ⟨[], (List.append_nil _).symm, by simp, by simp⟩, fun _ h => h⟩
  | e :: es, g, g', xs, hk, h => by
    obtain ⟨g1, h1, h2⟩ := Lts.run_cons_some h
    obtain ⟨ys, hm⟩ := step_moved henc hk h1
    obtain ⟨zs, hr⟩ := run_ran henc es hm.kept h2
    obtain ⟨ds, d1, d2, d3⟩ := hm.wrote
    obtain ⟨fs, f1, f2, f3⟩ := hr.wrote
    -- a prefix the rest of the run began with was there before, or was declared
    have horigin : ∀ {p : Nat}, (∃ y ∈ ys, g1.prefixOf y = p) →
        (∃ x ∈ xs, g.prefixOf x = p) ∨ ∃ call malloc, .call (.declare p call malloc) ∈ e :: es := by
      rintro p ⟨y, hy, rfl⟩
      rcases hm.origin y hy with hx | ⟨call, malloc, rfl⟩
      · exact .inl hx
      · exact .inr ⟨call, malloc, List.mem_cons_self⟩
    refine ⟨zs, hr.kept, fun z hz => ?_, ⟨ds ++ fs, ?_, ?_, fun d hd => ?_⟩, fun ho howed => ?_⟩
    · rcases hr.origin z hz with hy | ⟨call, malloc, hmem⟩
      · exact horigin hy
      · exact .inr ⟨call, malloc, List.mem_cons_of_mem _ hmem⟩
    · rw [f1, d1, List.append_assoc]
    · rw [List.length_append, List.countP_cons]
      omega
    · rcases List.mem_append.1 hd with hd | hd
      · obtain ⟨space, answer, rfl, x, hx, hw⟩ := d3 d hd
        exact ⟨space, answer, _, List.mem_cons_self, hw, .inl ⟨x, hx, rfl⟩⟩
      · obtain ⟨space, answer, p, hmem, hw, hp⟩ := f3 d hd
        refine ⟨space, answer, p, List.mem_cons_of_mem _ hmem, hw, ?_⟩
        rcases hp with hy | ⟨call, malloc, hdecl⟩
        · exact horigin hy
        · exact .inr ⟨call, malloc, List.mem_cons_of_mem _ hdecl⟩
    · exact hr.owed (fun space answer hmem => ho space answer (List.mem_cons_of_mem _ hmem))
        (hm.owed (fun space answer heq => ho space answer (by rw [heq]; exact List.mem_cons_self)) howed)

/-! ## Turns -/

/-- A prefix is marked, or picoquic can send a datagram, with room for any quarter stream id. -/
def Waits (op : Op κ) : Prop :=
  (∃ p, op = .call (.setReady p)) ∨ ∃ space answer, 8 < space ∧ op = .prepare space answer

/-- The turns of such calls go round, and of a prefix marked before they ask the application when they reach it. -/
structure Round (g g' : Conn κ) (xs : List Nat) (n : Nat) (tss : List (List Nat)) (ps : List Nat) : Prop where
  turns : g'.turns = g.turns ++ tss
  count : tss.length = n
  round : RoundRobin.Turns (xs.map g.prefixOf) g.lastDatagramPrefix tss
  asked : g'.asked = g.asked ++ ps
  reached : ∀ x ∈ xs, g.Marked x → (g.reg.data x).functionCall.isSome = true → (∃ ts ∈ tss, g.prefixOf x ∈ ts) →
    g.prefixOf x ∈ ps

/-- A turn goes before others. -/
theorem prepared_round {space : Nat} {answer : Nat → Answer} {g g1 g' : Conn κ} {polled rest : List Nat}
    {n : Nat} {tss : List (List Nat)} {ps : List Nat} (hk : Kept g.reg xs) (hs : 8 < space)
    (hp : Prepared space answer xs g g1 polled rest) (hr : Round g1 g' xs n tss ps) :
    ∃ ts qs, Round g g' xs (n + 1) (ts :: tss) qs := by
  have hpre : g1.prefixOf = g.prefixOf := funext hp.same.streamPrefix
  obtain ⟨asked, a1, -, a3⟩ := hp.asked
  have hround := hr.round
  rw [hpre] at hround
  refine ⟨polled.map g.prefixOf, asked ++ ps, ?_, congrArg (· + 1) hr.count, ?_, ?_, fun x hx hm hc hts => ?_⟩
  · rw [hr.turns, hp.turns, List.append_assoc, List.singleton_append]
  · rcases hp.served with rfl | ⟨ys, y, rfl, hlast⟩
    · have horder := hp.order
      rw [List.append_nil] at horder
      rw [horder]
      exact .all hround
    · have horder : RoundRobin.order g.lastDatagramPrefix (xs.map g.prefixOf) =
          ys.map g.prefixOf ++ g.prefixOf y :: rest.map g.prefixOf := by
        rw [← hp.order]
        simp
      rw [hlast] at hround
      rw [List.map_append, List.map_singleton]
      exact .served horder hround
  · rw [hr.asked, a1, List.append_assoc]
  · by_cases hmem : x ∈ polled
    · exact List.mem_append_left _ (a3 x hmem hm hc hs)
    · -- it keeps its mark for the turns that follow
      have hne : g.prefixOf x ∉ polled.map g.prefixOf := by
        intro hin
        obtain ⟨y, hy, heq⟩ := List.mem_map.1 hin
        have hy' : y ∈ xs := hp.perm.subset (List.mem_append_left _ hy)
        have hinj := List.inj_on_of_nodup_map hk.holds.prefixes hy' hx heq
        exact hmem (hinj ▸ hy)
      obtain ⟨ts, hin, hpt⟩ := hts
      rcases List.mem_cons.1 hin with rfl | hin
      · exact absurd hpt hne
      · refine List.mem_append_right _ ?_
        have hc' : (g1.reg.data x).functionCall.isSome = true := by rwa [hp.same.functionCall]
        have hin' := hr.reached x hx (hp.keeps x hmem hm) hc'
        rw [hpre] at hin'
        exact hin' ⟨ts, hin, hpt⟩

theorem run_round (henc : enc.Shortest) : ∀ (fs : List (Op κ)) {g g' : Conn κ}, Kept g.reg xs → (∀ op ∈ fs, Waits op) →
    Lts.run (step enc app) g fs = some g' → ∃ tss ps, Round g g' xs (fs.countP Op.isPrepare) tss ps
  | [], g, g', _, _, h => by
    cases h
    exact ⟨[], [], (List.append_nil _).symm, rfl, .nil _, (List.append_nil _).symm, by simp⟩
  | e :: fs, g, g', hk, hfs, h => by
    obtain ⟨g1, h1, h2⟩ := Lts.run_cons_some h
    have hfs' : ∀ op ∈ fs, Waits op := fun op hop => hfs op (List.mem_cons_of_mem _ hop)
    rcases hfs e List.mem_cons_self with ⟨p, rfl⟩ | ⟨space, answer, hs, rfl⟩
    · obtain ⟨t, ht, hm, -, -⟩ := setDatagramReady_markedBy hk p
      cases h1.symm.trans ht
      obtain ⟨tss, ps, hr⟩ := run_round henc fs (hm.same.kept hk) hfs' h2
      have hpre : g1.prefixOf = g.prefixOf := funext hm.same.streamPrefix
      have hround := hr.round
      rw [hpre, hm.last] at hround
      refine ⟨tss, ps, hr.turns.trans (by rw [hm.turns]), hr.count, hround, hr.asked.trans (by rw [hm.asked]),
        fun x hx hmark hc => ?_⟩
      have hreached := hr.reached x hx (hm.keeps x hmark) (by rwa [hm.same.functionCall])
      rwa [hpre] at hreached
    · obtain ⟨t, polled, rest, ht, hp⟩ := prepareDatagram_prepared henc hk space answer
      cases h1.symm.trans ht
      obtain ⟨tss, ps, hr⟩ := run_round henc fs (hp.same.kept hk) hfs' h2
      obtain ⟨ts, qs, hr'⟩ := prepared_round hk hs hp hr
      have hcount : (Op.prepare space answer :: fs).countP Op.isPrepare = fs.countP Op.isPrepare + 1 :=
        List.countP_cons_of_pos rfl
      rw [hcount]
      exact ⟨_, _, hr'⟩

end Runs

/-! ## What the polling is for -/

section Results

variable {enc : VarintEncode} {app : κ → Nat → List Nat} {next previous : Nat → Option Nat}
  {data : Nat → PrefixCtx κ} {es : List (Op κ)} {g : Conn κ}

/-- What a run from the start leaves. -/
theorem run_kept (henc : enc.Shortest) (h : Lts.run (step enc app) (.init next previous data) es = some g) :
    ∃ xs, Ran (.init next previous data) g [] xs es :=
  run_ran henc es (Registry.init_kept next previous data) h

/-- In every run in which applications mark their own prefixes when they are polled, picoquic knows that there are
datagrams to be sent when a declared prefix is marked; a call that picoquic makes returns, and then it knows exactly
that. -/
theorem ready_told (henc : enc.Shortest) (h : Lts.run (step enc app) (.init next previous data) es = some g)
    (ho : ∀ space answer, .prepare space answer ∈ es → OwnMarks answer) :
    (∀ p cell, findStreamPrefix g.reg p = some (some cell) → g.Marked cell → g.ready = true) ∧
      ∀ space answer, OwnMarks answer → ∃ g', prepareDatagram enc space answer g = some g' ∧
        (g'.ready = true ↔ ∃ p cell, findStreamPrefix g'.reg p = some (some cell) ∧ g'.Marked cell) := by
  obtain ⟨xs, hr⟩ := run_kept henc h
  refine ⟨fun p cell hf hm => hr.owed ho (by simp) cell (hr.kept.holds.find_mem hf) hm, fun space answer ho' => ?_⟩
  obtain ⟨g', polled, rest, h1, hp⟩ := prepareDatagram_prepared henc hr.kept space answer
  have hk' : Kept g'.reg xs := hp.same.kept hr.kept
  refine ⟨g', h1, fun ht => ?_, ?_⟩
  · obtain ⟨x, hx, hm⟩ := hp.told ht
    exact ⟨_, x, hk'.holds.find_self hx, hm⟩
  · rintro ⟨p, cell, hf, hm⟩
    exact hp.owed ho' cell (hk'.holds.find_mem hf) hm

/-- The application has a datagram for every poll, and says so. -/
def talks (_ : Nat) : Answer := ⟨some ([1, 2], true), true, []⟩

theorem talks_own : OwnMarks talks := fun _ m hm => by cases hm

/-- Two prefixes, both marked, of which the second sends first. -/
def twoTalks : List (Op Nat) :=
  [.call (.declare 0 (some 7) (some 16)), .call (.declare 4 (some 8) (some 32)), .call (.setReady 4),
    .call (.setReady 0), .prepare 100 talks]

/-- Before the first call. -/
def noPrefixes : Conn Nat := .init (fun _ => none) (fun _ => none) fun _ => ⟨0, false, none⟩

theorem twoTalks_told :
    (Lts.run (step .shortest fun _ _ => []) noPrefixes twoTalks).map (fun g => (g.ready, g.sent)) =
        some (true, [[1, 1, 2]]) ∧
      ∀ g, Lts.run (step .shortest fun _ _ => []) noPrefixes twoTalks = some g →
        (∀ p cell, findStreamPrefix g.reg p = some (some cell) → g.Marked cell → g.ready = true) ∧
          ∀ space answer, OwnMarks answer → ∃ g', prepareDatagram .shortest space answer g = some g' ∧
            (g'.ready = true ↔ ∃ p cell, findStreamPrefix g'.reg p = some (some cell) ∧ g'.Marked cell) := by
  refine ⟨by decide, fun g h => ready_told VarintEncode.shortest_shortest h fun space answer hmem => ?_⟩
  simp only [twoTalks, List.mem_cons, Op.prepare.injEq, reduceCtorEq, false_or, List.not_mem_nil, or_false] at hmem
  rw [hmem.2]
  exact talks_own

-- An application that marks another prefix when it is polled and does not send goes unnoticed if the turn is over.
example : (Lts.run (step .shortest fun _ _ => []) noPrefixes (twoTalks.take 3 ++ [.prepare 100 talks,
    .prepare 100 fun _ => ⟨none, true, [0]⟩])).map (fun g => (g.ready, (g.reg.data 16).readyToSendDatagrams)) =
      some (false, true) := by
  decide

/-- Behind any run: the application of a prefix that is marked is asked for a datagram within as many calls of picoquic
as there are prefixes, whatever the other applications send or mark. -/
theorem asked_in_turn (henc : enc.Shortest) {g' : Conn κ} {fs : List (Op κ)} {p cell : Nat}
    (h : Lts.run (step enc app) (.init next previous data) es = some g) (h' : Lts.run (step enc app) g fs = some g')
    (hfs : ∀ op ∈ fs, Waits op) (hlen : g.reg.live.length ≤ fs.countP Op.isPrepare)
    (hf : findStreamPrefix g.reg p = some (some cell)) (hm : g.Marked cell)
    (hc : (g.reg.data cell).functionCall.isSome = true) : ∃ ps, g'.asked = g.asked ++ ps ∧ p ∈ ps := by
  obtain ⟨xs, hr⟩ := run_kept henc h
  obtain ⟨tss, ps, hround⟩ := run_round henc fs hr.kept hfs h'
  rw [hr.kept.holds.find] at hf
  have hx := Option.some.inj hf
  have hcell : cell ∈ xs := List.mem_of_find?_eq_some hx
  have hp : g.prefixOf cell = p := by simpa [Conn.prefixOf] using List.find?_some hx
  refine ⟨ps, hround.asked, ?_⟩
  rw [← hp]
  refine hround.reached cell hcell hm hc ?_
  refine hround.round.reached_all hr.kept.holds.prefixes (List.mem_map_of_mem hcell) ?_
  rw [List.length_map, hround.count, ← hr.kept.live.length_eq]
  exact hlen

/-- Prefix 0 waits while prefix 4 sends, and has its turn next. -/
theorem twoTalks_asked :
    (Lts.run (step .shortest fun _ _ => []) noPrefixes (twoTalks ++ [.prepare 100 talks, .prepare 100 talks])).map
        (·.asked) = some [4, 0, 4] ∧
      ∀ g g', Lts.run (step .shortest fun _ _ => []) noPrefixes twoTalks = some g →
        Lts.run (step .shortest fun _ _ => []) g [.prepare 100 talks, .prepare 100 talks] = some g' →
          ∃ ps, g'.asked = g.asked ++ ps ∧ 0 ∈ ps := by
  refine ⟨by decide, fun g g' h h' => ?_⟩
  have hg : (Lts.run (step .shortest fun _ _ => []) noPrefixes twoTalks).map (fun g => (findStreamPrefix g.reg 0,
      (g.reg.data 16).readyToSendDatagrams, (g.reg.data 16).functionCall, g.reg.live.length)) =
        some (some (some 16), true, some 7, 2) := by
    decide
  rw [h] at hg
  obtain ⟨hf, hm, hc, hl⟩ : findStreamPrefix g.reg 0 = some (some 16) ∧ (g.reg.data 16).readyToSendDatagrams = true ∧
      (g.reg.data 16).functionCall = some 7 ∧ g.reg.live.length = 2 := by
    simpa using hg
  refine asked_in_turn VarintEncode.shortest_shortest h h' (fun op hop => ?_) (by rw [hl]; decide) hf hm
    (by rw [hc]; rfl)
  simp only [List.mem_cons, List.not_mem_nil, or_false, or_self] at hop
  exact .inr ⟨100, talks, by decide, hop⟩

/-! ## At the peer -/

/-- `h3zero_callback_datagram`: the application that is called, for which prefix and with which bytes. `varint` is
`picoquic_frames_varint_decode`. -/
def callbackDatagram (varint : Varint.Reader) (s : State κ) (streams : Nat → Bool) (bytes : List UInt8) :
    Option (Option (κ × Nat × List UInt8)) :=
  match varint.read bytes with
  | none => some none
  | some (quarterStreamId, n) =>
    (findStreamPrefix s (quarterStreamId * 4)).map fun found =>
      found.bind fun cell =>
        (Registry.callee s.data streams cell).map fun call => (call, (s.data cell).streamPrefix, bytes.drop n)

/-- At a peer with the prefixes `peer`, datagram `d` comes to the application for the quarter of prefix `p`, if there is
one, and to no other, with these bytes. -/
def Delivered {κ' : Type} (varint : Varint.Reader) (peer : State κ') (d : List UInt8) (p : Nat) (bytes : List UInt8) :
    Prop :=
  ∀ streams : Nat → Bool, callbackDatagram varint peer streams d =
    (findStreamPrefix peer (p / 4 * 4)).map fun found => found.bind fun cell =>
      (Registry.callee peer.data streams cell).map fun call => (call, (peer.data cell).streamPrefix, bytes)

/-- Such a datagram comes to the peer as it was written. -/
theorem Written.delivered {κ' : Type} {varint : Varint.Reader} (hvarint : varint.Rfc9000) {space : Nat}
    {answer : Nat → Answer} {p : Nat} {d : List UInt8} (h : Written space answer p d) (hp : p < 2 ^ 64) :
    ∃ bytes again, (answer p).provided = some (bytes, again) ∧ bytes ≠ [] ∧ d.length ≤ space ∧
      ∀ peer : State κ', Delivered varint peer d p bytes := by
  obtain ⟨bytes, again, ha, hb, rfl, hroom⟩ := h
  have hquarter : quarterStreamId p = p / 4 := by
    unfold quarterStreamId
    rw [Nat.mod_eq_of_lt hp]
  refine ⟨bytes, again, ha, hb, hroom, fun peer streams => ?_⟩
  unfold callbackDatagram
  rw [hvarint, Varint.decode_encode (quarterStreamId_lt p)]
  simp only
  rw [← Varint.encode_length (quarterStreamId p), List.drop_left, hquarter]

/-- In every run: each further call sends one datagram at most, and only when picoquic polls; and one that is sent holds
what the application of a prefix declared then wrote, fits the room of that poll, and comes at the peer to the
application of that prefix and to no other, with the same bytes, if it belongs to a control stream (its id is a multiple
of four). So all that was sent is of some poll of the run. -/
theorem datagrams_delivered {κ' : Type} (henc : enc.Shortest) {varint : Varint.Reader} (hvarint : varint.Rfc9000)
    (h : Lts.run (step enc app) (.init next previous data) es = some g)
    (h64 : ∀ p call malloc, .call (.declare p call malloc) ∈ es → p < 2 ^ 64) :
    (∀ op g', step enc app g op = some g' →
      ∃ ds, g'.sent = g.sent ++ ds ∧ ds.length ≤ (if op.isPrepare then 1 else 0) ∧
        ∀ d ∈ ds, ∃ space answer p cell bytes again, op = .prepare space answer ∧
          findStreamPrefix g.reg p = some (some cell) ∧ (answer p).provided = some (bytes, again) ∧ bytes ≠ [] ∧
          d.length ≤ space ∧ ∀ peer : State κ', Delivered varint peer d p bytes) ∧
    g.sent.length ≤ es.countP Op.isPrepare ∧
      ∀ d ∈ g.sent, ∃ space answer p bytes again, .prepare space answer ∈ es ∧
        (∃ call malloc, .call (.declare p call malloc) ∈ es) ∧ (answer p).provided = some (bytes, again) ∧
        bytes ≠ [] ∧ d.length ≤ space ∧ ∀ peer : State κ', Delivered varint peer d p bytes := by
  obtain ⟨xs, hr⟩ := run_kept henc h
  refine ⟨fun op g' hstep => ?_, ?_⟩
  · obtain ⟨ys, hm⟩ := step_moved henc hr.kept hstep
    obtain ⟨ds, h1, h2, h3⟩ := hm.wrote
    refine ⟨ds, h1, h2, fun d hd => ?_⟩
    obtain ⟨space, answer, hop, x, hx, hw⟩ := h3 d hd
    -- the prefix that was polled had been declared, so that it has 64 bits
    obtain ⟨call, malloc, hdecl⟩ : ∃ call malloc, .call (.declare (g.prefixOf x) call malloc) ∈ es := by
      simpa using hr.origin x hx
    obtain ⟨bytes, again, ha, hb, hroom, hpeer⟩ := @Written.delivered κ' _ hvarint _ _ _ _ hw (h64 _ call malloc hdecl)
    exact ⟨space, answer, _, x, bytes, again, hop, hr.kept.holds.find_self hx, ha, hb, hroom, hpeer⟩
  · obtain ⟨ds, h1, h2, h3⟩ := hr.wrote
    have hds : g.sent = ds := h1
    rw [hds]
    refine ⟨h2, fun d hd => ?_⟩
    obtain ⟨space, answer, p, hprep, hw, hp⟩ := h3 d hd
    obtain ⟨call, malloc, hdecl⟩ : ∃ call malloc, .call (.declare p call malloc) ∈ es := by simpa using hp
    obtain ⟨bytes, again, ha, hb, hroom, hpeer⟩ := @Written.delivered κ' _ hvarint _ _ _ _ hw (h64 p call malloc hdecl)
    exact ⟨space, answer, p, bytes, again, hprep, ⟨call, malloc, hdecl⟩, ha, hb, hroom, hpeer⟩

theorem twoTalks_delivered :
    (Lts.run (step .shortest fun _ _ => []) noPrefixes twoTalks).map (·.sent) = some [[1, 1, 2]] ∧
      (Lts.run (step .shortest fun _ _ => []) noPrefixes twoTalks).bind (fun g =>
        callbackDatagram .decoder g.reg (fun _ => true) [1, 1, 2]) = some (some (8, 4, [1, 2])) ∧
      ∀ g, Lts.run (step .shortest fun _ _ => []) noPrefixes twoTalks = some g →
        (∀ op g', step .shortest (fun _ _ => []) g op = some g' →
          ∃ ds, g'.sent = g.sent ++ ds ∧ ds.length ≤ (if op.isPrepare then 1 else 0) ∧
            ∀ d ∈ ds, ∃ space answer p cell bytes again, op = .prepare space answer ∧
              findStreamPrefix g.reg p = some (some cell) ∧ (answer p).provided = some (bytes, again) ∧ bytes ≠ [] ∧
              d.length ≤ space ∧ ∀ peer : State Nat, Delivered .decoder peer d p bytes) ∧
        g.sent.length ≤ twoTalks.countP Op.isPrepare ∧
          ∀ d ∈ g.sent, ∃ space answer p bytes again, .prepare space answer ∈ twoTalks ∧
            (∃ call malloc, .call (.declare p call malloc) ∈ twoTalks) ∧ (answer p).provided = some (bytes, again) ∧
            bytes ≠ [] ∧ d.length ≤ space ∧ ∀ peer : State Nat, Delivered .decoder peer d p bytes := by
  refine ⟨by decide, by decide, fun g h => ?_⟩
  refine datagrams_delivered VarintEncode.shortest_shortest Varint.Reader.decoder_rfc9000 h fun p call malloc hmem => ?_
  have hp : p = 0 ∨ p = 4 := by
    simp only [twoTalks, List.mem_cons, Op.call.injEq, Registry.Op.declare.injEq, reduceCtorEq, List.not_mem_nil,
      or_false] at hmem
    exact hmem.imp And.left And.left
  rcases hp with rfl | rfl <;> decide

end Results

end Mquic.H3.Datagram
