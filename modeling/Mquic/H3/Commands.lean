/-
The commands of a client (`send_wt_control`, wt_client.c): each on a unidirectional stream of its own, behind the header
of the session. Where the other end has declared a prefix for the session, a command reaches its application whole, with
the end of the stream told once; where it has not, the stream is refused once and nothing is passed on
(`command_answered`).
-/
import Mquic.H3.Remote
import Mquic.Codec.Varint

namespace Mquic.H3

/-! ## Sending -/

/-- `send_wt_control`: the return value, and what was given to picoquic for the stream, with its `set_fin`. `sid` is the
next id of a unidirectional stream, `addToStream` what the calls return. -/
def sendWtControl (sid : Nat) (addToStream : Nat → Int) (sessionId : Nat) (code : UInt8) (payload : List UInt8) :
    Int × List (List UInt8 × Bool) :=
  if sid &&& 0x3 ≠ 0x2 then (-1, [])
  else
    let hdr := Codec.wtVarintEncode 0x54 ++ Codec.wtVarintEncode sessionId
    if addToStream 0 ≠ 0 then (-1, [])
    else if addToStream 1 ≠ 0 then (-1, [(hdr, false)])
    else if payload.length > 0 then
      if addToStream 2 ≠ 0 then (-1, [(hdr, false), ([code], false)])
      else (0, [(hdr, false), ([code], false), (payload, true)])
    else (0, [(hdr, false), ([code], true)])

/-- The bytes of writes. -/
def writtenBytes (writes : List (List UInt8 × Bool)) : List UInt8 := (writes.map Prod.fst).flatten

/-- What came is what was written: its bytes in some pieces, the last of which is the end of the stream. -/
structure Arrives (writes : List (List UInt8 × Bool)) (before : List Delivery) (last : Delivery) : Prop where
  bytes : deliveredBytes (before ++ [last]) = writtenBytes writes
  goesOn : ∀ d ∈ before, d.fin = false
  fin : last.fin = true

/-- A command that was sent is the header of the session, the code and the payload. -/
theorem send_done {sid : Nat} {addToStream : Nat → Int} {sessionId : Nat} (hid : sessionId < 2 ^ 62) {code : UInt8}
    {payload : List UInt8} {writes : List (List UInt8 × Bool)}
    (h : sendWtControl sid addToStream sessionId code payload = (0, writes)) :
    isBidirStreamId sid = false ∧
      writtenBytes writes =
        Varint.encode h3zeroStreamTypeWebtransport ++ Varint.encode sessionId ++ code :: payload := by
  have hdr : Codec.wtVarintEncode 0x54 ++ Codec.wtVarintEncode sessionId =
      Varint.encode h3zeroStreamTypeWebtransport ++ Varint.encode sessionId := by
    rw [Codec.wtVarintEncode_eq (by decide : 0x54 < 2 ^ 62), Codec.wtVarintEncode_eq hid]
    rfl
  have hfail : ∀ ws : List (List UInt8 × Bool), ((-1 : Int), ws) ≠ (0, writes) := fun ws heq =>
    absurd (show (-1 : Int) = 0 from congrArg Prod.fst heq) (by decide)
  have hdirection (hsid : ¬ sid &&& 0x3 ≠ 0x2) : isBidirStreamId sid = false := by
    have hbit : sid &&& 2 = 2 := by
      calc sid &&& 2 = (sid &&& 3) &&& 2 := (Nat.and_assoc sid 3 2).symm
        _ = 2 := by rw [not_not.1 hsid]; rfl
    unfold isBidirStreamId
    rw [hbit]
    rfl
  unfold sendWtControl at h
  simp only [hdr] at h
  split_ifs at h with hsid h0 h1 hlen h2
  · exact absurd h (hfail _)
  · exact absurd h (hfail _)
  · exact absurd h (hfail _)
  · exact absurd h (hfail _)
  · cases h
    exact ⟨hdirection hsid, by simp [writtenBytes]⟩
  · cases h
    have hnil : payload = [] := List.eq_nil_of_length_eq_zero (by omega)
    exact ⟨hdirection hsid, by simp [writtenBytes, hnil]⟩

/-! ## One delivery -/

section Step

variable {κ : Type} {mem : Mem} {prefixes : Prefixes κ} {streamId : Nat} {p : Peer κ} {x full : List UInt8} {id w : Nat}

/-- What a delivery of a session's stream is parsed to: the header stays incomplete, or it is completed and the prefix
looked up, or it was complete before. -/
inductive Parsing (prefixes : Prefixes κ) (x : List UInt8) (d : Delivery) (id w : Nat) (r : RemoteParse κ) : Prop where
  | header (h : frameHeaderOf (x ++ d.bytes) = none) (hrest : r.rest = some [])
  | found (hx : frameHeaderOf x = none)
    (h : frameHeaderOf (x ++ d.bytes) = some (h3zeroStreamTypeWebtransport, id, w)) (hcode : r.errorFound = 0)
    (hrest : r.rest = if (prefixes id).isSome then some ((x ++ d.bytes).drop w) else none)
  | behind (hx : frameHeaderOf x = some (h3zeroStreamTypeWebtransport, id, w)) (hrest : r.rest = some d.bytes)

theorem parse_id {c : Nat} (hfull : frameHeaderOf full = some (h3zeroStreamTypeWebtransport, id, w)) {d : Delivery}
    (hp : x ++ d.bytes <+: full) {y bytes : List UInt8} (hx : frameHeaderOf x = none)
    (hdec : Varint.decode (x ++ d.bytes) = some (h3zeroStreamTypeWebtransport, c)) (hy : Varint.decode y = none)
    (hcat : (x ++ d.bytes).drop c = y ++ bytes) {set : Settings} {r : RemoteParse κ}
    (hr : r = ⟨(Remote.wtParseControlStreamId prefixes (.awaitingId y) bytes).1, set,
      (Remote.wtParseControlStreamId prefixes (.awaitingId y) bytes).2, 0⟩) : Parsing prefixes x d id w r := by
  subst hr
  rcases wtParse_cases prefixes hy bytes with ⟨hnone, hr⟩ | ⟨id', n, s, hsome, -, -, hr⟩
  · apply Parsing.header
    · unfold frameHeaderOf
      rw [hdec]
      simp only [hcat, hnone, Option.map_none]
    · rw [hr]
  · have hhead := frameHeaderOf_eq hdec (hcat ▸ hsome)
    obtain ⟨rest, rfl⟩ := hp
    rw [frameHeaderOf_append hhead] at hfull
    cases hfull
    refine .found hx hhead rfl ?_
    rw [hr]
    show (if (prefixes id).isSome = true then some ((y ++ bytes).drop n) else none) = _
    rw [← hcat, List.drop_drop]

/-- Every delivery of a session's stream is of one of these kinds. -/
theorem parse_session (mem : Mem) (hu : isBidirStreamId streamId = false) (hreads : Reads prefixes x p)
    (hfull : frameHeaderOf full = some (h3zeroStreamTypeWebtransport, id, w)) {d : Delivery}
    (hp : x ++ d.bytes <+: full) : Parsing prefixes x d id w (Remote.parse mem prefixes streamId p.ctx d) := by
  have hparse (c : Remote κ) : Remote.parse mem prefixes streamId c d =
      Remote.parseRemoteUnidirStream mem prefixes c d.settings d.bytes := by
    unfold Remote.parse
    rw [hu]
    rfl
  obtain ⟨c0, n0, hc0, -, -⟩ := frameHeaderOf_some hfull
  have hheader {y : List UInt8} (hy : Varint.decode y = none) : frameHeaderOf y = none := by
    unfold frameHeaderOf
    rw [hy]
  cases hreads with
  | type hx =>
    have hstart := hparse ⟨UniState.fresh.holding x, none⟩
    unfold Remote.parseRemoteUnidirStream UniState.holding UniState.fresh at hstart
    simp only at hstart
    -- an empty piece that only ends the stream reads nothing
    by_cases hb : d.bytes = []
    · rw [hb, varintFromStream_nil] at hstart
      apply Parsing.header
      · rw [hb, List.append_nil]
        exact hheader hx
      · exact congrArg RemoteParse.rest hstart
    cases hdec : Varint.decode (x ++ d.bytes) with
    | none =>
      rw [varintFromStream_none hb none hdec] at hstart
      exact .header (hheader hdec) (congrArg RemoteParse.rest hstart)
    | some q =>
      obtain rfl := Varint.decode_agree hp hdec hc0
      rw [varintFromStream_some hb hx none hdec] at hstart
      exact parse_id hfull hp (hheader hx) hdec Varint.decode_nil (List.nil_append _).symm hstart
  -- a stream that has read another type is not the session's
  | other hx ht =>
    have hagree := Varint.decode_agree ((List.prefix_append x d.bytes).trans hp) hx hc0
    exact absurd (congrArg Prod.fst hagree) ht
  | @session c hx hid =>
    have hc : c ≤ x.length := (Varint.decode_bounds hx).2
    have hnone : frameHeaderOf x = none := by
      unfold frameHeaderOf
      rw [hx]
      simp only [hid, Option.map_none]
    exact parse_id hfull hp hnone (Varint.decode_append hx d.bytes) hid (List.drop_append_of_le_length hc)
      (hparse (.awaitingId (x.drop c)))
  | @bound c id' n s posted hx hid hs hc =>
    have hhead := frameHeaderOf_eq hx hid
    have hagree := frameHeaderOf_agree ((List.prefix_append x d.bytes).trans hp) hhead hfull
    rw [hagree] at hhead
    refine .behind hhead ?_
    rw [hparse]
    unfold Remote.parseRemoteUnidirStream Remote.uniTyped Remote.wtParseControlStreamId
    simp only [hs, hc]
    rfl

end Step

/-! ## Whole streams -/

variable {κ : Type}

/-- The errors with which the deliveries stop the stream, from a receiving end on. -/
def stopsFrom (mem : Mem) (prefixes : Prefixes κ) (streamId : Nat) : Peer κ → List Delivery → List Nat
  | _, [] => []
  | p, d :: ds => (Remote.processRemoteStream mem prefixes streamId p.ctx d).stopSending.toList ++
      stopsFrom mem prefixes streamId (p.receive mem prefixes streamId d) ds

section Stream

variable {mem : Mem} {prefixes : Prefixes κ} {streamId : Nat} {p : Peer κ} {x full : List UInt8} {id w : Nat}

theorem stop_eq (c : Remote κ) (d : Delivery) :
    (Remote.processRemoteStream mem prefixes streamId c d).stopSending =
      if (Remote.parse mem prefixes streamId c d).rest = none then
        some (Remote.parse mem prefixes streamId c d).errorFound
      else none := by
  unfold Remote.processRemoteStream
  generalize Remote.parse mem prefixes streamId c d = r
  obtain ⟨ctx, set, rest, code⟩ := r
  cases rest with
  | none => rfl
  | some rest =>
    simp only [reduceCtorEq, if_false]
    split
    · rfl
    · rfl

/-- A delivery stops the stream where it completes the header and no prefix is declared. -/
theorem stop_step (mem : Mem) (hu : isBidirStreamId streamId = false) (hreads : Reads prefixes x p)
    (hfull : frameHeaderOf full = some (h3zeroStreamTypeWebtransport, id, w)) {d : Delivery}
    (hp : x ++ d.bytes <+: full) :
    (Remote.processRemoteStream mem prefixes streamId p.ctx d).stopSending.toList =
      if prefixes id = none ∧ frameHeaderOf x = none ∧ frameHeaderOf (x ++ d.bytes) ≠ none then [0] else [] := by
  rw [stop_eq]
  rcases parse_session mem hu hreads hfull hp with ⟨h, hrest⟩ | ⟨hx, h, hcode, hrest⟩ | ⟨hx, hrest⟩
  · rw [hrest, if_neg (Option.some_ne_none _), if_neg fun hand => hand.2.2 h]
    rfl
  · cases hpre : prefixes id with
    | none =>
      rw [hpre, Option.isSome_none, if_neg Bool.false_ne_true] at hrest
      rw [hrest, hcode, if_pos rfl, if_pos ⟨rfl, hx, by rw [h]; exact Option.some_ne_none _⟩]
      rfl
    | some callback =>
      rw [hpre, Option.isSome_some, if_pos rfl] at hrest
      rw [hrest, if_neg (Option.some_ne_none _), if_neg fun hand => Option.some_ne_none _ hand.1]
      rfl
  · rw [hrest, if_neg (Option.some_ne_none _), if_neg fun hand => Option.some_ne_none _ (hx.symm.trans hand.2.1)]
    rfl

/-- A stream of a session is stopped once, or never. -/
theorem stops_run (mem : Mem) (hu : isBidirStreamId streamId = false)
    (hfull : frameHeaderOf full = some (h3zeroStreamTypeWebtransport, id, w)) :
    ∀ (ds : List Delivery) {x : List UInt8} {p : Peer κ}, Reads prefixes x p → x ++ deliveredBytes ds <+: full →
      stopsFrom mem prefixes streamId p ds =
        if prefixes id = none ∧ frameHeaderOf x = none ∧ frameHeaderOf (x ++ deliveredBytes ds) ≠ none then [0] else []
  | [], x, p, hreads, hp => by
    have hnil : x ++ deliveredBytes [] = x := List.append_nil x
    rw [hnil, if_neg fun hand => hand.2.2 hand.2.1]
    rfl
  | d :: ds, x, p, hreads, hp => by
    have hcons : x ++ deliveredBytes (d :: ds) = x ++ d.bytes ++ deliveredBytes ds := by
      simp [deliveredBytes]
    rw [hcons] at hp ⊢
    have hd : x ++ d.bytes <+: full := (List.prefix_append _ _).trans hp
    have hrun := stops_run mem hu hfull ds (@Reads.receive κ mem prefixes streamId p x hu hreads d) hp
    rw [stopsFrom, stop_step mem hu hreads hfull hd, hrun]
    -- the header is whole behind this piece, or behind a later one
    by_cases hmid : frameHeaderOf (x ++ d.bytes) = none
    · have hx : frameHeaderOf x = none := by
        by_contra hne
        obtain ⟨h, hh⟩ := Option.ne_none_iff_exists'.1 hne
        rw [frameHeaderOf_append hh] at hmid
        cases hmid
      have hnot : ¬ (prefixes id = none ∧ frameHeaderOf x = none ∧ frameHeaderOf (x ++ d.bytes) ≠ none) :=
        fun hand => hand.2.2 hmid
      rw [if_neg hnot, List.nil_append]
      exact if_congr (and_congr_right fun _ => and_congr_left fun _ => ⟨fun _ => hx, fun _ => hmid⟩) rfl rfl
    · obtain ⟨h, hh⟩ := Option.ne_none_iff_exists'.1 hmid
      have hend : frameHeaderOf (x ++ d.bytes ++ deliveredBytes ds) ≠ none := by
        rw [frameHeaderOf_append hh]
        exact Option.some_ne_none h
      have hnot : ¬ (prefixes id = none ∧ frameHeaderOf (x ++ d.bytes) = none ∧
          frameHeaderOf (x ++ d.bytes ++ deliveredBytes ds) ≠ none) := fun hand => hmid hand.2.1
      rw [if_neg hnot, List.append_nil]
      exact if_congr (and_congr_right fun _ => and_congr_right fun _ => ⟨fun _ => hend, fun _ => hmid⟩) rfl rfl

/-- What is passed on bears the mark of its delivery. -/
theorem posted_fin {c : Remote κ} {d : Delivery} :
    ∀ q ∈ (Remote.processRemoteStream mem prefixes streamId c d).posted.toList, q.2.2 = d.fin := by
  unfold Remote.processRemoteStream
  generalize Remote.parse mem prefixes streamId c d = r
  obtain ⟨ctx, set, rest, code⟩ := r
  intro q hq
  cases rest with
  | none => cases hq
  | some rest =>
    simp only at hq
    split at hq
    · unfold Remote.postDataOrFin at hq
      cases hcb : ctx.pathCallback with
      | none =>
        rw [hcb] at hq
        cases hq
      | some callback =>
        rw [hcb] at hq
        obtain rfl := Option.some.inj (Option.mem_toList.1 hq)
        rfl
    · cases hq

/-- The end of a bound stream is passed on. -/
theorem posted_last {c : Remote κ} {d : Delivery} {rest : List UInt8} {callback : κ}
    (hrest : (Remote.parse mem prefixes streamId c d).rest = some rest)
    (hcb : (Remote.parse mem prefixes streamId c d).ctx.pathCallback = some callback) (hfin : d.fin = true) :
    (Remote.processRemoteStream mem prefixes streamId c d).posted = some (callback, rest, true) := by
  unfold Remote.processRemoteStream Remote.postDataOrFin
  simp only [hrest, hcb, hfin, or_true, if_true]

/-- Before the end nothing bears its mark. -/
theorem deliver_open {ds : List Delivery} (h : ∀ d ∈ ds, d.fin = false) :
    ∀ q ∈ (deliver mem prefixes streamId ds).posted, q.2.2 = false := by
  induction ds using List.reverseRecOn with
  | nil => exact List.forall_mem_nil _
  | append_singleton ds d ih =>
    have hsnoc : deliver mem prefixes streamId (ds ++ [d]) =
        (deliver mem prefixes streamId ds).receive mem prefixes streamId d := List.foldl_concat ..
    rw [hsnoc]
    intro q hq
    rcases List.mem_append.1 hq with hq | hq
    · exact ih (fun e he => h e (List.mem_append_left _ he)) q hq
    · rw [posted_fin q hq]
      exact h d (List.mem_append_right _ (List.mem_singleton_self d))

end Stream

/-- A command on its way: with a prefix declared for the session it reaches that application in parts, behind the header
and nothing missing, and only the last part is marked as the end; with none it is refused once, without an error, and
nothing is passed on. Without prefixes the parser is that of a camera server's streams. -/
theorem command_answered {sid : Nat} {addToStream : Nat → Int} {sessionId : Nat} (hid : sessionId < 2 ^ 62)
    {code : UInt8} {payload : List UInt8} {writes : List (List UInt8 × Bool)}
    (h : sendWtControl sid addToStream sessionId code payload = (0, writes)) (mem : Mem) (prefixes : Prefixes κ)
    {before : List Delivery} {last : Delivery} (ha : Arrives writes before last) :
    (∀ callback, prefixes sessionId = some callback →
      stopsFrom mem prefixes sid .fresh (before ++ [last]) = [] ∧
        ∃ (parts : List (List UInt8)) (lastPart : List UInt8), parts.flatten ++ lastPart = code :: payload ∧
          (deliver mem prefixes sid (before ++ [last])).posted =
            parts.map (fun part => (callback, part, false)) ++ [(callback, lastPart, true)]) ∧
      (prefixes sessionId = none →
        stopsFrom mem prefixes sid .fresh (before ++ [last]) = [0] ∧
          (deliver mem prefixes sid (before ++ [last])).posted = []) ∧
      ∀ (c : Remote κ) (set : Settings) (bytes : List UInt8),
        Remote.parseRemoteUnidirStream mem (fun _ => none) c set bytes =
          let r := H3.parseRemoteUnidirStream mem c.state set bytes
          ⟨{ c with state := r.state }, r.settings, r.rest, r.errorFound⟩ := by
  obtain ⟨hu, hbytes⟩ := send_done hid h
  have hds := ha.bytes.trans hbytes
  have hfull := frameHeaderOf_append (frameHeaderOf_encode (by decide : h3zeroStreamTypeWebtransport < 2 ^ 62) hid)
    (code :: payload)
  rw [← hds] at hfull
  have hstops := stops_run mem hu hfull (before ++ [last]) (reads_nil prefixes) (by rw [List.nil_append])
  rw [List.nil_append] at hstops
  have hsnoc : deliver mem prefixes sid (before ++ [last]) =
      (deliver mem prefixes sid before).receive mem prefixes sid last := List.foldl_concat ..
  have hcat : deliveredBytes (before ++ [last]) = deliveredBytes before ++ last.bytes := by simp [deliveredBytes]
  refine ⟨?_, ?_, Remote.parseRemoteUnidirStream_none mem⟩
  · intro callback hreg
    refine ⟨hstops.trans (if_neg fun hand => Option.some_ne_none _ (hreg.symm.trans hand.1)), ?_⟩
    obtain ⟨hbound, htags, hpassed⟩ := header_recognised mem prefixes hu hid hreg hds
    -- behind the last delivery the stream is bound, so its end is passed on
    have hrest :
        ∃ rest, (Remote.parse mem prefixes sid (deliver mem prefixes sid before).ctx last).rest = some rest := by
      rcases parse_session mem hu (deliver_reads mem prefixes hu before) hfull
        (by rw [hcat]) with ⟨-, hr⟩ | ⟨-, -, -, hr⟩ | ⟨-, hr⟩
      · exact ⟨_, hr⟩
      · rw [hreg, Option.isSome_some, if_pos rfl] at hr
        exact ⟨_, hr⟩
      · exact ⟨_, hr⟩
    obtain ⟨rest, hrest⟩ := hrest
    have hcb : (Remote.parse mem prefixes sid (deliver mem prefixes sid before).ctx last).ctx.pathCallback =
        some callback := by
      rw [hsnoc] at hbound
      rw [← (process_parse mem prefixes sid (deliver mem prefixes sid before).ctx last).1]
      exact hbound
    have hposted : (deliver mem prefixes sid (before ++ [last])).posted =
        (deliver mem prefixes sid before).posted ++ [(callback, rest, true)] := by
      rw [hsnoc]
      show _ ++ (Remote.processRemoteStream mem prefixes sid _ last).posted.toList = _
      rw [posted_last hrest hcb ha.fin]
      rfl
    refine ⟨(deliver mem prefixes sid before).posted.map fun q => q.2.1, rest, ?_, ?_⟩
    · unfold Peer.passed at hpassed
      rw [hposted, List.map_append, List.flatten_append] at hpassed
      simpa using hpassed
    · have hopen : ∀ q ∈ (deliver mem prefixes sid before).posted, (callback, q.2.1, false) = q := by
        rintro ⟨cb, part, fin⟩ hq
        have hfin : fin = false := deliver_open ha.goesOn _ hq
        have htag : cb = callback := htags (cb, part, fin) (hposted ▸ List.mem_append_left _ hq)
        rw [hfin, htag]
      rw [hposted, List.map_map]
      refine congrArg (· ++ _) ?_
      exact (List.map_id _).symm.trans (List.map_congr_left fun q hq => (hopen q hq).symm)
  · intro hnone
    refine ⟨hstops.trans (if_pos ⟨hnone, rfl, by rw [hfull]; exact Option.some_ne_none _⟩), ?_⟩
    have hreads := deliver_reads mem prefixes hu (before ++ [last])
    obtain ⟨c, n, hc, hn, -⟩ := frameHeaderOf_some hfull
    generalize deliver mem prefixes sid (before ++ [last]) = p at hreads ⊢
    cases hreads with
    | type _ => rfl
    | other _ _ _ => rfl
    | session _ _ => rfl
    | bound hx hid' hs hc' hposted hpassed =>
      rw [hx] at hc
      cases hc
      rw [hid'] at hn
      cases hn
      refine List.eq_nil_iff_forall_not_mem.2 fun q hq => ?_
      exact Option.some_ne_none _ ((hposted q hq).symm.trans hnone)

/-- The command that sets the frame rate to 30, in session 0. -/
def fpsWrites : List (List UInt8 × Bool) := [([0x40, 0x54, 0], false), ([0x10], false), ([0, 30], true)]

def fpsBefore : List Delivery := [⟨.zero, [0x40], false, 0, 0⟩, ⟨.zero, [0x54, 0, 0x10, 0], false, 0, 0⟩]

def fpsLast : Delivery := ⟨.zero, [30], true, 0, 0⟩

theorem fps_arrives : Arrives fpsWrites fpsBefore fpsLast := ⟨by decide, by decide, rfl⟩

theorem fps_answered :
    (stopsFrom .ample (fun _ => some ()) 6 .fresh (fpsBefore ++ [fpsLast]) = [] ∧
        ∃ (parts : List (List UInt8)) (lastPart : List UInt8), parts.flatten ++ lastPart = [0x10, 0, 30] ∧
          (deliver .ample (fun _ => some ()) 6 (fpsBefore ++ [fpsLast])).posted =
            parts.map (fun part => ((), part, false)) ++ [((), lastPart, true)]) ∧
      stopsFrom .ample (fun _ => (none : Option Unit)) 6 .fresh (fpsBefore ++ [fpsLast]) = [0] ∧
        (deliver .ample (fun _ => (none : Option Unit)) 6 (fpsBefore ++ [fpsLast])).posted = [] := by
  have hsent : sendWtControl 6 (fun _ => 0) 0 0x10 [0, 30] = (0, fpsWrites) := by decide
  exact ⟨(command_answered (by decide) hsent .ample (fun _ => some ()) fps_arrives).1 () rfl,
    (command_answered (by decide) hsent .ample (fun _ => none) fps_arrives).2.1 rfl⟩

end Mquic.H3
