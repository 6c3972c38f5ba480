/-
From the camera to the files of wt_client.c: both threads of the server, the streams they write, and the calls of
`wt_handle_stream_data` that these bring, those of one stream between those of another as they come. If no call ends
inside the header or a length and none goes on behind a length, each file is a JPEG the camera published, whole.
-/
import Mquic.Client.WtDelivery
import Mquic.Client.WtIsolation
import Mquic.Server.Pipeline

namespace Mquic.WtClient

open Framing Mquic.Server Mquic.Codec
open Keyed (onKey)
open Server.Pipeline (PartOf Delivered)
open Server.Network (opened written unfinishedOn Sending)

/-! ## What is on a stream -/

/-- The tokens of an unfinished record that are on stream `sid`. -/
def unfinishedToks : Option Sending → Nat → List (Tok UInt8)
  | some x, sid => if x.sid = sid then .len x.fbSz :: x.payload.map .byte else []
  | none, _ => []

/-- The tokens on stream `sid`, behind its header. -/
def tokensOn (s : Pipeline.State) (sid : Nat) : List (Tok UInt8) :=
  (onKey sid s.records).flatMap record ++ unfinishedToks s.net.unfinished sid

/-- The record in hand, once its last byte is out. -/
def lastOut : Option Sending → List (Nat × List UInt8)
  | some x => if x.fbSz ≤ x.payload.length then [(x.sid, x.payload)] else []
  | none => []

/-- The records of which the last byte is out. -/
def allOut (s : Pipeline.State) : List (Nat × List UInt8) := s.records ++ lastOut s.net.unfinished

/-- A length in the chunk is its end. -/
def endsBehindLength : List (Tok UInt8) → Bool
  | [] => true
  | .byte _ :: ts => endsBehindLength ts
  | .len _ :: ts => ts.isEmpty

/-- The chunks are these tokens behind the header of session `S`: the first brings the header whole, none cuts a
length, and each ends behind a length in it. -/
def Chunked (S : Nat) (toks : List (Tok UInt8)) (chunks : List (List UInt8)) : Prop :=
  ∃ ts tss, (ts :: tss).flatten = toks ∧
    chunks = (wtHeader S ++ wire Varint.encode ts) :: tss.map (wire Varint.encode) ∧
    ∀ us ∈ ts :: tss, endsBehindLength us = true

/-- Behind such a length there is nothing to take for a PTS. -/
theorem noPts_of_ends : ∀ {ts : List (Tok UInt8)}, endsBehindLength ts = true → NoPts ts
  | [], _ => fun pre n post heq => by simp at heq
  | .byte a :: ts, h => by
    intro pre n post heq
    cases pre with
    | nil => cases heq
    | cons t pre => exact @noPts_of_ends ts h pre n post (List.cons.inj heq).2
  | .len m :: ts, h => by
    have hts : ts = [] := List.isEmpty_iff.1 h
    subst hts
    intro pre n post heq
    cases pre with
    | nil =>
      cases heq
      rfl
    | cons t pre => simp at heq

section Stream

variable {S : Nat} {s : Pipeline.State} {sid : Nat}

/-- The tokens are what was written. -/
theorem tokensOn_written (hi : Pipeline.Inv S s) (hs : sid ∈ opened s.net.writes) :
    wtHeader S ++ wire Varint.encode (tokensOn s sid) = written s.net.writes sid := by
  have hrec : wire Varint.encode ((onKey sid s.records).flatMap record) =
      wire quicVarintEncode ((onKey sid s.records).flatMap record) := by
    refine wire_congr fun n hn => ?_
    obtain ⟨f, hf, hn⟩ := List.mem_flatMap.1 hn
    have hlen : n = f.length := by simpa [record] using hn
    obtain ⟨r, hr, rfl⟩ := List.mem_map.1 hf
    rw [hlen, quicVarintEncode_eq (hi.recorded.frames r (List.mem_of_mem_filter hr)).lt]
  have hun : wire Varint.encode (unfinishedToks s.net.unfinished sid) = unfinishedOn s.net.unfinished sid := by
    cases hu : s.net.unfinished with
    | none => rfl
    | some x =>
      have hlt : x.fbSz < 2 ^ 62 := by
        have hle := (hi.recorded.inv.core.streams.inside x hu).2.2.1
        unfold frameBufferBytes at hle
        omega
      rw [unfinishedToks, unfinishedOn, Sending.sofar]
      split
      · rw [wire_len, wire_bytes, quicVarintEncode_eq hlt]
      · rfl
  rw [hi.recorded.carries.bytes sid hs, streamBytes_eq, tokensOn, wire_append, hrec, hun, List.append_assoc]

/-- The tokens are received as the records of which the last byte is out. -/
theorem tokensOn_received (hi : Pipeline.Inv S s) (sid : Nat) :
    ∃ r, Rx.toks Rx.empty (tokensOn s sid) = some r ∧ r.out = onKey sid (allOut s) := by
  have hne : ∀ f ∈ onKey sid s.records, f ≠ [] := by
    intro f hf
    obtain ⟨r, hr, rfl⟩ := List.mem_map.1 hf
    exact (hi.recorded.frames r (List.mem_of_mem_filter hr)).ne_nil
  have hrec : Rx.toks Rx.empty ((onKey sid s.records).flatMap record) = some ⟨none, onKey sid s.records⟩ :=
    toks_records [] hne
  -- behind the whole records comes the one in hand, if it is on this stream
  have htail : ∃ r, Rx.toks ⟨none, onKey sid s.records⟩ (unfinishedToks s.net.unfinished sid) = some r ∧
      r.out = onKey sid (allOut s) := by
    rw [allOut, Keyed.onKey_append]
    cases hu : s.net.unfinished with
    | none => exact ⟨_, rfl, (List.append_nil _).symm⟩
    | some x =>
      obtain ⟨-, hpos, -, hle⟩ := hi.recorded.inv.core.streams.inside x hu
      rw [unfinishedToks, lastOut]
      by_cases hsid : x.sid = sid
      · rw [if_pos hsid]
        have hlen : Rx.tok ⟨none, onKey sid s.records⟩ (.len x.fbSz) =
            some ⟨some (x.fbSz, []), onKey sid s.records⟩ := if_pos hpos
        unfold Rx.toks
        rw [Lts.run_cons, hlen, Option.bind_some]
        by_cases hwhole : x.fbSz ≤ x.payload.length
        · rw [if_pos hwhole, ← hsid, Keyed.onKey_self]
          exact ⟨_, toks_bytes_eq _ (by simp; omega) (by simpa using hpos), rfl⟩
        · rw [if_neg hwhole]
          exact ⟨_, toks_bytes_lt _ _ _ _ (by simp; omega), (List.append_nil _).symm⟩
      · rw [if_neg hsid]
        refine ⟨_, rfl, ?_⟩
        split
        · rw [Keyed.onKey_other hsid]
          exact (List.append_nil _).symm
        · exact (List.append_nil _).symm
  obtain ⟨r, h1, h2⟩ := htail
  refine ⟨r, ?_, h2⟩
  unfold Rx.toks tokensOn at *
  rw [Lts.run_append, hrec, Option.bind_some, h1]

/-- A length on a stream is that of a frame. -/
theorem tokensOn_length (hi : Pipeline.Inv S s) {n : Nat} (hn : Tok.len n ∈ tokensOn s sid) : n ≤ wtMaxFrameLen := by
  have hmax : ∀ m ≤ frameBufferBytes, m ≤ wtMaxFrameLen := by
    intro m hm
    unfold frameBufferBytes at hm
    unfold wtMaxFrameLen
    omega
  rcases List.mem_append.1 hn with hn | hn
  · obtain ⟨f, hf, hn⟩ := List.mem_flatMap.1 hn
    obtain ⟨r, hr, rfl⟩ := List.mem_map.1 hf
    have hlen : n = r.2.length := by simpa [record] using hn
    rw [hlen]
    exact hmax _ (hi.recorded.frames r (List.mem_of_mem_filter hr)).2
  · cases hu : s.net.unfinished with
    | none =>
      rw [hu] at hn
      cases hn
    | some x =>
      rw [hu, unfinishedToks] at hn
      split at hn
      · have hlen : n = x.fbSz := by simpa using hn
        rw [hlen]
        exact hmax _ (hi.recorded.inv.core.streams.inside x hu).2.2.1
      · cases hn

/-- What the calls of one stream save, its bytes so far in chunks of that kind. -/
theorem chunked_saves (hi : Pipeline.Inv S s) (hS : S < 2 ^ 62) {toks : List (Tok UInt8)} (hp : toks <+: tokensOn s sid)
    {chunks : List (List UInt8)} (hc : Chunked S toks chunks) :
    savedOver S .header chunks <+: onKey sid (allOut s) ∧
      (toks = tokensOn s sid → savedOver S .header chunks = onKey sid (allOut s)) := by
  obtain ⟨ts, tss, rfl, rfl, hends⟩ := hc
  obtain ⟨r, hr, hout⟩ := tokensOn_received hi sid
  obtain ⟨r1, hr1, hpre⟩ := toks_of_prefix hp hr
  have hlen : ∀ n, Tok.len n ∈ (ts :: tss).flatten → n ≤ wtMaxFrameLen := fun n hn =>
    tokensOn_length hi (hp.subset hn)
  obtain ⟨hsaved, -⟩ := savedOver_toks (S := S) (ts :: tss) Rx.empty_open hlen
    (fun us hus => noPts_of_ends (hends us hus)) hr1
  rw [savedOver, absorb_wtHeader hS]
  have heq : (absorb S (.scan []) (wire Varint.encode ts)).frames ++
      savedOver S (absorb S (.scan []) (wire Varint.encode ts)).mode (tss.map (wire Varint.encode)) = r1.out := hsaved
  rw [heq]
  refine ⟨hout ▸ hpre, fun hall => ?_⟩
  rw [hall, hr] at hr1
  cases hr1
  exact hout

end Stream

/-! ## All streams -/

/-- The records of which the last byte is out are publications, in order. -/
theorem allOut_published {S : Nat} {s : Pipeline.State} (hi : Pipeline.Inv S s) :
    ∃ ks : List Nat, ks.Pairwise (· < ·) ∧ List.Forall₂ (fun r k => s.jpegs[k]? = some r.2) (allOut s) ks := by
  have hinc : (s.books.popped.map (·.1)).Pairwise (· < ·) := hi.books.inOrder.sublist (List.sublist_append_left _ _)
  have hnumbers : s.numbers.Pairwise (· < ·) := hi.delivered.inOrder
  unfold allOut
  cases hu : s.net.unfinished with
  | none =>
    rw [lastOut, List.append_nil]
    exact ⟨s.numbers, hnumbers, hi.whole⟩
  | some x =>
    rw [lastOut]
    split
    · rename_i hwhole
      cases hi.taken with
      | between _ hcut =>
        rw [hu] at hcut
        cases hcut
      | within _ hpopped hpart =>
        obtain ⟨jpeg, hk, hlen, hgrown⟩ := hpart x (.inr hu)
        rw [hpopped] at hinc
        refine ⟨_, hinc, List.rel_append hi.whole (.cons ?_ .nil)⟩
        rw [hgrown.eq_of_length_le (hlen ▸ hwhole)]
        exact hk
    · rw [List.append_nil]
      exact ⟨s.numbers, hnumbers, hi.whole⟩

/-- The calls of one stream among those of others save what they save alone. -/
theorem calls_own {os : Os} (ho : os.Succeeds) {c c' : State} (hm : c.app.maxFrames = 0) (sid : Nat)
    {cs : List (Nat × List UInt8)} (h : calls os c cs = some c') :
    ∃ t', calls os c ((onKey sid cs).map (sid, ·)) = some t' ∧ c'.savedFor sid = t'.savedFor sid := by
  have hself : Agree sid c c := ⟨⟨hm, hm⟩, rfl, rfl, rfl⟩
  obtain ⟨t', ht', ha⟩ := Lts.run_filter (R := Agree sid) (fun e : Nat × List UInt8 => decide (e.1 = sid))
    (by
      rintro s t ⟨x, p⟩ s' hx ha h
      have hx' : x = sid := of_decide_eq_true hx
      subst hx'
      exact ha.own ho h)
    (by
      rintro s t ⟨x, p⟩ s' hx ha h
      exact ha.other ho (of_decide_eq_false hx) h)
    cs c c c' hself h
  rw [Keyed.filter_key] at ht'
  exact ⟨t', ht', ha.saved⟩

/-- In every run of the server's two threads whose discards find the network thread off the buffer the camera writes
next, and in which each frame taken has a stream: if what has come of each stream came in chunks that cut neither
header nor length and end behind a length, whatever the order of the streams' calls, then each stream's files are the
first of its records; and the records are JPEGs the camera published, whole, each once, in the order of publication. -/
theorem files_published (frameBuffer : Fin 2 → List UInt8) (allocated : Bool) (behind : Nat → Network.MpBinding)
    (maxFrames : Nat) {es : List Pipeline.Step} {s : Pipeline.State} {os : Os} (ho : os.Succeeds) {c : State}
    (hm : c.app.maxFrames = 0) (hS : c.app.sessionCtrlId < 2 ^ 62)
    (hclear : Lts.Meets Pipeline.step Pipeline.Clear
      (.enter frameBuffer allocated behind c.app.sessionCtrlId maxFrames) es)
    (h : Lts.run Pipeline.step (.enter frameBuffer allocated behind c.app.sessionCtrlId maxFrames) es = some s)
    {cs : List (Nat × List UInt8)} {came : Nat → List (Tok UInt8)}
    (hcame : ∀ sid, onKey sid cs ≠ [] → c.record sid = none ∧ came sid <+: tokensOn s sid ∧
      Chunked c.app.sessionCtrlId (came sid) (onKey sid cs)) :
    (∀ sid ∈ opened s.net.writes,
      wtHeader c.app.sessionCtrlId ++ wire Varint.encode (tokensOn s sid) = written s.net.writes sid) ∧
    ∃ c', calls os c cs = some c' ∧
      (∀ sid, ∃ fs, c'.savedFor sid = c.savedFor sid ++ fs ∧ fs <+: onKey sid (allOut s) ∧
        (onKey sid cs ≠ [] → came sid = tokensOn s sid → fs = onKey sid (allOut s))) ∧
      ∃ ks : List Nat, ks.Pairwise (· < ·) ∧ List.Forall₂ (fun r k => s.jpegs[k]? = some r.2) (allOut s) ks := by
  have hi : Pipeline.Inv c.app.sessionCtrlId s := Lts.inv_run (fun _ _ _ hi hc h => Pipeline.step_inv hi hc h) es _ s
    (Pipeline.enter_inv frameBuffer allocated behind c.app.sessionCtrlId maxFrames) hclear h
  obtain ⟨c', hc'⟩ := Option.isSome_iff_exists.1 (calls_isSome os cs c)
  refine ⟨fun sid hsid => tokensOn_written hi hsid, c', hc', fun sid => ?_, allOut_published hi⟩
  obtain ⟨t', ht', hsaved⟩ := calls_own ho hm sid hc'
  by_cases hnone : onKey sid cs = []
  · rw [hnone] at ht'
    cases ht'
    exact ⟨[], by rw [hsaved, List.append_nil], List.nil_prefix, fun hne => absurd hnone hne⟩
  · obtain ⟨hnew, hp, hc⟩ := hcame sid hnone
    obtain ⟨h1, h2⟩ := chunked_saves hi hS hp hc
    obtain ⟨t1, h3, h4, -⟩ := calls_unseen ho hm hnew (onKey sid cs)
    cases h3.symm.trans ht'
    exact ⟨_, hsaved.trans h4, h1, fun _ => h2⟩

/-- The header and the length of the first of two frames, then its payload in two calls. -/
def twoFramesCalls : List (Nat × List UInt8) := [(3, [0x40, 0x54, 0x00, 0x02]), (3, [5]), (3, [6])]

theorem twoFramesCalls_published :
    (calls Os.sound (State.init "" 0 0) twoFramesCalls).map (·.savedFor 3) = some [[5, 6]] ∧
      ∀ s, Lts.run Pipeline.step (.enter (fun _ => []) true Network.nothing 0 10) Pipeline.twoFrames = some s →
        (∀ sid ∈ opened s.net.writes,
          wtHeader 0 ++ wire Varint.encode (tokensOn s sid) = written s.net.writes sid) ∧
        ∃ c', calls Os.sound (State.init "" 0 0) twoFramesCalls = some c' ∧
          (∀ sid, ∃ fs, c'.savedFor sid = (State.init "" 0 0).savedFor sid ++ fs ∧ fs <+: onKey sid (allOut s) ∧
            (onKey sid twoFramesCalls ≠ [] → record [5, 6] = tokensOn s sid → fs = onKey sid (allOut s))) ∧
          ∃ ks : List Nat, ks.Pairwise (· < ·) ∧
            List.Forall₂ (fun r k => s.jpegs[k]? = some r.2) (allOut s) ks := by
  have hrun : (Lts.run Pipeline.step (.enter (fun _ => []) true Network.nothing 0 10) Pipeline.twoFrames).map
      (tokensOn · 3) = some (record [5, 6]) := rfl
  refine ⟨by decide, fun s h => ?_⟩
  rw [h] at hrun
  refine files_published (c := State.init "" 0 0) (fun _ => []) true Network.nothing 10 Os.sound_succeeds rfl
    (by decide) (by decide) h fun sid hne => ?_
  have hsid : sid = 3 := by
    by_contra hsid
    exact hne (by simp [twoFramesCalls, onKey, Ne.symm hsid])
  subst hsid
  refine ⟨rfl, ?_, [.len 2], [[.byte 5], [.byte 6]], rfl, by decide, by decide⟩
  rw [← Option.some.inj hrun]

end Mquic.WtClient
