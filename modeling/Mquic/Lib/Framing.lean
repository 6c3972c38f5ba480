/-
Length-prefixed records as a token stream: a length token, then that many payload tokens. The
receiver `Rx` reassembles the records; a sender's records come back exactly, in order, and the
tokens still to come of an open record are payload up to its end.
-/
import Mquic.Lib.Lts

namespace Framing

variable {α : Type*}

/-- A record stream cut into its indivisible items. -/
inductive Tok (α : Type*) where
  | len (n : Nat)
  | byte (a : α)

/-- The reassembly state: the record being received (declared length and payload so far), and the
records completed. -/
structure Rx (α : Type*) where
  cur : Option (Nat × List α)
  out : List (List α)

/-- The start of every reassembly. -/
def Rx.empty : Rx α := ⟨none, []⟩

/-- One token; a length inside a record and a payload byte outside one are not accepted. -/
def Rx.tok (r : Rx α) : Tok α → Option (Rx α)
  | .len n =>
    match r.cur with
    | none => if 0 < n then some { r with cur := some (n, []) } else none
    | some _ => none
  | .byte a =>
    match r.cur with
    | none => none
    | some (n, acc) =>
      if acc.length + 1 = n then some { cur := none, out := r.out ++ [acc ++ [a]] }
      else some { r with cur := some (n, acc ++ [a]) }

/-- A list of tokens. -/
def Rx.toks (r : Rx α) (ts : List (Tok α)) : Option (Rx α) := Lts.run Rx.tok r ts

/-- The tokens of one record. -/
def record (f : List α) : List (Tok α) := .len f.length :: f.map .byte

/-- The symbols on the wire, for a given encoding of lengths. -/
def wire (enc : Nat → List α) (ts : List (Tok α)) : List α :=
  ts.flatMap fun
    | .len n => enc n
    | .byte a => [a]

/-! ## The wire -/

section Wire

variable (enc : Nat → List α)

@[simp] theorem wire_nil : wire enc ([] : List (Tok α)) = [] := rfl

@[simp] theorem wire_len (n : Nat) (ts : List (Tok α)) : wire enc (.len n :: ts) = enc n ++ wire enc ts := rfl

@[simp] theorem wire_byte (a : α) (ts : List (Tok α)) : wire enc (.byte a :: ts) = a :: wire enc ts := rfl

@[simp] theorem wire_append (ts us : List (Tok α)) : wire enc (ts ++ us) = wire enc ts ++ wire enc us := by
  simp [wire]

@[simp] theorem wire_bytes : ∀ bs : List α, wire enc (bs.map .byte) = bs
  | [] => rfl
  | b :: bs => by rw [List.map_cons, wire_byte, wire_bytes bs]

/-- Only the encodings of the lengths that occur matter. -/
theorem wire_congr {enc enc' : Nat → List α} : ∀ {ts : List (Tok α)}, (∀ n, Tok.len n ∈ ts → enc n = enc' n) →
    wire enc ts = wire enc' ts
  | [], _ => rfl
  | .len n :: ts, h => by
    rw [wire_len, wire_len, h n (List.mem_cons_self ..), wire_congr fun m hm => h m (List.mem_cons_of_mem _ hm)]
  | .byte a :: ts, h => by
    rw [wire_byte, wire_byte, wire_congr fun m hm => h m (List.mem_cons_of_mem _ hm)]

theorem wire_record (f : List α) : wire enc (record f) = enc f.length ++ f := by
  simp [record]

theorem wire_records : ∀ fs : List (List α),
    wire enc (fs.flatMap record) = fs.flatMap fun f => enc f.length ++ f
  | [] => rfl
  | f :: fs => by rw [List.flatMap_cons, wire_append, wire_record, wire_records fs, List.flatMap_cons]

end Wire

/-! ## Reassembly -/

theorem toks_append {ts us : List (Tok α)} {r r'' : Rx α} (h : r.toks (ts ++ us) = some r'') :
    ∃ r', r.toks ts = some r' ∧ r'.toks us = some r'' := Lts.run_append_some h

/-- The records already completed do not matter. -/
theorem tok_out (cur : Option (Nat × List α)) (done out : List (List α)) (t : Tok α) :
    Rx.tok ⟨cur, done ++ out⟩ t = (Rx.tok ⟨cur, out⟩ t).map fun r => { r with out := done ++ r.out } := by
  cases t with
  | len n =>
    simp only [Rx.tok]
    cases cur with
    | none => by_cases h : 0 < n <;> simp [h]
    | some c => rfl
  | byte a =>
    simp only [Rx.tok]
    cases cur with
    | none => rfl
    | some c => by_cases h : c.2.length + 1 = c.1 <;> simp [h]

theorem toks_out (done : List (List α)) : ∀ (ts : List (Tok α)) (cur : Option (Nat × List α)) (out : List (List α)),
    Rx.toks ⟨cur, done ++ out⟩ ts = (Rx.toks ⟨cur, out⟩ ts).map fun r => { r with out := done ++ r.out }
  | [], _, _ => rfl
  | t :: ts, cur, out => by
    have h1 := tok_out cur done out t
    unfold Rx.toks at *
    rw [Lts.run_cons, Lts.run_cons, h1]
    cases Rx.tok ⟨cur, out⟩ t with
    | none => rfl
    | some r => exact toks_out done ts r.cur r.out

/-- Payload that does not fill the record is stored. -/
theorem toks_bytes_lt : ∀ (bs acc : List α) (n : Nat) (out : List (List α)), acc.length + bs.length < n →
    Rx.toks ⟨some (n, acc), out⟩ (bs.map .byte) = some ⟨some (n, acc ++ bs), out⟩
  | [], acc, n, out, _ => by simp [Rx.toks]
  | b :: bs, acc, n, out, h => by
    simp only [List.length_cons] at h
    have hne : ¬ acc.length + 1 = n := by omega
    have := toks_bytes_lt bs (acc ++ [b]) n out (by simp; omega)
    simpa [Rx.toks, Rx.tok, hne] using this

/-- Payload that fills the record completes it. -/
theorem toks_bytes_eq {bs acc : List α} {n : Nat} (out : List (List α)) (h : acc.length + bs.length = n)
    (hacc : acc.length < n) :
    Rx.toks ⟨some (n, acc), out⟩ (bs.map .byte) = some ⟨none, out ++ [acc ++ bs]⟩ := by
  obtain ⟨init, b, rfl⟩ : ∃ init b, bs = init ++ [b] := by
    refine ⟨bs.dropLast, bs.getLast ?_, (List.dropLast_append_getLast _).symm⟩
    rintro rfl; simp at h; omega
  simp only [List.length_append, List.length_singleton] at h
  unfold Rx.toks
  rw [List.map_append, Lts.run_append]
  have := toks_bytes_lt init acc n out (by omega)
  unfold Rx.toks at this
  rw [this]
  simp [Rx.tok, show acc.length + init.length + 1 = n by omega]

/-- One record comes back as sent. -/
theorem toks_record {f : List α} (out : List (List α)) (hf : f ≠ []) :
    Rx.toks ⟨none, out⟩ (record f) = some ⟨none, out ++ [f]⟩ := by
  have hpos : 0 < f.length := List.length_pos_of_ne_nil hf
  have hfill : ([] : List α).length + f.length = f.length := by simp
  have := toks_bytes_eq out hfill (by simpa using hpos)
  simpa [Rx.toks, record, Rx.tok, hpos] using this

/-- Records come back as sent, in order. -/
theorem toks_records : ∀ {fs : List (List α)} (out : List (List α)), (∀ f ∈ fs, f ≠ []) →
    Rx.toks ⟨none, out⟩ (fs.flatMap record) = some ⟨none, out ++ fs⟩
  | [], out, _ => by simp [Rx.toks]
  | f :: fs, out, h => by
    have h1 := toks_record out (h f (List.mem_cons_self ..))
    have h2 := toks_records (out ++ [f]) fun g hg => h g (List.mem_cons_of_mem _ hg)
    unfold Rx.toks at *
    rw [List.flatMap_cons, Lts.run_append, h1, Option.bind_some, h2]
    simp

/-- Inside a record the next tokens are payload, to the end of the input or of the record. -/
theorem toks_open : ∀ {ts : List (Tok α)} {n : Nat} {acc : List α} {out : List (List α)} {r : Rx α},
    acc.length < n → Rx.toks ⟨some (n, acc), out⟩ ts = some r →
    (∃ bs, ts = bs.map .byte ∧ acc.length + bs.length < n ∧ r = ⟨some (n, acc ++ bs), out⟩) ∨
      ∃ bs us, ts = bs.map .byte ++ us ∧ acc.length + bs.length = n ∧
        Rx.toks ⟨none, out ++ [acc ++ bs]⟩ us = some r
  | [], n, acc, out, r, hacc, h => by
    simp only [Rx.toks, Lts.run_nil, Option.some.injEq] at h
    exact .inl ⟨[], rfl, by simpa using hacc, by simp [h]⟩
  | .len m :: us, n, acc, out, r, hacc, h => by
    obtain ⟨r1, h1, -⟩ := Lts.run_cons_some h
    simp [Rx.tok] at h1
  | .byte a :: us, n, acc, out, r, hacc, h => by
    obtain ⟨r1, h1, h2⟩ := Lts.run_cons_some h
    simp only [Rx.tok] at h1
    split at h1
    · rename_i hn
      cases h1
      exact .inr ⟨[a], us, rfl, by simpa using hn, h2⟩
    · rename_i hn
      cases h1
      have hlt : (acc ++ [a]).length < n := by simp; omega
      rcases toks_open hlt h2 with ⟨bs, rfl, hl, rfl⟩ | ⟨bs, vs, rfl, hl, hr⟩
      · exact .inl ⟨a :: bs, rfl, by simp at hl ⊢; omega, by simp⟩
      · exact .inr ⟨a :: bs, vs, rfl, by simp at hl ⊢; omega, by simpa using hr⟩

/-- Records that are completed stay. -/
theorem tok_out_grows {r r' : Rx α} {t : Tok α} (h : r.tok t = some r') : r.out <+: r'.out := by
  cases t with
  | len n =>
    simp only [Rx.tok] at h
    split at h
    · split at h <;> cases h
      exact List.prefix_refl _
    · cases h
  | byte a =>
    simp only [Rx.tok] at h
    split at h
    · cases h
    · split at h <;> cases h
      · exact List.prefix_append _ _
      · exact List.prefix_refl _

theorem toks_out_grows {r r' : Rx α} {ts : List (Tok α)} (h : r.toks ts = some r') : r.out <+: r'.out :=
  Lts.inv_run (I := fun x : Rx α => r.out <+: x.out) (C := fun _ _ => True)
    (fun _ _ _ hs _ h => hs.trans (tok_out_grows h)) ts r r' (List.prefix_refl _) (Lts.meets_true ts r) h

/-- What comes first of accepted tokens is accepted, and completes the first of their records. -/
theorem toks_of_prefix {r r' : Rx α} {ts us : List (Tok α)} (hp : ts <+: us) (h : r.toks us = some r') :
    ∃ r1, r.toks ts = some r1 ∧ r1.out <+: r'.out := by
  obtain ⟨vs, rfl⟩ := hp
  obtain ⟨r1, h1, h2⟩ := toks_append h
  exact ⟨r1, h1, toks_out_grows h2⟩

/-- A receiver never holds a complete record open. -/
def Rx.Open (r : Rx α) : Prop := ∀ n acc, r.cur = some (n, acc) → acc.length < n

theorem Rx.empty_open : (Rx.empty : Rx α).Open := by intro n acc h; cases h

theorem tok_open {r r' : Rx α} {t : Tok α} (ho : r.Open) (h : r.tok t = some r') : r'.Open := by
  intro n acc hc
  cases t with
  | len m =>
    simp only [Rx.tok] at h
    split at h
    · split at h
      · rename_i hm
        cases h; cases hc; exact hm
      · cases h
    · cases h
  | byte a =>
    simp only [Rx.tok] at h
    split at h
    · cases h
    · rename_i m acc' hcur
      have hlt := ho m acc' hcur
      split at h
      · cases h; cases hc
      · rename_i hne
        cases h; cases hc
        simp; omega

theorem toks_isOpen {r r' : Rx α} {ts : List (Tok α)} (ho : r.Open) (h : r.toks ts = some r') : r'.Open :=
  Lts.inv_run (I := Rx.Open) (C := fun _ _ => True) (fun _ _ _ hs _ h => tok_open hs h) ts r r' ho
    (Lts.meets_true ts r) h

end Framing
