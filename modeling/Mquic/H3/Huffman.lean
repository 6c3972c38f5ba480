/-
`hzero_qpack_huffman_decode` (h3zero.c). Its two tables are a prefix code for the octets and the end of a string: the
decoder returns a text exactly if the bits are the code of the text and what may stand behind it (`huffmanDecode_iff`).
Strings that are coded so, up to the 256 octets there is room for, are read like plain ones (`recoded_undone`).
-/
import Mquic.H3.Blocks
import Mquic.Lib.PrefixCode

namespace Mquic.H3

open PrefixCode

/-! ## The code of the tables -/

/-- The tables as a reader; `none` is the end of a string. -/
def huffmanMachine : Machine Nat (Option UInt8) where
  next index bit := if bit then index + huffmanVal.getD index 0 else index + 1
  ends index :=
    if index ≥ 512 then some none
    else if huffmanIndex index then none
    else some (some (UInt8.ofNat (huffmanVal.getD index 0)))

/-- The words of the tables, none longer than 30 bits. -/
def huffmanWords : List (List Bool × Option UInt8) := (huffmanMachine.words 30 0).getD []

/-- The code of an octet, or of the end of a string. -/
@[irreducible] def huffmanCode (a : Option UInt8) : List Bool := ((huffmanWords.find? (·.2 = a)).map Prod.fst).getD []

/-- A number for each symbol. -/
def symbolNumber (a : Option UInt8) : Nat := a.elim 256 UInt8.toNat

/-- The numbers in a list, as the bits of a number. -/
def bitSet (ns : List Nat) : Nat := ns.foldl (fun m n => m ||| 1 <<< n) 0

theorem testBit_bitSet (ns : List Nat) (i : Nat) : (bitSet ns).testBit i = true ↔ i ∈ ns := by
  have hfold : ∀ (ns : List Nat) (m : Nat),
      (ns.foldl (fun m n => m ||| 1 <<< n) m).testBit i = true ↔ m.testBit i = true ∨ i ∈ ns := by
    intro ns
    induction ns with
    | nil => simp
    | cons n ns ih =>
      intro m
      rw [List.foldl_cons, ih, Nat.testBit_or, Bool.or_eq_true, Nat.shiftLeft_eq, Nat.one_mul, Nat.testBit_two_pow,
        decide_eq_true_iff, List.mem_cons, or_assoc, eq_comm (a := n)]
  rw [bitSet, hfold, Nat.zero_testBit]
  simp

/-- There are 257 words, and one for every symbol. -/
theorem huffman_words :
    (huffmanMachine.words 30 0).map (fun ws => (ws.length, bitSet (ws.map fun w => symbolNumber w.2))) =
      some (257, 2 ^ 257 - 1) := by
  decide +kernel

theorem symbolNumber_lt (a : Option UInt8) : symbolNumber a < 257 := by
  cases a with
  | none => decide
  | some a => exact a.toNat_lt.trans (by decide)

theorem symbolNumber_inj {a b : Option UInt8} (h : symbolNumber a = symbolNumber b) : a = b := by
  cases a with
  | none =>
    cases b with
    | none => rfl
    | some b => exact absurd h (Nat.ne_of_gt b.toNat_lt)
  | some a =>
    cases b with
    | none => exact absurd h (Nat.ne_of_lt a.toNat_lt)
    | some b => exact congrArg some (UInt8.toNat_inj.1 h)

theorem words_listed : huffmanMachine.words 30 0 = some huffmanWords ∧ huffmanWords.length = 257 ∧
    ∀ n < 257, n ∈ huffmanWords.map fun w => symbolNumber w.2 := by
  obtain ⟨ws, hws, heq⟩ := Option.map_eq_some_iff.1 huffman_words
  have hwords : huffmanWords = ws := by
    unfold huffmanWords
    rw [hws]
    rfl
  obtain ⟨hlen, hbits⟩ := Prod.mk.inj heq
  rw [hwords]
  refine ⟨hws, hlen, fun n hn => ?_⟩
  rw [← testBit_bitSet, hbits, Nat.testBit_two_pow_sub_one]
  exact decide_eq_true hn

/-- No symbol has two words. -/
theorem words_nodup : (huffmanWords.map fun w => symbolNumber w.2).Nodup := by
  obtain ⟨-, hlen, hall⟩ := words_listed
  generalize 257 = k at hlen hall
  have hsub : List.range k ⊆ huffmanWords.map fun w => symbolNumber w.2 := fun n hn => hall n (List.mem_range.1 hn)
  have hperm := (List.nodup_range.subperm hsub).perm_of_length_le (by rw [List.length_map, hlen, List.length_range])
  exact hperm.nodup_iff.1 List.nodup_range

/-- The code of a symbol is its only word. -/
theorem huffmanCode_iff {a : Option UInt8} {w : List Bool} : huffmanMachine.Word a 0 w ↔ w = huffmanCode a := by
  obtain ⟨hwords, -, hall⟩ := words_listed
  obtain ⟨v, hv, hnum⟩ := List.mem_map.1 (hall _ (symbolNumber_lt a))
  have hfound : (huffmanWords.find? (·.2 = a)).isSome = true :=
    List.find?_isSome.2 ⟨v, hv, decide_eq_true (symbolNumber_inj hnum)⟩
  obtain ⟨u, hu⟩ := Option.isSome_iff_exists.1 hfound
  have hcode : huffmanCode a = u.1 := by
    unfold huffmanCode
    rw [hu]
    rfl
  have hua : u.2 = a := by simpa only [decide_eq_true_eq] using List.find?_some hu
  have humem := List.mem_of_find?_eq_some hu
  rw [← Machine.words_iff hwords, hcode]
  constructor
  · intro hw
    have hsame := List.inj_on_of_nodup_map words_nodup hw humem (congrArg symbolNumber hua.symm)
    exact congrArg Prod.fst hsame
  · rintro rfl
    rw [← hua]
    exact humem

theorem eos_code : huffmanCode none = List.replicate 30 true :=
  (huffmanCode_iff.1 (by decide +kernel)).symm

/-! ## The decoder -/

/-- What may stand behind a text: ones, the end of a string, or another octet if there is no room for it. -/
def Ended (isFull : Prop) (rest : List Bool) : Prop :=
  (∀ b ∈ rest, b = true) ∨ huffmanCode none <+: rest ∨ isFull ∧ ∃ a : UInt8, huffmanCode (some a) <+: rest

/-- The code of a text. -/
def textCode (text : List UInt8) : List Bool := text.flatMap fun a => huffmanCode (some a)

theorem word_code (a : Option UInt8) : huffmanMachine.Word a 0 (huffmanCode a) := huffmanCode_iff.2 rfl

theorem code_unique {a b : Option UInt8} {x : List Bool} (ha : huffmanCode a <+: x) (hb : huffmanCode b <+: x) :
    a = b :=
  ((word_code a).unique (word_code b) ha hb).2

/-- The code of an octet is not ones only. -/
theorem code_zero (a : UInt8) : ¬ ∀ b ∈ huffmanCode (some a), b = true := by
  intro hall
  have hones : huffmanCode (some a) = List.replicate (huffmanCode (some a)).length true := List.eq_replicate_of_mem hall
  have hcomp : ∀ m n : Nat, m ≤ n → List.replicate m true <+: List.replicate n true := fun m n h =>
    ⟨List.replicate (n - m) true, by rw [List.replicate_append_replicate, Nat.add_sub_cancel' h]⟩
  have hsame : some a = none := by
    rcases Nat.le_total (huffmanCode (some a)).length 30 with h | h
    · exact code_unique (x := huffmanCode none) (by rw [hones, eos_code]; exact hcomp _ _ h) (List.prefix_refl _)
    · exact code_unique (x := huffmanCode (some a)) (List.prefix_refl _)
        (by rw [hones, eos_code]; exact hcomp _ _ h)
  exact Option.some_ne_none a hsame

/-- A text begins with the code of an octet if it begins with an octet. -/
theorem textCode_cons (a : UInt8) (text : List UInt8) : textCode (a :: text) = huffmanCode (some a) ++ textCode text :=
  List.flatMap_cons

section Loop

variable {max index : Nat} {u bits : List Bool} {decoded t : List UInt8} {bit : Bool}

theorem ends_cases (i : Nat) :
    huffmanMachine.ends i = none ∧ ¬ i ≥ 512 ∧ huffmanIndex i = true ∨
      huffmanMachine.ends i = some none ∧ i ≥ 512 ∨
      huffmanMachine.ends i = some (some (UInt8.ofNat (huffmanVal.getD i 0))) ∧
        ¬ i ≥ 512 ∧ ¬ huffmanIndex i = true := by
  show (if i ≥ 512 then some none else if huffmanIndex i = true then none else _) = none ∧ _ ∨
    (if i ≥ 512 then some none else if huffmanIndex i = true then none else _) = some none ∧ _ ∨
    (if i ≥ 512 then some none else if huffmanIndex i = true then none else _) = some (some _) ∧ _
  by_cases hi : i ≥ 512
  · exact .inr (.inl ⟨if_pos hi, hi⟩)
  · by_cases hindex : huffmanIndex i = true
    · exact .inl ⟨by rw [if_neg hi, if_pos hindex], hi, hindex⟩
    · exact .inr (.inr ⟨by rw [if_neg hi, if_neg hindex], hi, hindex⟩)

theorem huffman_start : huffmanMachine.ends 0 = none := by decide

/-- A round of the loop. -/
theorem loop_cons (ones : Bool) : huffmanLoop max (bit :: bits) index ones decoded =
    match huffmanMachine.ends (huffmanMachine.next index bit) with
    | none => huffmanLoop max bits (huffmanMachine.next index bit) (ones && bit) decoded
    | some none => (ones && bit, decoded)
    | some (some a) =>
      if decoded.length < max then huffmanLoop max bits 0 true (decoded ++ [a]) else (true, decoded) := by
  have hnext : (if bit = true then index + huffmanVal.getD index 0 else index + 1) =
      huffmanMachine.next index bit := rfl
  rw [huffmanLoop]
  simp only [hnext]
  generalize huffmanMachine.next index bit = i
  rcases ends_cases i with ⟨h, hi, hindex⟩ | ⟨h, hi⟩ | ⟨h, hi, hindex⟩
  · rw [h, if_neg hi, if_pos hindex]
  · rw [h, if_pos hi]
  · rw [h, if_neg hi, if_neg hindex]

/-- Bits inside a word begin with no text. -/
theorem inside_text (hu : huffmanMachine.Inside index 0 u) {text : List UInt8} {rest : List Bool}
    (h : u = textCode text ++ rest) : text = [] := by
  cases text with
  | nil => rfl
  | cons a text =>
    have hp : huffmanCode (some a) <+: u := ⟨textCode text ++ rest, by rw [h, textCode_cons, List.append_assoc]⟩
    exact absurd hp (hu.not_word (word_code _))

/-- Bits that begin with the code of a symbol begin with no text, or with one that begins with that symbol. -/
theorem code_text {symbol : Option UInt8} {text : List UInt8} {rest x : List Bool} (hx : huffmanCode symbol <+: x)
    (h : x = textCode text ++ rest) : text = [] ∨ ∃ a text', symbol = some a ∧ text = a :: text' := by
  cases text with
  | nil => exact .inl rfl
  | cons a text =>
    have hp : huffmanCode (some a) <+: x := ⟨textCode text ++ rest, by rw [h, textCode_cons, List.append_assoc]⟩
    exact .inr ⟨a, text, code_unique hx hp, rfl⟩

/-- The loop inside a word, of which the bits `u` have been read. -/
theorem loop_iff (hu : huffmanMachine.Inside index 0 u) (hroom : decoded.length ≤ max) :
    huffmanLoop max bits index (u.all id) decoded = (true, t) ↔
      ∃ text rest, t = decoded ++ text ∧ t.length ≤ max ∧ u ++ bits = textCode text ++ rest ∧
        Ended (t.length = max) rest := by
  induction bits generalizing index u decoded with
  | nil =>
    rw [huffmanLoop, Prod.mk.injEq, List.append_nil]
    constructor
    · rintro ⟨hones, rfl⟩
      refine ⟨[], u, (List.append_nil _).symm, hroom, rfl, .inl ?_⟩
      simpa using hones
    · rintro ⟨text, rest, rfl, -, hbits, hend⟩
      obtain rfl := inside_text hu hbits
      obtain rfl : u = rest := hbits
      rw [List.append_nil] at hend ⊢
      rcases hend with hones | heos | ⟨-, a, ha⟩
      · exact ⟨by simpa using hones, rfl⟩
      · exact absurd heos (hu.not_word (word_code _))
      · exact absurd ha (hu.not_word (word_code _))
  | cons bit bits ih =>
    have hsnoc : u ++ bit :: bits = (u ++ [bit]) ++ bits := by rw [List.append_assoc]; rfl
    have hall : (u.all id && bit) = (u ++ [bit]).all id := by simp
    rw [loop_cons]
    cases h : huffmanMachine.ends (huffmanMachine.next index bit) with
    -- no word ends with this bit: one more bit of the word
    | none =>
      simp only
      rw [hall, hsnoc]
      exact ih (hu.snoc_inside h) hroom
    | some symbol =>
      have hword := huffmanCode_iff.1 (hu.snoc_word h)
      have hp : huffmanCode symbol <+: u ++ bit :: bits := ⟨bits, by rw [hsnoc, hword]⟩
      cases symbol with
      | none =>
        have hones : (u.all id && bit) = true := by
          rw [hall, hword, eos_code]
          simp
        simp only
        rw [hones, Prod.mk.injEq]
        constructor
        · rintro ⟨-, rfl⟩
          exact ⟨[], _, (List.append_nil _).symm, hroom, rfl, .inr (.inl hp)⟩
        · rintro ⟨text, rest, rfl, -, hbits, -⟩
          rcases code_text hp hbits with rfl | ⟨a, text', hnone, -⟩
          · exact ⟨rfl, (List.append_nil _).symm⟩
          · cases hnone
      | some a =>
        simp only
        by_cases hlt : decoded.length < max
        · have hstart : huffmanMachine.Inside 0 0 [] := ⟨rfl, huffman_start⟩
          have hih := @ih 0 [] (decoded ++ [a]) hstart (by rw [List.length_append]; exact hlt)
          rw [if_pos hlt]
          rw [List.all_nil, List.nil_append] at hih
          rw [hih]
          constructor
          · rintro ⟨text, rest, rfl, hlen, hbits, hend⟩
            refine ⟨a :: text, rest, List.append_assoc _ _ _, hlen, ?_, hend⟩
            rw [hsnoc, hword, textCode_cons, hbits, List.append_assoc]
          · rintro ⟨text, rest, rfl, hlen, hbits, hend⟩
            rcases code_text hp hbits with rfl | ⟨a', text', ha, rfl⟩
            · obtain rfl : u ++ bit :: bits = rest := hbits
              -- a text that has ended does not go on with the word of an octet
              rcases hend with hones | heos | ⟨hfull, -⟩
              · exact absurd (fun b hb => hones b (hp.subset hb)) (code_zero a)
              · exact absurd (code_unique hp heos) (Option.some_ne_none a)
              · rw [List.append_nil] at hfull
                omega
            · obtain rfl := Option.some.inj ha
              refine ⟨text', rest, List.append_cons decoded a text', hlen, ?_, hend⟩
              rw [hsnoc, hword, textCode_cons, List.append_assoc] at hbits
              exact List.append_cancel_left hbits
        · rw [if_neg hlt, Prod.mk.injEq]
          constructor
          · rintro ⟨-, rfl⟩
            exact ⟨[], _, (List.append_nil _).symm, hroom, rfl, .inr (.inr ⟨by omega, a, hp⟩)⟩
          · rintro ⟨text, rest, rfl, hlen, -, -⟩
            rw [List.length_append] at hlen
            have hnil : text = [] := List.eq_nil_of_length_eq_zero (by omega)
            rw [hnil, List.append_nil]
            exact ⟨rfl, rfl⟩

end Loop

/-- The decoder returns a text of at most `max` octets exactly if the bits are the code of the text, and behind it ones
only, the end of a string, or the code of another octet where the text has all `max`. -/
theorem decode_iff {max : Nat} {bytes text : List UInt8} :
    huffmanDecode max bytes = some text ↔
      text.length ≤ max ∧ ∃ rest, huffmanBits bytes = textCode text ++ rest ∧ Ended (text.length = max) rest := by
  have hloop := @loop_iff max 0 [] (huffmanBits bytes) [] text ⟨rfl, huffman_start⟩ (Nat.zero_le max)
  rw [List.all_nil, List.nil_append] at hloop
  have hdecode :
      huffmanDecode max bytes = some text ↔ huffmanLoop max (huffmanBits bytes) 0 true [] = (true, text) := by
    unfold huffmanDecode
    obtain ⟨ok, decoded⟩ := huffmanLoop max (huffmanBits bytes) 0 true []
    cases ok with
    | true => simp
    | false => simp
  rw [hdecode, hloop]
  constructor
  · rintro ⟨_, rest, rfl, hlen, hbits, hend⟩
    exact ⟨hlen, rest, hbits, hend⟩
  · rintro ⟨hlen, rest, hbits, hend⟩
    exact ⟨text, rest, rfl, hlen, hbits, hend⟩

/-- The tables have one word for each symbol, none of which begins another, and thirty ones for the end; and the decoder
returns a text exactly if the bits are the words of its octets and what may stand behind them. -/
theorem huffmanDecode_iff : (∀ a w, huffmanMachine.Word a 0 w ↔ w = huffmanCode a) ∧
    (∀ a b, huffmanCode a <+: huffmanCode b → a = b) ∧ huffmanCode none = List.replicate 30 true ∧
    ∀ (max : Nat) (bytes text : List UInt8), huffmanDecode max bytes = some text ↔
      text.length ≤ max ∧ ∃ rest, huffmanBits bytes = textCode text ++ rest ∧ Ended (text.length = max) rest :=
  ⟨fun _ _ => huffmanCode_iff, fun _ _ h => code_unique h (List.prefix_refl _), eos_code, fun _ _ _ => decode_iff⟩

/-! ## Coded strings -/

/-- `raw` is the Huffman coding of `text`: filled up to whole bytes with ones. -/
def HuffmanCoded (raw text : List UInt8) : Prop :=
  ∃ k < 8, huffmanBits raw = textCode text ++ List.replicate k true

/-- A coded string is read as what it codes; behind 256 octets it is cut off. -/
theorem deHuff_coded {raw text : List UInt8} (h : HuffmanCoded raw text) : deHuff true raw = text.take 256 := by
  obtain ⟨k, -, hbits⟩ := h
  have hdecode : huffmanDecode 256 raw = some (text.take 256) := by
    refine decode_iff.2 ⟨List.length_take_le _ _, textCode (text.drop 256) ++ List.replicate k true, ?_, ?_⟩
    · rw [hbits, ← List.append_assoc, textCode, textCode, textCode, ← List.flatMap_append, List.take_append_drop]
    · by_cases hlen : text.length ≤ 256
      · left
        rw [List.drop_eq_nil_of_le hlen]
        exact fun b hb => List.eq_of_mem_replicate hb
      · right
        right
        refine ⟨List.length_take_of_le (by omega), ?_⟩
        cases hdrop : text.drop 256 with
        | nil => exact absurd (List.drop_eq_nil_iff.1 hdrop) hlen
        | cons a rest =>
          refine ⟨a, textCode rest ++ List.replicate k true, ?_⟩
          rw [textCode_cons, List.append_assoc]
  show (if true = true then (huffmanDecode 256 raw).getD raw else raw) = _
  rw [if_pos rfl, hdecode]
  rfl

/-- A string on the wire, with its Huffman bit: as it is, or coded if it has no more than 256 octets. -/
inductive Carries : Bool → List UInt8 → List UInt8 → Prop
  | plain (text : List UInt8) : Carries false text text
  | coded {raw text : List UInt8} (h : HuffmanCoded raw text) (hroom : text.length ≤ 256) : Carries true raw text

theorem deHuff_carries {isHuffman : Bool} {raw text : List UInt8} (h : Carries isHuffman raw text) :
    deHuff isHuffman raw = text := by
  cases h with
  | plain => rfl
  | coded h hroom => rw [deHuff_coded h, List.take_of_length_le hroom]

/-- A field line, and one with the same strings on the wire. -/
inductive Recodes : FieldLine → FieldLine → Prop
  | indexed (index : Nat) : Recodes (.indexed index) (.indexed index)
  | nameRef (index : Nat) {isHuffman : Bool} {raw val : List UInt8} (h : Carries isHuffman raw val) :
      Recodes (.nameRef index false val) (.nameRef index isHuffman raw)
  | literal {nameHuffman isHuffman : Bool} {rawName name raw val : List UInt8} (hn : Carries nameHuffman rawName name)
      (h : Carries isHuffman raw val) :
      Recodes (.literal false name false val) (.literal nameHuffman rawName isHuffman raw)

section Recodes

variable {mem : Mem} {line line' : FieldLine} {lines lines' : List FieldLine}

theorem store_recodes (h : Recodes line line') (parts : HeaderParts) :
    line'.store mem parts = line.store mem parts := by
  cases h with
  | indexed index => rfl
  | nameRef index h => simp only [FieldLine.store, deHuff_carries h, deHuff_carries (.plain _)]
  | literal hn h =>
    simp only [FieldLine.store, getInterestingHeaderType, deHuff_carries hn, deHuff_carries h,
      deHuff_carries (.plain _)]

theorem storeLines_recodes (h : List.Forall₂ Recodes lines lines') (parts : HeaderParts) :
    storeLines mem lines' parts = storeLines mem lines parts := by
  induction h generalizing parts with
  | nil => rfl
  | @cons line line' lines lines' hline _ ih =>
    unfold storeLines at ih ⊢
    rw [List.foldlM_cons, List.foldlM_cons, store_recodes hline]
    cases line.store mem parts with
    | none => rfl
    | some parts => exact ih parts

/-- Whichever strings of a request are coded, it is read as the request it is. -/
theorem recoded_undone (hm : ∀ n, mem.malloc n = true) {r : RequestBlock} (hl : r.lines = some lines)
    (hcoded : List.Forall₂ Recodes lines lines') {base bytes : List UInt8} {n : Nat}
    (hbase : PrefixInt.Encodes 7 9 base n) (hbytes : IsFieldLines bytes lines') :
    parseQpackHeaderFrame mem (0 :: (base ++ bytes)) = (some [], r.parts) := by
  have hint : qpackIntDecode 0x7F (base ++ bytes) = (some bytes, n) :=
    (qpackIntDecode_iff (n := 7) rfl).2 ⟨base, rfl, hbase⟩
  have hstore : storeLines mem lines' .zero = some r.parts :=
    (storeLines_recodes hcoded .zero).trans (request_store (fun v => hm _) hl)
  simp only [parseQpackHeaderFrame, ne_eq, not_true_eq_false, if_false, hint]
  exact (parseFieldLines_iff (le_refl _)).2 ⟨rfl, lines', hbytes, hstore⟩

end Recodes

/-- `/camera`, coded in five bytes. -/
def cameraCoded : List UInt8 := [0x60, 0x83, 0xA4, 0xB6, 0x0F]

theorem cameraCoded_coded : HuffmanCoded cameraCoded (ascii "/camera") := ⟨2, by decide, by decide +kernel⟩

/-- A GET whose path is coded. -/
theorem camera_recoded : parseQpackHeaderFrame .ample [0, 0, 0xD1, 0xD7, 0x51, 0x85, 0x60, 0x83, 0xA4, 0xB6, 0x0F] =
    (some [], (RequestBlock.get (ascii "/camera") [] none none).parts) := by
  have hvalue : IsValue (0x85 :: cameraCoded) true cameraCoded := .mk 0x85 [] cameraCoded (.short 0x85 (by decide))
  have hlines : IsFieldLines ([0xD1] ++ ([0xD7] ++ ([0x51] ++ 0x85 :: cameraCoded ++ [])))
      [.indexed 17, .indexed 23, .nameRef 1 true cameraCoded] :=
    .cons (.indexed 0xD1 [] 17 (by decide) (.short 0xD1 (by decide)))
      (.cons (.indexed 0xD7 [] 23 (by decide) (.short 0xD7 (by decide)))
        (.cons (.nameRef 0x51 [] 1 (by decide) (.short 0x51 (by decide)) hvalue) .nil))
  exact recoded_undone (r := .get (ascii "/camera") [] none none) (fun _ => rfl) rfl
    (.cons (.indexed 17) (.cons (.indexed 23) (.cons (.nameRef 1 (.coded cameraCoded_coded (by decide))) .nil)))
    (.short 0x00 (by decide)) hlines

end Mquic.H3
