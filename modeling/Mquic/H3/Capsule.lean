/-
The capsules of a WebTransport session (pico_webtransport.c): the messages that close or drain a session, put together
in a buffer on the stack, and what the receiver makes of them, whole or cut short.
-/
import Mquic.H3.Varints

namespace Mquic.H3

/-! ## The sender -/

/-- `picowt_capsule_close_webtransport_session`. -/
def capsuleCloseSession : Nat := 0x2843

/-- `picowt_capsule_drain_webtransport_session`. -/
def capsuleDrainSession : Nat := 0x78ae

/-- A C string, without the NUL that ends it. -/
structure CString where
  bytes : List UInt8
  noNul : 0 ∉ bytes

/-- A local buffer of `sizeof` bytes of which the first `off` are written, and as history the stores into it. -/
structure Buf where
  written : List UInt8
  stores : List (Nat × List UInt8)

def Buf.empty : Buf := ⟨[], []⟩

def Buf.off (b : Buf) : Nat := b.written.length

/-- `bytes` stored at `buf + off`, and `off` moved behind them. -/
def Buf.put (b : Buf) (bytes : List UInt8) : Buf := ⟨b.written ++ bytes, b.stores ++ [(b.off, bytes)]⟩

/-- What a call that sends a capsule returns, gives to `picoquic_add_to_stream`, and stores in its buffer. -/
structure CapsuleCall where
  ret : Int
  added : Option (Nat × List UInt8)
  stores : List (Nat × List UInt8)

/-- `picowt_send_close_session_message`: whether there is a connection, the id of the control stream's context if
there is one, and `addRet` the answer of `picoquic_add_to_stream`. No C string is so long that `4 + msg_len` wraps. -/
def sendCloseSessionMessage (cnx : Bool) (controlStreamCtx : Option Nat) (picowtErr : UInt32)
    (errMsg : Option CString) (addRet : Int) : CapsuleCall :=
  match cnx, controlStreamCtx with
  | false, _ => ⟨-1, none, []⟩
  | true, none => ⟨-1, none, []⟩
  | true, some streamId =>
    let msg := (errMsg.map CString.bytes).getD []
    let msgLen := msg.length
    let b := Buf.empty
    let b := b.put (wtVarintEncode capsuleCloseSession (1024 - b.off))
    let b := b.put (wtVarintEncode (4 + msgLen) (1024 - b.off))
    if 1024 - b.off < 4 + msgLen then ⟨-1, none, b.stores⟩
    else
      let b := b.put [(picowtErr >>> 24).toUInt8]
      let b := b.put [(picowtErr >>> 16).toUInt8]
      let b := b.put [(picowtErr >>> 8).toUInt8]
      let b := b.put [picowtErr.toUInt8]
      let b := if msgLen ≠ 0 then b.put msg else b
      ⟨addRet, some (streamId, b.written), b.stores⟩

/-- `picowt_send_drain_session_message`. -/
def sendDrainSessionMessage (cnx : Bool) (controlStreamCtx : Option Nat) (addRet : Int) : CapsuleCall :=
  match cnx, controlStreamCtx with
  | false, _ => ⟨-1, none, []⟩
  | true, none => ⟨-1, none, []⟩
  | true, some streamId =>
    let b := Buf.empty
    let b := b.put (wtVarintEncode capsuleDrainSession (16 - b.off))
    let b := b.put (wtVarintEncode 0 (16 - b.off))
    ⟨addRet, some (streamId, b.written), b.stores⟩

/-! ## The receiver -/

/-- The fields of `picowt_capsule_t` that are set; `errorMsg` is what lies from the pointer on, nothing for `NULL`. -/
structure Capsule where
  errorCode : UInt32
  errorMsg : Option (List UInt8)
  errorMsgLen : Nat

/-- `memset(capsule, 0, sizeof(*capsule))`. -/
def Capsule.zero : Capsule := ⟨0, none, 0⟩

/-- Four bytes as a 32-bit number. -/
def errorCodeOf (p : List UInt8) : UInt32 :=
  (p.getD 0 0).toUInt32 <<< 24 ||| (p.getD 1 0).toUInt32 <<< 16 ||| (p.getD 2 0).toUInt32 <<< 8 |||
    (p.getD 3 0).toUInt32

/-- `picowt_receive_capsule` into a capsule that is not `NULL`: the capsule, nothing where it returns -1. -/
def receiveCapsule (bytes : Option (List UInt8)) : Option Capsule :=
  match bytes with
  | none => none
  | some bytes =>
    if bytes.length = 0 then none
    else
      wtVarintDecode bytes >>= fun (t, n1) =>
        wtVarintDecode (bytes.drop n1) >>= fun (l, n2) =>
          let p := (bytes.drop n1).drop n2
          if p.length < l then none
          else if t = capsuleCloseSession then
            if l < 4 then none
            else if l > 4 then some ⟨errorCodeOf p, some (p.drop 4), l - 4⟩
            else some { Capsule.zero with errorCode := errorCodeOf p }
          -- the drain capsule has no payload, and of others nothing is set
          else some Capsule.zero

/-! ## The capsule -/

/-- The four bytes of an error code, most significant first. -/
def errorBytes (err : UInt32) : List UInt8 :=
  [(err >>> 24).toUInt8, (err >>> 16).toUInt8, (err >>> 8).toUInt8, err.toUInt8]

/-- The capsule that closes a session: type, length, error code and message. -/
def closeCapsule (err : UInt32) (msg : List UInt8) : List UInt8 :=
  Varint.encode capsuleCloseSession ++ Varint.encode (4 + msg.length) ++ (errorBytes err ++ msg)

/-- The four bytes of a 32-bit number, shifted back to their places, are the number. -/
theorem or_bytes {n : Nat} (hn : n < 2 ^ 32) :
    (n >>> 24 % 256) <<< 24 % 4294967296 ||| (n >>> 16 % 256) <<< 16 % 4294967296 |||
      (n >>> 8 % 256) <<< 8 % 4294967296 ||| n % 256 = n := by
  simp only [Nat.shiftRight_eq_div_pow]
  have h3 : n / 2 ^ 24 % 256 < 2 ^ 8 := by omega
  have h2 : n / 2 ^ 16 % 256 < 2 ^ 8 := by omega
  have h1 : n / 2 ^ 8 % 256 < 2 ^ 8 := by omega
  have h0 : n % 256 < 2 ^ 8 := by omega
  have hlt (k : Nat) {b : Nat} (hk : k ≤ 24) (hb : b < 2 ^ 8) : b <<< k < 4294967296 := by
    rw [Nat.shiftLeft_eq]
    calc b * 2 ^ k < 2 ^ 8 * 2 ^ k := Nat.mul_lt_mul_of_pos_right hb (Nat.two_pow_pos k)
      _ ≤ 2 ^ 8 * 2 ^ 24 := Nat.mul_le_mul_left _ (Nat.pow_le_pow_right Nat.two_pos hk)
      _ = 4294967296 := by norm_num
  rw [Nat.mod_eq_of_lt (hlt 24 le_rfl h3), Nat.mod_eq_of_lt (hlt 16 (by omega) h2),
    Nat.mod_eq_of_lt (hlt 8 (by omega) h1), Codec.shl_or_shl _ 16 h2, Codec.shl_or_shl _ 8 h1, Codec.shl_or_byte _ h0]
  omega

theorem errorCodeOf_errorBytes (err : UInt32) (rest : List UInt8) : errorCodeOf (errorBytes err ++ rest) = err := by
  rw [← UInt32.toNat_inj]
  simpa [errorCodeOf, errorBytes] using or_bytes err.toNat_lt

@[simp] theorem errorBytes_length (err : UInt32) : (errorBytes err).length = 4 := rfl

theorem size_closeSession : Varint.size capsuleCloseSession = 2 := by decide

theorem closeSession_lt : capsuleCloseSession < 2 ^ 62 := by decide

/-- The length of the capsule: two bytes of type, the width of the length field, and the payload. -/
theorem closeCapsule_length (err : UInt32) (msg : List UInt8) :
    (closeCapsule err msg).length = 2 + Varint.size (4 + msg.length) + (4 + msg.length) := by
  simp [closeCapsule, size_closeSession, Nat.add_assoc]

/-! ## Sending -/

@[simp] theorem Buf.written_put (b : Buf) (bytes : List UInt8) : (b.put bytes).written = b.written ++ bytes := rfl

/-- Every store so far ends at `off` at the latest. -/
def Buf.Tight (b : Buf) : Prop := ∀ st ∈ b.stores, st.1 + st.2.length ≤ b.off

theorem Buf.tight_empty : Buf.empty.Tight := List.forall_mem_nil _

theorem Buf.Tight.put {b : Buf} (h : b.Tight) (bytes : List UInt8) : (b.put bytes).Tight := by
  have hoff : (b.put bytes).off = b.off + bytes.length := List.length_append
  intro st hst
  rw [hoff]
  rcases List.mem_append.1 hst with hst | hst
  · exact (h st hst).trans (Nat.le_add_right _ _)
  · rw [List.mem_singleton.1 hst]

/-- Also for values no varint has, the encoder writes as many bytes as the shortest form takes. -/
theorem wtVarintEncode_length {v cap : Nat} (hcap : Varint.size v ≤ cap) :
    (wtVarintEncode v cap).length = Varint.size v := by
  unfold Varint.size Varint.tag at hcap ⊢
  unfold wtVarintEncode
  split_ifs at hcap ⊢ <;> first | rfl | omega

/-- The buffer behind type and length. -/
def headerBuf (msgLen : Nat) : Buf :=
  let b := Buf.empty
  let b := b.put (wtVarintEncode capsuleCloseSession (1024 - b.off))
  b.put (wtVarintEncode (4 + msgLen) (1024 - b.off))

theorem headerBuf_tight (msgLen : Nat) : (headerBuf msgLen).Tight := (Buf.tight_empty.put _).put _

theorem headerBuf_off (msgLen : Nat) : (headerBuf msgLen).off = 2 + Varint.size (4 + msgLen) := by
  have hsize := Varint.size_le (4 + msgLen)
  have hlen : (wtVarintEncode (4 + msgLen) 1022).length = Varint.size (4 + msgLen) :=
    wtVarintEncode_length (by omega)
  rw [← hlen, Nat.add_comm]
  rfl

theorem headerBuf_written {msgLen : Nat} (h : 4 + msgLen < 2 ^ 62) :
    (headerBuf msgLen).written = Varint.encode capsuleCloseSession ++ Varint.encode (4 + msgLen) := by
  have hsize := Varint.size_le (4 + msgLen)
  rw [← @wtVarintEncode_eq _ 1022 h (by omega)]
  rfl

/-- The buffer behind the error code and the message. -/
def Buf.putPayload (b : Buf) (err : UInt32) (msg : List UInt8) : Buf :=
  let b := (((b.put [(err >>> 24).toUInt8]).put [(err >>> 16).toUInt8]).put [(err >>> 8).toUInt8]).put [err.toUInt8]
  if msg.length ≠ 0 then b.put msg else b

theorem Buf.written_putPayload (b : Buf) (err : UInt32) (msg : List UInt8) :
    (b.putPayload err msg).written = b.written ++ (errorBytes err ++ msg) := by
  unfold putPayload errorBytes
  by_cases h : msg.length ≠ 0
  · simp [h]
  · have hnil : msg = [] := List.length_eq_zero_iff.1 (not_not.1 h)
    simp [hnil]

theorem Buf.Tight.putPayload {b : Buf} (h : b.Tight) (err : UInt32) (msg : List UInt8) :
    (b.putPayload err msg).Tight := by
  have herr := (((h.put [(err >>> 24).toUInt8]).put [(err >>> 16).toUInt8]).put [(err >>> 8).toUInt8]).put [err.toUInt8]
  unfold Buf.putPayload
  by_cases hm : msg.length ≠ 0
  · simp only [if_pos hm]
    exact herr.put msg
  · simp only [if_neg hm]
    exact herr

/-- The bytes of a message, none for `NULL`. -/
def messageOf (msg : Option CString) : List UInt8 := (msg.map CString.bytes).getD []

/-- A capsule that does not fit is refused and nothing is sent; one that fits is sent as it should be. Either way
all stores are inside the buffer. -/
theorem sendClose_cases (streamId : Nat) (err : UInt32) (msg : Option CString) (addRet : Int) :
    let r := sendCloseSessionMessage true (some streamId) err msg addRet
    (1024 < (closeCapsule err (messageOf msg)).length ∧ r.ret = -1 ∧ r.added = none ∨
        (closeCapsule err (messageOf msg)).length ≤ 1024 ∧ r.ret = addRet ∧
          r.added = some (streamId, closeCapsule err (messageOf msg))) ∧
      ∀ st ∈ r.stores, st.1 + st.2.length ≤ 1024 := by
  intro r
  generalize hm : messageOf msg = m
  have hr : r = if 1024 - (headerBuf m.length).off < 4 + m.length then ⟨-1, none, (headerBuf m.length).stores⟩
      else ⟨addRet, some (streamId, ((headerBuf m.length).putPayload err m).written),
        ((headerBuf m.length).putPayload err m).stores⟩ := by
    rw [← hm]
    rfl
  have hsize := Varint.size_le (4 + m.length)
  have hoff := headerBuf_off m.length
  rw [closeCapsule_length]
  by_cases hfit : 1024 - (headerBuf m.length).off < 4 + m.length
  · rw [hr, if_pos hfit]
    refine ⟨.inl ⟨by omega, rfl, rfl⟩, fun st hst => ?_⟩
    exact (headerBuf_tight m.length st hst).trans (by omega)
  · have hwritten : ((headerBuf m.length).putPayload err m).written = closeCapsule err m := by
      rw [Buf.written_putPayload, headerBuf_written (by omega), closeCapsule]
    rw [hr, if_neg hfit]
    refine ⟨.inr ⟨by omega, rfl, by rw [hwritten]⟩, fun st hst => ?_⟩
    have hend : ((headerBuf m.length).putPayload err m).off ≤ 1024 := by
      rw [Buf.off, hwritten, closeCapsule_length]
      omega
    exact ((headerBuf_tight m.length).putPayload err m st hst).trans hend

/-! ## Receiving -/

/-- Behind a whole type and length, the rest decides. -/
theorem receiveCapsule_encode {t l : Nat} (ht : t < 2 ^ 62) (hl : l < 2 ^ 62) (rest : List UInt8) :
    receiveCapsule (some (Varint.encode t ++ Varint.encode l ++ rest)) =
      if rest.length < l then none
      else if t = capsuleCloseSession then
        if l < 4 then none
        else if l > 4 then some ⟨errorCodeOf rest, some (rest.drop 4), l - 4⟩
        else some { Capsule.zero with errorCode := errorCodeOf rest }
      else some Capsule.zero := by
  have hne : (Varint.encode t ++ (Varint.encode l ++ rest)).length ≠ 0 := by
    have := Varint.size_pos t
    simp only [List.length_append, Varint.encode_length]
    omega
  have hdrop : (Varint.encode t ++ (Varint.encode l ++ rest)).drop (Varint.size t) = Varint.encode l ++ rest :=
    List.drop_left' (Varint.encode_length t)
  have hdrop' : (Varint.encode l ++ rest).drop (Varint.size l) = rest := List.drop_left' (Varint.encode_length l)
  rw [List.append_assoc]
  unfold receiveCapsule
  simp only [if_neg hne, wtVarintDecode_eq, Varint.decode_encode ht, Option.bind_eq_bind, Option.bind_some, hdrop,
    Varint.decode_encode hl, hdrop']

/-- Cut inside the type or the length, a capsule is refused. -/
theorem receiveCapsule_cut_header {t l n : Nat} (ht : t < 2 ^ 62) (hl : l < 2 ^ 62)
    (hn : n < Varint.size t + Varint.size l) :
    receiveCapsule (some ((Varint.encode t ++ Varint.encode l).take n)) = none := by
  unfold receiveCapsule
  simp only
  split_ifs with h0
  · rfl
  by_cases hcut : n < Varint.size t
  · have htake : (Varint.encode t ++ Varint.encode l).take n = (Varint.encode t).take n :=
      List.take_append_of_le_length (by rw [Varint.encode_length]; omega)
    rw [htake, wtVarintDecode_eq, Varint.decode_take_encode ht hcut]
    rfl
  · obtain ⟨k, rfl⟩ := Nat.exists_eq_add_of_le (Nat.not_lt.1 hcut)
    have htake : (Varint.encode t ++ Varint.encode l).take (Varint.size t + k) =
        Varint.encode t ++ (Varint.encode l).take k := by
      rw [← Varint.encode_length t, List.take_length_add_append]
    have hdrop : (Varint.encode t ++ (Varint.encode l).take k).drop (Varint.size t) = (Varint.encode l).take k :=
      List.drop_left' (Varint.encode_length t)
    simp only [htake, wtVarintDecode_eq, Varint.decode_encode ht, Option.bind_eq_bind, Option.bind_some, hdrop,
      Varint.decode_take_encode hl (show k < Varint.size l by omega), Option.bind_none]

/-- The receiver reads the error code and the message back, whatever follows. -/
theorem receiveCapsule_closeCapsule (err : UInt32) {msg : List UInt8} (hlen : 4 + msg.length < 2 ^ 62)
    (suffix : List UInt8) : ∃ c, receiveCapsule (some (closeCapsule err msg ++ suffix)) = some c ∧
      c.errorCode = err ∧ c.errorMsgLen = msg.length ∧
        c.errorMsg.map (fun p => p.take c.errorMsgLen) = if msg = [] then none else some msg := by
  have hcode : errorCodeOf (errorBytes err ++ msg ++ suffix) = err := by
    rw [List.append_assoc, errorCodeOf_errorBytes]
  rw [closeCapsule, List.append_assoc, receiveCapsule_encode closeSession_lt hlen,
    if_neg (by simp only [List.length_append, errorBytes_length]; omega), if_pos rfl, if_neg (by omega), hcode]
  by_cases hm : msg = []
  · subst hm
    exact ⟨_, rfl, rfl, rfl, rfl⟩
  · have hpos := List.length_pos_of_ne_nil hm
    rw [if_pos (by omega), if_neg hm]
    refine ⟨_, rfl, rfl, Nat.add_sub_cancel_left .., ?_⟩
    show some (((errorBytes err ++ msg ++ suffix).drop 4).take (4 + msg.length - 4)) = some msg
    rw [Nat.add_sub_cancel_left, List.append_assoc, List.drop_left' (errorBytes_length err), List.take_left' rfl]

/-- Cut anywhere, the capsule is refused. -/
theorem receiveCapsule_cut (err : UInt32) {msg : List UInt8} (hlen : 4 + msg.length < 2 ^ 62) {n : Nat}
    (hn : n < (closeCapsule err msg).length) : receiveCapsule (some ((closeCapsule err msg).take n)) = none := by
  rw [closeCapsule_length] at hn
  have hhead : (Varint.encode capsuleCloseSession ++ Varint.encode (4 + msg.length)).length =
      2 + Varint.size (4 + msg.length) := by simp [size_closeSession]
  by_cases hcut : n < 2 + Varint.size (4 + msg.length)
  · rw [closeCapsule, List.take_append_of_le_length (by omega)]
    exact receiveCapsule_cut_header closeSession_lt hlen (by rw [size_closeSession]; exact hcut)
  · -- type and length are whole, and the payload is short
    obtain ⟨k, rfl⟩ := Nat.exists_eq_add_of_le (Nat.not_lt.1 hcut)
    rw [closeCapsule, ← hhead, List.take_length_add_append, receiveCapsule_encode closeSession_lt hlen, if_pos]
    simp only [List.length_take, List.length_append, errorBytes_length]
    omega

/-! ## The round trip -/

/-- A drain-session message is always sent, read back as a capsule with nothing set behind any suffix, and refused when
cut anywhere. No store leaves its buffer of 16 bytes. -/
theorem drain_session_read_back (streamId : Nat) (addRet : Int) :
    let r := sendDrainSessionMessage true (some streamId) addRet
    r.ret = addRet ∧ (∃ W, r.added = some (streamId, W) ∧
        (∀ suffix, receiveCapsule (some (W ++ suffix)) = some .zero) ∧
        ∀ n < W.length, receiveCapsule (some (W.take n)) = none) ∧
      ∀ st ∈ r.stores, st.1 + st.2.length ≤ 16 := by
  intro r
  have htype : capsuleDrainSession < 2 ^ 62 := by decide
  have hzero : 0 < 2 ^ 62 := by decide
  have hother : capsuleDrainSession ≠ capsuleCloseSession := by decide
  -- what is sent and stored depends on neither argument
  have hsent : wtVarintEncode capsuleDrainSession 16 ++ wtVarintEncode 0 14 =
      Varint.encode capsuleDrainSession ++ Varint.encode 0 := by decide
  have hstores : ∀ st ∈ (sendDrainSessionMessage true (some 0) 0).stores, st.1 + st.2.length ≤ 16 := by decide
  refine ⟨rfl, ⟨Varint.encode capsuleDrainSession ++ Varint.encode 0, ?_, fun suffix => ?_, fun n hn => ?_⟩, hstores⟩
  · rw [← hsent]
    rfl
  · rw [receiveCapsule_encode htype hzero, if_neg (Nat.not_lt_zero _), if_neg hother]
  · rw [List.length_append, Varint.encode_length, Varint.encode_length] at hn
    exact receiveCapsule_cut_header htype hzero hn

/-- A close-session message of any error code and text is refused, with nothing sent, exactly when its capsule takes
more than the 1024 bytes of the buffer. Otherwise what is sent is read back as the same code and text behind any
suffix, `NULL` and length 0 for an empty text, and refused when cut anywhere. No store leaves the buffer. So it is with
a drain-session message, which is always sent. -/
theorem close_session_round_trip (streamId : Nat) (err : UInt32) (msg : Option CString) :
    (let r := sendCloseSessionMessage true (some streamId) err msg 0
    (1024 < 2 + Varint.size (4 + (messageOf msg).length) + (4 + (messageOf msg).length) ∧ r.ret = -1 ∧ r.added = none ∨
      2 + Varint.size (4 + (messageOf msg).length) + (4 + (messageOf msg).length) ≤ 1024 ∧ r.ret = 0 ∧
        ∃ W, r.added = some (streamId, W) ∧
          (∀ suffix, ∃ c, receiveCapsule (some (W ++ suffix)) = some c ∧ c.errorCode = err ∧
            c.errorMsgLen = (messageOf msg).length ∧
              c.errorMsg.map (fun p => p.take c.errorMsgLen) =
                if messageOf msg = [] then none else some (messageOf msg)) ∧
          ∀ n < W.length, receiveCapsule (some (W.take n)) = none) ∧
      ∀ st ∈ r.stores, st.1 + st.2.length ≤ 1024) ∧
    ∀ addRet, let r := sendDrainSessionMessage true (some streamId) addRet
      r.ret = addRet ∧ (∃ W, r.added = some (streamId, W) ∧
          (∀ suffix, receiveCapsule (some (W ++ suffix)) = some .zero) ∧
          ∀ n < W.length, receiveCapsule (some (W.take n)) = none) ∧
        ∀ st ∈ r.stores, st.1 + st.2.length ≤ 16 := by
  refine ⟨?_, drain_session_read_back streamId⟩
  intro r
  obtain ⟨hcases, hstores⟩ := sendClose_cases streamId err msg 0
  refine ⟨?_, hstores⟩
  rw [← closeCapsule_length err]
  rcases hcases with hbig | ⟨hfit, hret, hadded⟩
  · exact .inl hbig
  · have hlen : 4 + (messageOf msg).length < 2 ^ 62 := by
      rw [closeCapsule_length] at hfit
      omega
    exact .inr ⟨hfit, hret, _, hadded, fun suffix => receiveCapsule_closeCapsule err hlen suffix,
      fun n hn => receiveCapsule_cut err hlen hn⟩

/-- A message of three bytes: type, length, code and text. -/
example : (sendCloseSessionMessage true (some 4) 0x01020304 (some ⟨[5, 6, 7], by decide⟩) 0).added =
    some (4, [0x68, 0x43, 7, 1, 2, 3, 4, 5, 6, 7]) := by decide

end Mquic.H3
