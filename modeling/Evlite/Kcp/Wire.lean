import Evlite.Kcp.Control
import Mathlib.Algebra.Group.Nat.Defs

/-!
# KCP on the Wire

A segment goes out as a head of `IKCP_OVERHEAD` bytes and its data, and a datagram is one
segment after another. `ikcp_input` takes a datagram apart again, and stops at the first head
that is not one of this connection.

## Main results

- `parseDatagram_datagram`: segments that were written into a datagram are read from it.
- `parseDatagram_reads`: whatever is read from bytes was written there.
- `inputLoop_eq`: `ikcp_input` is what it does with one segment, for all that are read.
-/

namespace Evlite

/-! ## Numbers -/

/-- An unsigned number in `width` bytes, least significant byte first. -/
def encodeLsb : Nat → Nat → List UInt8
  | 0, _ => []
  | width + 1, n => UInt8.ofNat n :: encodeLsb width (n / 256)

@[simp] theorem encodeLsb_length (width n : Nat) : (encodeLsb width n).length = width := by
  induction width generalizing n with
  | zero => rfl
  | succ width ih => rw [encodeLsb, List.length_cons, ih]

theorem decodeLsb_encodeLsb (width n : Nat) :
    decodeLsb (encodeLsb width n) = n % 256 ^ width := by
  induction width generalizing n with
  | zero =>
    rw [Nat.pow_zero, Nat.mod_one]
    rfl
  | succ width ih =>
    have hhead : (UInt8.ofNat n).toNat = n % 256 := UInt8.toNat_ofNat'
    rw [encodeLsb, decodeLsb, ih, hhead, Nat.pow_succ, Nat.mul_comm (256 ^ width), Nat.mod_mul]

theorem decodeLsb_lt (bytes : List UInt8) : decodeLsb bytes < 256 ^ bytes.length := by
  induction bytes with
  | nil => decide
  | cons b bytes ih =>
    have hb : b.toNat < 256 := b.toNat_lt
    rw [decodeLsb, List.length_cons, Nat.pow_succ]
    omega

theorem encodeLsb_decodeLsb (bytes : List UInt8) :
    encodeLsb bytes.length (decodeLsb bytes) = bytes := by
  induction bytes with
  | nil => rfl
  | cons b bytes ih =>
    have hb : b.toNat < 256 := b.toNat_lt
    have hhead : UInt8.ofNat (b.toNat + 256 * decodeLsb bytes) = b := by
      apply UInt8.toNat_inj.mp
      rw [UInt8.toNat_ofNat']
      omega
    have htail : (b.toNat + 256 * decodeLsb bytes) / 256 = decodeLsb bytes := by omega
    rw [List.length_cons, decodeLsb, encodeLsb, hhead, htail, ih]

/-! ## Heads -/

/-- `ikcp_encode_seg` -/
def ikcpEncodeSeg (seg : SegmentHead) : List UInt8 :=
  encodeLsb 4 seg.conv.toNat ++ (encodeLsb 1 seg.cmd ++ (encodeLsb 1 seg.frg ++
    (encodeLsb 2 seg.wnd ++ (encodeLsb 4 seg.ts.toNat ++ (encodeLsb 4 seg.sn.toNat ++
      (encodeLsb 4 seg.una.toNat ++ encodeLsb 4 seg.len))))))

@[simp] theorem ikcpEncodeSeg_length (seg : SegmentHead) :
    (ikcpEncodeSeg seg).length = ikcpOverhead := by
  simp [ikcpEncodeSeg, ikcpOverhead]

/-- What is left of the fields after the casts to `IUINT8` and `IUINT16`. -/
def SegmentHead.cast (seg : SegmentHead) : SegmentHead :=
  { seg with
    cmd := seg.cmd % 256, frg := seg.frg % 256, wnd := seg.wnd % 65536, len := seg.len % 2 ^ 32 }

theorem ofNat_toNat_mod (x : BitVec 32) : BitVec.ofNat 32 (x.toNat % 4294967296) = x := by
  have hlt : x.toNat < 4294967296 := x.isLt
  rw [Nat.mod_eq_of_lt hlt, BitVec.ofNat_toNat, BitVec.setWidth_eq]

/-- A head that was written is read again, up to the casts. -/
theorem decodeHead_ikcpEncodeSeg (seg : SegmentHead) (rest : List UInt8) :
    decodeHead (ikcpEncodeSeg seg ++ rest) = seg.cast := by
  unfold decodeHead ikcpEncodeSeg SegmentHead.cast
  simp [List.drop_append, List.drop_of_length_le, decodeLsb_encodeLsb, ofNat_toNat_mod]

theorem encodeLsb_field (data : List UInt8) (offset width : Nat) (h : offset + width ≤ data.length) :
    encodeLsb width (decodeLsb ((data.drop offset).take width)) = (data.drop offset).take width := by
  have hlength : ((data.drop offset).take width).length = width := by
    rw [List.length_take, List.length_drop]
    omega
  have hfield := encodeLsb_decodeLsb ((data.drop offset).take width)
  rwa [hlength] at hfield

theorem encodeLsb_word (data : List UInt8) (offset : Nat) (h : offset + 4 ≤ data.length) :
    encodeLsb 4 (BitVec.ofNat 32 (decodeLsb ((data.drop offset).take 4))).toNat =
      (data.drop offset).take 4 := by
  have hlength : ((data.drop offset).take 4).length = 4 := by
    rw [List.length_take, List.length_drop]
    omega
  have hlt : decodeLsb ((data.drop offset).take 4) < 2 ^ 32 := by
    have hbytes := decodeLsb_lt ((data.drop offset).take 4)
    rwa [hlength] at hbytes
  rw [BitVec.toNat_ofNat, Nat.mod_eq_of_lt hlt, encodeLsb_field data offset 4 h]

/-- A head that was read is that of the bytes. -/
theorem ikcpEncodeSeg_decodeHead {data : List UInt8} (h : ikcpOverhead ≤ data.length) :
    ikcpEncodeSeg (decodeHead data) = data.take ikcpOverhead := by
  unfold ikcpOverhead at h ⊢
  have hconv := encodeLsb_word data 0 (by omega)
  have hcmd := encodeLsb_field data 4 1 (by omega)
  have hfrg := encodeLsb_field data 5 1 (by omega)
  have hwnd := encodeLsb_field data 6 2 (by omega)
  have hts := encodeLsb_word data 8 (by omega)
  have hsn := encodeLsb_word data 12 (by omega)
  have huna := encodeLsb_word data 16 (by omega)
  have hlen := encodeLsb_field data 20 4 (by omega)
  rw [List.drop_zero] at hconv
  unfold ikcpEncodeSeg decodeHead
  dsimp only
  rw [hconv, hcmd, hfrg, hwnd, hts, hsn, huna, hlen]
  -- the fields follow one another
  rw [show 24 = 4 + (1 + (1 + (2 + (4 + (4 + (4 + 4)))))) from rfl]
  simp only [List.take_add, List.drop_drop]

/-! ## Datagrams -/

/-- A segment as it is sent. -/
structure Packet where
  head : SegmentHead
  data : List UInt8
deriving DecidableEq, Repr

/-- What `ikcp_flush` writes for a segment. -/
def Packet.encode (p : Packet) : List UInt8 := ikcpEncodeSeg p.head ++ p.data

/-- The bytes of segments that go out together. -/
def datagram (ps : List Packet) : List UInt8 := ps.flatMap Packet.encode

@[simp] theorem Packet.encode_length (p : Packet) :
    p.encode.length = ikcpOverhead + p.data.length := by
  rw [encode, List.length_append, ikcpEncodeSeg_length]

/-- The commands of `ikcp_input`. -/
def IsCommand (cmd : Nat) : Prop :=
  cmd = ikcpCmdPush ∨ cmd = ikcpCmdAck ∨ cmd = ikcpCmdWask ∨ cmd = ikcpCmdWins

instance (cmd : Nat) : Decidable (IsCommand cmd) :=
  inferInstanceAs (Decidable (_ ∨ _ ∨ _ ∨ _))

theorem not_isCommand {cmd : Nat} :
    ¬IsCommand cmd ↔
      cmd ≠ ikcpCmdPush ∧ cmd ≠ ikcpCmdAck ∧ cmd ≠ ikcpCmdWask ∧ cmd ≠ ikcpCmdWins := by
  unfold IsCommand
  simp only [not_or, ne_eq]

/-- A segment that `ikcp_input` takes on the connection `conv`. -/
structure Packet.Valid (conv : BitVec 32) (p : Packet) : Prop where
  conv_eq : p.head.conv = conv
  command : IsCommand p.head.cmd
  frg_lt : p.head.frg < 256
  wnd_lt : p.head.wnd < 65536
  len_eq : p.head.len = p.data.length
  len_lt : p.head.len < 2 ^ 31

/-- The segments that are read from `data`, and the result. -/
def parseDatagram (conv : BitVec 32) (data : List UInt8) : List Packet × Int :=
  if data.length < ikcpOverhead then ([], 0)
  else
    let head := decodeHead data
    let rest := data.drop ikcpOverhead
    if head.conv ≠ conv then ([], -1)
    else if rest.length < head.len ∨ 2 ^ 31 ≤ head.len then ([], -2)
    else if ¬IsCommand head.cmd then ([], -3)
    else
      let r := parseDatagram conv (rest.drop head.len)
      (⟨head, rest.take head.len⟩ :: r.1, r.2)
termination_by data.length
decreasing_by
  simp only [List.length_drop, ikcpOverhead] at *
  omega

/-- What a datagram begins with is read first. -/
theorem parseDatagram_encode {conv : BitVec 32} {p : Packet} (hp : p.Valid conv)
    (rest : List UInt8) :
    parseDatagram conv (p.encode ++ rest) =
      (p :: (parseDatagram conv rest).1, (parseDatagram conv rest).2) := by
  have hcast : p.head.cast = p.head := by
    have hcmd := hp.command
    unfold IsCommand ikcpCmdPush ikcpCmdAck ikcpCmdWask ikcpCmdWins at hcmd
    have hlen := hp.len_lt
    unfold SegmentHead.cast
    rw [Nat.mod_eq_of_lt hp.frg_lt, Nat.mod_eq_of_lt hp.wnd_lt,
      Nat.mod_eq_of_lt (show p.head.cmd < 256 by omega),
      Nat.mod_eq_of_lt (show p.head.len < 2 ^ 32 by omega)]
  have hdecode : decodeHead (p.encode ++ rest) = p.head := by
    rw [Packet.encode, List.append_assoc, decodeHead_ikcpEncodeSeg, hcast]
  have hrest : (p.encode ++ rest).drop ikcpOverhead = p.data ++ rest := by
    rw [Packet.encode, List.append_assoc]
    exact List.drop_left' (ikcpEncodeSeg_length p.head)
  have hlong : ¬(p.encode ++ rest).length < ikcpOverhead := by
    rw [List.length_append, Packet.encode_length]
    omega
  have hlen := hp.len_lt
  rw [parseDatagram, if_neg hlong]
  dsimp only
  rw [hdecode, hrest, hp.len_eq, if_neg (not_not.mpr hp.conv_eq),
    if_neg (by rw [List.length_append, ← hp.len_eq]; omega), if_neg (not_not.mpr hp.command),
    List.take_left, List.drop_left]

/-- Segments that were written into a datagram are read from it. -/
theorem parseDatagram_datagram {conv : BitVec 32} {ps : List Packet}
    (hps : ∀ p ∈ ps, p.Valid conv) : parseDatagram conv (datagram ps) = (ps, 0) := by
  induction ps with
  | nil =>
    rw [parseDatagram]
    rfl
  | cons p ps ih =>
    have hrest := ih fun q hq => hps q (List.mem_cons_of_mem p hq)
    rw [datagram, List.flatMap_cons, parseDatagram_encode (hps p List.mem_cons_self)]
    rw [datagram] at hrest
    rw [hrest]

/-- Whatever is read from bytes was written there, in this order. -/
theorem parseDatagram_reads (conv : BitVec 32) (data : List UInt8) :
    (∀ p ∈ (parseDatagram conv data).1, p.Valid conv) ∧
      datagram (parseDatagram conv data).1 <+: data := by
  have hnothing : ∀ data : List UInt8, (∀ p ∈ ([] : List Packet), p.Valid conv) ∧
      datagram [] <+: data :=
    fun data => ⟨fun p hp => absurd hp List.not_mem_nil, List.nil_prefix⟩
  induction data using parseDatagram.induct conv with
  | case1 data hshort =>
    rw [parseDatagram, if_pos hshort]
    exact hnothing data
  | case2 data hlong head hconv =>
    rw [parseDatagram, if_neg hlong]
    dsimp only
    rw [if_pos hconv]
    exact hnothing data
  | case3 data hlong head rest hconv hlen =>
    rw [parseDatagram, if_neg hlong]
    dsimp only
    rw [if_neg hconv, if_pos hlen]
    exact hnothing data
  | case4 data hlong head rest hconv hlen hcmd =>
    rw [parseDatagram, if_neg hlong]
    dsimp only
    rw [if_neg hconv, if_neg hlen, if_pos hcmd]
    exact hnothing data
  | case5 data hlong head rest hconv hlen hcmd ih =>
    rw [parseDatagram, if_neg hlong]
    dsimp only
    rw [if_neg hconv, if_neg hlen, if_neg hcmd]
    have hdata : (rest.take head.len).length = head.len := List.length_take_of_le (by omega)
    refine ⟨?_, ?_⟩
    · -- the head was checked, and its fields are as wide as they are on the wire
      have hwidth : ∀ offset width : Nat,
          decodeLsb ((data.drop offset).take width) < 256 ^ width := by
        intro offset width
        refine Nat.lt_of_lt_of_le (decodeLsb_lt _) (Nat.pow_le_pow_right (by decide) ?_)
        exact List.length_take_le width _
      intro p hp
      rcases List.mem_cons.mp hp with rfl | hp
      · exact ⟨not_not.mp hconv, not_not.mp hcmd, hwidth 5 1, hwidth 6 2, hdata.symm, by
          show head.len < 2 ^ 31
          omega⟩
      · exact ih.1 p hp
    · -- the segment and those that follow it are the bytes again
      have hsplit : data = (⟨head, rest.take head.len⟩ : Packet).encode ++ rest.drop head.len := by
        show data = ikcpEncodeSeg (decodeHead data) ++ rest.take head.len ++ rest.drop head.len
        rw [ikcpEncodeSeg_decodeHead (Nat.not_lt.mp hlong), List.append_assoc,
          List.take_append_drop, List.take_append_drop]
      rw [datagram, List.flatMap_cons]
      conv_rhs => rw [hsplit]
      exact (List.prefix_append_right_inj _).mpr ih.2

/-! ## Input -/

namespace Kcp

/-- What `ikcp_input` does with one segment. -/
def inputPacket (kcp : Kcp) (p : Packet) : Kcp := kcp.inputSegment p.head p.data

theorem inputSegment_take (kcp : Kcp) (head : SegmentHead) (data : List UInt8) :
    kcp.inputSegment head (data.take head.len) = kcp.inputSegment head data := by
  unfold inputSegment
  rw [List.take_take, Nat.min_self]

@[simp] theorem ikcpShrinkBuf_conv (kcp : Kcp) : kcp.ikcpShrinkBuf.conv = kcp.conv := by
  unfold ikcpShrinkBuf
  split <;> rfl

@[simp] theorem ikcpParseAck_conv (kcp : Kcp) (sn : BitVec 32) :
    (kcp.ikcpParseAck sn).conv = kcp.conv := by
  unfold ikcpParseAck
  split <;> rfl

@[simp] theorem ikcpParseData_conv (kcp : Kcp) (newseg : Segment) :
    (kcp.ikcpParseData newseg).conv = kcp.conv := by
  unfold ikcpParseData
  split
  · rfl
  · split <;> rfl

@[simp] theorem inputSegment_conv (kcp : Kcp) (head : SegmentHead) (data : List UInt8) :
    (kcp.inputSegment head data).conv = kcp.conv := by
  unfold inputSegment
  dsimp only
  split
  · simp [ikcpParseUna]
  · split
    · split
      · split
        · simp [ikcpAckPush, ikcpParseUna]
        · simp [ikcpAckPush, ikcpParseUna]
      · simp [ikcpParseUna]
    · split <;> simp [ikcpParseUna]

/-- `ikcp_input` is what it does with one segment, for all that are read. -/
theorem inputLoop_eq (kcp : Kcp) (data : List UInt8) :
    kcp.inputLoop data =
      ((parseDatagram kcp.conv data).1.foldl inputPacket kcp, (parseDatagram kcp.conv data).2) := by
  induction kcp, data using inputLoop.induct with
  | case1 kcp data hshort =>
    rw [inputLoop, parseDatagram, if_pos hshort, if_pos hshort]
    rfl
  | case2 kcp data hlong head hconv =>
    rw [inputLoop, parseDatagram, if_neg hlong, if_neg hlong]
    dsimp only
    rw [if_pos hconv, if_pos hconv]
    rfl
  | case3 kcp data hlong head rest hconv hlen =>
    rw [inputLoop, parseDatagram, if_neg hlong, if_neg hlong]
    dsimp only
    rw [if_neg hconv, if_pos hlen, if_neg hconv, if_pos hlen]
    rfl
  | case4 kcp data hlong head rest hconv hlen hcmd =>
    rw [inputLoop, parseDatagram, if_neg hlong, if_neg hlong]
    dsimp only
    rw [if_neg hconv, if_neg hlen, if_pos hcmd, if_neg hconv, if_neg hlen,
      if_pos (not_isCommand.mpr hcmd)]
    rfl
  | case5 kcp data hlong head rest hconv hlen hcmd ih =>
    rw [inputLoop, parseDatagram, if_neg hlong, if_neg hlong]
    dsimp only
    rw [if_neg hconv, if_neg hlen, if_neg hcmd, if_neg hconv, if_neg hlen,
      if_neg (not_isCommand.not.mpr hcmd), ih, inputSegment_conv, List.foldl_cons]
    -- what follows the segment does not matter to it
    rw [inputPacket, inputSegment_take]

theorem ikcpInput_eq (kcp : Kcp) (data : List UInt8) :
    (kcp.ikcpInput data).1 = (parseDatagram kcp.conv data).1.foldl inputPacket kcp := by
  unfold ikcpInput
  split
  · rename_i hshort
    rw [parseDatagram, if_pos hshort]
    rfl
  · rw [inputLoop_eq]

end Kcp

end Evlite
