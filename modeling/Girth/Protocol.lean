import Girth.Lib.Bytes

/-!
# Wire protocol

The four PDU layouts of the data plane, the functions that write and read them, and the number of
blocks of a file. All multi-byte fields are little-endian. A buffer is a list of bytes; `putU16` and
its siblings write a field into a buffer at an offset, `getU16` and its siblings read one.

`encodeDataHeader_eq` and `encodeFin_eq` give the bytes an encoder leaves in a buffer whatever it
held before, and the decoders are the inverses (`decodeDataHeader_encode`, `decodeFin_bytes`).
-/

namespace Girth

open Lib

abbrev Bytes := List UInt8

def protocolVersion : Int := 1

def defaultBlockSize : Nat := 1400

def dataHeaderSize : Nat := 36

/-! ## PDU types and flags -/

def pduData : UInt8 := 1
def pduFeedback : UInt8 := 2
def pduStart : UInt8 := 5
def pduFin : UInt8 := 4

def flagRetransmit : UInt8 := 1
def flagTickN : UInt8 := 2
def flagHasTick : UInt8 := 4
def flagLastBlock : UInt8 := 8

/-! ## Fields -/

def putU8 (b : Bytes) (off : Nat) (v : UInt8) : Bytes := overwrite b off [v]
def putU16 (b : Bytes) (off : Nat) (v : UInt16) : Bytes := overwrite b off (leBytes 2 v.toNat)
def putU32 (b : Bytes) (off : Nat) (v : UInt32) : Bytes := overwrite b off (leBytes 4 v.toNat)
def putU64 (b : Bytes) (off : Nat) (v : UInt64) : Bytes := overwrite b off (leBytes 8 v.toNat)

def getU8 (b : Bytes) (off : Nat) : UInt8 := b.getD off 0
def getU16 (b : Bytes) (off : Nat) : UInt16 := UInt16.ofNat (leNat (slice b off 2))
def getU32 (b : Bytes) (off : Nat) : UInt32 := UInt32.ofNat (leNat (slice b off 4))
def getU64 (b : Bytes) (off : Nat) : UInt64 := UInt64.ofNat (leNat (slice b off 8))

/-- Stamp the echo tick into the tick slot of an already built DATA PDU. -/
def putEchoTick (buf : Bytes) (v : UInt64) : Bytes := putU64 buf 16 v

/-! ## DATA -/

structure DataHeader where
  flags : UInt8 := 0
  payloadLen : UInt16 := 0
  session : UInt32 := 0
  blockSeq : UInt64 := 0
  echoTick : UInt64 := 0
  rexIndex : Int64 := 0
  payloadCrc : UInt32 := 0
  deriving DecidableEq, Repr

/-- Write the header into the first `dataHeaderSize` bytes of `buf`. -/
def encodeDataHeader (buf : Bytes) (h : DataHeader) : Bytes :=
  let buf := putU8 buf 0 pduData
  let buf := putU8 buf 1 h.flags
  let buf := putU16 buf 2 h.payloadLen
  let buf := putU32 buf 4 h.session
  let buf := putU64 buf 8 h.blockSeq
  let buf := putU64 buf 16 h.echoTick
  let buf := putU64 buf 24 h.rexIndex.toUInt64
  putU32 buf 32 h.payloadCrc

/-- Parse a DATA header; nothing if the buffer is too short or not a DATA PDU. -/
def decodeDataHeader (buf : Bytes) : Option DataHeader :=
  if buf.length < dataHeaderSize ∨ getU8 buf 0 ≠ pduData then none
  else some
    { flags := getU8 buf 1
      payloadLen := getU16 buf 2
      session := getU32 buf 4
      blockSeq := getU64 buf 8
      echoTick := getU64 buf 16
      rexIndex := (getU64 buf 24).toInt64
      payloadCrc := getU32 buf 32 }

/-! ## FEEDBACK -/

def feedbackHeaderSize : Nat := 36
def nackEntrySize : Nat := 16

structure FeedbackHeader where
  tickIsNetwork : Bool := false
  nackCount : UInt16 := 0
  session : UInt32 := 0
  tick : UInt64 := 0
  targetRate : UInt64 := 0
  hiContig : UInt64 := 0
  done : Bool := false
  deriving DecidableEq, Repr

structure NackEntry where
  blockSeq : UInt64
  rexIndex : Int64
  deriving DecidableEq, Repr

/-- The NACK entries, written one after another from `off` on; returns the offset behind them. -/
def encodeNacks : Bytes → Nat → List NackEntry → Bytes × Nat
  | buf, off, [] => (buf, off)
  | buf, off, n :: ns =>
    let buf := putU64 buf off n.blockSeq
    let buf := putU64 buf (off + 8) n.rexIndex.toUInt64
    encodeNacks buf (off + nackEntrySize) ns

/-- Encode a feedback header followed by `nacks`; returns the buffer and the total length. -/
def encodeFeedback (buf : Bytes) (h : FeedbackHeader) (nacks : List NackEntry) : Bytes × Nat :=
  let buf := putU8 buf 0 pduFeedback
  let flags : UInt8 := if h.tickIsNetwork then 0 ||| flagTickN else 0
  let buf := putU8 buf 1 flags
  let buf := putU16 buf 2 (UInt16.ofNat nacks.length)
  let buf := putU32 buf 4 h.session
  let buf := putU64 buf 8 h.tick
  let buf := putU64 buf 16 h.targetRate
  let buf := putU64 buf 24 h.hiContig
  let buf := putU8 buf 32 (if h.done then 1 else 0)
  let buf := putU8 buf 33 0
  let buf := putU8 buf 34 0
  let buf := putU8 buf 35 0
  encodeNacks buf feedbackHeaderSize nacks

/-- `n` NACK entries read from `off` on. -/
def decodeNacks (buf : Bytes) : Nat → Nat → List NackEntry
  | _, 0 => []
  | off, n + 1 =>
    { blockSeq := getU64 buf off, rexIndex := (getU64 buf (off + 8)).toInt64 } ::
      decodeNacks buf (off + nackEntrySize) n

/-- Decode a feedback PDU; nothing on a malformed or short buffer. -/
def decodeFeedback (buf : Bytes) : Option (FeedbackHeader × List NackEntry) :=
  if buf.length < feedbackHeaderSize ∨ getU8 buf 0 ≠ pduFeedback then none
  else
    let h : FeedbackHeader :=
      { tickIsNetwork := getU8 buf 1 &&& flagTickN != 0
        nackCount := getU16 buf 2
        session := getU32 buf 4
        tick := getU64 buf 8
        targetRate := getU64 buf 16
        hiContig := getU64 buf 24
        done := getU8 buf 32 == 1 }
    let need := feedbackHeaderSize + h.nackCount.toNat * nackEntrySize
    if buf.length < need then none
    else
      let nacks := decodeNacks buf feedbackHeaderSize h.nackCount.toNat
      some ({ h with nackCount := UInt16.ofNat nacks.length }, nacks)

/-! ## START and FIN -/

/-- START: the receiver's first contact. -/
def encodeStart (buf : Bytes) (session : UInt32) : Bytes × Nat :=
  let buf := putU8 buf 0 pduStart
  let buf := putU8 buf 1 0
  let buf := putU8 buf 2 0
  let buf := putU8 buf 3 0
  (putU32 buf 4 session, 8)

def decodeStart (buf : Bytes) : Option UInt32 :=
  if buf.length < 8 ∨ getU8 buf 0 ≠ pduStart then none else some (getU32 buf 4)

/-- FIN: the sender has injected every new block at least once. -/
def encodeFin (buf : Bytes) (session : UInt32) (totalBlocks : UInt64) : Bytes × Nat :=
  let buf := putU8 buf 0 pduFin
  let buf := putU8 buf 1 0
  let buf := putU8 buf 2 0
  let buf := putU8 buf 3 0
  let buf := putU32 buf 4 session
  (putU64 buf 8 totalBlocks, 16)

def decodeFin (buf : Bytes) : Option (UInt32 × UInt64) :=
  if buf.length < 16 ∨ getU8 buf 0 ≠ pduFin then none else some (getU32 buf 4, getU64 buf 8)

/-- The type byte, `0` if the datagram is empty. -/
def pduType (buf : Bytes) : UInt8 := if buf.isEmpty then 0 else getU8 buf 0

/-- Number of fixed-size blocks of a file of `size` bytes. -/
def numBlocks (size : Int) (blockSize : Nat) : Nat :=
  if size ≤ 0 then 0
  else size.toNat / blockSize + (if size.toNat % blockSize = 0 then 0 else 1)

theorem lt_numBlocks_iff {size : Int} {blockSize seq : Nat} (hpos : 0 < blockSize) :
    seq < numBlocks size blockSize ↔ seq * blockSize < size.toNat := by
  unfold numBlocks
  split
  · have hzero : size.toNat = 0 := by omega
    simp [hzero]
  · generalize size.toNat = len
    have hdiv : len / blockSize * blockSize + len % blockSize = len := Nat.div_add_mod' len blockSize
    have hmod : len % blockSize < blockSize := Nat.mod_lt len hpos
    rcases Nat.lt_trichotomy seq (len / blockSize) with hlt | heq | hgt
    · have hle : (seq + 1) * blockSize ≤ len / blockSize * blockSize :=
        Nat.mul_le_mul_right blockSize hlt
      rw [Nat.succ_mul] at hle
      split <;> omega
    · rw [← heq] at hdiv ⊢
      split <;> omega
    · have hle : (len / blockSize + 1) * blockSize ≤ seq * blockSize :=
        Nat.mul_le_mul_right blockSize hgt
      rw [Nat.succ_mul] at hle
      split <;> omega

/-! ## What the encoders leave in a buffer -/

/-- The 36 bytes of a DATA header. -/
def DataHeader.bytes (h : DataHeader) : Bytes :=
  [pduData, h.flags] ++ leBytes 2 h.payloadLen.toNat ++ leBytes 4 h.session.toNat ++
    leBytes 8 h.blockSeq.toNat ++ leBytes 8 h.echoTick.toNat ++
    leBytes 8 h.rexIndex.toUInt64.toNat ++ leBytes 4 h.payloadCrc.toNat

@[simp] theorem DataHeader.bytes_length (h : DataHeader) : h.bytes.length = dataHeaderSize := by
  simp [DataHeader.bytes, dataHeaderSize]

theorem encodeDataHeader_eq (buf : Bytes) (h : DataHeader) :
    encodeDataHeader buf h = h.bytes ++ buf.drop dataHeaderSize := by
  simp only [encodeDataHeader, putU8, putU16, putU32, putU64]
  rw [overwrite_zero, overwrite_append (by simp), overwrite_append (by simp), overwrite_append (by simp),
    overwrite_append (by simp), overwrite_append (by simp), overwrite_append (by simp),
    overwrite_append (by simp)]
  simp [DataHeader.bytes, dataHeaderSize]

/-- The 16 bytes of a FIN. -/
def finBytes (session : UInt32) (totalBlocks : UInt64) : Bytes :=
  [pduFin, 0, 0, 0] ++ leBytes 4 session.toNat ++ leBytes 8 totalBlocks.toNat

@[simp] theorem finBytes_length (session : UInt32) (totalBlocks : UInt64) :
    (finBytes session totalBlocks).length = 16 := by
  simp [finBytes]

theorem encodeFin_eq (buf : Bytes) (session : UInt32) (totalBlocks : UInt64) :
    (encodeFin buf session totalBlocks).1 = finBytes session totalBlocks ++ buf.drop 16 := by
  simp only [encodeFin, putU8, putU32, putU64]
  rw [overwrite_zero, overwrite_append (by simp), overwrite_append (by simp), overwrite_append (by simp),
    overwrite_append (by simp), overwrite_append (by simp)]
  simp [finBytes]

/-! ## The decoders read it back -/

theorem u16_leBytes (v : UInt16) : UInt16.ofNat (leNat (leBytes 2 v.toNat)) = v := by
  rw [leNat_leBytes_of_lt v.toNat_lt, UInt16.ofNat_toNat]

theorem u32_leBytes (v : UInt32) : UInt32.ofNat (leNat (leBytes 4 v.toNat)) = v := by
  rw [leNat_leBytes_of_lt v.toNat_lt, UInt32.ofNat_toNat]

theorem u64_leBytes (v : UInt64) : UInt64.ofNat (leNat (leBytes 8 v.toNat)) = v := by
  rw [leNat_leBytes_of_lt v.toNat_lt, UInt64.ofNat_toNat]

theorem decodeDataHeader_bytes (h : DataHeader) (rest : Bytes) :
    decodeDataHeader (h.bytes ++ rest) = some h := by
  have htype : getU8 (h.bytes ++ rest) 0 = pduData := rfl
  -- every field is read from the bytes its encoder wrote
  have hplen : getU16 (h.bytes ++ rest) 2 = h.payloadLen := u16_leBytes h.payloadLen
  have hsession : getU32 (h.bytes ++ rest) 4 = h.session := u32_leBytes h.session
  have hseq : getU64 (h.bytes ++ rest) 8 = h.blockSeq := u64_leBytes h.blockSeq
  have htick : getU64 (h.bytes ++ rest) 16 = h.echoTick := u64_leBytes h.echoTick
  have hrex : getU64 (h.bytes ++ rest) 24 = h.rexIndex.toUInt64 := u64_leBytes h.rexIndex.toUInt64
  have hcrc : getU32 (h.bytes ++ rest) 32 = h.payloadCrc := u32_leBytes h.payloadCrc
  have hflags : getU8 (h.bytes ++ rest) 1 = h.flags := rfl
  rw [decodeDataHeader, if_neg (by simp [htype]), hflags, hplen, hsession, hseq, htick, hrex, hcrc]
  simp

theorem decodeDataHeader_encode (buf : Bytes) (h : DataHeader) :
    decodeDataHeader (encodeDataHeader buf h) = some h := by
  rw [encodeDataHeader_eq, decodeDataHeader_bytes]

theorem decodeFin_bytes (session : UInt32) (totalBlocks : UInt64) (rest : Bytes) :
    decodeFin (finBytes session totalBlocks ++ rest) = some (session, totalBlocks) := by
  have htype : getU8 (finBytes session totalBlocks ++ rest) 0 = pduFin := rfl
  have hsession : getU32 (finBytes session totalBlocks ++ rest) 4 = session := u32_leBytes session
  have htotal : getU64 (finBytes session totalBlocks ++ rest) 8 = totalBlocks :=
    u64_leBytes totalBlocks
  rw [decodeFin, if_neg (by simp [htype]), hsession, htotal]

theorem decodeDataHeader_take (buf : Bytes) {k : Nat} (hk : dataHeaderSize ≤ k) :
    decodeDataHeader (buf.take k) = decodeDataHeader buf := by
  have h8 : ∀ off, off < 36 → getU8 (buf.take k) off = getU8 buf off := by
    intro off hoff
    rw [getU8, getU8, List.getD_eq_getElem?_getD, List.getD_eq_getElem?_getD,
      List.getElem?_take_of_lt (lt_of_lt_of_le hoff hk)]
  have hslice : ∀ off n, off + n ≤ 36 → slice (buf.take k) off n = slice buf off n :=
    fun off n h => slice_take (le_trans h hk)
  have hlen : (buf.take k).length < dataHeaderSize ↔ buf.length < dataHeaderSize := by
    rw [List.length_take]
    omega
  simp only [decodeDataHeader, hlen, h8 0 (by omega), h8 1 (by omega), getU16, getU32, getU64,
    hslice 2 2 (by omega), hslice 4 4 (by omega), hslice 8 8 (by omega), hslice 16 8 (by omega),
    hslice 24 8 (by omega), hslice 32 4 (by omega)]

theorem pduType_bytes (h : DataHeader) (rest : Bytes) : pduType (h.bytes ++ rest) = pduData := rfl

end Girth
