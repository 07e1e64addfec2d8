import Girth.Crypto
import Girth.Io
import Girth.Rate
import Girth.Stats

/-!
# What the receiver does with one datagram before it touches shared state

`RecvConfig` is a receiver's configuration; its proof fields say how every caller builds one: the
number of blocks is that of the file, and the file size is an `i64`. `classify` is the part of
`handle_packet` that depends only on the datagram and the configuration: type, session, range,
length, source address, and the integrity check. What passes as data is a `DataPkt`, whose sequence
number is in range by construction.

`classify_data` is the specification: what an accepted DATA PDU is known to satisfy.
-/

namespace Girth

open Lib

inductive IpAddr
  | v4 (bits : BitVec 32)
  | v6 (bits : BitVec 128)
  deriving DecidableEq, Repr

structure SocketAddr where
  ip : IpAddr
  port : UInt16
  deriving DecidableEq, Repr

/-- The checksum and AEAD crates the data plane calls. -/
structure Primitives where
  crc32c : Bytes → UInt32
  aead : Aead

/-- The value of an `i64` as a `u64` or a `usize`. -/
def asUsize (v : Int) : Nat := (v % 2 ^ 64).toNat

structure RecvConfig where
  fileSize : Int
  blockSize : Nat
  totalBlocks : Nat
  session : UInt32
  expectedPeerIp : Option IpAddr
  rate : RateConfig
  crypto : Option AeadBox
  feedbackIntervalUs : Nat
  netTickIntervalUs : Nat
  maxNacksPerPdu : Nat
  control : Option TransferControl
  warmStart : Option RateWarmStart
  stats : Stats := {}
  blockSize_pos : 0 < blockSize
  fileSize_lt : fileSize < 2 ^ 63
  total_eq : totalBlocks = numBlocks fileSize blockSize

namespace RecvConfig

/-- The defaults `new_receiver` fills in; a receiver runs under the result. -/
def withDefaults (cfg : RecvConfig) : RecvConfig :=
  { cfg with
    feedbackIntervalUs := if cfg.feedbackIntervalUs = 0 then 5000 else cfg.feedbackIntervalUs
    netTickIntervalUs := if cfg.netTickIntervalUs = 0 then 10000 else cfg.netTickIntervalUs
    maxNacksPerPdu := if cfg.maxNacksPerPdu = 0 then 90 else cfg.maxNacksPerPdu }

/-- Buffers in the stage pool: about 96 MiB, at most one per block, at least one. -/
def poolDepth (cfg : RecvConfig) : Nat :=
  let depth := (96 <<< 20) / cfg.blockSize
  let depth := if 0 < cfg.totalBlocks ∧ depth > cfg.totalBlocks then cfg.totalBlocks else depth
  if depth < 1 then 1 else depth

/-- Bytes a receive slot holds; a longer datagram is cut. -/
def bufLen (cfg : RecvConfig) : Nat := cfg.blockSize + dataHeaderSize + 64

/-- The source address is known and is not the expected one. -/
def foreign (cfg : RecvConfig) (addr : Option SocketAddr) : Bool :=
  addr.any fun a => cfg.expectedPeerIp.any fun ip => a.ip ≠ ip

end RecvConfig

/-! ## Classification -/

/-- A DATA PDU that passed every check. -/
structure DataPkt (total : Nat) where
  header : DataHeader
  seq_lt : header.blockSeq.toNat < total
  payload : Bytes

def DataPkt.seq {total : Nat} (p : DataPkt total) : Nat := p.header.blockSeq.toNat

inductive Verdict (total : Nat)
  | ignore
  /-- Dropped by the checksum or the authentication tag. -/
  | corrupt
  | fin
  | data (pkt : DataPkt total)

namespace RecvConfig

variable (prim : Primitives) (cfg : RecvConfig)

/-- The integrity check of a payload. -/
def openPayload (pkt : Bytes) (h : DataHeader) (seq_lt : h.blockSeq.toNat < cfg.totalBlocks) :
    Verdict cfg.totalBlocks :=
  let plen := h.payloadLen.toNat
  match cfg.crypto with
  | some box =>
    match openData prim.aead box (pkt.drop dataHeaderSize) plen h.blockSeq with
    | some (payload, n) => .data ⟨h, seq_lt, payload.take n⟩
    | none => .corrupt
  | none =>
    if dataHeaderSize + plen > pkt.length then .ignore
    else if prim.crc32c (slice pkt dataHeaderSize plen) ≠ h.payloadCrc then .corrupt
    else .data ⟨h, seq_lt, slice pkt dataHeaderSize plen⟩

/-- The checks on a decoded DATA header. -/
def classifyData (pkt : Bytes) (addr : Option SocketAddr) (h : DataHeader) :
    Verdict cfg.totalBlocks :=
  if h.session ≠ cfg.session then .ignore
  else if seq_lt : h.blockSeq.toNat < cfg.totalBlocks then
    if h.payloadLen.toNat > cfg.blockSize then .ignore
    else if cfg.foreign addr then .ignore
    else cfg.openPayload prim pkt h seq_lt
  else .ignore

/-- `handle_packet` up to its first access to shared state. -/
def classify (pkt : Bytes) (addr : Option SocketAddr) : Verdict cfg.totalBlocks :=
  if pduType pkt = pduFin then
    match decodeFin pkt with
    | some (session, total) =>
      if session ≠ cfg.session ∨ total.toNat ≠ cfg.totalBlocks then .ignore else .fin
    | none => .ignore
  else if pduType pkt = pduData then
    match decodeDataHeader pkt with
    | some h => cfg.classifyData prim pkt addr h
    | none => .ignore
  else .ignore

/-- `learn_peer`: the peer afterwards, and whether the datagram may be used. -/
def learnPeer (peer addr : Option SocketAddr) : Option SocketAddr × Bool :=
  match addr with
  | none => (peer, peer.isSome)
  | some a =>
    if cfg.expectedPeerIp.any fun ip => a.ip ≠ ip then (peer, false)
    else
      match peer with
      | some existing => (peer, existing == a)
      | none => (some a, true)

variable {prim cfg} {pkt : Bytes} {addr : Option SocketAddr} {h : DataHeader}
  {p : DataPkt cfg.totalBlocks}

theorem openPayload_data {seq_lt : h.blockSeq.toNat < cfg.totalBlocks}
    (hp : cfg.openPayload prim pkt h seq_lt = .data p) :
    p.header = h ∧ p.payload.length = h.payloadLen.toNat := by
  unfold openPayload at hp
  dsimp only at hp
  split at hp
  · split at hp
    · rename_i payload n hopen
      cases hp
      obtain ⟨rfl, hle, hlen⟩ := openData_length hopen
      refine ⟨rfl, ?_⟩
      rw [List.length_take, hlen]
      omega
    · cases hp
  · split at hp
    · cases hp
    · rename_i hle
      split at hp
      · cases hp
      · cases hp
        exact ⟨rfl, slice_length_of_le (by omega)⟩

/-- An accepted DATA PDU: its header is the datagram's, its payload is as long as the header says,
which is at most a block, and its address is not a foreign one. -/
theorem classify_data (hp : cfg.classify prim pkt addr = .data p) :
    decodeDataHeader pkt = some p.header ∧ p.header.session = cfg.session ∧
      p.payload.length = p.header.payloadLen.toNat ∧ p.payload.length ≤ cfg.blockSize ∧
      cfg.foreign addr = false := by
  unfold classify at hp
  split at hp
  · split at hp
    · split at hp <;> cases hp
    · cases hp
  · split at hp
    · split at hp
      · rename_i h hdec
        unfold classifyData at hp
        split at hp
        · cases hp
        · rename_i hsession
          split at hp
          · split at hp
            · cases hp
            · rename_i hle
              split at hp
              · cases hp
              · rename_i hforeign
                obtain ⟨rfl, hlen⟩ := openPayload_data hp
                exact ⟨hdec, not_not.mp hsession, hlen, by omega, Bool.not_eq_true _ ▸ hforeign⟩
          · cases hp
      · cases hp
    · cases hp

/-! ## What a sender's PDU is classified as -/

theorem classify_header (hsession : h.session = cfg.session)
    (seq_lt : h.blockSeq.toNat < cfg.totalBlocks) (hle : h.payloadLen.toNat ≤ cfg.blockSize)
    (haddr : cfg.foreign addr = false) (body : Bytes) :
    cfg.classify prim (h.bytes ++ body) addr = cfg.openPayload prim (h.bytes ++ body) h seq_lt := by
  rw [classify, pduType_bytes, if_neg (by decide), if_pos rfl, decodeDataHeader_bytes]
  simp only [classifyData]
  rw [if_neg (not_not.mpr hsession), dif_pos seq_lt, if_neg (by omega), haddr]
  rfl

theorem classify_cleartext (hcrypto : cfg.crypto = none) (hsession : h.session = cfg.session)
    (seq_lt : h.blockSeq.toNat < cfg.totalBlocks) {payload : Bytes}
    (hlen : h.payloadLen.toNat = payload.length) (hle : payload.length ≤ cfg.blockSize)
    (hcrc : h.payloadCrc = prim.crc32c payload) (haddr : cfg.foreign addr = false) (rest : Bytes) :
    cfg.classify prim (h.bytes ++ (payload ++ rest)) addr = .data ⟨h, seq_lt, payload⟩ := by
  have hslice : slice (h.bytes ++ (payload ++ rest)) dataHeaderSize h.payloadLen.toNat = payload := by
    rw [slice, hlen, ← h.bytes_length, List.drop_left, List.take_left]
  rw [classify_header hsession seq_lt (by omega) haddr, openPayload]
  simp only [hcrypto, hslice]
  rw [if_neg (by simp [hlen]), if_neg (by rw [hcrc]; simp)]

theorem classify_sealed (ha : prim.aead.Inverts) {box : AeadBox} (hcrypto : cfg.crypto = some box)
    (hsession : h.session = cfg.session) (seq_lt : h.blockSeq.toNat < cfg.totalBlocks)
    {payload : Bytes} (hlen : h.payloadLen.toNat = payload.length)
    (hle : payload.length ≤ cfg.blockSize) (haddr : cfg.foreign addr = false) (rest : Bytes) :
    cfg.classify prim (h.bytes ++ ((prim.aead.encrypt box (blockNonce h.blockSeq) payload).1 ++
      ((prim.aead.encrypt box (blockNonce h.blockSeq) payload).2 ++ rest))) addr =
        .data ⟨h, seq_lt, payload⟩ := by
  rw [classify_header hsession seq_lt (by omega) haddr, openPayload]
  simp only [hcrypto, hlen]
  rw [← h.bytes_length, List.drop_left, openData_seal ha]
  simp only [List.take_left]

end RecvConfig

end Girth
