import Girth.Io
import Girth.Rate
import Girth.Receiver.Packet

/-!
# The PDUs of a sender

`prefetch` and `fill_retransmit` compute the position and the length of a block, read it into a
pooled buffer behind the room for the header, write the header and seal the payload in place. The
arithmetic is that of a release build: it wraps, so a sequence number out of range still names some
position. A buffer that is too short for the computed length makes the slice panic.

`IsData seq payload d` says what such a PDU is: a header of this session for block `seq`, in front of
the payload, or of its ciphertext and tag. Whatever the pooled buffer held before, both functions
build exactly that from the bytes the source has at `seq` (`buildPdu_spec`), and stamping an echo tick
keeps it (`attachTick_isData`). `seal_of_buildPdu` is the same for the call of `seal_data`: its nonce
and its plaintext are those of the block.
-/

namespace Girth

open Lib

structure SendConfig where
  peer : Option SocketAddr
  expectedPeerIp : Option IpAddr
  source : BlockSource
  fileSize : Int
  blockSize : Nat
  totalBlocks : UInt64
  session : UInt32
  rate : RateConfig
  crypto : Option AeadBox
  control : Option TransferControl
  warmStart : Option RateWarmStart
  stats : Stats := {}
  fileSize_lt : fileSize < 2 ^ 63
  neg_le_fileSize : -2 ^ 63 ≤ fileSize
  /-- A pooled buffer can be allocated. -/
  blockSize_lt : blockSize + dataHeaderSize + aeadTagLen < 2 ^ 63

/-- The value of a `u64` as an `i64`. -/
def asI64 (v : UInt64) : Int := (v.toNat : Int).bmod (2 ^ 64)

namespace Sender

variable (prim : Primitives) (cfg : SendConfig)

def overhead : Nat := if cfg.crypto.isSome then aeadTagLen else 0

/-- The length of a pooled buffer. -/
def bufLen : Nat := cfg.blockSize + dataHeaderSize + overhead cfg

/-! ## Position and length of a block -/

/-- The position of a block. -/
def off (seq : UInt64) : UInt64 := seq * UInt64.ofNat cfg.blockSize

/-- What is left of the file from there on. -/
def rem (seq : UInt64) : Int := (cfg.fileSize - asI64 (off cfg seq)).bmod (2 ^ 64)

/-- The length of the block. -/
def plen (seq : UInt64) : Nat :=
  if rem cfg seq < cfg.blockSize then asUsize (rem cfg seq) else cfg.blockSize

theorem off_toNat {cfg : SendConfig} {seq : UInt64} (h : seq.toNat * cfg.blockSize < 2 ^ 64) :
    (off cfg seq).toNat = seq.toNat * cfg.blockSize := by
  have hbs := cfg.blockSize_lt
  rw [off, UInt64.toNat_mul, UInt64.toNat_ofNat', Nat.mod_eq_of_lt (by omega : cfg.blockSize < 2 ^ 64),
    Nat.mod_eq_of_lt h]

theorem rem_of_lt {cfg : SendConfig} {seq : UInt64} (hoff : (off cfg seq).toNat < 2 ^ 63)
    (hsize : 0 ≤ cfg.fileSize) : rem cfg seq = cfg.fileSize - (off cfg seq).toNat := by
  have hlt := cfg.fileSize_lt
  have hcast : asI64 (off cfg seq) = (off cfg seq).toNat := Int.bmod_eq_of_le (by omega) (by omega)
  rw [rem, hcast]
  exact Int.bmod_eq_of_le (by omega) (by omega)

theorem plen_of_lt {cfg : SendConfig} {seq : UInt64}
    (h : seq.toNat * cfg.blockSize < cfg.fileSize.toNat) :
    plen cfg seq = min cfg.blockSize (cfg.fileSize.toNat - seq.toNat * cfg.blockSize) := by
  have hlt := cfg.fileSize_lt
  have hoff : (off cfg seq).toNat = seq.toNat * cfg.blockSize := off_toNat (by omega)
  rw [plen, rem_of_lt (by omega) (by omega), hoff]
  split
  · rw [asUsize]
    omega
  · omega

/-! ## Building a PDU -/

/-- Whether a read fails; it may then have left some bytes in the buffer. -/
structure ReadEnv where
  readErr : Option Bytes := none

/-- The call of `seal_data` that a PDU needed. -/
structure Seal where
  nonce : Bytes
  plaintext : Bytes
  ciphertext : Bytes
  tag : Bytes
  deriving DecidableEq

/-- A pooled buffer with a PDU in its first `size` bytes. -/
structure Prefetched where
  buf : Bytes
  size : Nat

inductive Built
  | panic
  /-- Nothing to send; the buffer may have been written to. -/
  | nothing (buf : Bytes)
  | pdu (item : Prefetched) (sealed : Option Seal)

/-- Record a call of `seal_data`. -/
def recordSeal (a : Aead) (box : AeadBox) (buf : Bytes) (hdrLen n : Nat) (seq : UInt64) : Seal :=
  let pt := slice buf hdrLen n
  ⟨blockNonce seq, pt, (a.encrypt box (blockNonce seq) pt).1, (a.encrypt box (blockNonce seq) pt).2⟩

/-- Header and integrity protection of a block whose bytes are in the buffer. -/
def finishPdu (buf : Bytes) (seq : UInt64) (flags : UInt8) (rexIndex : Int64) : Built :=
  let n := plen cfg seq
  let flags := if seq = cfg.totalBlocks - 1 then flags ||| flagLastBlock else flags
  let crc := if cfg.crypto.isNone then prim.crc32c (slice buf dataHeaderSize n) else 0
  let buf := encodeDataHeader buf
    { flags := flags
      payloadLen := UInt16.ofNat n
      session := cfg.session
      blockSeq := seq
      rexIndex := rexIndex
      payloadCrc := crc }
  match cfg.crypto with
  | some box =>
    let (sealed, size) := sealData prim.aead box buf dataHeaderSize n seq
    .pdu ⟨sealed, size⟩ (some (recordSeal prim.aead box buf dataHeaderSize n seq))
  | none => .pdu ⟨buf, dataHeaderSize + n⟩ none

/-- Read a block into the buffer and build its PDU. -/
def buildPdu (env : ReadEnv) (buf : Bytes) (seq : UInt64) (flags : UInt8) (rexIndex : Int64) :
    Built :=
  let n := plen cfg seq
  if dataHeaderSize + n > buf.length then .panic
  else
    match env.readErr, cfg.source.readExactAt (off cfg seq).toNat n with
    | none, some bytes => finishPdu prim cfg (overwrite buf dataHeaderSize bytes) seq flags rexIndex
    | left, _ => .nothing (overwrite buf dataHeaderSize ((left.getD []).take n))

/-- One iteration of `prefetch`. -/
def prefetchPdu (env : ReadEnv) (buf : Bytes) (seq : UInt64) : Built :=
  buildPdu prim cfg env buf seq 0 0

/-- `fill_retransmit`: nothing for a block that is empty or out of the file. -/
def fillRetransmit (env : ReadEnv) (buf : Bytes) (seq : UInt64) : Built :=
  if plen cfg seq = 0 ∨ rem cfg seq ≤ 0 then .nothing buf
  else buildPdu prim cfg env buf seq flagRetransmit seq.toInt64

/-- The echo tick waiting to be sent. -/
structure TickState where
  pending : Bool := false
  val : UInt64 := 0
  isNet : Bool := false
  t2 : UInt64 := 0
  deriving DecidableEq

/-- Stamp a pending echo tick into a built PDU. For a network tick the sender's own delay is added. -/
def attachTick (tick : TickState) (now : UInt64) (buf : Bytes) : TickState × Bytes :=
  if !tick.pending then (tick, buf)
  else
    let flags := getU8 buf 1 ||| flagHasTick
    let (flags, echo) :=
      if tick.isNet then (flags ||| flagTickN, tick.val + (now - tick.t2))
      else (flags &&& ~~~flagTickN, tick.val)
    ({ tick with pending := false }, putEchoTick (putU8 buf 1 flags) echo)

/-- The FIN. -/
def finPdu : Bytes :=
  let (buf, n) := encodeFin (List.replicate 16 0) cfg.session cfg.totalBlocks
  buf.take n

/-! ## What the PDUs are -/

/-- What follows the header: the payload, or its ciphertext and tag. -/
def body (seq : UInt64) (payload : Bytes) : Bytes :=
  match cfg.crypto with
  | some box =>
    (prim.aead.encrypt box (blockNonce seq) payload).1 ++
      (prim.aead.encrypt box (blockNonce seq) payload).2
  | none => payload

/-- The header in front of a payload. -/
def pduHeader (seq : UInt64) (payload : Bytes) (flags : UInt8) (rexIndex : Int64) : DataHeader where
  flags := if seq = cfg.totalBlocks - 1 then flags ||| flagLastBlock else flags
  payloadLen := UInt16.ofNat payload.length
  session := cfg.session
  blockSeq := seq
  rexIndex := rexIndex
  payloadCrc := if cfg.crypto.isNone then prim.crc32c payload else 0

/-- `d` is a DATA PDU of this sender for block `seq` with the given payload. -/
def IsData (seq : UInt64) (payload d : Bytes) : Prop :=
  ∃ h : DataHeader, h.session = cfg.session ∧ h.blockSeq = seq ∧
    h.payloadLen = UInt16.ofNat payload.length ∧
    (cfg.crypto = none → h.payloadCrc = prim.crc32c payload) ∧
      d = h.bytes ++ body prim cfg seq payload

/-- The call of `seal_data` for block `seq` with the given payload. -/
def sealOf (box : AeadBox) (seq : UInt64) (payload : Bytes) : Seal :=
  ⟨blockNonce seq, payload, (prim.aead.encrypt box (blockNonce seq) payload).1,
    (prim.aead.encrypt box (blockNonce seq) payload).2⟩

/-- What the source has at a block. -/
def blockOf (seq : UInt64) : Option Bytes :=
  cfg.source.readExactAt (off cfg seq).toNat (plen cfg seq)

variable {prim cfg} {buf : Bytes} {seq : UInt64} {flags : UInt8} {rexIndex : Int64} {env : ReadEnv}
  {item : Prefetched} {sealed : Option Seal}

theorem plen_le (h : dataHeaderSize + plen cfg seq ≤ bufLen cfg) : plen cfg seq ≤ cfg.blockSize := by
  have hover : overhead cfg ≤ aeadTagLen := by
    unfold overhead
    split <;> omega
  have hbs := cfg.blockSize_lt
  have hlo : -2 ^ 63 ≤ rem cfg seq := Int.le_bmod (by decide)
  unfold plen at h ⊢
  split at h
  · rename_i hlt
    rw [if_pos hlt]
    unfold asUsize bufLen at *
    omega
  · rename_i hge
    rw [if_neg hge]

/-- **Header and integrity protection around a payload**, byte by byte, whatever the buffer holds
elsewhere. -/
theorem finishPdu_bytes {pre payload rest : Bytes} (hpre : pre.length = dataHeaderSize)
    (hlen : payload.length = plen cfg seq) (hrest : overhead cfg ≤ rest.length)
    (h : finishPdu prim cfg (pre ++ (payload ++ rest)) seq flags rexIndex = .pdu item sealed) :
    item.buf.take item.size =
        (pduHeader prim cfg seq payload flags rexIndex).bytes ++ body prim cfg seq payload ∧
      item.size = dataHeaderSize + payload.length + overhead cfg ∧
      item.buf.length = (pre ++ (payload ++ rest)).length := by
  have hslice : slice (pre ++ (payload ++ rest)) dataHeaderSize (plen cfg seq) = payload := by
    rw [← hpre, ← hlen, slice, List.drop_left, List.take_left]
  have hdrop : (pre ++ (payload ++ rest)).drop dataHeaderSize = payload ++ rest := by
    rw [← hpre, List.drop_left]
  simp only [finishPdu, encodeDataHeader_eq, hslice, hdrop] at h
  rw [← hlen] at h
  generalize hh : DataHeader.mk _ _ _ _ _ _ _ = hdr at h
  have hhdr : pduHeader prim cfg seq payload flags rexIndex = hdr := hh
  rw [hhdr]
  cases hcrypto : cfg.crypto with
  | none =>
    rw [hcrypto] at h
    simp only [Built.pdu.injEq] at h
    obtain ⟨rfl, -⟩ := h
    refine ⟨?_, by simp [overhead, hcrypto], by simp [hpre]⟩
    simp only [body, hcrypto]
    rw [← List.append_assoc, List.take_left']
    rw [List.length_append, hdr.bytes_length]
  | some box =>
    rw [hcrypto] at h
    simp only [Built.pdu.injEq] at h
    obtain ⟨rfl, -⟩ := h
    have htag : aeadTagLen ≤ rest.length := by simpa [overhead, hcrypto] using hrest
    have hseal := sealData_eq prim.aead box hdr.bytes payload rest seq
    rw [DataHeader.bytes_length] at hseal
    have hct := prim.aead.encrypt_length box (blockNonce seq) payload
    have ht := prim.aead.tag_length box (blockNonce seq) payload
    rw [hseal]
    refine ⟨?_, by simp [overhead, hcrypto, sealData], ?_⟩
    · simp only [body, hcrypto, sealData]
      rw [← List.append_assoc, ← List.append_assoc, List.take_left', List.append_assoc]
      rw [List.length_append, List.length_append, hdr.bytes_length, hct, ht]
    · simp only [List.length_append, List.length_drop, DataHeader.bytes_length, hct, ht, hpre]
      omega

theorem seal_of_finishPdu {payload : Bytes}
    (hslice : slice buf dataHeaderSize (plen cfg seq) = payload)
    (h : finishPdu prim cfg buf seq flags rexIndex = .pdu item sealed) :
    sealed = cfg.crypto.map fun box => sealOf prim box seq payload := by
  have hkeep : ∀ hdr : DataHeader,
      slice (hdr.bytes ++ buf.drop dataHeaderSize) dataHeaderSize (plen cfg seq) = payload := by
    intro hdr
    rw [← hslice, slice, ← hdr.bytes_length, List.drop_left]
    rfl
  simp only [finishPdu, encodeDataHeader_eq] at h
  cases hcrypto : cfg.crypto with
  | none =>
    rw [hcrypto] at h
    simp only [Built.pdu.injEq] at h
    exact h.2.symm
  | some box =>
    rw [hcrypto] at h
    simp only [Built.pdu.injEq, recordSeal, hkeep] at h
    exact h.2.symm

theorem buildPdu_read (h : buildPdu prim cfg env buf seq flags rexIndex = .pdu item sealed) :
    ∃ payload, blockOf cfg seq = some payload ∧ dataHeaderSize + plen cfg seq ≤ buf.length ∧
      finishPdu prim cfg (overwrite buf dataHeaderSize payload) seq flags rexIndex =
        .pdu item sealed := by
  unfold buildPdu at h
  dsimp only at h
  split at h
  · cases h
  · rename_i hroom
    split at h
    · rename_i bytes _ hread
      exact ⟨bytes, hread, by omega, h⟩
    · cases h

theorem seal_of_buildPdu (h : buildPdu prim cfg env buf seq flags rexIndex = .pdu item sealed) :
    ∃ payload, blockOf cfg seq = some payload ∧
      sealed = cfg.crypto.map fun box => sealOf prim box seq payload := by
  obtain ⟨payload, hread, hroom, hfin⟩ := buildPdu_read h
  refine ⟨payload, hread, seal_of_finishPdu ?_ hfin⟩
  rw [← cfg.source.read_length hread]
  exact slice_overwrite_self (by omega)

theorem buildPdu_bytes (hbuf : buf.length = bufLen cfg)
    (h : buildPdu prim cfg env buf seq flags rexIndex = .pdu item sealed) :
    ∃ payload, blockOf cfg seq = some payload ∧ payload.length ≤ cfg.blockSize ∧
      item.buf.take item.size =
        (pduHeader prim cfg seq payload flags rexIndex).bytes ++ body prim cfg seq payload ∧
      item.size = dataHeaderSize + payload.length + overhead cfg ∧ item.buf.length = bufLen cfg := by
  obtain ⟨payload, hread, hroom, hfin⟩ := buildPdu_read h
  have hlen : payload.length = plen cfg seq := cfg.source.read_length hread
  have hle : plen cfg seq ≤ cfg.blockSize := plen_le (hbuf ▸ hroom)
  refine ⟨payload, hread, by omega, ?_⟩
  rw [overwrite, List.append_assoc] at hfin
  obtain ⟨hbytes, hsize, hkeep⟩ := finishPdu_bytes (by rw [List.length_take]; omega) hlen
    (by rw [List.length_drop, hbuf, hlen, bufLen]; omega) hfin
  refine ⟨hbytes, hsize, ?_⟩
  rw [hkeep, ← List.append_assoc]
  exact (overwrite_length (by omega)).trans hbuf

theorem isData_pduHeader {payload : Bytes} (flags : UInt8) (rexIndex : Int64) :
    IsData prim cfg seq payload
      ((pduHeader prim cfg seq payload flags rexIndex).bytes ++ body prim cfg seq payload) := by
  refine ⟨_, rfl, rfl, rfl, fun hcrypto => ?_, rfl⟩
  rw [pduHeader, hcrypto]
  rfl

/-- **A built PDU carries its block**, whatever the pooled buffer held before. -/
theorem buildPdu_spec (hbuf : buf.length = bufLen cfg)
    (h : buildPdu prim cfg env buf seq flags rexIndex = .pdu item sealed) :
    ∃ payload, blockOf cfg seq = some payload ∧ payload.length ≤ cfg.blockSize ∧
      IsData prim cfg seq payload (item.buf.take item.size) ∧ item.buf.length = bufLen cfg := by
  obtain ⟨payload, hread, hle, hbytes, -, hkeep⟩ := buildPdu_bytes hbuf h
  refine ⟨payload, hread, hle, ?_, hkeep⟩
  rw [hbytes]
  exact isData_pduHeader flags rexIndex

theorem buildPdu_nothing {buf' : Bytes} (hbuf : buf.length = bufLen cfg)
    (h : buildPdu prim cfg env buf seq flags rexIndex = .nothing buf') :
    buf'.length = bufLen cfg := by
  unfold buildPdu at h
  dsimp only at h
  split at h
  · cases h
  · rename_i hroom
    split at h
    · simp only [finishPdu] at h
      split at h <;> cases h
    · cases h
      rw [overwrite_length (by rw [List.length_take]; omega), hbuf]

/-! ## Ticks and FIN -/

theorem putU8_flags (h : DataHeader) (rest : Bytes) (flags : UInt8) :
    putU8 (h.bytes ++ rest) 1 flags = { h with flags := flags }.bytes ++ rest := rfl

theorem putEchoTick_bytes (h : DataHeader) (rest : Bytes) (tick : UInt64) :
    putEchoTick (h.bytes ++ rest) tick = { h with echoTick := tick }.bytes ++ rest := by
  simp only [putEchoTick, putU64, DataHeader.bytes, List.append_assoc]
  rw [← List.append_assoc, ← List.append_assoc, ← List.append_assoc]
  rw [overwrite_append (by simp)]
  simp

theorem or_and_retransmit {f g : UInt8} (h : g &&& flagRetransmit = 0) :
    (f ||| g) &&& flagRetransmit = f &&& flagRetransmit := by
  apply UInt8.eq_of_toBitVec_eq
  have hg : flagRetransmit.toBitVec &&& g.toBitVec = 0 := by
    rw [BitVec.and_comm, ← UInt8.toBitVec_and, h]
    rfl
  rw [UInt8.toBitVec_and, UInt8.toBitVec_or, UInt8.toBitVec_and, BitVec.and_comm,
    BitVec.and_or_distrib_left, hg, BitVec.and_comm]
  simp

/-- The header of a PDU that a tick is stamped into. -/
def TickState.stamp (tick : TickState) (now : UInt64) (h : DataHeader) : DataHeader :=
  if !tick.pending then h
  else if tick.isNet then
    { h with flags := h.flags ||| flagHasTick ||| flagTickN, echoTick := tick.val + (now - tick.t2) }
  else { h with flags := (h.flags ||| flagHasTick) &&& ~~~flagTickN, echoTick := tick.val }

theorem TickState.stamp_eq (tick : TickState) (now : UInt64) (h : DataHeader) :
    ∃ flags echo, flags &&& flagRetransmit = h.flags &&& flagRetransmit ∧
      tick.stamp now h = { h with flags := flags, echoTick := echo } := by
  have hhas : (h.flags ||| flagHasTick) &&& flagRetransmit = h.flags &&& flagRetransmit :=
    or_and_retransmit (by decide)
  unfold TickState.stamp
  split
  · exact ⟨h.flags, h.echoTick, rfl, rfl⟩
  · split
    · exact ⟨_, _, by rw [or_and_retransmit (by decide), hhas], rfl⟩
    · refine ⟨_, _, ?_, rfl⟩
      rw [UInt8.and_assoc, show ~~~flagTickN &&& flagRetransmit = flagRetransmit from by decide, hhas]

theorem attachTick_bytes (tick : TickState) (now : UInt64) (h : DataHeader) (rest : Bytes) :
    (attachTick tick now (h.bytes ++ rest)).2 = (tick.stamp now h).bytes ++ rest := by
  have hflags : getU8 (h.bytes ++ rest) 1 = h.flags := rfl
  unfold attachTick TickState.stamp
  split
  · rfl
  · dsimp only
    rw [putU8_flags, putEchoTick_bytes, hflags]
    split <;> rfl

theorem attachTick_tick (tick : TickState) (now : UInt64) (buf : Bytes) :
    (attachTick tick now buf).1 = { tick with pending := false } := by
  unfold attachTick
  split
  · rename_i hpending
    rw [Bool.not_eq_true'] at hpending
    rw [← hpending]
  · rfl

theorem attachTick_isData (tick : TickState) (now : UInt64) {payload : Bytes} {size : Nat}
    (h : IsData prim cfg seq payload (buf.take size)) :
    IsData prim cfg seq payload ((attachTick tick now buf).2.take size) := by
  obtain ⟨hdr, hsession, hseq, hplen, hcrc, hd⟩ := h
  have hsize : (hdr.bytes ++ body prim cfg seq payload).length ≤ size := by
    rw [← hd, List.length_take]
    omega
  have hbuf : buf = hdr.bytes ++ (body prim cfg seq payload ++ buf.drop size) := by
    rw [← List.append_assoc, ← hd, List.take_append_drop]
  obtain ⟨flags, echo, -, hstamp⟩ := tick.stamp_eq now hdr
  have htick := attachTick_bytes tick now hdr (body prim cfg seq payload ++ buf.drop size)
  rw [← hbuf, hstamp] at htick
  refine ⟨{ hdr with flags := flags, echoTick := echo }, hsession, hseq, hplen, hcrc, ?_⟩
  rw [htick, ← List.append_assoc]
  -- the PDU ends where it did before
  rcases Nat.lt_or_ge buf.length size with hshort | hlong
  · rw [List.drop_eq_nil_of_le (by omega), List.append_nil, List.take_of_length_le]
    simpa using hsize
  · rw [List.take_left']
    have := congrArg List.length hd
    simp only [List.length_append, List.length_take, DataHeader.bytes_length] at this ⊢
    omega

theorem attachTick_length (tick : TickState) (now : UInt64) (hbuf : dataHeaderSize ≤ buf.length) :
    (attachTick tick now buf).2.length = buf.length := by
  unfold attachTick
  split
  · rfl
  · have h1 : ∀ v, (putU8 buf 1 v).length = buf.length :=
      fun v => overwrite_length (by simp [dataHeaderSize] at *; omega)
    dsimp only [putEchoTick, putU64]
    rw [overwrite_length, h1]
    rw [h1]
    simp [dataHeaderSize] at *
    omega

theorem one_lt_i64 : (1 : Int) < 2 ^ 63 := by decide

theorem neg_i64_le_one : (-2 ^ 63 : Int) ≤ 1 := by decide

theorem finPdu_eq : finPdu cfg = finBytes cfg.session cfg.totalBlocks := by
  have h := encodeFin_eq (List.replicate 16 0) cfg.session cfg.totalBlocks
  have hn : (encodeFin (List.replicate 16 0) cfg.session cfg.totalBlocks).2 = 16 := rfl
  simp only [finPdu, h, hn]
  rw [List.take_left' (finBytes_length _ _)]

end Sender

end Girth
