import Girth.Lib.Checked
import Girth.Receiver.Outcome

/-!
# Datagrams cannot make the receiver fault

The decoders and `handle_packet` once more, with every index, every slice and every multiplication
checked (`Lib.Checked`): whatever bytes arrive, the checked translation gives what the model gives.
The lengths tested first make every later access fall inside the datagram; the sequence number tested
against the number of blocks makes the bitmap index and the position of the block fall inside theirs.
-/

namespace Girth

open Lib

variable {prim : Primitives} {cfg : RecvConfig}

/-! ## The decoders -/

def u16At (b : Bytes) (off : Nat) : Checked UInt16 := UInt16.ofNat <$> fieldAt b off 2
def u32At (b : Bytes) (off : Nat) : Checked UInt32 := UInt32.ofNat <$> fieldAt b off 4
def u64At (b : Bytes) (off : Nat) : Checked UInt64 := UInt64.ofNat <$> fieldAt b off 8

def pduTypeChecked (buf : Bytes) : Checked UInt8 := if buf.isEmpty then pure 0 else indexOf buf 0

def decodeStartChecked (buf : Bytes) : Checked (Option UInt32) :=
  if buf.length < 8 then pure none
  else do
    let type ← indexOf buf 0
    if type ≠ pduStart then pure none
    else do
      let session ← u32At buf 4
      pure (some session)

def decodeFinChecked (buf : Bytes) : Checked (Option (UInt32 × UInt64)) :=
  if buf.length < 16 then pure none
  else do
    let type ← indexOf buf 0
    if type ≠ pduFin then pure none
    else do
      let session ← u32At buf 4
      let total ← u64At buf 8
      pure (some (session, total))

def decodeDataHeaderChecked (buf : Bytes) : Checked (Option DataHeader) :=
  if buf.length < dataHeaderSize then pure none
  else do
    let type ← indexOf buf 0
    if type ≠ pduData then pure none
    else do
      let flags ← indexOf buf 1
      let payloadLen ← u16At buf 2
      let session ← u32At buf 4
      let blockSeq ← u64At buf 8
      let echoTick ← u64At buf 16
      let rexIndex ← u64At buf 24
      let payloadCrc ← u32At buf 32
      pure (some
        { flags := flags
          payloadLen := payloadLen
          session := session
          blockSeq := blockSeq
          echoTick := echoTick
          rexIndex := rexIndex.toInt64
          payloadCrc := payloadCrc })

/-- The loop over the NACK entries. -/
def decodeNacksChecked (buf : Bytes) : Nat → Nat → Checked (List NackEntry)
  | _, 0 => pure []
  | off, n + 1 => do
    let blockSeq ← u64At buf off
    let rexIndex ← u64At buf (off + 8)
    let nacks ← decodeNacksChecked buf (off + nackEntrySize) n
    pure ({ blockSeq := blockSeq, rexIndex := rexIndex.toInt64 } :: nacks)

def decodeFeedbackChecked (buf : Bytes) : Checked (Option (FeedbackHeader × List NackEntry)) :=
  if buf.length < feedbackHeaderSize then pure none
  else do
    let type ← indexOf buf 0
    if type ≠ pduFeedback then pure none
    else do
      let flags ← indexOf buf 1
      let nackCount ← u16At buf 2
      let session ← u32At buf 4
      let tick ← u64At buf 8
      let targetRate ← u64At buf 16
      let hiContig ← u64At buf 24
      let done ← indexOf buf 32
      let entries ← fitU64 (nackCount.toNat * nackEntrySize)
      let need ← fitU64 (feedbackHeaderSize + entries)
      if buf.length < need then pure none
      else do
        let nacks ← decodeNacksChecked buf feedbackHeaderSize nackCount.toNat
        pure (some (
          { tickIsNetwork := flags &&& flagTickN != 0
            nackCount := UInt16.ofNat nacks.length
            session := session
            tick := tick
            targetRate := targetRate
            hiContig := hiContig
            done := done == 1 }, nacks))

section decoders

variable {buf : Bytes} {off : Nat} {β : Type}

theorem u8At_bind {g : UInt8 → Checked β} (h : off < buf.length) :
    (indexOf buf off >>= g) = g (getU8 buf off) := indexOf_bind h 0

theorem u16At_bind {g : UInt16 → Checked β} (h : off + 2 ≤ buf.length) :
    (u16At buf off >>= g) = g (getU16 buf off) := by
  rw [u16At, fieldAt_eq h]
  rfl

theorem u32At_bind {g : UInt32 → Checked β} (h : off + 4 ≤ buf.length) :
    (u32At buf off >>= g) = g (getU32 buf off) := by
  rw [u32At, fieldAt_eq h]
  rfl

theorem u64At_bind {g : UInt64 → Checked β} (h : off + 8 ≤ buf.length) :
    (u64At buf off >>= g) = g (getU64 buf off) := by
  rw [u64At, fieldAt_eq h]
  rfl

theorem pduTypeChecked_eq (buf : Bytes) : pduTypeChecked buf = .ok (pduType buf) := by
  unfold pduTypeChecked pduType
  split
  · rfl
  · rename_i hne
    exact indexOf_eq (List.length_pos_iff.mpr fun h => hne (List.isEmpty_iff.mpr h)) 0

theorem decodeStartChecked_eq (buf : Bytes) : decodeStartChecked buf = .ok (decodeStart buf) := by
  unfold decodeStartChecked decodeStart
  by_cases hlen : buf.length < 8
  · rw [if_pos hlen, if_pos (.inl hlen)]
    rfl
  · rw [if_neg hlen, u8At_bind (by omega)]
    by_cases htype : getU8 buf 0 ≠ pduStart
    · rw [if_pos htype, if_pos (.inr htype)]
      rfl
    · rw [if_neg htype, if_neg (not_or.mpr ⟨hlen, htype⟩), u32At_bind (by omega)]
      rfl

theorem decodeFinChecked_eq (buf : Bytes) : decodeFinChecked buf = .ok (decodeFin buf) := by
  unfold decodeFinChecked decodeFin
  by_cases hlen : buf.length < 16
  · rw [if_pos hlen, if_pos (.inl hlen)]
    rfl
  · rw [if_neg hlen, u8At_bind (by omega)]
    by_cases htype : getU8 buf 0 ≠ pduFin
    · rw [if_pos htype, if_pos (.inr htype)]
      rfl
    · rw [if_neg htype, if_neg (not_or.mpr ⟨hlen, htype⟩), u32At_bind (by omega),
        u64At_bind (by omega)]
      rfl

theorem decodeDataHeaderChecked_eq (buf : Bytes) :
    decodeDataHeaderChecked buf = .ok (decodeDataHeader buf) := by
  unfold decodeDataHeaderChecked decodeDataHeader
  by_cases hlen : buf.length < dataHeaderSize
  · rw [if_pos hlen, if_pos (.inl hlen)]
    rfl
  · have h36 : 36 ≤ buf.length := not_lt.mp hlen
    rw [if_neg hlen, u8At_bind (by omega)]
    by_cases htype : getU8 buf 0 ≠ pduData
    · rw [if_pos htype, if_pos (.inr htype)]
      rfl
    · rw [if_neg htype, if_neg (not_or.mpr ⟨hlen, htype⟩), u8At_bind (by omega),
        u16At_bind (by omega), u32At_bind (by omega), u64At_bind (by omega), u64At_bind (by omega),
        u64At_bind (by omega), u32At_bind (by omega)]
      rfl

theorem decodeNacksChecked_eq {n : Nat} (h : off + n * nackEntrySize ≤ buf.length) :
    decodeNacksChecked buf off n = .ok (decodeNacks buf off n) := by
  induction n generalizing off with
  | zero => rfl
  | succ n ih =>
    have hsize : nackEntrySize = 16 := rfl
    rw [Nat.succ_mul] at h
    rw [decodeNacksChecked, u64At_bind (by omega), u64At_bind (by omega), ih (by omega)]
    rfl

theorem decodeFeedbackChecked_eq (buf : Bytes) :
    decodeFeedbackChecked buf = .ok (decodeFeedback buf) := by
  unfold decodeFeedbackChecked decodeFeedback
  by_cases hlen : buf.length < feedbackHeaderSize
  · rw [if_pos hlen, if_pos (.inl hlen)]
    rfl
  · have h36 : 36 ≤ buf.length := not_lt.mp hlen
    have hcount : (getU16 buf 2).toNat < 65536 := (getU16 buf 2).toNat_lt
    have hentries : (getU16 buf 2).toNat * nackEntrySize ≤ 65535 * 16 :=
      Nat.mul_le_mul (by omega) le_rfl
    have hhdr : feedbackHeaderSize = 36 := rfl
    rw [if_neg hlen, u8At_bind (by omega)]
    by_cases htype : getU8 buf 0 ≠ pduFeedback
    · rw [if_pos htype, if_pos (.inr htype)]
      rfl
    · rw [if_neg htype, if_neg (not_or.mpr ⟨hlen, htype⟩), u8At_bind (by omega),
        u16At_bind (by omega), u32At_bind (by omega), u64At_bind (by omega), u64At_bind (by omega),
        u64At_bind (by omega), u8At_bind (by omega), fitU64_bind (by omega) (by omega),
        fitU64_bind (by omega) (by omega)]
      dsimp only
      by_cases hneed : buf.length < feedbackHeaderSize + (getU16 buf 2).toNat * nackEntrySize
      · rw [if_pos (by omega), if_pos hneed]
        rfl
      · rw [if_neg (by omega), if_neg hneed, decodeNacksChecked_eq (by omega)]
        rfl

end decoders

/-! ## `handle_packet` up to its first access to shared state -/

def openDataChecked (a : Aead) (box : AeadBox) (payload : Bytes) (plen : Nat) (seq : UInt64) :
    Checked (Option (Bytes × Nat)) := do
  let ctLen ← fitU64 (plen + aeadTagLen)
  if ctLen > payload.length then pure none
  else do
    let sealed ← sliceOf payload 0 ctLen.toNat
    let ct ← sliceOf sealed 0 plen
    let tag ← sliceOf sealed plen sealed.length
    -- the nonce and the tag are taken as arrays of fixed length
    if (blockNonce seq).length ≠ aeadNonceLen ∨ tag.length ≠ aeadTagLen then throw .slice
    else pure ((a.decrypt box (blockNonce seq) ct tag).map fun pt => (overwrite payload 0 pt, plen))

namespace RecvConfig

variable (prim : Primitives) (cfg : RecvConfig)

def openPayloadChecked (pkt : Bytes) (h : DataHeader)
    (seq_lt : h.blockSeq.toNat < cfg.totalBlocks) : Checked (Verdict cfg.totalBlocks) :=
  let plen := h.payloadLen.toNat
  match cfg.crypto with
  | some box => do
    let body ← sliceOf pkt dataHeaderSize pkt.length
    match ← openDataChecked prim.aead box body plen h.blockSeq with
    | some (opened, n) => do
      -- decryption is in place
      let payload ← sliceOf (pkt.take dataHeaderSize ++ opened) dataHeaderSize (dataHeaderSize + n)
      pure (.data ⟨h, seq_lt, payload⟩)
    | none => pure .corrupt
  | none => do
    let stop ← fitU64 (dataHeaderSize + plen)
    if stop > pkt.length then pure .ignore
    else do
      let body ← sliceOf pkt dataHeaderSize stop.toNat
      if prim.crc32c body ≠ h.payloadCrc then pure .corrupt
      else do
        let payload ← sliceOf pkt dataHeaderSize stop.toNat
        pure (.data ⟨h, seq_lt, payload⟩)

def classifyDataChecked (pkt : Bytes) (addr : Option SocketAddr) (h : DataHeader) :
    Checked (Verdict cfg.totalBlocks) :=
  if h.session ≠ cfg.session then pure .ignore
  else if seq_lt : h.blockSeq.toNat < cfg.totalBlocks then
    if h.payloadLen.toNat > cfg.blockSize then pure .ignore
    else if cfg.foreign addr then pure .ignore
    else cfg.openPayloadChecked prim pkt h seq_lt
  else pure .ignore

def classifyChecked (pkt : Bytes) (addr : Option SocketAddr) : Checked (Verdict cfg.totalBlocks) := do
  let type ← pduTypeChecked pkt
  if type = pduFin then do
    match ← decodeFinChecked pkt with
    | some (session, total) =>
      if session ≠ cfg.session ∨ total.toNat ≠ cfg.totalBlocks then pure .ignore else pure .fin
    | none => pure .ignore
  else if type = pduData then do
    match ← decodeDataHeaderChecked pkt with
    | some h => cfg.classifyDataChecked prim pkt addr h
    | none => pure .ignore
  else pure .ignore

end RecvConfig

theorem openDataChecked_eq {a : Aead} {box : AeadBox} {payload : Bytes} {plen : Nat} {seq : UInt64}
    (hplen : plen < 65536) :
    openDataChecked a box payload plen seq = .ok (openData a box payload plen seq) := by
  have htag : aeadTagLen = 16 := rfl
  have hnonce : (blockNonce seq).length = aeadNonceLen := by rw [blockNonce_eq]; rfl
  unfold openDataChecked openData
  rw [fitU64_bind (by omega) (by omega)]
  by_cases hlen : plen + aeadTagLen > payload.length
  · rw [if_pos (by omega), if_pos hlen]
    rfl
  · have hct : ((plen : Int) + aeadTagLen).toNat = plen + aeadTagLen := by omega
    have hsealed : slice payload 0 (plen + aeadTagLen) = payload.take (plen + aeadTagLen) := rfl
    have hslen : (payload.take (plen + aeadTagLen)).length = plen + aeadTagLen := by
      rw [List.length_take]
      omega
    rw [if_neg (by omega), if_neg hlen, hct, sliceOf_bind (by omega) (by omega), Nat.sub_zero, hsealed]
    rw [sliceOf_bind (by omega) (by omega), sliceOf_bind (by omega) le_rfl, hslen, Nat.sub_zero,
      Nat.add_sub_cancel_left, slice_take (by omega), slice_take (by omega)]
    rw [if_neg (not_or.mpr ⟨not_not.mpr hnonce, not_not.mpr (slice_length_of_le (by omega))⟩)]
    rfl

namespace RecvConfig

variable {pkt : Bytes} {addr : Option SocketAddr}

theorem openPayloadChecked_eq {h : DataHeader} {seq_lt : h.blockSeq.toNat < cfg.totalBlocks}
    (hlen : dataHeaderSize ≤ pkt.length) :
    cfg.openPayloadChecked prim pkt h seq_lt = .ok (cfg.openPayload prim pkt h seq_lt) := by
  have hplen : h.payloadLen.toNat < 65536 := h.payloadLen.toNat_lt
  have hhdr : dataHeaderSize = 36 := rfl
  unfold openPayloadChecked openPayload
  dsimp only
  cases hcrypto : cfg.crypto with
  | some box =>
    have hbody : slice pkt dataHeaderSize (pkt.length - dataHeaderSize) = pkt.drop dataHeaderSize :=
      List.take_of_length_le (by rw [List.length_drop])
    dsimp only
    rw [sliceOf_bind hlen le_rfl, hbody, openDataChecked_eq hplen]
    cases hopen : openData prim.aead box (pkt.drop dataHeaderSize) h.payloadLen.toNat h.blockSeq with
    | none => rfl
    | some r =>
      obtain ⟨opened, n⟩ := r
      obtain ⟨rfl, hle, hopened⟩ := openData_length hopen
      have hpre : (pkt.take dataHeaderSize).length = dataHeaderSize := by
        rw [List.length_take]
        omega
      have hslice : slice (pkt.take dataHeaderSize ++ opened) dataHeaderSize h.payloadLen.toNat =
          opened.take h.payloadLen.toNat := by
        rw [slice, List.drop_left' hpre]
      show (sliceOf _ _ _ >>= _) = _
      rw [sliceOf_bind (by omega) (by rw [List.length_append, hpre, hopened]; omega),
        Nat.add_sub_cancel_left, hslice]
      rfl
  | none =>
    have hstop : ((dataHeaderSize : Int) + h.payloadLen.toNat).toNat =
        dataHeaderSize + h.payloadLen.toNat := by omega
    dsimp only
    rw [fitU64_bind (by omega) (by omega)]
    by_cases hshort : dataHeaderSize + h.payloadLen.toNat > pkt.length
    · rw [if_pos (by omega), if_pos hshort]
      rfl
    · rw [if_neg (by omega), if_neg hshort, hstop, sliceOf_bind (by omega) (by omega),
        Nat.add_sub_cancel_left]
      by_cases hcrc : prim.crc32c (slice pkt dataHeaderSize h.payloadLen.toNat) ≠ h.payloadCrc
      · rw [if_pos hcrc, if_pos hcrc]
        rfl
      · rw [if_neg hcrc, if_neg hcrc, sliceOf_bind (by omega) (by omega), Nat.add_sub_cancel_left]
        rfl

theorem classifyChecked_eq (pkt : Bytes) (addr : Option SocketAddr) :
    cfg.classifyChecked prim pkt addr = .ok (cfg.classify prim pkt addr) := by
  unfold classifyChecked classify
  rw [pduTypeChecked_eq, decodeFinChecked_eq, decodeDataHeaderChecked_eq]
  show (if pduType pkt = pduFin then _ else _) = _
  by_cases hfin : pduType pkt = pduFin
  · rw [if_pos hfin, if_pos hfin]
    cases decodeFin pkt with
    | none => rfl
    | some r =>
      show (if _ then _ else _) = Except.ok (if _ then _ else _)
      split <;> rfl
  · rw [if_neg hfin, if_neg hfin]
    by_cases hdata : pduType pkt = pduData
    · rw [if_pos hdata, if_pos hdata]
      cases hdec : decodeDataHeader pkt with
      | none => rfl
      | some h =>
        have hlen : dataHeaderSize ≤ pkt.length := by
          by_contra hshort
          rw [decodeDataHeader, if_pos (.inl (not_le.mp hshort))] at hdec
          cases hdec
        show cfg.classifyDataChecked prim pkt addr h = .ok (cfg.classifyData prim pkt addr h)
        unfold classifyDataChecked classifyData
        split
        · rfl
        · split
          · split
            · rfl
            · split
              · rfl
              · exact openPayloadChecked_eq hlen
          · rfl
    · rw [if_neg hdata, if_neg hdata]
      rfl

end RecvConfig

/-! ## Every access of an ingest worker -/

namespace RecvBitmap

variable {total : Nat}

/-- `set_and_test`, checked: the word must exist, and the shift must be smaller than a word. -/
def setAndTestChecked (bm : RecvBitmap total) (seq : Nat) : Checked (RecvBitmap total × Bool) := do
  let prev ← indexOf bm.words (seq >>> 6)
  let shift ← fit 0 64 (seq &&& 63 : Nat)
  let mask : BitVec 64 := 1#64 <<< shift.toNat
  pure (⟨bm.words.set (seq >>> 6) (prev ||| mask), by rw [List.length_set, bm.words_length]⟩,
    prev &&& mask == 0)

theorem setAndTestChecked_eq {bm : RecvBitmap total} {seq : Nat} (h : seq < total) :
    bm.setAndTestChecked seq = .ok (bm.setAndTest seq) := by
  have hword : seq >>> 6 < bm.words.length := by
    rw [word_eq, bm.words_length]
    omega
  have hshift : seq &&& 63 < 64 := by
    rw [show seq &&& 63 = seq % 64 from Nat.and_two_pow_sub_one_eq_mod seq 6]
    omega
  rw [setAndTestChecked, indexOf_bind hword 0, fit_eq (by omega) (by omega)]
  rfl

end RecvBitmap

namespace Sink

/-- A successful `write_all_at`, checked. A memory sink grows if it has to and copies into a slice of
the length of `buf`; a file is written by the operating system. -/
def writeAllAtChecked (s : Sink) (off : Nat) (buf : Bytes) : Checked Sink :=
  match s.kind with
  | .mem => do
    let grown := s.contents ++ List.replicate (off + buf.length - s.contents.length) 0
    let dest ← sliceOf grown off (off + buf.length)
    if dest.length ≠ buf.length then throw .slice
    else pure { s with contents := overwrite grown off buf }
  | .file => pure (s.writeAllAt off buf)

theorem writeAllAtChecked_eq (s : Sink) (off : Nat) (buf : Bytes) :
    s.writeAllAtChecked off buf = .ok (s.writeAllAt off buf) := by
  unfold writeAllAtChecked writeAllAt
  cases s.kind with
  | file => rfl
  | mem =>
    have hgrown : off + buf.length ≤
        (s.contents ++ List.replicate (off + buf.length - s.contents.length) 0).length := by
      rw [List.length_append, List.length_replicate]
      omega
    have hdest := slice_length_of_le hgrown
    dsimp only
    rw [sliceOf_bind (by omega) hgrown, Nat.add_sub_cancel_left, if_neg (not_not.mpr hdest)]
    rfl

end Sink

namespace Receiver

/-- A step of a worker for the packet it holds, checked. -/
def dataStepChecked (cfg : RecvConfig) (sh : Shared cfg.totalBlocks) (pkt : DataPkt cfg.totalBlocks)
    (rest : List Datagram) (env : Env) :
    DataPc → Checked (Shared cfg.totalBlocks × IngestPc cfg.totalBlocks)
  | .setBm => do
    let (bm, first) ← sh.bm.setAndTestChecked pkt.seq
    let sh := { sh with bm := bm }
    if first then pure (sh, .data .count pkt rest)
    else pure ({ sh with stats := { sh.stats with dupRecv := sh.stats.dupRecv + 1 } }, .batch rest)
  | .direct => do
    let off ← fitU64 (pkt.seq * cfg.blockSize)
    match env.io with
    | .ok => do
      let sink ← sh.sink.writeAllAtChecked off.toNat pkt.payload
      let trace := .write .direct pkt.seq pkt.payload .ok :: sh.trace
      pure ({ sh with sink := sink, trace := trace }, .data (.ready .direct) pkt rest)
    | .err _ => pure (dataStep cfg sh pkt rest env .direct)
  | .ready _ => do
    let (readyBm, _) ← sh.readyBm.setAndTestChecked pkt.seq
    pure ({ sh with readyBm := readyBm }, .data .signal pkt rest)
  | pc => pure (dataStep cfg sh pkt rest env pc)

/-- A step of an ingest worker, checked. -/
def ingestStepChecked (prim : Primitives) (cfg : RecvConfig) (sh : Shared cfg.totalBlocks) (env : Env) :
    IngestPc cfg.totalBlocks →
      Checked (Option (Shared cfg.totalBlocks × IngestPc cfg.totalBlocks))
  | .batch (m :: rest) =>
    if m.data.isEmpty then pure (some (sh, .batch rest))
    else do
      let stats := { sh.stats with
        packetsRecv := sh.stats.packetsRecv + 1
        bytesRecv := sh.stats.bytesRecv + m.data.length }
      match ← cfg.classifyChecked prim m.data m.addr with
      | .ignore => pure (some ({ sh with stats := stats }, .batch rest))
      | .corrupt =>
        pure (some ({ sh with stats := { stats with corruptRecv := stats.corruptRecv + 1 } },
          .batch rest))
      | .fin => pure (some ({ sh with stats := stats }, .finLearn m.addr rest))
      | .data pkt => pure (some ({ sh with stats := stats }, .data (.learn m.addr) pkt rest))
  | .data pc pkt rest => do
    let next ← dataStepChecked cfg sh pkt rest env pc
    pure (some next)
  | pc => pure (ingestStep prim cfg sh env pc)

theorem position_lt (pkt : DataPkt cfg.totalBlocks) : pkt.seq * cfg.blockSize < 2 ^ 63 := by
  have hseq : pkt.seq < numBlocks cfg.fileSize cfg.blockSize := cfg.total_eq ▸ pkt.seq_lt
  have hin := (lt_numBlocks_iff cfg.blockSize_pos).mp hseq
  have hfs := cfg.fileSize_lt
  omega

theorem dataStepChecked_eq (sh : Shared cfg.totalBlocks) (pkt : DataPkt cfg.totalBlocks)
    (rest : List Datagram) (env : Env) (pc : DataPc) :
    dataStepChecked cfg sh pkt rest env pc = .ok (dataStep cfg sh pkt rest env pc) := by
  have hseq : pkt.seq < cfg.totalBlocks := pkt.seq_lt
  cases pc with
  | setBm =>
    rw [dataStepChecked, RecvBitmap.setAndTestChecked_eq hseq]
    simp only [dataStep]
    show (if _ then _ else _) = Except.ok (if _ then _ else _)
    split <;> rfl
  | direct =>
    have hpos := position_lt pkt
    have hmul : ((pkt.seq : Int) * cfg.blockSize) = (pkt.seq * cfg.blockSize : Nat) :=
      (Int.natCast_mul _ _).symm
    rw [dataStepChecked, hmul, fitU64_bind (by omega) (by omega), Int.toNat_natCast]
    cases hio : env.io with
    | ok =>
      dsimp only
      rw [Sink.writeAllAtChecked_eq]
      simp only [dataStep, hio]
      rfl
    | err written => rfl
  | ready path =>
    rw [dataStepChecked, RecvBitmap.setAndTestChecked_eq hseq]
    rfl
  | _ => rfl

theorem ingestStepChecked_eq (sh : Shared cfg.totalBlocks) (env : Env)
    (pc : IngestPc cfg.totalBlocks) :
    ingestStepChecked prim cfg sh env pc = .ok (ingestStep prim cfg sh env pc) := by
  cases pc with
  | data dpc pkt rest =>
    rw [ingestStepChecked, dataStepChecked_eq]
    rfl
  | batch msgs =>
    cases msgs with
    | nil => rfl
    | cons m rest =>
      simp only [ingestStepChecked, ingestStep, RecvConfig.classifyChecked_eq]
      split
      · rfl
      · cases cfg.classify prim m.data m.addr <;> rfl
  | _ => rfl

/-- **No datagram makes the receiver fault.** Whatever arrives from whatever address, in every state
of every run, every index, slice and multiplication of `handle_packet` is in range: the checked
translation does not fault, and does what the model does. Nor do the decoders of FEEDBACK and START
fault on any byte string. -/
theorem datagrams_never_fault :
    (∀ (prim : Primitives) (cfg : RecvConfig) (n : Nat) (s t : State cfg n) (as : List (Action n))
      (sink : Sink), newReceiver cfg n sink = some s → Steps (step prim) Any s as t →
        ∀ i env, ingestStepChecked prim cfg t.sh env (t.workers i) =
          .ok (ingestStep prim cfg t.sh env (t.workers i))) ∧
    (∀ (prim : Primitives) (cfg : RecvConfig) (pkt : Bytes) (addr : Option SocketAddr),
      cfg.classifyChecked prim pkt addr = .ok (cfg.classify prim pkt addr)) ∧
    (∀ buf, decodeFeedbackChecked buf = .ok (decodeFeedback buf)) ∧
    ∀ buf, decodeStartChecked buf = .ok (decodeStart buf) := by
  refine ⟨?_, ?_, decodeFeedbackChecked_eq, decodeStartChecked_eq⟩
  · intro prim cfg n s t as sink _ _ i env
    exact ingestStepChecked_eq t.sh env (t.workers i)
  · intro prim cfg pkt addr
    exact RecvConfig.classifyChecked_eq pkt addr

/-- A DATA PDU that is cut off in its header, and one whose header promises more than there is. -/
def cutOffBatch : List Datagram :=
  [fromPeer (oneBlockHeader.bytes.take 20), fromPeer oneBlockHeader.bytes]

theorem datagrams_never_fault_cutOff : ∃ s t, newReceiver oneBlock 1 zeroByte = some s ∧
    Steps (step oneBlockPrims) Any s [idle, deliver cutOffBatch, idle] t ∧
    ingestStepChecked oneBlockPrims oneBlock t.sh {} (t.workers 0) =
      .ok (ingestStep oneBlockPrims oneBlock t.sh {} (t.workers 0)) ∧
    (ingestStep oneBlockPrims oneBlock t.sh {} (t.workers 0)).map (fun r => r.1.stats.packetsRecv) =
      some 2 := by
  obtain ⟨s, t, hnew, hrun, hQ⟩ := exists_run oneBlockPrims zeroByte [idle, deliver cutOffBatch, idle]
    Any (fun t : State oneBlock 1 => decide ((ingestStep oneBlockPrims oneBlock t.sh {}
      (t.workers 0)).map (fun r => r.1.stats.packetsRecv) = some 2)) (by decide +kernel)
  exact ⟨s, t, hnew, hrun, datagrams_never_fault.1 _ _ _ _ _ _ _ hnew hrun 0 {},
    of_decide_eq_true hQ⟩

end Receiver

end Girth
