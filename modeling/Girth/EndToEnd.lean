import Girth.Receiver.Payload
import Girth.Sender.Wire

/-!
# End to end

A sender and a receiver of one transfer, with a network between them that drops, duplicates and
reorders what the sender sends. `Transfer` says what the two ends have agreed on and that the source
serves the bytes `data`.

For a block of the object the sender's wrapping arithmetic does not wrap (`off_eq`, `plen_eq`), so the
bytes it reads are tile `seq` of `data` (`blockOf_eq`). A PDU with these bytes that the receiver
accepts gives it that tile (`payload_of_wire`), in cleartext and through the cipher. Then
`end_to_end`: once every write has succeeded and the frontier is at the end, the sink holds `data`.
-/

namespace Girth

open Lib Receiver

/-- The two ends of one transfer of `data`. -/
structure Transfer (scfg : SendConfig) (rcfg : RecvConfig) (data : Bytes) : Prop where
  session : scfg.session = rcfg.session
  blockSize : scfg.blockSize = rcfg.blockSize
  blockSize_le : rcfg.blockSize ≤ 65455
  fileSize : scfg.fileSize = rcfg.fileSize
  total : scfg.totalBlocks.toNat = rcfg.totalBlocks
  crypto : scfg.crypto = rcfg.crypto
  length : (data.length : Int) = rcfg.fileSize
  serves : ∀ off n bytes, scfg.source.readExactAt off n = some bytes → bytes = slice data off n

variable {prim : Primitives} {scfg : SendConfig} {rcfg : RecvConfig} {data : Bytes} {n : Nat}

namespace Transfer

theorem toNat_fileSize (h : Transfer scfg rcfg data) : rcfg.fileSize.toNat = data.length := by
  have hlen := h.length
  omega

theorem block_bound {seq : UInt64} (hseq : seq.toNat < rcfg.totalBlocks) :
    seq.toNat * rcfg.blockSize < rcfg.fileSize.toNat ∧ rcfg.fileSize.toNat < 2 ^ 63 := by
  have hlt := rcfg.fileSize_lt
  exact ⟨block_start_lt hseq, by omega⟩

theorem off_eq (h : Transfer scfg rcfg data) {seq : UInt64} (hseq : seq.toNat < rcfg.totalBlocks) :
    (Sender.off scfg seq).toNat = seq.toNat * rcfg.blockSize := by
  obtain ⟨hstart, hsize⟩ := block_bound hseq
  rw [← h.blockSize] at hstart ⊢
  exact Sender.off_toNat (by omega)

theorem plen_eq (h : Transfer scfg rcfg data) {seq : UInt64} (hseq : seq.toNat < rcfg.totalBlocks) :
    Sender.plen scfg seq = rcfg.blockLen seq.toNat := by
  have hstart := (block_bound hseq).1
  rw [← h.blockSize, ← h.fileSize] at hstart
  rw [Sender.plen_of_lt hstart, h.blockSize, h.fileSize]
  rfl

theorem blockOf_eq (h : Transfer scfg rcfg data) {seq : UInt64}
    (hseq : seq.toNat < rcfg.totalBlocks) {payload : Bytes}
    (hread : Sender.blockOf scfg seq = some payload) :
    payload = tile data rcfg.blockSize seq.toNat := by
  have hslice := h.serves _ _ _ hread
  rw [h.off_eq hseq, h.plen_eq hseq, RecvConfig.blockLen, h.toNat_fileSize] at hslice
  exact hslice

theorem tile_length_eq (h : Transfer scfg rcfg data) (seq : Nat) :
    (tile data rcfg.blockSize seq).length = rcfg.blockLen seq := by
  rw [tile_length, ← h.toNat_fileSize]
  rfl

end Transfer

/-! ## What the receiver makes of a PDU -/

theorem length_of_isData {seq : UInt64} {payload d : Bytes}
    (h : Sender.IsData prim scfg seq payload d) :
    d.length ≤ dataHeaderSize + payload.length + aeadTagLen := by
  obtain ⟨hdr, -, -, -, -, rfl⟩ := h
  rw [List.length_append, hdr.bytes_length, Sender.body]
  cases scfg.crypto with
  | none => dsimp only; omega
  | some box =>
    dsimp only
    rw [List.length_append, prim.aead.encrypt_length, prim.aead.tag_length]
    omega

theorem payload_of_isData (ha : prim.aead.Inverts) (htr : Transfer scfg rcfg data) {seq : UInt64}
    {payload d : Bytes} (hle : payload.length ≤ rcfg.blockSize)
    (hd : Sender.IsData prim scfg seq payload d) {addr : Option SocketAddr}
    {pkt : DataPkt rcfg.totalBlocks} (hp : rcfg.classify prim d addr = .data pkt) :
    pkt.header.blockSeq = seq ∧ pkt.payload = payload := by
  obtain ⟨hdr, hsession, hseq, hplen, hcrc, rfl⟩ := hd
  obtain ⟨hdec, -, -, -, hforeign⟩ := RecvConfig.classify_data hp
  obtain rfl : hdr = pkt.header := Option.some.inj ((decodeDataHeader_bytes hdr _).symm.trans hdec)
  refine ⟨hseq, ?_⟩
  have hplen' : pkt.header.payloadLen.toNat = payload.length := by
    have hbound := htr.blockSize_le
    rw [hplen, UInt16.toNat_ofNat', Nat.mod_eq_of_lt (show payload.length < 2 ^ 16 by omega)]
  rw [htr.session] at hsession
  rw [Sender.body] at hp
  have hcrypto := htr.crypto
  cases hbox : scfg.crypto with
  | none =>
    rw [hbox] at hp hcrypto
    have hclass := RecvConfig.classify_cleartext hcrypto.symm hsession pkt.seq_lt hplen' hle
      (hcrc hbox) hforeign []
    rw [List.append_nil] at hclass
    exact (congrArg DataPkt.payload (Verdict.data.inj (hclass.symm.trans hp))).symm
  | some box =>
    rw [hbox] at hp hcrypto
    have hclass :=
      RecvConfig.classify_sealed ha hcrypto.symm hsession pkt.seq_lt hplen' hle hforeign []
    rw [List.append_nil, hseq] at hclass
    exact (congrArg DataPkt.payload (Verdict.data.inj (hclass.symm.trans hp))).symm

theorem classify_fin_ne_data {session : UInt32} {total : UInt64} {addr : Option SocketAddr}
    {pkt : DataPkt rcfg.totalBlocks} :
    rcfg.classify prim (finBytes session total) addr ≠ .data pkt := by
  intro hp
  obtain ⟨hdec, -⟩ := RecvConfig.classify_data hp
  have htype : getU8 (finBytes session total) 0 ≠ pduData := by
    show pduFin ≠ pduData
    decide
  rw [decodeDataHeader, if_pos (.inr htype)] at hdec
  cases hdec

theorem payload_of_wire (ha : prim.aead.Inverts) (htr : Transfer scfg rcfg data) {d : Bytes}
    (hd : Sender.FromSource prim scfg d ∨ d = Sender.finPdu scfg) {addr : Option SocketAddr}
    {pkt : DataPkt rcfg.totalBlocks} (hp : rcfg.classify prim d addr = .data pkt) :
    pkt.payload = tile data rcfg.blockSize pkt.seq := by
  rcases hd with ⟨seq, payload, hread, hle, hdata⟩ | rfl
  · obtain ⟨hseq, hpay⟩ := payload_of_isData ha htr (htr.blockSize ▸ hle) hdata hp
    subst hseq
    rw [hpay]
    exact htr.blockOf_eq pkt.seq_lt hread
  · rw [Sender.finPdu_eq] at hp
    exact absurd hp classify_fin_ne_data

theorem cut_wire (htr : Transfer scfg rcfg data) {m : Datagram}
    (hd : Sender.FromSource prim scfg m.data ∨ m.data = Sender.finPdu scfg) :
    m.cut rcfg.bufLen = m := by
  have hlen : m.data.length ≤ rcfg.bufLen := by
    have htag : aeadTagLen = 16 := rfl
    have hhdr : dataHeaderSize = 36 := rfl
    rw [RecvConfig.bufLen]
    rcases hd with ⟨seq, payload, -, hle, hdata⟩ | hfin
    · have := length_of_isData hdata
      rw [htr.blockSize] at hle
      omega
    · rw [hfin, Sender.finPdu_eq, finBytes_length]
      omega
  rw [Datagram.cut, List.take_of_length_le hlen]

/-- What the sink holds when the frontier is at the end, if only PDUs of the sender are delivered and
every write succeeds. -/
theorem contents_of_flushed (ha : prim.aead.Inverts) (htr : Transfer scfg rcfg data)
    {sink₀ sink : Sink} {os : AllocOs}
    (halloc : sink₀.allocate os rcfg.fileSize.toNat = (.ok (), sink))
    {s t : State rcfg n} {as : List (Action n)} (hnew : newReceiver rcfg n sink = some s)
    (hrecv : Steps (step prim) (fun s act => Delivers (fun m => Sender.FromSource prim scfg m.data ∨
      m.data = Sender.finPdu scfg) s act ∧ AllWritesOk s act) s as t)
    (hflushed : t.sh.flushedBlocks = rcfg.totalBlocks) : t.sh.sink.contents = data := by
  have hsink : SinkHolds (tile data rcfg.blockSize) t := by
    refine sinkHolds_run (P := fun m => Sender.FromSource prim scfg m.data ∨
      m.data = Sender.finPdu scfg) (fun seq _ => htr.tile_length_eq seq)
      (fun m pkt hm hp => payload_of_wire ha htr hm hp) (fun s act hC m hm => ?_)
      (fun s act hC => hC.2) hnew (Sink.allocate_length halloc) hrecv
    show Sender.FromSource prim scfg (m.cut rcfg.bufLen).data ∨ _
    rw [cut_wire htr (hC.1 m hm)]
    exact hC.1 m hm
  have hlen : t.sh.sink.contents.length = data.length := hsink.length.trans htr.toNat_fileSize
  refine hsink.holds.eq rcfg.blockSize_pos hlen fun seq hseq => ?_
  refine written_of_flushed hnew (hrecv.mono fun _ _ hC => hC.2.2) ?_
  rw [hflushed, rcfg.total_eq]
  rw [hsink.length] at hseq
  exact (lt_numBlocks_iff rcfg.blockSize_pos).mpr hseq

/-- **End-to-end correctness.** Let a sender of `data` make any run, and a receiver any run in which
each datagram delivered is one that the sender put on the wire, in any order, any number of times and
from any address, and in which every sink write succeeds. When the receiver's frontier reaches the end
of the object, its sink holds exactly `data`. -/
theorem end_to_end (ha : prim.aead.Inverts) (htr : Transfer scfg rcfg data)
    {sas : List Sender.Action} {st : Sender.State}
    (hsend : Steps (Sender.step prim scfg) Any (Sender.newSender scfg) sas st)
    {sink₀ sink : Sink} {os : AllocOs}
    (halloc : sink₀.allocate os rcfg.fileSize.toNat = (.ok (), sink))
    {s t : State rcfg n} {as : List (Action n)} (hnew : newReceiver rcfg n sink = some s)
    (hrecv : Steps (step prim)
      (fun s act => Delivers (fun m => m.data ∈ st.sh.wire) s act ∧ AllWritesOk s act) s as t)
    (hflushed : t.sh.flushedBlocks = rcfg.totalBlocks) : t.sh.sink.contents = data := by
  refine contents_of_flushed ha htr halloc hnew (hrecv.mono fun s act hC => ⟨fun m hm => ?_, hC.2⟩)
    hflushed
  exact Sender.wire_run hsend (hC.1 m hm)

/-! ### One byte, from the source to the sink -/

def oneBlockSend : SendConfig :=
  { Sender.sealedByte with
    blockSize := 256
    crypto := none
    blockSize_lt := by decide }

/-- The block is read, published and sent, then the FIN. -/
def oneBlockSendActs : List Sender.Action :=
  List.replicate 5 (.prefetch {}) ++ List.replicate 14 (.pacer {})

theorem oneBlock_transfer : Transfer oneBlockSend oneBlock [7] where
  session := rfl
  blockSize := rfl
  blockSize_le := by decide
  fileSize := rfl
  total := rfl
  crypto := rfl
  length := rfl
  serves _ _ _ := memSource_read

/-! ### Three bytes in two sealed blocks -/

/-- Both blocks are read, sealed, published and sent, then the FIN. -/
def threeBytesActs : List Sender.Action :=
  List.replicate 9 (.prefetch {}) ++ List.replicate 18 (.pacer {})

def sealedBlocks : RecvConfig := { twoBlocks with crypto := Sender.threeBytes.crypto }

def sealedFirst : Bytes :=
  ({ firstHeader with payloadCrc := 0 } : DataHeader).bytes ++ [152, 15, 114, 211, 12, 228, 248, 232,
    198, 106, 87, 161, 133, 145, 174, 66, 107, 100]

def sealedLast : Bytes :=
  ({ lastHeader with payloadCrc := 0 } : DataHeader).bytes ++ [90, 180, 216, 233, 196, 231, 190, 158,
    236, 183, 239, 79, 208, 248, 143, 28, 249]

theorem threeBytes_transfer : Transfer Sender.threeBytes sealedBlocks [7, 8, 9] where
  session := rfl
  blockSize := rfl
  blockSize_le := by decide
  fileSize := rfl
  total := rfl
  crypto := rfl
  length := rfl
  serves _ _ _ := memSource_read

theorem end_to_end_threeBytes : ∃ st s t,
    Steps (Sender.step Sender.sealedBytePrims Sender.threeBytes) Any
      (Sender.newSender Sender.threeBytes) threeBytesActs st ∧
    newReceiver sealedBlocks 1 zeroBytes = some s ∧
    Steps (step Sender.sealedBytePrims)
      (fun s act => Delivers (fun m => m.data ∈ st.sh.wire) s act ∧ AllWritesOk s act) s
      (twoBlocksActs sealedFirst sealedLast) t ∧
    t.sh.flushedBlocks = 2 ∧ t.sh.sink.contents = [7, 8, 9] := by
  obtain ⟨st, hsend, hwire⟩ := steps_of_exec_check (Sender.step Sender.sealedBytePrims Sender.threeBytes)
    (Sender.newSender Sender.threeBytes) threeBytesActs Any
    (fun st => decide (st.sh.wire = [finBytes 9 2, sealedLast, sealedFirst])) (by decide +kernel)
  have hwire := of_decide_eq_true hwire
  obtain ⟨s, t, hnew, hrun, hQ⟩ := exists_run Sender.sealedBytePrims zeroBytes
    (twoBlocksActs sealedFirst sealedLast)
    (fun s act => Delivers (fun m => m.data ∈ [finBytes 9 2, sealedLast, sealedFirst]) s act ∧
      AllWritesOk s act)
    (fun t : State sealedBlocks 1 => t.sh.flushedBlocks == 2) (by decide +kernel)
  rw [← hwire] at hrun
  have hflushed : t.sh.flushedBlocks = 2 := by simpa using hQ
  have halloc : (⟨.mem, []⟩ : Sink).allocate {} sealedBlocks.fileSize.toNat = (.ok (), zeroBytes) := rfl
  exact ⟨st, s, t, hsend, hnew, hrun, hflushed, end_to_end Sender.zeroKeyAead_inverts
    threeBytes_transfer hsend halloc hnew hrun hflushed⟩

end Girth
