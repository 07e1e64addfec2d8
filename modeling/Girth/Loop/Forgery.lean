import Girth.Codec
import Girth.Loop.Completion

/-!
# An encrypted transfer under attack

The network is an attacker: it reads everything, and it delivers to either end whatever it likes, in
place of what was sent. In encrypted mode a DATA PDU carries a tag, so among the datagrams it can
choose only those that the sender has sealed pass (`Unforged`, the meaning of an authenticated cipher:
no forgery in this run). The header is not covered by the tag. What keeps the attacker from moving a
sealed payload to another block is the nonce, which the receiver computes from the sequence number in
the header.

`forgery_harmless`: under attack the sink still holds, in every block that was written, the bytes of
the object, and all of the object once the frontier is at its end. FEEDBACKs are not sealed; what a
forged one makes the sender do is part of the run.
-/

namespace Girth

open Lib Receiver

/-- If the tag of a datagram verifies under the receiver's key, the sender sealed its payload. -/
def Unforged (prim : Primitives) (cfg : RecvConfig) (seals : List Sender.Seal) (d : Bytes) : Prop :=
  ∀ box ∈ cfg.crypto, ∀ h ∈ decodeDataHeader d,
    (openData prim.aead box (d.drop dataHeaderSize) h.payloadLen.toNat h.blockSeq).isSome = true →
      ∃ e ∈ seals, e.nonce = blockNonce h.blockSeq ∧
        e.ciphertext = slice (d.drop dataHeaderSize) 0 h.payloadLen.toNat ∧
        e.tag = slice (d.drop dataHeaderSize) h.payloadLen.toNat aeadTagLen

instance (prim : Primitives) (cfg : RecvConfig) (seals : List Sender.Seal) (d : Bytes) :
    Decidable (Unforged prim cfg seals d) :=
  inferInstanceAs (Decidable (∀ _ ∈ _, ∀ _ ∈ _, _ → _))

variable {prim : Primitives} {scfg : SendConfig} {rcfg : RecvConfig} {data : Bytes} {n : Nat}

theorem openData_of_classify {box : AeadBox} (hbox : rcfg.crypto = some box) {d : Bytes}
    {addr : Option SocketAddr} {pkt : DataPkt rcfg.totalBlocks}
    (hp : rcfg.classify prim d addr = .data pkt) :
    ∃ out, openData prim.aead box (d.drop dataHeaderSize) pkt.header.payloadLen.toNat
      pkt.header.blockSeq = some (out, pkt.header.payloadLen.toNat) ∧
        pkt.payload = out.take pkt.header.payloadLen.toNat := by
  obtain ⟨hdec, hsession, hlen, hle, hforeign⟩ := RecvConfig.classify_data hp
  obtain ⟨body, rfl⟩ : ∃ body, d = pkt.header.bytes ++ body :=
    ⟨d.drop dataHeaderSize, by rw [bytes_of_decodeDataHeader hdec, List.take_append_drop]⟩
  rw [RecvConfig.classify_header hsession pkt.seq_lt (hlen ▸ hle) hforeign,
    RecvConfig.openPayload] at hp
  simp only [hbox] at hp
  split at hp
  · rename_i out k hopen
    obtain rfl := (openData_length hopen).1
    refine ⟨out, hopen, ?_⟩
    exact (congrArg DataPkt.payload (Verdict.data.inj hp)).symm
  · cases hp

theorem payload_of_unforged (ha : prim.aead.Inverts) (htr : Transfer scfg rcfg data)
    (hsome : rcfg.crypto.isSome = true) {seals : List Sender.Seal}
    (hseals : ∀ e ∈ seals, Sender.SealOk prim scfg e) {d : Bytes}
    (hd : Unforged prim rcfg seals d) {addr : Option SocketAddr} {pkt : DataPkt rcfg.totalBlocks}
    (hp : rcfg.classify prim d addr = .data pkt) :
    pkt.payload = tile data rcfg.blockSize pkt.seq := by
  obtain ⟨box, hbox⟩ := Option.isSome_iff_exists.mp hsome
  obtain ⟨out, hopen, hpayload⟩ := openData_of_classify hbox hp
  obtain ⟨e, he, hnonce, hct, htag⟩ := hd box hbox pkt.header (RecvConfig.classify_data hp).1
    (Option.isSome_iff_exists.mpr ⟨_, hopen⟩)
  obtain ⟨box', seq, payload, hbox', hread, rfl⟩ := hseals e he
  -- the nonce names the block, and both ends have one key
  obtain rfl : seq = pkt.header.blockSeq := blockNonce_injective hnonce
  obtain rfl : box = box' := by
    rw [htr.crypto, hbox] at hbox'
    exact Option.some.inj hbox'
  have hplain : pkt.payload = payload := by
    unfold openData at hopen
    dsimp only at hopen
    split at hopen
    · cases hopen
    · obtain ⟨pt, hpt, hout⟩ := Option.map_eq_some_iff.mp hopen
      rw [← hct, ← htag, Sender.sealOf, ha] at hpt
      obtain ⟨rfl, -⟩ := Prod.mk.inj hout
      cases hpt
      have hlen : payload.length = pkt.header.payloadLen.toNat := by
        have hlen := congrArg List.length hct
        rw [Sender.sealOf, prim.aead.encrypt_length, slice_length] at hlen
        omega
      rw [hpayload, overwrite_zero, ← hlen, List.take_left]
  rw [hplain]
  exact htr.blockOf_eq pkt.seq_lt hread

namespace Loop

/-- The attacker does as it likes, but forges no tag; the receiver's own writes succeed. -/
def Attacked (prim : Primitives) (s : Loop rcfg n) : LoopAct n → Prop
  | .recv act => Receiver.Delivers
      (fun m => Unforged prim rcfg s.send.sh.seals (m.cut rcfg.bufLen).data) s.recv act ∧
      Receiver.AllWritesOk s.recv act
  | .send _ | .wait _ => True

instance (prim : Primitives) (s : Loop rcfg n) : (act : LoopAct n) → Decidable (s.Attacked prim act)
  | .recv _ => inferInstanceAs (Decidable (_ ∧ _))
  | .send _ | .wait _ => .isTrue trivial

/-- **Forging is harmless.** In every run of an encrypted transfer under attack, each block that was
written holds the bytes of the object, and the whole sink does when the frontier is at the end. -/
theorem forgery_harmless (ha : prim.aead.Inverts) (htr : Transfer scfg rcfg data)
    (hsome : rcfg.crypto.isSome = true) {sink₀ sink : Sink} {os : AllocOs}
    (halloc : sink₀.allocate os rcfg.fileSize.toNat = (.ok (), sink))
    {recv : Receiver.State rcfg n} {s : Loop rcfg n} {as : List (LoopAct n)}
    (hnew : newReceiver rcfg n sink = some recv)
    (h : Steps (step prim scfg) (Attacked prim) (start scfg recv) as s) :
    (∀ k, Written s.recv.sh.trace k →
      tile s.recv.sh.sink.contents rcfg.blockSize k = tile data rcfg.blockSize k) ∧
    (s.recv.sh.flushedBlocks = rcfg.totalBlocks → s.recv.sh.sink.contents = data) := by
  -- what the receiver gets is unforged against seals of the sender's blocks, at whatever time
  obtain ⟨bs, hrecv⟩ := recv_run (D := fun r act => Receiver.Delivers (fun m => ∃ seals,
      (∀ e ∈ seals, Sender.SealOk prim scfg e) ∧ Unforged prim rcfg seals (m.cut rcfg.bufLen).data)
      r act ∧ Receiver.AllWritesOk r act)
    (fun cs u act hrun hC => by
      obtain ⟨ss, hsend⟩ := send_run hrun
      refine ⟨fun m hm => ⟨u.send.sh.seals, ?_, hC.1 m hm⟩, hC.2⟩
      exact (Sender.senderInv_run hsend).pacing.shared.seals) h
  have hsink : SinkHolds (tile data rcfg.blockSize) s.recv :=
    sinkHolds_run (P := fun m => ∃ seals, (∀ e ∈ seals, Sender.SealOk prim scfg e) ∧
        Unforged prim rcfg seals m.data) (fun seq _ => htr.tile_length_eq seq)
      (fun m pkt ⟨_, hseals, hun⟩ hp => payload_of_unforged ha htr hsome hseals hun hp)
      (fun _ _ hC m hm => hC.1 m hm) (fun _ _ hC => hC.2) hnew (Sink.allocate_length halloc) hrecv
  have hlen : s.recv.sh.sink.contents.length = data.length := hsink.length.trans htr.toNat_fileSize
  refine ⟨fun k hk => hsink.holds k hk, fun hflushed => ?_⟩
  refine hsink.holds.eq rcfg.blockSize_pos hlen fun seq hseq => ?_
  refine written_of_flushed hnew (hrecv.mono fun _ _ hC => hC.2.2) ?_
  rw [hflushed, rcfg.total_eq]
  rw [hsink.length] at hseq
  exact (lt_numBlocks_iff rcfg.blockSize_pos).mpr hseq

/-! ### Two sealed blocks, and two forgeries -/

/-- The last block with its byte altered, the first one under the tag of the last, then what was sent. -/
def attackedActs : List (LoopAct 1) :=
  let altered := sealedLast.set dataHeaderSize 91
  let retagged := sealedFirst.take (dataHeaderSize + 2) ++ sealedLast.drop (dataHeaderSize + 1)
  threeBytesActs.map .send ++ ([idle, deliver [fromPeer altered, fromPeer retagged, fromPeer sealedLast,
    fromPeer (finBytes 9 2), fromPeer sealedFirst]] ++
    List.replicate 26 idle ++ List.replicate 11 (Action.flusher {})).map .recv

theorem forgery_harmless_threeBytes : ∃ recv s,
    newReceiver sealedBlocks 1 zeroBytes = some recv ∧
    Steps (step Sender.sealedBytePrims Sender.threeBytes) (Attacked Sender.sealedBytePrims)
      (start Sender.threeBytes recv) attackedActs s ∧
    s.recv.sh.stats.corruptRecv = 2 ∧ s.recv.sh.sink.contents = [7, 8, 9] := by
  obtain ⟨recv, s, hnew, hrun, hQ⟩ := exists_steps_of_exec_check
    (newReceiver sealedBlocks 1 zeroBytes) (start Sender.threeBytes)
    (step Sender.sealedBytePrims Sender.threeBytes) attackedActs (Attacked Sender.sealedBytePrims)
    (fun s => s.recv.sh.stats.corruptRecv == 2 && s.recv.sh.flushedBlocks == 2) (by decide +kernel)
  simp only [Bool.and_eq_true, beq_iff_eq] at hQ
  have halloc : (⟨.mem, []⟩ : Sink).allocate {} sealedBlocks.fileSize.toNat = (.ok (), zeroBytes) := rfl
  exact ⟨recv, s, hnew, hrun, hQ.1, (forgery_harmless Sender.zeroKeyAead_inverts threeBytes_transfer rfl
    halloc hnew hrun).2 hQ.2⟩

end Loop

end Girth
