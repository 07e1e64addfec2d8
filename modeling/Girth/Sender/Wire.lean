import Girth.Sender.Steps

/-!
# What leaves the sender

Everything a sender puts on the wire is a DATA PDU that carries the source's bytes for the block it
names, or the FIN, and every call of `seal_data` encrypts the source's bytes for the block whose nonce
it uses. Both follow from one invariant over the three threads, `SenderInv`: PDUs are well formed from
the moment they are built, in the channels, in the batch under construction and on the wire, and
pooled buffers keep their length.

* `wire_run`: the datagrams of a run;
* `seal_deterministic`: two calls of `seal_data` under one nonce have the same plaintext, and so the
  same ciphertext and tag. The nonce names the block (`blockNonce_injective`), and position and length
  of a block depend on nothing but its sequence number.
-/

namespace Girth.Sender

open Lib

section

variable (prim : Primitives) (cfg : SendConfig)

/-- A DATA PDU with the bytes the source has for the block it names. -/
def FromSource (d : Bytes) : Prop :=
  ∃ seq payload, blockOf cfg seq = some payload ∧ payload.length ≤ cfg.blockSize ∧
    IsData prim cfg seq payload d

def ItemOk (item : Prefetched) : Prop :=
  FromSource prim cfg (item.buf.take item.size) ∧ item.buf.length = bufLen cfg

/-- A call of `seal_data` with the bytes the source has for the block of its nonce. -/
def SealOk (e : Seal) : Prop :=
  ∃ box seq payload, cfg.crypto = some box ∧ blockOf cfg seq = some payload ∧
    e = sealOf prim box seq payload

structure SharedOk (sh : Shared) : Prop where
  free : ∀ buf ∈ sh.free, buf.length = bufLen cfg
  ready : ∀ item ∈ sh.ready, ItemOk prim cfg item
  wire : ∀ d ∈ sh.wire, FromSource prim cfg d ∨ d = finPdu cfg
  seals : ∀ e ∈ sh.seals, SealOk prim cfg e

structure BatchOk (b : Batch) : Prop where
  out : ∀ d ∈ b.out, FromSource prim cfg d
  newBufs : ∀ buf ∈ b.newBufs, buf.length = bufLen cfg

def PrefetchOk : PrefetchPc → Prop
  | .fill _ buf => buf.length = bufLen cfg
  | .publish _ item => ItemOk prim cfg item
  | .borrow _ | .recvFree _ | .exited => True

def PacerOk (p : Pacer) : PacerPc → Prop
  | .build b | .fillRex b _ | .tryRecv b | .flush b => BatchOk prim cfg b
  | .stampRex b size => BatchOk prim cfg b ∧
      ∀ buf, p.rexScratch[b.rexIdx]? = some buf → FromSource prim cfg (buf.take size)
  | .stampNew b item => BatchOk prim cfg b ∧ ItemOk prim cfg item
  | .giveBack bufs => ∀ buf ∈ bufs, buf.length = bufLen cfg
  | .waitForPeer | .top | .stopCheck | .pauseCheck | .rate | .fin | .storeDone _ | .join _
  | .returned _ => True

/-- What the pacing loop keeps. -/
structure PacerInv (sh : Shared) (p : Pacer) (pc : PacerPc) : Prop where
  shared : SharedOk prim cfg sh
  scratch : ∀ buf ∈ p.rexScratch, buf.length = bufLen cfg
  pacer : PacerOk prim cfg p pc

structure SenderInv (s : State) : Prop where
  pacing : PacerInv prim cfg s.sh s.pacer s.pacerPc
  prefetch : PrefetchOk prim cfg s.prefetch

end

variable {prim : Primitives} {cfg : SendConfig} {sh sh' : Shared} {env : Env}

/-! ## One step of each thread -/

theorem SharedOk.congr (h : SharedOk prim cfg sh) (hfree : sh'.free = sh.free)
    (hready : sh'.ready = sh.ready) (hwire : sh'.wire = sh.wire) (hseals : sh'.seals = sh.seals) :
    SharedOk prim cfg sh' :=
  ⟨hfree ▸ h.free, hready ▸ h.ready, hwire ▸ h.wire, hseals ▸ h.seals⟩

theorem forall_mem_snoc {α : Type*} {P : α → Prop} {l : List α} {x : α} (h : ∀ y ∈ l, P y)
    (hx : P x) : ∀ y ∈ l ++ [x], P y := by
  intro y hy
  rcases List.mem_append.mp hy with hold | hnew
  · exact h y hold
  · rw [List.mem_singleton] at hnew
    exact hnew ▸ hx

theorem SharedOk.record (h : SharedOk prim cfg sh) {sealed : Option Seal}
    (hsealed : ∀ e ∈ sealed, SealOk prim cfg e) : SharedOk prim cfg (sh.record sealed) := by
  refine ⟨h.free, h.ready, h.wire, fun e he => ?_⟩
  rcases List.mem_append.mp he with hnew | hold
  · exact hsealed e (Option.mem_toList.mp hnew)
  · exact h.seals e hold

theorem buildPdu_ok {buf : Bytes} {seq : UInt64} {flags : UInt8} {rexIndex : Int64} {renv : ReadEnv}
    {item : Prefetched} {sealed : Option Seal} (hbuf : buf.length = bufLen cfg)
    (h : buildPdu prim cfg renv buf seq flags rexIndex = .pdu item sealed) :
    ItemOk prim cfg item ∧ ∀ e ∈ sealed, SealOk prim cfg e := by
  obtain ⟨payload, hread, hle, hdata, hlen⟩ := buildPdu_spec hbuf h
  refine ⟨⟨⟨seq, payload, hread, hle, hdata⟩, hlen⟩, fun e he => ?_⟩
  obtain ⟨payload', hread', hsealed⟩ := seal_of_buildPdu h
  rw [hsealed] at he
  obtain ⟨box, hbox, rfl⟩ := Option.map_eq_some_iff.mp he
  exact ⟨box, seq, payload', hbox, hread', rfl⟩

theorem fillRetransmit_ok {buf : Bytes} {seq : UInt64} {renv : ReadEnv} {item : Prefetched}
    {sealed : Option Seal} (hbuf : buf.length = bufLen cfg)
    (h : fillRetransmit prim cfg renv buf seq = .pdu item sealed) :
    ItemOk prim cfg item ∧ ∀ e ∈ sealed, SealOk prim cfg e := by
  unfold fillRetransmit at h
  split at h
  · cases h
  · exact buildPdu_ok hbuf h

theorem fillRetransmit_nothing {buf buf' : Bytes} {seq : UInt64} {renv : ReadEnv}
    (hbuf : buf.length = bufLen cfg) (h : fillRetransmit prim cfg renv buf seq = .nothing buf') :
    buf'.length = bufLen cfg := by
  unfold fillRetransmit at h
  split at h
  · cases h
    exact hbuf
  · exact buildPdu_nothing hbuf h

theorem prefetchStep_ok {pc pc' : PrefetchPc} (hsh : SharedOk prim cfg sh)
    (hpc : PrefetchOk prim cfg pc) (h : prefetchStep prim cfg sh env pc = some (sh', pc')) :
    SharedOk prim cfg sh' ∧ PrefetchOk prim cfg pc' := by
  cases prefetchStep_move h with
  | leave | fail => exact ⟨hsh.congr rfl rfl rfl rfl, trivial⟩
  | borrow | retry => exact ⟨hsh, trivial⟩
  | @take seq buf free hfree =>
    have hall := hsh.free
    rw [hfree] at hall
    refine ⟨⟨fun b hb => hall b (List.mem_cons_of_mem _ hb), hsh.ready, hsh.wire, hsh.seals⟩, ?_⟩
    exact hall buf List.mem_cons_self
  | fill hbuild =>
    obtain ⟨hitem, hsealed⟩ := buildPdu_ok hpc hbuild
    exact ⟨hsh.record hsealed, hitem⟩
  | publish => exact ⟨⟨hsh.free, forall_mem_snoc hsh.ready hpc, hsh.wire, hsh.seals⟩, trivial⟩

theorem feedbackStep_ok {pc pc' : FeedbackPc} (hsh : SharedOk prim cfg sh)
    (h : feedbackStep cfg sh env pc = some (sh', pc')) : SharedOk prim cfg sh' := by
  have hframe := feedbackStep_frame h
  exact hsh.congr hframe.free hframe.ready hframe.wire hframe.seals

theorem fromSource_attachTick (tick : TickState) (now : UInt64) {buf : Bytes} {size : Nat}
    (h : FromSource prim cfg (buf.take size)) :
    FromSource prim cfg ((attachTick tick now buf).2.take size) := by
  obtain ⟨seq, payload, hread, hle, hdata⟩ := h
  exact ⟨seq, payload, hread, hle, attachTick_isData tick now hdata⟩

theorem bufLen_attachTick (tick : TickState) (now : UInt64) {buf : Bytes}
    (h : buf.length = bufLen cfg) : (attachTick tick now buf).2.length = bufLen cfg := by
  rw [attachTick_length tick now (by rw [h, bufLen]; omega), h]

section pacer

variable {p p' : Pacer} {pc' : PacerPc} {b : Batch}

theorem mem_scratch_set {k : Nat} {buf : Bytes} (h : ∀ buf ∈ p.rexScratch, buf.length = bufLen cfg)
    (hbuf : buf.length = bufLen cfg) :
    ∀ buf' ∈ p.rexScratch.set k buf, buf'.length = bufLen cfg := by
  intro buf' hmem
  rcases List.mem_or_eq_of_mem_set hmem with hold | rfl
  · exact h buf' hold
  · exact hbuf

theorem pacerStep_ok {pc : PacerPc} (hinv : PacerInv prim cfg sh p pc)
    (h : pacerStep prim cfg sh env p pc = some (sh', p', pc')) : PacerInv prim cfg sh' p' pc' := by
  cases pacerStep_cases h with
  | rate _ hp' =>
    refine ⟨hinv.shared.congr rfl rfl rfl rfl, ?_, ⟨fun d hd => (List.not_mem_nil hd).elim,
      fun d hd => (List.not_mem_nil hd).elim⟩⟩
    rw [hp']
    split_ifs <;> exact hinv.scratch
  | pop _ _ hscratch =>
    refine ⟨hinv.shared.congr rfl rfl rfl rfl, ?_, hinv.pacer⟩
    dsimp only
    rw [hscratch]
    split
    · exact forall_mem_snoc hinv.scratch List.length_replicate
    · exact hinv.scratch
  | skip hbuf hfill =>
    have hlen := hinv.scratch _ (List.mem_of_getElem? hbuf)
    exact ⟨hinv.shared, mem_scratch_set hinv.scratch (fillRetransmit_nothing hlen hfill), hinv.pacer⟩
  | fill hbuf hfill =>
    obtain ⟨hitem, hsealed⟩ :=
      fillRetransmit_ok (hinv.scratch _ (List.mem_of_getElem? hbuf)) hfill
    refine ⟨hinv.shared.record hsealed, mem_scratch_set hinv.scratch hitem.2, hinv.pacer,
      fun buf' hbuf' => ?_⟩
    dsimp only at hbuf'
    rw [List.getElem?_set_self (List.getElem?_eq_some_iff.mp hbuf).1] at hbuf'
    cases hbuf'
    exact hitem.1
  | stampRex hbuf =>
    obtain ⟨hb, hpdu⟩ := hinv.pacer
    have hlen := hinv.scratch _ (List.mem_of_getElem? hbuf)
    refine ⟨hinv.shared.congr rfl rfl rfl rfl,
      mem_scratch_set hinv.scratch (bufLen_attachTick sh.tick env.now hlen), ?_, hb.newBufs⟩
    exact forall_mem_snoc hb.out (fromSource_attachTick sh.tick env.now (hpdu _ hbuf))
  | take hready =>
    have hall := hinv.shared.ready
    rw [hready] at hall
    exact ⟨⟨hinv.shared.free, fun i hi => hall i (List.mem_cons_of_mem _ hi), hinv.shared.wire,
      hinv.shared.seals⟩, hinv.scratch, hinv.pacer, hall _ List.mem_cons_self⟩
  | empty => exact ⟨hinv.shared, hinv.scratch, hinv.pacer.out, hinv.pacer.newBufs⟩
  | stampNew =>
    obtain ⟨hb, hitem⟩ := hinv.pacer
    refine ⟨hinv.shared.congr rfl rfl rfl rfl, hinv.scratch, ?_, ?_⟩
    · exact forall_mem_snoc hb.out (fromSource_attachTick sh.tick env.now hitem.1)
    · exact forall_mem_snoc hb.newBufs (bufLen_attachTick sh.tick env.now hitem.2)
  | flush =>
    refine ⟨⟨hinv.shared.free, hinv.shared.ready, fun d hd => ?_, hinv.shared.seals⟩, hinv.scratch,
      hinv.pacer.newBufs⟩
    rcases List.mem_append.mp hd with hnew | hold
    · exact .inl (hinv.pacer.out d (List.mem_reverse.mp hnew))
    · exact hinv.shared.wire d hold
  | giveBack =>
    have hback := forall_mem_snoc hinv.shared.free (hinv.pacer _ List.mem_cons_self)
    exact ⟨⟨hback, hinv.shared.ready, hinv.shared.wire, hinv.shared.seals⟩, hinv.scratch,
      fun b hb => hinv.pacer b (List.mem_cons_of_mem _ hb)⟩
  | fin =>
    refine ⟨⟨hinv.shared.free, hinv.shared.ready, fun d hd => ?_, hinv.shared.seals⟩, hinv.scratch,
      trivial⟩
    rcases List.mem_cons.mp hd with rfl | hold
    · exact .inr rfl
    · exact hinv.shared.wire d hold
  | meet | storeDone => exact ⟨hinv.shared.congr rfl rfl rfl rfl, hinv.scratch, trivial⟩
  | seek | close | exhausted => exact ⟨hinv.shared, hinv.scratch, hinv.pacer⟩
  | giveUp | listen | finish | turn | stop | goOn | pause | proceed | given | again =>
    exact ⟨hinv.shared, hinv.scratch, trivial⟩

end pacer

/-! ## Runs -/

variable {s t : State} {as : List Action} {C : State → Action → Prop}

theorem senderInv_step {act : Action} (hinv : SenderInv prim cfg s)
    (h : step prim cfg s act = some t) : SenderInv prim cfg t := by
  obtain ⟨⟨hsh, hscratch, hpacer⟩, hpre⟩ := hinv
  cases step_move h with
  | prefetch hp =>
    obtain ⟨hsh', hpre'⟩ := prefetchStep_ok hsh hpre hp
    exact ⟨⟨hsh', hscratch, hpacer⟩, hpre'⟩
  | pacer hp => exact ⟨pacerStep_ok ⟨hsh, hscratch, hpacer⟩ hp, hpre⟩
  | feedback hp => exact ⟨⟨feedbackStep_ok hsh hp, hscratch, hpacer⟩, hpre⟩
  | join => exact ⟨⟨hsh, hscratch, trivial⟩, hpre⟩
  | flags => exact ⟨⟨hsh.congr rfl rfl rfl rfl, hscratch, hpacer⟩, hpre⟩

theorem senderInv_new : SenderInv prim cfg (newSender cfg) := by
  refine ⟨⟨⟨fun buf hbuf => ?_, ?_, ?_, ?_⟩, ?_, ?_⟩, trivial⟩
  · rw [(List.mem_replicate.mp hbuf).2, List.length_replicate]
  · exact fun item hitem => (List.not_mem_nil hitem).elim
  · exact fun d hd => (List.not_mem_nil hd).elim
  · exact fun e he => (List.not_mem_nil he).elim
  · exact fun buf hbuf => (List.not_mem_nil hbuf).elim
  · simp only [newSender]
    split_ifs <;> trivial

theorem senderInv_run (h : Steps (step prim cfg) C (newSender cfg) as t) : SenderInv prim cfg t :=
  h.invariant (fun _ _ _ hinv _ hstep => senderInv_step hinv hstep) senderInv_new

/-- **The wire.** Everything a sender sends is a DATA PDU of its source, or its FIN. -/
theorem wire_run (h : Steps (step prim cfg) C (newSender cfg) as t) {d : Bytes}
    (hd : d ∈ t.sh.wire) : FromSource prim cfg d ∨ d = finPdu cfg :=
  (senderInv_run h).pacing.shared.wire d hd

/-- **No nonce is used with two plaintexts.** Two calls of `seal_data` in a run, by whichever thread
and for whatever NACKs, have the same plaintext, ciphertext and tag if they have the same nonce. -/
theorem seal_deterministic (h : Steps (step prim cfg) Any (newSender cfg) as t) {e₁ e₂ : Seal}
    (h₁ : e₁ ∈ t.sh.seals) (h₂ : e₂ ∈ t.sh.seals) (hnonce : e₁.nonce = e₂.nonce) :
    e₁.plaintext = e₂.plaintext ∧ e₁.ciphertext = e₂.ciphertext ∧ e₁.tag = e₂.tag := by
  have hseals := (senderInv_run h).pacing.shared.seals
  obtain ⟨box₁, seq₁, payload₁, hbox₁, hread₁, rfl⟩ := hseals e₁ h₁
  obtain ⟨box₂, seq₂, payload₂, hbox₂, hread₂, rfl⟩ := hseals e₂ h₂
  have hseq : seq₁ = seq₂ := blockNonce_injective hnonce
  subst hseq
  -- one block, so one read of a stable source
  obtain rfl : payload₁ = payload₂ := Option.some.inj (hread₁.symm.trans hread₂)
  obtain rfl : box₁ = box₂ := Option.some.inj (hbox₁.symm.trans hbox₂)
  exact ⟨rfl, rfl, rfl⟩

/-! ### One encrypted byte, sent and retransmitted -/

/-- ChaCha20-Poly1305 with the zero key on the texts that occur. -/
def zeroKeySeals : List Seal :=
  [⟨blockNonce 0, [7], [152],
      [92, 49, 253, 36, 83, 196, 128, 204, 116, 185, 175, 239, 145, 211, 10, 176]⟩,
    ⟨blockNonce 0, [7, 8], [152, 15],
      [114, 211, 12, 228, 248, 232, 198, 106, 87, 161, 133, 145, 174, 66, 107, 100]⟩,
    ⟨blockNonce 1, [9], [90],
      [180, 216, 233, 196, 231, 190, 158, 236, 183, 239, 79, 208, 248, 143, 28, 249]⟩]

theorem zeroKeySeals_length : ∀ e ∈ zeroKeySeals,
    e.ciphertext.length = e.plaintext.length ∧ e.tag.length = aeadTagLen := by
  decide +kernel

def zeroKeyAead : Aead where
  encrypt _ nonce pt :=
    ((zeroKeySeals.find? fun e => e.nonce == nonce && e.plaintext == pt).map fun e =>
      (e.ciphertext, e.tag)).getD (pt, List.replicate aeadTagLen 0)
  decrypt _ nonce ct tag :=
    match zeroKeySeals.find? fun e => e.nonce == nonce && e.ciphertext == ct && e.tag == tag with
    | some e => some e.plaintext
    | none => if tag = List.replicate aeadTagLen 0 then some ct else none
  encrypt_length _ nonce pt := by
    cases hfind : zeroKeySeals.find? fun e => e.nonce == nonce && e.plaintext == pt with
    | none => rfl
    | some e =>
      have hpt := List.find?_some hfind
      simp only [Bool.and_eq_true, beq_iff_eq] at hpt
      rw [← hpt.2]
      exact (zeroKeySeals_length e (List.mem_of_find?_eq_some hfind)).1
  tag_length _ nonce pt := by
    cases hfind : zeroKeySeals.find? fun e => e.nonce == nonce && e.plaintext == pt with
    | none => rfl
    | some e => exact (zeroKeySeals_length e (List.mem_of_find?_eq_some hfind)).2
  decrypt_length _ nonce ct tag pt h := by
    split at h
    · rename_i e hfind
      cases h
      have hct := List.find?_some hfind
      simp only [Bool.and_eq_true, beq_iff_eq] at hct
      rw [← hct.1.2]
      exact (zeroKeySeals_length e (List.mem_of_find?_eq_some hfind)).1.symm
    · split_ifs at h
      cases h
      rfl

theorem zeroKeyAead_inverts : zeroKeyAead.Inverts := by
  intro box nonce pt
  have hfresh : ∀ e ∈ zeroKeySeals, e.tag ≠ List.replicate aeadTagLen 0 := by decide +kernel
  have hrow : ∀ e ∈ zeroKeySeals, (zeroKeySeals.find? fun e' => e'.nonce == e.nonce &&
      e'.ciphertext == e.ciphertext && e'.tag == e.tag) = some e := by decide +kernel
  cases hfind : zeroKeySeals.find? fun e => e.nonce == nonce && e.plaintext == pt with
  | some e =>
    have hkey := List.find?_some hfind
    simp only [Bool.and_eq_true, beq_iff_eq] at hkey
    obtain ⟨rfl, rfl⟩ := hkey
    simp only [zeroKeyAead, hfind, Option.map_some, Option.getD_some,
      hrow e (List.mem_of_find?_eq_some hfind)]
  | none =>
    have hnone : (zeroKeySeals.find? fun e => e.nonce == nonce && e.ciphertext == pt &&
        e.tag == List.replicate aeadTagLen 0) = none := by
      rw [List.find?_eq_none]
      intro e he hkey
      simp only [Bool.and_eq_true, beq_iff_eq] at hkey
      exact hfresh e he hkey.2
    simp only [zeroKeyAead, hfind, Option.map_none, Option.getD_none, hnone, if_true]

def sealedByte : SendConfig where
  peer := some ⟨.v4 0x7f000001, 5001⟩
  expectedPeerIp := none
  source := memSource [7]
  fileSize := 1
  blockSize := 1
  totalBlocks := 1
  session := 9
  rate := ⟨.fixed, 100000000, 0, 10000000000, 30000000⟩
  crypto := some ⟨.cha, List.replicate 32 0⟩
  control := none
  warmStart := none
  fileSize_lt := one_lt_i64
  neg_le_fileSize := by decide
  blockSize_lt := by decide

theorem threeBytes_lt : (3 : Int) < 2 ^ 63 := by decide

/-- Three bytes in two blocks, the last of them short. -/
def threeBytes : SendConfig :=
  { sealedByte with
    source := memSource [7, 8, 9]
    fileSize := 3
    blockSize := 2
    totalBlocks := 2
    fileSize_lt := threeBytes_lt
    neg_le_fileSize := by decide
    blockSize_lt := by decide }

/-- A FEEDBACK PDU that asks for block 0 twice. -/
def nackZero : Env where
  recv :=
    let (buf, n) := encodeFeedback (List.replicate 68 0) { session := 9 } [⟨0, 0⟩, ⟨0, 0⟩]
    .datagram (buf.take n) ⟨.v4 0x7f000001, 5001⟩

def sealedByteActs : List Action :=
  List.replicate 4 (.prefetch {}) ++ [.feedback {}, .feedback nackZero, .feedback {}, .feedback {}] ++
    List.replicate 10 (.pacer {})

def sealedBytePrims : Primitives := ⟨fun _ => 0, zeroKeyAead⟩

theorem seal_deterministic_sealedByte : ∃ t e₁ e₂,
    Steps (step sealedBytePrims sealedByte) Any (newSender sealedByte) sealedByteActs t ∧
      t.sh.seals = [e₁, e₂] ∧ e₁.nonce = blockNonce 0 ∧ e₂.nonce = blockNonce 0 ∧
      e₁.plaintext = e₂.plaintext ∧ e₁.ciphertext = e₂.ciphertext ∧ e₁.tag = e₂.tag := by
  obtain ⟨t, hrun, hQ⟩ := steps_of_exec_check (step sealedBytePrims sealedByte)
    (newSender sealedByte) sealedByteActs Any
    (fun t => t.sh.seals.length == 2 && t.sh.seals.all fun e => e.nonce == blockNonce 0)
    (by decide +kernel)
  simp only [Bool.and_eq_true, beq_iff_eq, List.all_eq_true] at hQ
  obtain ⟨e₁, e₂, hseals⟩ := List.length_eq_two.mp hQ.1
  have h₁ : e₁ ∈ t.sh.seals := by simp [hseals]
  have h₂ : e₂ ∈ t.sh.seals := by simp [hseals]
  have hn₁ := hQ.2 e₁ h₁
  have hn₂ := hQ.2 e₂ h₂
  exact ⟨t, e₁, e₂, hrun, hseals, hn₁, hn₂, seal_deterministic hrun h₁ h₂ (hn₁.trans hn₂.symm)⟩

end Girth.Sender
