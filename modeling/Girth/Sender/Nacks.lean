import Girth.Sender.Injection

/-!
# What a FEEDBACK can do to the sender

A NACK names a block by any 64-bit number, and nothing checks it against the number of blocks: the
number goes into the queue, and from there into the position of the block, `seq * block_size`, and
into what is left of the file there. Only the sign of the latter is looked at. A network tick is as
unchecked when the sender adds its own delay to it.

`PositionOk` is the exact condition on a block number (`retransmitSafe_iff`): its position stays
below `2 ^ 63`, or is in the upper half of the 64-bit range and out of reach of the file size. Then
nothing wraps, and a retransmission is built for the blocks of the file and for no others. `TickOk`
is the same for a tick, given how long the clock runs. `feedback_safe` has both and carries them over
every run: FEEDBACKs that meet them reach the queue and the pending tick only as such.
-/

namespace Girth.Sender

open Lib

variable {prim : Primitives} {cfg : SendConfig} {seq : UInt64}

/-! ## Positions -/

/-- A configuration as the entry points build it: the block count is that of the file, and no source
has bytes beyond what a signed 64-bit offset can name. -/
structure Consistent (cfg : SendConfig) : Prop where
  size_nonneg : 0 ≤ cfg.fileSize
  blockSize_pos : 0 < cfg.blockSize
  total : cfg.totalBlocks.toNat = numBlocks cfg.fileSize cfg.blockSize
  far : ∀ off n, 2 ^ 63 ≤ off → 0 < n → cfg.source.readExactAt off n = none

/-- The bytes of a block, in exact arithmetic. -/
def sourceBlock (cfg : SendConfig) (seq : Nat) : Option Bytes :=
  cfg.source.readExactAt (seq * cfg.blockSize)
    (min cfg.blockSize (cfg.fileSize.toNat - seq * cfg.blockSize))

/-- `seq * block_size` and `file_size - off` do not overflow. -/
def PositionExact (cfg : SendConfig) (seq : UInt64) : Prop :=
  seq.toNat * cfg.blockSize < 2 ^ 64 ∧ -2 ^ 63 ≤ cfg.fileSize - asI64 (off cfg seq) ∧
    cfg.fileSize - asI64 (off cfg seq) < 2 ^ 63

/-- The position of the block is below `2 ^ 63`, or so far above that the file size does not reach
it. -/
def PositionOk (cfg : SendConfig) (seq : UInt64) : Prop :=
  seq.toNat * cfg.blockSize < 2 ^ 63 ∨
    cfg.fileSize + 2 ^ 63 < seq.toNat * cfg.blockSize ∧ seq.toNat * cfg.blockSize < 2 ^ 64

instance (cfg : SendConfig) (seq : UInt64) : Decidable (PositionOk cfg seq) :=
  inferInstanceAs (Decidable (_ ∨ _))

/-- A DATA PDU for a block of the file, with the bytes of that block. -/
def CarriesBlock (prim : Primitives) (cfg : SendConfig) (d : Bytes) : Prop :=
  ∃ seq payload, seq < cfg.totalBlocks ∧ sourceBlock cfg seq.toNat = some payload ∧
    IsData prim cfg seq payload d

/-- The retransmission of a block overflows nothing, and gives a PDU only for a block of the file. -/
def RetransmitSafe (prim : Primitives) (cfg : SendConfig) (seq : UInt64) : Prop :=
  PositionExact cfg seq ∧ ∀ env buf item sealed, buf.length = bufLen cfg →
    fillRetransmit prim cfg env buf seq = .pdu item sealed →
      seq < cfg.totalBlocks ∧ CarriesBlock prim cfg item.pdu

theorem asI64_off_upper (h : seq.toNat * cfg.blockSize < 2 ^ 64)
    (hupper : 2 ^ 63 ≤ seq.toNat * cfg.blockSize) :
    asI64 (off cfg seq) = (seq.toNat * cfg.blockSize : Nat) - 2 ^ 64 := by
  have hoff := off_toNat h
  unfold asI64
  simp only [hoff, Int.bmod_def]
  omega

theorem asI64_off_lower (h : seq.toNat * cfg.blockSize < 2 ^ 63) :
    asI64 (off cfg seq) = (seq.toNat * cfg.blockSize : Nat) := by
  have hoff := off_toNat (by omega : seq.toNat * cfg.blockSize < 2 ^ 64)
  unfold asI64
  simp only [hoff, Int.bmod_def]
  omega

theorem positionExact_iff (hsize : 0 ≤ cfg.fileSize) :
    PositionExact cfg seq ↔ PositionOk cfg seq := by
  have hfs := cfg.fileSize_lt
  unfold PositionExact PositionOk
  constructor
  · rintro ⟨hmul, -, hhi⟩
    by_cases hlower : seq.toNat * cfg.blockSize < 2 ^ 63
    · exact .inl hlower
    · rw [asI64_off_upper hmul (by omega)] at hhi
      exact .inr ⟨by omega, hmul⟩
  · rintro (hlower | ⟨hfar, hmul⟩)
    · rw [asI64_off_lower hlower]
      refine ⟨by omega, by omega, by omega⟩
    · rw [asI64_off_upper hmul (by omega)]
      refine ⟨hmul, by omega, by omega⟩

theorem lt_totalBlocks_iff (hcfg : Consistent cfg) :
    seq < cfg.totalBlocks ↔ seq.toNat * cfg.blockSize < cfg.fileSize.toNat := by
  rw [UInt64.lt_iff_toNat_lt, hcfg.total, lt_numBlocks_iff hcfg.blockSize_pos]

theorem blockOf_eq_sourceBlock (hcfg : Consistent cfg) (hseq : seq < cfg.totalBlocks) :
    blockOf cfg seq = sourceBlock cfg seq.toNat := by
  have hfs := cfg.fileSize_lt
  have hin := (lt_totalBlocks_iff hcfg).mp hseq
  rw [blockOf, sourceBlock, off_toNat (by omega), plen_of_lt hin]

theorem carriesBlock_of_read (hcfg : Consistent cfg) (hseq : seq < cfg.totalBlocks) {payload d : Bytes}
    (hread : blockOf cfg seq = some payload) (hdata : IsData prim cfg seq payload d) :
    CarriesBlock prim cfg d :=
  ⟨seq, payload, hseq, blockOf_eq_sourceBlock hcfg hseq ▸ hread, hdata⟩

theorem lt_totalBlocks_of_fillRetransmit (hcfg : Consistent cfg) (hpos : PositionOk cfg seq)
    {env : ReadEnv} {buf : Bytes} {item : Prefetched} {sealed : Option Seal}
    (h : fillRetransmit prim cfg env buf seq = .pdu item sealed) : seq < cfg.totalBlocks := by
  rw [lt_totalBlocks_iff hcfg]
  unfold fillRetransmit at h
  split at h
  · cases h
  · rename_i hsome
    push Not at hsome
    obtain ⟨hplen, hrem⟩ := hsome
    rcases hpos with hlower | ⟨hfar, hmul⟩
    · have hoff : (off cfg seq).toNat = seq.toNat * cfg.blockSize := off_toNat (by omega)
      rw [rem_of_lt (by omega) hcfg.size_nonneg, hoff] at hrem
      omega
    · -- the position is in the upper half, where no source has anything
      obtain ⟨payload, hread, -⟩ := buildPdu_read h
      have hsize := hcfg.size_nonneg
      rw [blockOf, hcfg.far _ _ (by rw [off_toNat hmul]; omega) (by omega)] at hread
      cases hread

/-- **The exact condition on a NACKed block number.** -/
theorem retransmitSafe_iff (hcfg : Consistent cfg) :
    RetransmitSafe prim cfg seq ↔ PositionOk cfg seq := by
  constructor
  · intro h
    exact (positionExact_iff hcfg.size_nonneg).mp h.1
  · intro hpos
    refine ⟨(positionExact_iff hcfg.size_nonneg).mpr hpos, fun env buf item sealed hbuf h => ?_⟩
    have hseq := lt_totalBlocks_of_fillRetransmit hcfg hpos h
    unfold fillRetransmit at h
    split at h
    · cases h
    · obtain ⟨payload, hread, -, hdata, -⟩ := buildPdu_spec hbuf h
      exact ⟨hseq, carriesBlock_of_read hcfg hseq hread hdata⟩

/-! ## Ticks -/

/-- `tick + (now - t2)` does not overflow. -/
def TickExact (tick : TickState) (now : UInt64) : Prop :=
  tick.pending = true → tick.isNet = true →
    tick.t2 ≤ now ∧ tick.val.toNat + (now.toNat - tick.t2.toNat) < 2 ^ 64

/-- As long as the clock is below `horizon` there is room above a network tick taken at `t2`. -/
def TickOk (horizon : Nat) (tick : TickState) : Prop :=
  tick.isNet = true → tick.val.toNat + (horizon - tick.t2.toNat) ≤ 2 ^ 64

instance (horizon : Nat) (tick : TickState) : Decidable (TickOk horizon tick) :=
  inferInstanceAs (Decidable (_ → _))

/-- The tick that a FEEDBACK received at `t2` leaves to be echoed. -/
def tickOf (fh : FeedbackHeader) (t2 : UInt64) : TickState := ⟨true, fh.tick, fh.tickIsNetwork, t2⟩

theorem TickOk.exact {horizon : Nat} {tick : TickState} (h : TickOk horizon tick) {now : UInt64}
    (hmono : tick.t2 ≤ now) (hnow : now.toNat < horizon) : TickExact tick now := by
  intro _ hnet
  have hroom := h hnet
  rw [UInt64.le_iff_toNat_le] at hmono
  exact ⟨hmono, by omega⟩

/-- **The exact condition on a tick**, for a clock that runs up to `horizon`. -/
theorem tickExact_iff {horizon : Nat} (hhorizon : horizon ≤ 2 ^ 64) {fh : FeedbackHeader} {t2 : UInt64}
    (ht2 : t2.toNat < horizon) :
    (∀ now, t2 ≤ now → now.toNat < horizon → TickExact (tickOf fh t2) now) ↔
      TickOk horizon (tickOf fh t2) := by
  constructor
  · intro h hnet
    have hlast : (UInt64.ofNat (horizon - 1)).toNat = horizon - 1 := by
      rw [UInt64.toNat_ofNat', Nat.mod_eq_of_lt (by omega)]
    have hle : t2 ≤ UInt64.ofNat (horizon - 1) := by
      rw [UInt64.le_iff_toNat_le, hlast]
      omega
    have hlt := (h _ hle (by omega) rfl hnet).2
    rw [hlast] at hlt
    omega
  · intro h now hmono hnow
    exact h.exact hmono hnow

theorem attachTick_tickOk {horizon : Nat} {tick : TickState} (h : TickOk horizon tick) (now : UInt64)
    (buf : Bytes) : TickOk horizon (attachTick tick now buf).1 := by
  unfold attachTick
  split <;> exact h

/-! ## The conditions on a run -/

/-- The clock does not go back, and stays below `horizon`. -/
def ClockOk (horizon : Nat) (s : State) : Action → Prop
  | .feedback env => env.now.toNat < horizon
  | .pacer env => env.now.toNat < horizon ∧ s.sh.tick.t2 ≤ env.now
  | .prefetch _ | .join | .stop | .control _ => True

/-- Every FEEDBACK that arrives names positions and a tick that leave room. -/
def PeerOk (cfg : SendConfig) (horizon : Nat) : Action → Prop
  | .feedback env => ∀ msg ∈ env.feedback cfg,
      (∀ n ∈ msg.2, PositionOk cfg n.blockSeq) ∧
        TickOk horizon (tickOf msg.1 env.now)
  | .prefetch _ | .pacer _ | .join | .stop | .control _ => True

def FeedbackWithin (cfg : SendConfig) (horizon : Nat) (s : State) (act : Action) : Prop :=
  ClockOk horizon s act ∧ PeerOk cfg horizon act

instance (horizon : Nat) (s : State) : (act : Action) → Decidable (ClockOk horizon s act)
  | .feedback env => inferInstanceAs (Decidable (env.now.toNat < horizon))
  | .pacer env => inferInstanceAs (Decidable (env.now.toNat < horizon ∧ s.sh.tick.t2 ≤ env.now))
  | .prefetch _ | .join | .stop | .control _ => .isTrue trivial

instance (cfg : SendConfig) (horizon : Nat) : (act : Action) → Decidable (PeerOk cfg horizon act)
  | .feedback env => inferInstanceAs (Decidable (∀ msg ∈ env.feedback cfg,
      (∀ n ∈ msg.2, PositionOk cfg n.blockSeq) ∧
        TickOk horizon (tickOf msg.1 env.now)))
  | .prefetch _ | .pacer _ | .join | .stop | .control _ => .isTrue trivial

instance (cfg : SendConfig) (horizon : Nat) (s : State) (act : Action) :
    Decidable (FeedbackWithin cfg horizon s act) :=
  inferInstanceAs (Decidable (_ ∧ _))

/-- The arithmetic of this step of the pacing loop does not overflow. -/
def StepExact (cfg : SendConfig) (s : State) : Action → Prop
  | .pacer env =>
    match s.pacerPc with
    | .fillRex _ seq => PositionExact cfg seq
    | .stampRex .. | .stampNew .. => TickExact s.sh.tick env.now
    | _ => True
  | .prefetch _ | .feedback _ | .join | .stop | .control _ => True

/-! ## The invariant -/

def FeedbackPcOk (cfg : SendConfig) (horizon : Nat) : FeedbackPc → Prop
  | .setTick fh nacks t2 =>
    (∀ n ∈ nacks, PositionOk cfg n.blockSeq) ∧ TickOk horizon (tickOf fh t2)
  | .pushNacks _ nacks => ∀ n ∈ nacks, PositionOk cfg n.blockSeq
  | .top | .recv | .storeRate _ | .storeHi _ | .storeDone | .exited => True

def RexOk (prim : Primitives) (cfg : SendConfig) (p : Pacer) : PacerPc → Prop
  | .fillRex _ seq => PositionOk cfg seq
  | .stampRex b size => ∀ buf, p.rexScratch[b.rexIdx]? = some buf →
      CarriesBlock prim cfg (buf.take size)
  | _ => True

def ReadingOk (cfg : SendConfig) : PrefetchPc → Prop
  | .recvFree seq | .fill seq _ => seq < cfg.totalBlocks
  | .borrow _ | .publish .. | .exited => True

structure Answering (prim : Primitives) (cfg : SendConfig) (horizon : Nat) (s : State) : Prop where
  handed : ∀ d ∈ handed s.sh s.pacerPc, CarriesBlock prim cfg d ∨ d = finPdu cfg
  items : ∀ item ∈ pipeline s, CarriesBlock prim cfg item.pdu
  reading : ReadingOk cfg s.prefetch
  queue : ∀ seq ∈ s.sh.rex.heap, PositionOk cfg seq
  rex : RexOk prim cfg s.pacer s.pacerPc
  feedback : FeedbackPcOk cfg horizon s.feedback
  tick : TickOk horizon s.sh.tick

theorem carriesBlock_attachTick (tick : TickState) (now : UInt64) {buf : Bytes} {size : Nat}
    (h : CarriesBlock prim cfg (buf.take size)) :
    CarriesBlock prim cfg ((attachTick tick now buf).2.take size) := by
  obtain ⟨seq, payload, hseq, hread, hdata⟩ := h
  exact ⟨seq, payload, hseq, hread, attachTick_isData tick now hdata⟩

theorem mem_pushAll {q : RexQueue} {nacks : List NackEntry} {seq : UInt64}
    (h : seq ∈ (q.pushAll nacks).heap) : seq ∈ q.heap ∨ ∃ n ∈ nacks, n.blockSeq = seq := by
  induction nacks generalizing q with
  | nil => exact .inl h
  | cons n nacks ih =>
    rcases ih h with hold | ⟨m, hm, heq⟩
    · simp only [RexQueue.push] at hold
      split at hold
      · exact .inl hold
      · rcases List.mem_orderedInsert (r := (· ≤ ·)) |>.mp hold with rfl | hmem
        · exact .inr ⟨n, List.mem_cons_self, rfl⟩
        · exact .inl hmem
    · exact .inr ⟨m, List.mem_cons_of_mem _ hm, heq⟩

/-! ## One step -/

variable {horizon : Nat} {s t : State} {env : Env} {sh : Shared}

theorem answering_prefetch {pc : PrefetchPc} (hcfg : Consistent cfg)
    (hinv : Answering prim cfg horizon s) (hok : SenderInv prim cfg s)
    (h : prefetchStep prim cfg s.sh env s.prefetch = some (sh, pc)) :
    Answering prim cfg horizon { s with sh := sh, prefetch := pc } := by
  obtain ⟨hhanded, hitems, hreading, hqueue, hrex, hfeedback, htick⟩ := hinv
  have hframe := prefetchStep_frame h
  have hprefetch := hok.prefetch
  suffices hnew : (∀ item ∈ s.pacerPc.item.toList ++ sh.ready ++ pc.item.toList,
      CarriesBlock prim cfg item.pdu) ∧ ReadingOk cfg pc by
    refine ⟨?_, hnew.1, hnew.2, ?_, hrex, hfeedback, ?_⟩
    · dsimp only [Sender.handed]
      rw [hframe.wire]
      exact hhanded
    · dsimp only
      rwa [hframe.rex]
    · dsimp only
      rwa [hframe.tick]
  have hmove := prefetchStep_move h
  simp only [pipeline] at hitems
  generalize s.prefetch = pc₀ at hmove hitems hreading hprefetch
  cases hmove with
  | leave | retry | fail => exact ⟨hitems, trivial⟩
  | borrow hseq => exact ⟨hitems, hseq⟩
  | take => exact ⟨hitems, hreading⟩
  | fill hbuild =>
    obtain ⟨payload, hread, -, hdata, -⟩ := buildPdu_spec hprefetch hbuild
    exact ⟨forall_mem_snoc (fun i hi => hitems i (List.mem_append_left _ hi))
      (carriesBlock_of_read hcfg hreading hread hdata), trivial⟩
  | publish =>
    refine ⟨?_, trivial⟩
    simpa only [PrefetchPc.item, Option.toList_none, Option.toList_some, List.append_nil,
      List.append_assoc] using hitems

theorem answering_pacer {p : Pacer} {pc : PacerPc} (hcfg : Consistent cfg)
    (hinv : Answering prim cfg horizon s) (hok : SenderInv prim cfg s)
    (h : pacerStep prim cfg s.sh env s.pacer s.pacerPc = some (sh, p, pc)) :
    Answering prim cfg horizon { s with sh := sh, pacer := p, pacerPc := pc } := by
  obtain ⟨hhanded, hitems, hreading, hqueue, hrex, hfeedback, htick⟩ := hinv
  have hmove := pacerStep_move h
  simp only [pipeline] at hitems
  generalize s.pacerPc = pc₀ at hmove hhanded hitems hrex
  cases hmove with
  | quiet hframe hsame hitem hbusy hready hrexq htickq =>
    refine ⟨hsame ▸ hhanded, ?_, hreading, hrexq ▸ hqueue, ?_, hfeedback, htickq ▸ htick⟩
    · dsimp only [pipeline]
      rw [PacerPc.item_of_not_busy hbusy, ← hitem, hready]
      exact hitems
    · cases pc with
      | fillRex b seq => cases hbusy
      | stampRex b size => cases hbusy
      | _ => trivial
  | pop hframe hpop hwire hready hrexq htickq =>
    unfold RexQueue.pop at hpop
    split at hpop
    · cases hpop
    · rename_i seq heap hheap
      cases hpop
      rw [hheap] at hqueue
      refine ⟨?_, ?_, hreading, ?_, hqueue _ List.mem_cons_self, hfeedback, htickq ▸ htick⟩
      · dsimp only [Sender.handed]
        rw [hwire]
        exact hhanded
      · dsimp only [pipeline]
        rw [hready]
        exact hitems
      · dsimp only
        rw [hrexq]
        exact fun seq hseq => hqueue seq (List.mem_cons_of_mem _ hseq)
  | fill hbuf hfill =>
    refine ⟨hhanded, hitems, hreading, hqueue, fun buf hbuf' => ?_, hfeedback, htick⟩
    have hlen := hok.pacing.scratch _ (List.mem_of_getElem? hbuf)
    dsimp only at hbuf'
    rw [List.getElem?_set_self (List.getElem?_eq_some_iff.mp hbuf).1] at hbuf'
    exact Option.some.inj hbuf' ▸ (((retransmitSafe_iff hcfg).mpr hrex).2 _ _ _ _ hlen hfill).2
  | @stampRex b size buf p' b' hbuf hout hdone =>
    refine ⟨?_, hitems, hreading, hqueue, trivial, hfeedback, attachTick_tickOk htick _ _⟩
    dsimp only
    rw [handed_snoc _ hout]
    exact forall_mem_snoc hhanded (.inl (carriesBlock_attachTick _ _ (hrex buf hbuf)))
  | take hready =>
    refine ⟨hhanded, ?_, hreading, hqueue, trivial, hfeedback, htick⟩
    rw [hready] at hitems
    exact hitems
  | exhausted hready hcl => exact ⟨hhanded, hitems, hreading, hqueue, trivial, hfeedback, htick⟩
  | @stampNew b item b' hout =>
    refine ⟨?_, fun i hi => hitems i ?_, hreading, hqueue, trivial, hfeedback,
      attachTick_tickOk htick _ _⟩
    · dsimp only
      rw [handed_snoc _ hout]
      have hitem : CarriesBlock prim cfg item.pdu := hitems item (by simp [PacerPc.item])
      exact forall_mem_snoc hhanded (.inl (carriesBlock_attachTick _ _ hitem))
    · exact List.mem_append.mpr ((List.mem_append.mp hi).imp_left (List.mem_append_right _))
  | fin hdone hempty =>
    refine ⟨?_, hitems, hreading, hqueue, trivial, hfeedback, htick⟩
    dsimp only
    rw [handed_fin]
    exact forall_mem_snoc hhanded (.inr rfl)

theorem answering_feedback {pc : FeedbackPc} (hinv : Answering prim cfg horizon s)
    (hC : PeerOk cfg horizon (.feedback env))
    (h : feedbackStep cfg s.sh env s.feedback = some (sh, pc)) :
    Answering prim cfg horizon { s with sh := sh, feedback := pc } := by
  obtain ⟨hhanded, hitems, hreading, hqueue, hrex, hfeedback, htick⟩ := hinv
  have hframe := feedbackStep_frame h
  have hmove := feedbackStep_move h
  suffices hnew : (∀ seq ∈ sh.rex.heap, PositionOk cfg seq) ∧ FeedbackPcOk cfg horizon pc ∧
      TickOk horizon sh.tick by
    refine ⟨?_, ?_, hreading, hnew.1, hrex, hnew.2.1, hnew.2.2⟩
    · dsimp only [Sender.handed]
      rw [hframe.wire]
      exact hhanded
    · dsimp only [pipeline]
      rw [hframe.ready]
      exact hitems
  generalize s.feedback = pc₀ at hmove hfeedback
  cases hmove with
  | quiet hframe hpc htarget hrexq htickq =>
    refine ⟨hrexq ▸ hqueue, ?_, htickq ▸ htick⟩
    cases pc with
    | setTick fh nacks t2 => cases hpc
    | pushNacks fh nacks => cases hpc
    | _ => trivial
  | arrive hmsg => exact ⟨hqueue, hC _ hmsg, htick⟩
  | setTick => exact ⟨hqueue, hfeedback.1, hfeedback.2⟩
  | pushNacks hframe htarget hrexq htickq =>
    refine ⟨fun seq hseq => ?_, trivial, htickq ▸ htick⟩
    rw [hrexq] at hseq
    rcases mem_pushAll hseq with hold | ⟨n, hn, rfl⟩
    · exact hqueue seq hold
    · exact hfeedback n hn
  | storeRate hframe htarget hrexq htickq => exact ⟨hrexq ▸ hqueue, trivial, htickq ▸ htick⟩

theorem answering_step {act : Action} (hcfg : Consistent cfg) (hinv : Answering prim cfg horizon s)
    (hok : SenderInv prim cfg s) (hC : FeedbackWithin cfg horizon s act)
    (h : step prim cfg s act = some t) : Answering prim cfg horizon t := by
  cases step_move h with
  | prefetch hp => exact answering_prefetch hcfg hinv hok hp
  | pacer hp => exact answering_pacer hcfg hinv hok hp
  | feedback hp => exact answering_feedback hinv hC.2 hp
  | join hpc =>
    obtain ⟨hhanded, hitems, hreading, hqueue, hrex, hfeedback, htick⟩ := hinv
    simp only [pipeline, hpc] at hhanded hitems
    exact ⟨hhanded, hitems, hreading, hqueue, trivial, hfeedback, htick⟩
  | flags =>
    exact ⟨hinv.handed, hinv.items, hinv.reading, hinv.queue, hinv.rex, hinv.feedback, hinv.tick⟩

theorem Answering.stepExact {act : Action} (hcfg : Consistent cfg)
    (hinv : Answering prim cfg horizon s) (hC : FeedbackWithin cfg horizon s act) :
    StepExact cfg s act := by
  cases act with
  | pacer env =>
    obtain ⟨⟨hnow, hmono⟩, -⟩ := hC
    have hrex := hinv.rex
    unfold StepExact
    generalize s.pacerPc = pc at hrex
    cases pc with
    | fillRex b seq => exact (positionExact_iff hcfg.size_nonneg).mpr hrex
    | stampRex b size => exact hinv.tick.exact hmono hnow
    | stampNew b item => exact hinv.tick.exact hmono hnow
    | _ => trivial
  | _ => trivial

/-! ## Runs -/

theorem answering_new : Answering prim cfg horizon (newSender cfg) := by
  have hpc : (newSender cfg).pacerPc = .top ∨ (newSender cfg).pacerPc = .waitForPeer := by
    simp only [newSender]
    split_ifs
    · exact .inl rfl
    · exact .inr rfl
  refine ⟨fun d hd => ?_, fun item hitem => ?_, trivial, fun seq hseq => ?_, ?_, trivial,
    fun hpending => by cases hpending⟩
  · rcases hpc with hpc | hpc <;> rw [hpc] at hd <;> cases hd
  · simp only [pipeline] at hitem
    rcases hpc with hpc | hpc <;> rw [hpc] at hitem <;> cases hitem
  · cases hseq
  · rcases hpc with hpc | hpc <;> rw [hpc] <;> trivial

/-- **What a FEEDBACK may contain.** For every NACKed block number the retransmission is safe exactly
if its position is as `PositionOk` demands, and for every tick the echo is exactly if there is room up
to the end of the clock. In every run in which all FEEDBACKs meet both, no step of the pacing loop
overflows, and every DATA PDU handed over, retransmitted or not, is for a block of the file and
carries its bytes. -/
theorem feedback_safe (hcfg : Consistent cfg) (hhorizon : horizon ≤ 2 ^ 64) :
    (∀ seq, RetransmitSafe prim cfg seq ↔ PositionOk cfg seq) ∧
    (∀ fh t2, t2.toNat < horizon →
      ((∀ now, t2 ≤ now → now.toNat < horizon → TickExact (tickOf fh t2) now) ↔
        TickOk horizon (tickOf fh t2))) ∧
    (∀ as t, Steps (step prim cfg) (FeedbackWithin cfg horizon) (newSender cfg) as t →
      Steps (step prim cfg) (StepExact cfg) (newSender cfg) as t ∧
        ∀ d ∈ handed t.sh t.pacerPc, CarriesBlock prim cfg d ∨ d = finPdu cfg) := by
  refine ⟨fun seq => retransmitSafe_iff hcfg, fun fh t2 => tickExact_iff hhorizon, ?_⟩
  intro as t hrun
  have hkeep : ∀ s act t, SenderInv prim cfg s ∧ Answering prim cfg horizon s →
      FeedbackWithin cfg horizon s act → step prim cfg s act = some t →
        SenderInv prim cfg t ∧ Answering prim cfg horizon t :=
    fun s act t hinv hC hstep =>
      ⟨senderInv_step hinv.1 hstep, answering_step hcfg hinv.2 hinv.1 hC hstep⟩
  have hnew : SenderInv prim cfg (newSender cfg) ∧ Answering prim cfg horizon (newSender cfg) :=
    ⟨senderInv_new, answering_new⟩
  exact ⟨hrun.mono_of_invariant hkeep (fun s act hinv hC => hinv.2.stepExact hcfg hC) hnew,
    (hrun.invariant hkeep hnew).2.handed⟩

/-! ### One byte, sent and asked for -/

theorem sealedByte_consistent : Consistent sealedByte where
  size_nonneg := by decide
  blockSize_pos := by decide
  total := by decide
  far := by
    intro off n hoff hn
    show (if off + n > 1 then none else _) = none
    exact if_pos (by omega)

theorem feedback_safe_sealedByte : ∃ t,
    Steps (step sealedBytePrims sealedByte) (FeedbackWithin sealedByte (2 ^ 63))
      (newSender sealedByte) sealedByteActs t ∧
    Steps (step sealedBytePrims sealedByte) (StepExact sealedByte) (newSender sealedByte)
      sealedByteActs t ∧ (handed t.sh t.pacerPc).length = 2 ∧
    ∀ d ∈ handed t.sh t.pacerPc, CarriesBlock sealedBytePrims sealedByte d ∨ d = finPdu sealedByte := by
  obtain ⟨t, hrun, hQ⟩ := steps_of_exec_check (step sealedBytePrims sealedByte)
    (newSender sealedByte) sealedByteActs (FeedbackWithin sealedByte (2 ^ 63))
    (fun t => (handed t.sh t.pacerPc).length == 2) (by decide +kernel)
  obtain ⟨hexact, hcarries⟩ :=
    (feedback_safe sealedByte_consistent (by decide)).2.2 sealedByteActs t hrun
  exact ⟨t, hrun, hexact, by simpa using hQ, hcarries⟩

theorem wideByte_block : 256 + dataHeaderSize + aeadTagLen < 2 ^ 63 := by decide

/-- One byte in blocks of 256, in cleartext. -/
def wideByte : SendConfig :=
  { sealedByte with blockSize := 256, crypto := none, blockSize_lt := wideByte_block }

/-- The CRC32C of the byte. -/
def wideBytePrims : Primitives := ⟨fun _ => 0x86b737ba, .unused⟩

/-- A FEEDBACK that asks for block `2 ^ 56` and has the last network tick. -/
def nackFar : Env where
  now := 10
  recv :=
    let fh : FeedbackHeader :=
      { session := 9, tick := 0xffffffffffffffff, tickIsNetwork := true }
    .datagram (fh.bytes 1 ++ NackEntry.bytes ⟨0x100000000000000, 0⟩) ⟨.v4 0x7f000001, 5001⟩

def nackFarActs : List Action :=
  [.feedback {}, .feedback nackFar, .feedback {}, .feedback {}] ++
    List.replicate 11 (.pacer { now := 11 })

/-- The position of block `2 ^ 56` wraps to 0, and so the only byte is sent as block `2 ^ 56` of one;
the tick wraps to 0 as well. -/
theorem feedback_wraps : ∃ t d h,
    Steps (step wideBytePrims wideByte) Any (newSender wideByte) nackFarActs t ∧
      t.sh.wire = [d] ∧ decodeDataHeader d = some h ∧ h.flags &&& flagRetransmit ≠ 0 ∧
      h.blockSeq = 0x100000000000000 ∧ h.echoTick = 0 ∧ d.drop dataHeaderSize = [7] ∧
      wideByte.totalBlocks = 1 ∧ ¬ PositionExact wideByte 0x100000000000000 ∧
      ¬ TickExact ⟨true, 0xffffffffffffffff, true, 10⟩ 11 := by
  obtain ⟨t, hrun, hQ⟩ := steps_of_exec_check (step wideBytePrims wideByte)
    (newSender wideByte) nackFarActs Any
    (fun t => t.sh.wire.length == 1 && t.sh.wire.all fun d =>
      (decodeDataHeader d).any (fun h => h.flags &&& flagRetransmit != 0 &&
        h.blockSeq == 0x100000000000000 && h.echoTick == 0) && d.drop dataHeaderSize == [7])
    (by decide +kernel)
  simp only [Bool.and_eq_true, beq_iff_eq, bne_iff_ne, List.all_eq_true, Option.any_eq_true] at hQ
  obtain ⟨d, hd⟩ := List.length_eq_one_iff.mp hQ.1
  obtain ⟨⟨h, hdec, ⟨hflags, hseq⟩, hecho⟩, hbyte⟩ := hQ.2 d (by rw [hd]; exact List.mem_cons_self)
  refine ⟨t, d, h, hrun, hd, hdec, hflags, hseq, hecho, hbyte, rfl, ?_, ?_⟩
  · intro hpos
    exact absurd hpos.1 (by decide)
  · intro htick
    exact absurd (htick rfl rfl).2 (by decide)

end Girth.Sender
