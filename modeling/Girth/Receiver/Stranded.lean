import Girth.Receiver.Outcome

/-!
# Received blocks that can no longer be flushed

Between packets every received block should be ready for the flusher: its bit in the received bitmap
stops every further request for it. `received_ready_iff` says when that is so: exactly in the runs in
which no direct write failed. `exists_stranded` shows that the exception is reachable under every
configuration whose object has more blocks than the stage pool has buffers.
-/

namespace Girth.Receiver

open Lib

variable {prim : Primitives} {cfg : RecvConfig} {n : Nat} {C : State cfg n → Action n → Prop}
  {sink : Sink} {s t : State cfg n} {as : List (Action n)}

/-! ## Between packets -/

def IngestPc.inHandlePacket {total : Nat} : IngestPc total → Bool
  | .finLearn .. | .finStore _ | .data .. => true
  | .top | .recv | .timedOut | .batch _ | .exited => false

/-- No worker is in the middle of `handle_packet`. -/
def Quiescent (s : State cfg n) : Prop := ∀ i, (s.workers i).inHandlePacket = false

theorem Quiescent.holding (h : Quiescent s) (i : Fin n) (b : Nat) :
    (s.workers i).holding b = none := by
  have hi := h i
  cases hpc : s.workers i with
  | data pc pkt rest =>
    rw [hpc] at hi
    cases hi
  | _ => rfl

theorem trace_subset (h : Steps (step prim) C s as t) {e : Event} (he : e ∈ s.sh.trace) :
    e ∈ t.sh.trace :=
  h.invariant (I := fun t => e ∈ t.sh.trace)
    (fun _ _ _ hinv _ hstep => (mem_trace_step hstep e).mpr (.inr hinv)) he

theorem noFailure_of_trace {path : WritePath} (h : Steps (step prim) C s as t)
    (htrace : ∀ e ∈ t.sh.trace, e.failed path = false) :
    Steps (step prim) (NoFailure path) s as t := by
  induction h with
  | nil => exact .nil _
  | cons _ hstep hrest ih =>
    refine .cons (fun e hemit => htrace e ?_) hstep (ih htrace)
    exact trace_subset hrest ((mem_trace_step hstep e).mpr (.inl hemit))

theorem stranded_of_failed (hnew : newReceiver cfg n sink = some s)
    (h : Steps (step prim) Any s as t) {seq written : Nat} {buf : Bytes}
    (he : .write .direct seq buf (.err written) ∈ t.sh.trace) :
    Tracks seq t (.stranded buf written) := by
  obtain ⟨c, hc⟩ := tracks_run hnew h seq
  have hmem : (.direct, buf, .err written) ∈ c.writes := hc.writes ▸ mem_writesOf.mpr he
  cases c with
  | stranded p k =>
    simp only [Custody.writes, List.mem_singleton, Prod.mk.injEq, WriteResult.err.injEq,
      true_and] at hmem
    obtain ⟨rfl, rfl⟩ := hmem
    exact hc
  | held i hold p => cases hold <;> simp [Custody.writes] at hmem
  | missing | queued | lifted | flushed | direct => simp [Custody.writes] at hmem

/-- **No accepted block is stranded.** Between packets every received block is ready exactly when no
direct write of the run failed. -/
theorem received_ready_iff (hnew : newReceiver cfg n sink = some s)
    (h : Steps (step prim) Any s as t) (hq : Quiescent t) :
    (∀ seq, t.sh.bm.isSet seq = true → t.sh.readyBm.isSet seq = true) ↔
      Steps (step prim) (NoFailure .direct) s as t := by
  constructor
  · intro hready
    refine noFailure_of_trace h fun e he => ?_
    by_contra hfailed
    obtain ⟨seq, buf, written, rfl⟩ := Event.failed_eq_true (by simpa using hfailed)
    have hc := stranded_of_failed hnew h he
    have hset := hready seq hc.bm
    rw [hc.ready] at hset
    cases hset
  · intro hok seq hset
    obtain ⟨c, hc⟩ := tracks_run hnew h seq
    rw [hc.ready]
    cases c with
    | missing =>
      rw [hc.bm] at hset
      cases hset
    | held i hold p =>
      have hheld := hc.workers i
      rw [hq.holding i seq] at hheld
      simp [Custody.holder] at hheld
    | stranded p written =>
      have hw : .write .direct seq p (.err written) ∈ t.sh.trace :=
        mem_writesOf.mp (by rw [hc.writes]; simp [Custody.writes])
      have hnone := not_failed_run hnew hok _ hw
      simp [Event.failed] at hnone
    | queued | lifted | flushed | direct => rfl

instance (s : State cfg n) : Decidable (Quiescent s) :=
  inferInstanceAs (Decidable (∀ i, (s.workers i).inHandlePacket = false))

theorem received_ready_oneBlock : ∃ s t, newReceiver oneBlock 1 zeroByte = some s ∧
    Steps (step oneBlockPrims) (NoFailure .direct) s (oneBlockActs .ok) t ∧ Quiescent t ∧
    t.sh.bm.isSet 0 = true ∧ t.sh.readyBm.isSet 0 = true := by
  obtain ⟨s, t, hnew, hrun, hQ⟩ := exists_run oneBlockPrims zeroByte (oneBlockActs .ok)
    (NoFailure .direct) (fun t : State oneBlock 1 => Quiescent t ∧ t.sh.bm.isSet 0 = true)
    (by decide +kernel)
  obtain ⟨hq, hset⟩ := of_decide_eq_true hQ
  have hany : Steps (step oneBlockPrims) Any s (oneBlockActs .ok) t := hrun.mono fun _ _ _ => trivial
  exact ⟨s, t, hnew, hrun, hq, hset, (received_ready_iff hnew hany hq).mpr hrun 0 hset⟩

/-! ## Running one worker alone -/

/-- The steps of worker `i`, as a machine on the shared state and its program counter. -/
def ingestOnly (prim : Primitives) (cfg : RecvConfig)
    (x : Shared cfg.totalBlocks × IngestPc cfg.totalBlocks) (env : Env) :
    Option (Shared cfg.totalBlocks × IngestPc cfg.totalBlocks) :=
  ingestStep prim cfg x.1 env x.2

theorem ingestOnly_run (i : Fin n) {envs : List Env}
    {x y : Shared cfg.totalBlocks × IngestPc cfg.totalBlocks}
    (h : Steps (ingestOnly prim cfg) Any x envs y) (hx : x = (s.sh, s.workers i)) :
    Steps (step prim) Any s (envs.map (.ingest i))
      { s with sh := y.1, workers := Function.update s.workers i y.2 } := by
  induction h generalizing s with
  | nil =>
    subst hx
    rw [Function.update_eq_self]
    exact .nil _
  | @cons x y z env envs _ hstep _ ih =>
    subst hx
    have hnext : step prim s (.ingest i env) =
        some { s with sh := y.1, workers := Function.update s.workers i y.2 } := by
      simp only [step]
      rw [show ingestStep prim cfg s.sh env (s.workers i) = some y from hstep]
      rfl
    have hrest := ih (s := { s with sh := y.1, workers := Function.update s.workers i y.2 })
      (by simp [Function.update_self])
    simp only [Function.update_idem] at hrest
    exact .cons trivial hnext hrest

/-! ## Exhausting the stage pool -/

def somePeer : SocketAddr := ⟨.v4 0x7f000001, 5000⟩

section fill

variable (prim cfg) (payload : Bytes)

/-- Cleartext blocks with this payload, from anyone. -/
structure Feeds : Prop where
  crypto : cfg.crypto = none
  ip : cfg.expectedPeerIp = none
  total_le : cfg.totalBlocks ≤ 2 ^ 64
  le_blockSize : payload.length ≤ cfg.blockSize
  lt_u16 : payload.length < 2 ^ 16

def blockHeader (k : Nat) : DataHeader :=
  { payloadLen := UInt16.ofNat payload.length
    session := cfg.session
    blockSeq := UInt64.ofNat k
    payloadCrc := prim.crc32c payload }

def blockMsg (k : Nat) : Datagram := ⟨(blockHeader prim cfg payload k).bytes ++ payload, some somePeer⟩

/-- A worker that is about to receive, with the first `k` blocks received and each holding a pooled
buffer. -/
structure Filled (k : Nat) (sh : Shared cfg.totalBlocks) : Prop where
  shouldStop : sh.shouldStop = false
  done : sh.done = false
  peer : sh.peer = none ∨ sh.peer = some somePeer
  free : sh.free + k = cfg.poolDepth
  bm : ∀ b, k ≤ b → sh.bm.isSet b = false

variable {prim cfg payload}

theorem Feeds.classify (prim : Primitives) (hf : Feeds cfg payload) {k : Nat}
    (hk : k < cfg.totalBlocks) :
    ∃ pkt, pkt.seq = k ∧ pkt.header.flags = 0 ∧
      cfg.classify prim (blockMsg prim cfg payload k).data (some somePeer) = .data pkt := by
  have hseq : (blockHeader prim cfg payload k).blockSeq.toNat = k := by
    have := hf.total_le
    simp only [blockHeader, UInt64.toNat_ofNat']
    omega
  have hlen : (blockHeader prim cfg payload k).payloadLen.toNat = payload.length := by
    have := hf.lt_u16
    simp only [blockHeader, UInt16.toNat_ofNat']
    omega
  have haddr : cfg.foreign (some somePeer) = false := by simp [RecvConfig.foreign, hf.ip]
  have hcls := RecvConfig.classify_cleartext hf.crypto rfl (hseq.trans_lt hk) hlen
    hf.le_blockSize rfl haddr []
  rw [List.append_nil] at hcls
  exact ⟨⟨blockHeader prim cfg payload k, hseq.trans_lt hk, payload⟩, hseq, rfl, hcls⟩

theorem accept_block (prim : Primitives) (hf : Feeds cfg payload) {k : Nat}
    (hk : k < cfg.totalBlocks) {sh : Shared cfg.totalBlocks} (h : Filled cfg k sh) :
    ∃ envs sh' pkt, Steps (ingestOnly prim cfg) Any (sh, .top) envs (sh', .data .tryPool pkt []) ∧
      pkt.seq = k ∧ sh'.shouldStop = false ∧ sh'.done = false ∧ sh'.peer = some somePeer ∧
      sh'.free = sh.free ∧ ∀ b, k + 1 ≤ b → sh'.bm.isSet b = false := by
  obtain ⟨pkt, hseq, hflags, hcls⟩ := hf.classify prim hk
  have hlearn : cfg.learnPeer sh.peer (some somePeer) = (some somePeer, true) := by
    rcases h.peer with hp | hp <;> simp [RecvConfig.learnPeer, hf.ip, hp]
  have htop : ingestOnly prim cfg (sh, .top) {} = some (sh, .recv) := by
    simp [ingestOnly, ingestStep, h.shouldStop, h.done]
  have hcut : (blockMsg prim cfg payload k).cut cfg.bufLen = blockMsg prim cfg payload k := by
    have := hf.le_blockSize
    rw [Datagram.cut, List.take_of_length_le]
    simp only [blockMsg, List.length_append, DataHeader.bytes_length, RecvConfig.bufLen]
    omega
  have hrecv : ingestOnly prim cfg (sh, .recv) { recv := .batch [blockMsg prim cfg payload k] } =
      some (sh, .batch [blockMsg prim cfg payload k]) := by
    simp [ingestOnly, ingestStep, hcut]
  have hnonempty : (blockMsg prim cfg payload k).data.isEmpty = false := rfl
  have hbatch : ∃ stats, ingestOnly prim cfg (sh, .batch [blockMsg prim cfg payload k]) {} =
      some ({ sh with stats := stats }, .data (.learn (some somePeer)) pkt []) := by
    simp only [ingestOnly, ingestStep, hnonempty, Bool.false_eq_true, if_false]
    rw [show (blockMsg prim cfg payload k).addr = some somePeer from rfl, hcls]
    exact ⟨_, rfl⟩
  obtain ⟨stats, hbatch⟩ := hbatch
  have hstep : ingestOnly prim cfg ({ sh with stats := stats }, .data (.learn (some somePeer)) pkt [])
      {} = some ({ sh with stats := stats, peer := some somePeer }, .data .seenAny pkt []) := by
    simp [ingestOnly, ingestStep, dataStep, hlearn, hflags]
  have hunset : sh.bm.isSet pkt.seq = false := h.bm _ hseq.ge
  have hset : ∀ sh₁ : Shared cfg.totalBlocks, sh₁.bm = sh.bm →
      ingestOnly prim cfg (sh₁, .data .setBm pkt []) {} =
        some ({ sh₁ with bm := (sh.bm.setAndTest pkt.seq).1 }, .data .count pkt []) := by
    intro sh₁ hbm
    simp [ingestOnly, ingestStep, dataStep, hbm, RecvBitmap.setAndTest_snd, hunset]
  refine ⟨_, _, pkt, .cons trivial htop <| .cons trivial hrecv <| .cons trivial hbatch <|
    .cons trivial hstep <| .cons (a := {}) trivial rfl <| .cons (a := {}) trivial rfl <|
    .cons trivial (hset _ rfl) <| .cons (a := {}) trivial rfl <| .nil _, hseq, h.shouldStop, h.done,
    rfl, rfl, fun b hb => ?_⟩
  exact (isSet_setAndTest_ne (by omega)).trans (h.bm b (by omega))

theorem fill_block (prim : Primitives) (hf : Feeds cfg payload) {k : Nat}
    (hk : k < cfg.totalBlocks) (hpool : k < cfg.poolDepth) {sh : Shared cfg.totalBlocks}
    (h : Filled cfg k sh) :
    ∃ envs sh', Steps (ingestOnly prim cfg) Any (sh, .top) envs (sh', .top) ∧
      Filled cfg (k + 1) sh' := by
  obtain ⟨envs, sh', pkt, hrun, hseq, hstop, hdone, hpeer, hfree, hbm⟩ := accept_block prim hf hk h
  have hleft : sh'.free = (cfg.poolDepth - (k + 1)) + 1 := by
    have := h.free
    omega
  have htry : ingestOnly prim cfg (sh', .data .tryPool pkt []) {} =
      some ({ sh' with free := cfg.poolDepth - (k + 1) }, .data .stage pkt []) := by
    simp only [ingestOnly, ingestStep, dataStep, hleft]
  refine ⟨_, _, hrun.append <| .cons trivial htry <| .cons (a := {}) trivial rfl <|
    .cons (a := {}) trivial rfl <| .cons (a := {}) trivial rfl <| .cons (a := {}) trivial rfl <|
    .nil _, hstop, hdone, .inr hpeer, ?_, hbm⟩
  show cfg.poolDepth - (k + 1) + (k + 1) = cfg.poolDepth
  omega

theorem fill_pool (prim : Primitives) (hf : Feeds cfg payload)
    (hpool : cfg.poolDepth < cfg.totalBlocks) {sh : Shared cfg.totalBlocks} (h : Filled cfg 0 sh)
    (k : Nat) (hk : k ≤ cfg.poolDepth) :
    ∃ envs sh', Steps (ingestOnly prim cfg) Any (sh, .top) envs (sh', .top) ∧ Filled cfg k sh' := by
  induction k with
  | zero => exact ⟨[], sh, .nil _, h⟩
  | succ k ih =>
    obtain ⟨envs, sh', hrun, hfilled⟩ := ih (by omega)
    obtain ⟨envs', sh'', hrun', hfilled'⟩ := fill_block prim hf (by omega) (by omega) hfilled
    exact ⟨envs ++ envs', sh'', hrun.append hrun', hfilled'⟩

theorem fail_direct (prim : Primitives) (hf : Feeds cfg payload)
    (hpool : cfg.poolDepth < cfg.totalBlocks) {sh : Shared cfg.totalBlocks}
    (h : Filled cfg cfg.poolDepth sh) :
    ∃ envs sh' buf, Steps (ingestOnly prim cfg) Any (sh, .top) envs (sh', .batch []) ∧
      .write .direct cfg.poolDepth buf (.err 0) ∈ sh'.trace := by
  obtain ⟨envs, sh', pkt, hrun, hseq, -, -, -, hfree, -⟩ := accept_block prim hf hpool h
  have hempty : sh'.free = 0 := by
    have := h.free
    omega
  have htry : ingestOnly prim cfg (sh', .data .tryPool pkt []) {} =
      some (sh', .data .direct pkt []) := by
    simp only [ingestOnly, ingestStep, dataStep, hempty]
  refine ⟨_, _, pkt.payload, hrun.append <| .cons trivial htry <|
    .cons (a := { io := .err 0 }) trivial rfl <| .nil _, ?_⟩
  rw [← hseq]
  exact List.mem_cons_self

theorem exists_stranded (prim : Primitives) (hf : Feeds cfg payload)
    (hpool : cfg.poolDepth < cfg.totalBlocks) (hcontrol : cfg.control = none)
    (hnew : newReceiver cfg n sink = some s) (i : Fin n) :
    ∃ as t, Steps (step prim) Any s as t ∧ Quiescent t ∧
      t.sh.bm.isSet cfg.poolDepth = true ∧ t.sh.readyBm.isSet cfg.poolDepth = false := by
  have hfilled : Filled cfg 0 s.sh ∧ s.workers = fun _ => .top := by
    obtain ⟨rate, _, rfl⟩ := Option.map_eq_some_iff.mp hnew
    refine ⟨⟨?_, rfl, .inl rfl, rfl, fun b _ => RecvBitmap.isSet_new _ _⟩, rfl⟩
    simp [Shared.shouldStop, shouldStop, hcontrol]
  obtain ⟨envs, sh, hrun, hfull⟩ := fill_pool prim hf hpool hfilled.1 _ le_rfl
  obtain ⟨envs', sh', buf, hrun', hfailed⟩ := fail_direct prim hf hpool hfull
  have hall := ingestOnly_run i (hrun.append hrun') (by rw [hfilled.2])
  have hc := stranded_of_failed hnew hall hfailed
  refine ⟨_, _, hall, fun j => ?_, hc.bm, hc.ready⟩
  by_cases hj : j = i
  · subst hj
    simp [IngestPc.inHandlePacket]
  · simp [Function.update_of_ne hj, hfilled.2, IngestPc.inHandlePacket]

end fill

/-! ### An object of 1538 full blocks -/

def manyBlocks : RecvConfig where
  fileSize := 65455 * 1538
  blockSize := 65455
  totalBlocks := 1538
  session := 9
  expectedPeerIp := none
  rate := ⟨.fixed, 100000000, 0, 10000000000, 30000000⟩
  crypto := none
  feedbackIntervalUs := 5000
  netTickIntervalUs := 10000
  maxNacksPerPdu := 90
  control := none
  warmStart := none
  blockSize_pos := by decide
  fileSize_lt := by decide
  total_eq := by decide

/-- The CRC32C of a full block of zeros, the only payload that occurs. -/
def manyBlocksPrims : Primitives := ⟨fun _ => 1006198253, .unused⟩

/-- 1537 zero blocks fill the pool, the direct write of the last one fails, and the block stays
received but never ready. -/
theorem manyBlocks_stranded : ∃ s as t, newReceiver manyBlocks 1 zeroByte = some s ∧
    Steps (step manyBlocksPrims) Any s as t ∧ Quiescent t ∧
    t.sh.bm.isSet 1537 = true ∧ t.sh.readyBm.isSet 1537 = false := by
  have hf : Feeds manyBlocks (List.replicate 65455 0) :=
    ⟨rfl, rfl, by decide, by rw [List.length_replicate]; decide,
      by rw [List.length_replicate]; decide⟩
  obtain ⟨s, hnew⟩ : ∃ s, newReceiver manyBlocks 1 zeroByte = some s := ⟨_, rfl⟩
  have hdepth : manyBlocks.poolDepth = 1537 := by decide
  obtain ⟨as, t, hrun, hq, hset, hready⟩ :=
    exists_stranded manyBlocksPrims hf (by rw [hdepth]; decide) rfl hnew 0
  rw [hdepth] at hset hready
  exact ⟨s, as, t, hnew, hrun, hq, hset, hready⟩

end Girth.Receiver
