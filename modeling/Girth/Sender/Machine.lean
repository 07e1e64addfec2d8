import Girth.Lib.Machine
import Girth.Sender.Pdu
import Mathlib.Data.Finset.Card
import Mathlib.Data.List.Sort

/-!
# The sender as a machine of threads

`Sender::run` learns the receiver's address, then runs three threads: `prefetch` reads the blocks in
order into pooled buffers and publishes them, the pacing loop sends one batch after another,
retransmissions first, and the feedback thread reads FEEDBACK PDUs, queues the NACKed blocks and
records the tick to echo. As in the receiver, one step of a thread is one access to shared state, and
a thread that panics takes no further step.

Two history variables record what leaves the sender: `wire` the datagrams handed to the socket,
`seals` the calls of `seal_data`. The pauses between batches are left out: a batch may follow the
previous one at any time.
-/

namespace Girth

open Lib

namespace Sender

/-! ## Shared state -/

/-- The blocks to retransmit, lowest first. -/
structure RexQueue where
  heap : List UInt64 := []
  set : Finset UInt64 := ∅

namespace RexQueue

def push (q : RexQueue) (seq : UInt64) : RexQueue :=
  if seq ∈ q.set then q
  else ⟨q.heap.orderedInsert (· ≤ ·) seq, insert seq q.set⟩

/-- `push_retransmits`. -/
def pushAll (q : RexQueue) (nacks : List NackEntry) : RexQueue :=
  nacks.foldl (fun q n => q.push n.blockSeq) q

/-- `pop_retransmit`. -/
def pop (q : RexQueue) : Option (UInt64 × RexQueue) :=
  match q.heap with
  | [] => none
  | seq :: heap => some (seq, ⟨heap, q.set.erase seq⟩)

end RexQueue

structure Shared where
  peer : Option SocketAddr
  targetBps : Nat
  configuredTargetBps : Nat
  done : Bool := false
  control : Option TransferControl
  rex : RexQueue := {}
  tick : TickState := {}
  /-- The buffers in the free channel. -/
  free : List Bytes
  /-- The PDUs in the ready channel. -/
  ready : List Prefetched := []
  /-- The prefetch thread has left, so the ready channel is disconnected once it is empty. -/
  readyClosed : Bool := false
  stop : Bool := false
  stats : Stats
  wire : List Bytes := []
  seals : List Seal := []

/-- What `recv_from` returns. -/
inductive FeedbackRecv
  | datagram (data : Bytes) (addr : SocketAddr)
  | timeout
  | fatal (err : String)

/-- What the environment decides in a step; `expired` says that the wait for START is over. -/
structure Env extends ReadEnv where
  now : UInt64 := 0
  recv : FeedbackRecv := .timeout
  expired : Bool := false

/-- The capacity of both channels, and the number of pooled buffers. -/
def poolCap : Nat := 4096

namespace Shared

variable (sh : Shared)

def shouldStop : Bool := Girth.shouldStop sh.stop sh.control

def isPaused : Bool := sh.control.any (·.paused)

/-- A PDU was built: record the call of `seal_data`. -/
def record (sealed : Option Seal) : Shared := { sh with seals := sealed.toList ++ sh.seals }

end Shared

section

variable (prim : Primitives) (cfg : SendConfig)

/-! ## Prefetch -/

inductive PrefetchPc
  | borrow (seq : UInt64)
  | recvFree (seq : UInt64)
  | fill (seq : UInt64) (buf : Bytes)
  | publish (seq : UInt64) (item : Prefetched)
  | exited

/-- One step of the prefetch thread. -/
def prefetchStep (sh : Shared) (env : Env) : PrefetchPc → Option (Shared × PrefetchPc)
  | .borrow seq =>
    if ¬ seq < cfg.totalBlocks ∨ sh.shouldStop ∨ sh.done then
      some ({ sh with readyClosed := true }, .exited)
    else some (sh, .recvFree seq)
  | .recvFree seq =>
    match sh.free with
    | [] => some (sh, .borrow seq)
    | buf :: free => some ({ sh with free := free }, .fill seq buf)
  | .fill seq buf =>
    match prefetchPdu prim cfg env.toReadEnv buf seq with
    | .panic => none
    | .nothing _ => some ({ sh with readyClosed := true }, .exited)
    | .pdu item sealed => some (sh.record sealed, .publish seq item)
  | .publish seq item =>
    if sh.ready.length < poolCap then
      some ({ sh with ready := sh.ready ++ [item] }, .borrow (seq + 1))
    else none
  | .exited => none

/-! ## The pacing loop -/

/-- Packets per batch at a rate: a batch takes at least five milliseconds, and has at most 64. -/
def batchSize (rate : Nat) : Nat :=
  let blockBits : ℚ := ((cfg.blockSize + dataHeaderSize : Nat) : ℚ) * 8
  let ipd : ℚ := blockBits / (max rate 1 : Nat) * 1000000
  if ipd < 5000 then min 64 (⌊5000 / ipd⌋.toNat + 1) else 1

/-- The variables of the pacing loop that live across batches. -/
structure Pacer where
  curRate : Nat
  batch : Nat
  newDone : Bool := false
  rexScratch : List Bytes := []

/-- The batch under construction. -/
structure Batch where
  toSend : Nat
  built : Nat := 0
  out : List Bytes := []
  newBufs : List Bytes := []
  rexIdx : Nat := 0
  rexBytes : Nat := 0
  newBytes : Nat := 0
  rexN : Nat := 0
  newN : Nat := 0

inductive PacerPc
  | waitForPeer
  | top
  | stopCheck
  | pauseCheck
  | rate
  | build (b : Batch)
  | fillRex (b : Batch) (seq : UInt64)
  | stampRex (b : Batch) (size : Nat)
  | tryRecv (b : Batch)
  | stampNew (b : Batch) (item : Prefetched)
  | flush (b : Batch)
  | giveBack (bufs : List Bytes)
  | fin
  | storeDone (res : Except String Unit)
  | join (res : Except String Unit)
  | returned (res : Except String Unit)

def Pacer.recompute (p : Pacer) (rate : Nat) : Pacer :=
  { p with curRate := max rate 1, batch := batchSize cfg rate }

/-- `wait_for_peer`: a START of this session from the expected address. -/
def startFrom (data : Bytes) (addr : SocketAddr) : Bool :=
  !(cfg.expectedPeerIp.any fun ip => addr.ip ≠ ip) &&
    decodeStart (data.take 2048) == some cfg.session

/-- One step of the pacing loop. -/
def pacerStep (sh : Shared) (env : Env) (p : Pacer) : PacerPc → Option (Shared × Pacer × PacerPc)
  | .waitForPeer =>
    if sh.shouldStop then some (sh, p, .returned (.error "stopped while waiting for receiver"))
    else if env.expired then
      some (sh, p, .returned (.error "timed out waiting for receiver START"))
    else
      match env.recv with
      | .datagram data addr =>
        if startFrom cfg data addr then some ({ sh with peer := some addr }, p, .top)
        else some (sh, p, .waitForPeer)
      | .timeout => some (sh, p, .waitForPeer)
      | .fatal err => some (sh, p, .returned (.error err))
  | .top => some (sh, p, if sh.done then .storeDone (.ok ()) else .stopCheck)
  | .stopCheck =>
    some (sh, p, if sh.shouldStop then .storeDone (.error "sender stopped") else .pauseCheck)
  | .pauseCheck => some (sh, p, if sh.isPaused then .top else .rate)
  | .rate =>
    let r := effectiveRate sh.control sh.targetBps
    let p := if r ≠ p.curRate then p.recompute cfg r else p
    some ({ sh with stats := { sh.stats with targetRateBps := r } }, p, .build { toSend := p.batch })
  | .build b =>
    if b.built < b.toSend then
      match sh.rex.pop with
      | some (seq, rex) =>
        let sh := { sh with
          rex := rex
          stats := { sh.stats with rexQueueLen := rex.set.card } }
        let scratch :=
          if b.rexIdx = p.rexScratch.length then p.rexScratch ++ [List.replicate (bufLen cfg) 0]
          else p.rexScratch
        some (sh, { p with rexScratch := scratch }, .fillRex b seq)
      | none => some (sh, p, if p.newDone then .flush b else .tryRecv b)
    else some (sh, p, .flush b)
  | .fillRex b seq =>
    match p.rexScratch[b.rexIdx]? with
    | none => none
    | some buf =>
      match fillRetransmit prim cfg env.toReadEnv buf seq with
      | .panic => none
      | .nothing buf => some (sh, { p with rexScratch := p.rexScratch.set b.rexIdx buf }, .build b)
      | .pdu item sealed =>
        some (sh.record sealed, { p with rexScratch := p.rexScratch.set b.rexIdx item.buf },
          .stampRex b item.size)
  | .stampRex b size =>
    match p.rexScratch[b.rexIdx]? with
    | none => none
    | some buf =>
      let (tick, buf) := attachTick sh.tick env.now buf
      let b := { b with
        out := b.out ++ [buf.take size]
        rexBytes := b.rexBytes + size
        rexN := b.rexN + 1
        rexIdx := b.rexIdx + 1
        built := b.built + 1 }
      some ({ sh with tick := tick }, { p with rexScratch := p.rexScratch.set (b.rexIdx - 1) buf },
        .build b)
  | .tryRecv b =>
    match sh.ready with
    | item :: ready => some ({ sh with ready := ready }, p, .stampNew b item)
    | [] =>
      if sh.readyClosed then some (sh, { p with newDone := true }, .build b)
      else some (sh, p, .build { b with built := b.toSend })
  | .stampNew b item =>
    let (tick, buf) := attachTick sh.tick env.now item.buf
    let b := { b with
      out := b.out ++ [buf.take item.size]
      newBytes := b.newBytes + item.size
      newN := b.newN + 1
      newBufs := b.newBufs ++ [buf]
      built := b.built + 1 }
    some ({ sh with tick := tick }, p, .build b)
  | .flush b =>
    let stats := { sh.stats with
      retransSent := sh.stats.retransSent + b.rexN
      packetsSent := sh.stats.packetsSent + b.rexN + b.newN
      bytesSent := sh.stats.bytesSent + b.rexBytes + b.newBytes }
    some ({ sh with wire := b.out.reverse ++ sh.wire, stats := stats }, p, .giveBack b.newBufs)
  | .giveBack [] => some (sh, p, .fin)
  | .giveBack (buf :: bufs) =>
    if sh.free.length < poolCap then some ({ sh with free := sh.free ++ [buf] }, p, .giveBack bufs)
    else none
  | .fin =>
    if p.newDone ∧ sh.rex.heap.isEmpty then some ({ sh with wire := finPdu cfg :: sh.wire }, p, .top)
    else some (sh, p, .top)
  | .storeDone res => some ({ sh with done := true }, p, .join res)
  | .join _ | .returned _ => none

/-! ## Feedback -/

inductive FeedbackPc
  | top
  | recv
  | setTick (fh : FeedbackHeader) (nacks : List NackEntry) (t2 : UInt64)
  | pushNacks (fh : FeedbackHeader) (nacks : List NackEntry)
  | storeRate (fh : FeedbackHeader)
  | storeHi (fh : FeedbackHeader)
  | storeDone
  | exited

/-- The FEEDBACK PDU of this session in a datagram, if it is one. -/
def feedbackOf (data : Bytes) : Option (FeedbackHeader × List NackEntry) :=
  let data := data.take 2048
  if pduType data ≠ pduFeedback then none
  else (decodeFeedback data).filter fun (fh, _) => fh.session = cfg.session

/-- One step of the feedback thread. -/
def feedbackStep (sh : Shared) (env : Env) : FeedbackPc → Option (Shared × FeedbackPc)
  | .top => some (sh, if sh.done || sh.shouldStop then .exited else .recv)
  | .recv =>
    match env.recv with
    | .timeout => some (sh, .top)
    | .fatal _ => some (sh, .exited)
    | .datagram data addr =>
      if sh.peer ≠ some addr then some (sh, .top)
      else
        match feedbackOf cfg data with
        | none => some (sh, .top)
        | some (fh, nacks) => some (sh, .setTick fh nacks env.now)
  | .setTick fh nacks t2 =>
    some ({ sh with tick := ⟨true, fh.tick, fh.tickIsNetwork, t2⟩ }, .pushNacks fh nacks)
  | .pushNacks fh nacks =>
    if nacks.isEmpty then some (sh, .storeRate fh)
    else
      let rex := sh.rex.pushAll nacks
      let stats := { sh.stats with
        nacksRecv := sh.stats.nacksRecv + nacks.length
        rexQueueLen := rex.set.card }
      some ({ sh with rex := rex, stats := stats }, .storeRate fh)
  | .storeRate fh =>
    if 0 < fh.targetRate then
      let target :=
        match cfg.rate.mode with
        | .adaptive => fh.targetRate.toNat
        | .fixed => min fh.targetRate.toNat sh.configuredTargetBps
      let stats := { sh.stats with targetRateBps := effectiveRate sh.control target }
      some ({ sh with targetBps := target, stats := stats }, .storeHi fh)
    else some (sh, .storeHi fh)
  | .storeHi fh =>
    some ({ sh with stats := { sh.stats with hiContig := fh.hiContig.toNat } },
      if fh.done then .storeDone else .top)
  | .storeDone => some ({ sh with done := true }, .exited)
  | .exited => none

/-! ## The whole sender -/

structure State where
  sh : Shared
  pacer : Pacer
  pacerPc : PacerPc
  prefetch : PrefetchPc
  feedback : FeedbackPc

/-- The rate a sender starts with. -/
def initRate : Nat :=
  let init := if cfg.rate.targetBps = 0 then cfg.rate.maxBps else cfg.rate.targetBps
  match cfg.rate.mode with
  | .adaptive =>
    let maxBps := if cfg.rate.maxBps = 0 then 2 ^ 64 - 1 else cfg.rate.maxBps
    ((cfg.warmStart.filter fun w => 0 < w.rateBps).map fun w => min w.rateBps maxBps).getD init
  | .fixed => init

/-- `Sender::new` and the start of `run`. -/
def newSender : State where
  sh :=
    { peer := cfg.peer
      targetBps := initRate cfg
      configuredTargetBps := initRate cfg
      control := cfg.control
      free := List.replicate poolCap (List.replicate (bufLen cfg) 0)
      stats :=
        { cfg.stats with
          totalBytes := asUsize cfg.fileSize
          totalBlocks := cfg.totalBlocks.toNat
          blockSize := cfg.blockSize
          targetRateBps := initRate cfg } }
  pacer := ({ curRate := 0, batch := 1 } : Pacer).recompute cfg (initRate cfg)
  pacerPc := if cfg.peer.isSome then .top else .waitForPeer
  prefetch := .borrow 0
  feedback := .top

inductive Action
  | prefetch (env : Env)
  | pacer (env : Env)
  | feedback (env : Env)
  /-- The end of `run`: the threads are joined. -/
  | join
  | stop
  | control (op : TransferControl.Op)

/-- One step of the sender. The threads are started once the receiver's address is known. -/
def step (s : State) : Action → Option State
  | .prefetch env =>
    if s.sh.peer.isNone then none
    else (prefetchStep prim cfg s.sh env s.prefetch).map fun (sh, pc) =>
      { s with sh := sh, prefetch := pc }
  | .pacer env => (pacerStep prim cfg s.sh env s.pacer s.pacerPc).map fun (sh, p, pc) =>
      { s with sh := sh, pacer := p, pacerPc := pc }
  | .feedback env =>
    if s.sh.peer.isNone then none
    else (feedbackStep cfg s.sh env s.feedback).map fun (sh, pc) =>
      { s with sh := sh, feedback := pc }
  | .join =>
    match s.pacerPc, s.prefetch, s.feedback with
    | .join res, .exited, .exited => some { s with pacerPc := .returned res }
    | _, _, _ => none
  | .stop => some { s with sh := { s.sh with stop := true } }
  | .control op => s.sh.control.map fun c =>
      { s with sh := { s.sh with control := some (c.apply op) } }

end

end Sender

end Girth
