import Girth.Losstracker
import Girth.Receiver.Packet
import Mathlib.Data.List.AList

/-!
# The receiver as a machine of threads

`Receiver_::run` starts any number of ingest workers, one flusher and one feedback thread, and waits
for them. Each thread is a program counter with the local variables it still needs, and one step of a
thread is one of its accesses to shared state (an atomic operation, one critical section, one system
call) together with the local computation around it. An `Action` names the thread that moves and
carries what the environment decides in that step: the datagrams received, the clock, the result of
a write. The stop flag and the control handle move on their own.

The shared state carries a history variable, `trace`: the sink writes and the FEEDBACK PDUs so far,
newest first. The statistics are those the threads maintain; counters bumped right next to another
access move together with it.
-/

namespace Girth

open Lib

namespace Receiver

/-! ## Shared state -/

structure RttState where
  path : RttEstimator
  net : RttEstimator
  rate : RateController

/-- The two ways a block reaches the sink. -/
inductive WritePath
  | direct
  | flush
  deriving DecidableEq, Repr

/-- The result of `write_all_at`; a failed one may have written some bytes first. -/
inductive WriteResult
  | ok
  | err (written : Nat)
  deriving DecidableEq, Repr

inductive Event
  | write (path : WritePath) (seq : Nat) (buf : Bytes) (res : WriteResult)
  | feedback (peer : SocketAddr) (fh : FeedbackHeader) (nacks : List NackEntry)
  deriving DecidableEq

structure Shared (total : Nat) where
  bm : RecvBitmap total
  readyBm : RecvBitmap total
  maxSeen : Nat
  seenAny : Bool
  allSent : Bool
  flushedBlocks : Nat
  done : Bool
  peer : Option SocketAddr
  rtt : RttState
  stage : AList fun _ : Nat => Bytes
  /-- Buffers in the free channel. -/
  free : Nat
  /-- A wake-up waits in the flush channel, which holds one. -/
  flushSignal : Bool
  sink : Sink
  stop : Bool
  control : Option TransferControl
  stats : Stats
  trace : List Event

/-- What the environment decides in a step. -/
structure Datagram where
  data : Bytes
  addr : Option SocketAddr

inductive Recv
  | batch (msgs : List Datagram)
  | timeout
  | fatal

structure Env where
  recv : Recv := .timeout
  now : UInt64 := 0
  io : WriteResult := .ok

namespace Shared

variable {total : Nat} (sh : Shared total)

def shouldStop : Bool := Girth.shouldStop sh.stop sh.control

def signalFlush : Shared total := { sh with flushSignal := true }

def setReady (seq : Nat) : Shared total := { sh with readyBm := (sh.readyBm.setAndTest seq).1 }

/-- A call of `write_all_at` for a block, with its result. -/
def writeBlock (blockSize : Nat) (path : WritePath) (seq : Nat) (buf : Bytes) (res : WriteResult) :
    Shared total :=
  { sh with
    sink :=
      match res with
      | .ok => sh.sink.writeAllAt (seq * blockSize) buf
      | .err 0 => sh.sink
      | .err written => sh.sink.writeAllAt (seq * blockSize) (buf.take written)
    trace := .write path seq buf res :: sh.trace }

/-- Convert an echoed timing tick into an RTT sample. -/
def applyTick (h : DataHeader) (now : UInt64) : Shared total :=
  let sample : ℚ := (now.toNat : ℚ) - h.echoTick.toNat
  if ¬ (0 ≤ sample ∧ sample ≤ 60000000) then sh
  else if h.flags &&& flagTickN != 0 then
    let net := (sh.rtt.net.sample sample).1
    { sh with
      rtt := { sh.rtt with net := net }
      stats := { sh.stats with srttNetUs := asU64 net.srtt, baseRttUs := asU64 net.minRtt } }
  else
    let (path, rto) := sh.rtt.path.sample sample
    { sh with
      rtt := { sh.rtt with path := path }
      stats := { sh.stats with srttPathUs := asU64 path.srtt, rtoUs := asU64 rto } }

end Shared

/-! ## Ingest -/

/-- Inside `handle_packet` for an accepted DATA PDU: the next access. -/
inductive DataPc
  | learn (addr : Option SocketAddr)
  | tick
  | seenAny
  | maxSeen
  | setBm
  | count
  | tryPool
  | stage
  | direct
  | ready (path : WritePath)
  | signal
  deriving DecidableEq

inductive IngestPc (total : Nat)
  | top
  | recv
  | timedOut
  /-- Between two messages of a batch. -/
  | batch (rest : List Datagram)
  | finLearn (addr : Option SocketAddr) (rest : List Datagram)
  | finStore (rest : List Datagram)
  | data (pc : DataPc) (pkt : DataPkt total) (rest : List Datagram)
  | exited

def Datagram.cut (m : Datagram) (len : Nat) : Datagram := { m with data := m.data.take len }

section

variable (prim : Primitives) (cfg : RecvConfig)

def dataStep (sh : Shared cfg.totalBlocks) (pkt : DataPkt cfg.totalBlocks) (rest : List Datagram)
    (env : Env) : DataPc → Shared cfg.totalBlocks × IngestPc cfg.totalBlocks
  | .learn addr =>
    let (peer, ok) := cfg.learnPeer sh.peer addr
    let sh := { sh with peer := peer }
    if !ok then (sh, .batch rest)
    else if pkt.header.flags &&& flagHasTick != 0 then (sh, .data .tick pkt rest)
    else (sh, .data .seenAny pkt rest)
  | .tick => (sh.applyTick pkt.header env.now, .data .seenAny pkt rest)
  | .seenAny => ({ sh with seenAny := true }, .data .maxSeen pkt rest)
  | .maxSeen => ({ sh with maxSeen := max sh.maxSeen pkt.seq }, .data .setBm pkt rest)
  | .setBm =>
    let (bm, first) := sh.bm.setAndTest pkt.seq
    let sh := { sh with bm := bm }
    if first then (sh, .data .count pkt rest)
    else ({ sh with stats := { sh.stats with dupRecv := sh.stats.dupRecv + 1 } }, .batch rest)
  | .count =>
    let stats := { sh.stats with
      payloadRecv := sh.stats.payloadRecv + pkt.payload.length
      blocksWritten := sh.stats.blocksWritten + 1 }
    ({ sh with stats := stats }, .data .tryPool pkt rest)
  | .tryPool =>
    match sh.free with
    | 0 => (sh, .data .direct pkt rest)
    | free + 1 => ({ sh with free := free }, .data .stage pkt rest)
  | .stage =>
    ({ sh with stage := sh.stage.insert pkt.seq pkt.payload }, .data (.ready .flush) pkt rest)
  | .direct =>
    let sh := sh.writeBlock cfg.blockSize .direct pkt.seq pkt.payload env.io
    match env.io with
    | .ok => (sh, .data (.ready .direct) pkt rest)
    | .err _ => (sh, .batch rest)
  | .ready _ => (sh.setReady pkt.seq, .data .signal pkt rest)
  | .signal => (sh.signalFlush, .batch rest)

/-- One step of an ingest worker. -/
def ingestStep (sh : Shared cfg.totalBlocks) (env : Env) :
    IngestPc cfg.totalBlocks → Option (Shared cfg.totalBlocks × IngestPc cfg.totalBlocks)
  | .top => some (sh, if sh.shouldStop || sh.done then .exited else .recv)
  | .recv =>
    match env.recv with
    | .batch msgs => some (sh, .batch (msgs.map (·.cut cfg.bufLen)))
    | .timeout => some (sh, .timedOut)
    | .fatal => some (sh, .exited)
  | .timedOut => some (sh, if sh.done || sh.shouldStop then .exited else .top)
  | .batch [] => some (sh, .top)
  | .batch (m :: rest) =>
    if m.data.isEmpty then some (sh, .batch rest)
    else
      let stats := { sh.stats with
        packetsRecv := sh.stats.packetsRecv + 1
        bytesRecv := sh.stats.bytesRecv + m.data.length }
      match cfg.classify prim m.data m.addr with
      | .ignore => some ({ sh with stats := stats }, .batch rest)
      | .corrupt =>
        some ({ sh with stats := { stats with corruptRecv := stats.corruptRecv + 1 } }, .batch rest)
      | .fin => some ({ sh with stats := stats }, .finLearn m.addr rest)
      | .data pkt => some ({ sh with stats := stats }, .data (.learn m.addr) pkt rest)
  | .finLearn addr rest =>
    let (peer, ok) := cfg.learnPeer sh.peer addr
    some ({ sh with peer := peer }, if ok then .finStore rest else .batch rest)
  | .finStore rest => some ({ sh with allSent := true }, .batch rest)
  | .data pc pkt rest => some (dataStep cfg sh pkt rest env pc)
  | .exited => none

/-! ## The flusher -/

inductive FlusherPc
  | inner (progressed : Bool)
  | remove
  | write (buf : Bytes)
  | free
  | advance
  | stopCheck
  | wait
  | exited
  deriving DecidableEq

structure Flusher where
  pc : FlusherPc
  writeFront : Nat

/-- The head of the outer loop. -/
def flusherOuter (front : Nat) : FlusherPc :=
  if front < cfg.totalBlocks then .inner false else .exited

/-- One step of the flusher. -/
def flusherStep (sh : Shared cfg.totalBlocks) (env : Env) (f : Flusher) :
    Option (Shared cfg.totalBlocks × Flusher) :=
  match f.pc with
  | .inner progressed =>
    if f.writeFront < cfg.totalBlocks ∧ sh.readyBm.isSet f.writeFront then
      some (sh, { f with pc := .remove })
    else if f.writeFront ≥ cfg.totalBlocks then some (sh, { f with pc := .exited })
    else if progressed then some (sh, { f with pc := flusherOuter cfg f.writeFront })
    else some (sh, { f with pc := .stopCheck })
  | .remove =>
    let sh' := { sh with stage := sh.stage.erase f.writeFront }
    match sh.stage.lookup f.writeFront with
    | some buf => some (sh', { f with pc := .write buf })
    | none => some (sh', { f with pc := .advance })
  | .write buf =>
    -- an error is only logged
    some (sh.writeBlock cfg.blockSize .flush f.writeFront buf env.io, { f with pc := .free })
  | .free =>
    -- the channel is bounded: sending waits for room
    if sh.free < cfg.poolDepth then some ({ sh with free := sh.free + 1 }, { f with pc := .advance })
    else none
  | .advance =>
    some ({ sh with flushedBlocks := f.writeFront + 1 }, ⟨.inner true, f.writeFront + 1⟩)
  | .stopCheck => some (sh, { f with pc := if sh.shouldStop then .exited else .wait })
  | .wait => some ({ sh with flushSignal := false }, { f with pc := flusherOuter cfg f.writeFront })
  | .exited => none

/-! ## Feedback -/

/-- The local variables of one round of the feedback loop. -/
structure Locals where
  now : ℚ
  pathRto : ℚ
  target : Nat
  hi : Nat
  complete : Bool

inductive FeedbackPc
  | top
  | rtt
  | advance (l : Locals)
  | loadMaxSeen (l : Locals)
  | loadAllSent (l : Locals) (ms : Nat)
  | loadSeen (l : Locals) (ms : Nat)
  | scanHoles (l : Locals) (maxSeen due seq : Nat)
  | complete (l : Locals)
  | storeHi (l : Locals)
  | peer (l : Locals)
  | collectDue (l : Locals) (peer : SocketAddr) (reDue max : Nat) (out : List Nat)
  | netTick (l : Locals) (peer : SocketAddr) (due : List Nat)
  | send (l : Locals) (peer : SocketAddr) (due : List Nat) (isNet : Bool)
  | finish (l : Locals)
  | exited

structure Feedback where
  pc : FeedbackPc
  scanner : LossScanner
  lastNetTick : UInt64
  doneSends : Nat

/-- The NACKs a round may send: what the sender can resend per interval at the target rate. -/
def nackCap (target : Nat) : Nat :=
  let blockBits : ℚ := ((cfg.blockSize + dataHeaderSize : Nat) : ℚ) * 8
  if 0 < target ∧ 0 < blockBits then
    let perInterval := asU64 (target / blockBits * ((cfg.feedbackIntervalUs : ℚ) / 1000000))
    let perInterval := if perInterval < 1 then 1 else perInterval
    if perInterval < cfg.maxNacksPerPdu then perInterval else cfg.maxNacksPerPdu
  else cfg.maxNacksPerPdu

def nackEntries (due : List Nat) : List NackEntry :=
  due.map fun s => ⟨UInt64.ofNat s, (UInt64.ofNat s).toInt64⟩

def feedbackHeader (l : Locals) (isNet : Bool) (tick : UInt64) : FeedbackHeader :=
  { tickIsNetwork := isNet
    session := cfg.session
    tick := tick
    targetRate := UInt64.ofNat l.target
    hiContig := UInt64.ofNat l.hi
    done := l.complete }

/-- One step of the feedback thread. -/
def feedbackStep (sh : Shared cfg.totalBlocks) (env : Env) (fb : Feedback) :
    Option (Shared cfg.totalBlocks × Feedback) :=
  match fb.pc with
  | .top => some (sh, { fb with pc := if sh.shouldStop then .exited else .rtt })
  | .rtt =>
    -- a panicking clamp aborts the process
    (sh.rtt.rate.update sh.rtt.net.srtt sh.rtt.net.minRtt).map fun (rate, target) =>
      let target := effectiveRate sh.control target
      ({ sh with
          rtt := { sh.rtt with rate := rate }
          stats := { sh.stats with targetRateBps := target } },
        { fb with pc := .advance ⟨f64 env.now.toNat, sh.rtt.path.rto, target, 0, false⟩ })
  | .advance l =>
    match fb.scanner.advanceIter sh.bm.isSet with
    | some sc => some (sh, { fb with scanner := sc })
    | none => some (sh, { fb with pc := .loadMaxSeen { l with hi := fb.scanner.hiContig } })
  | .loadMaxSeen l => some (sh, { fb with pc := .loadAllSent l sh.maxSeen })
  | .loadAllSent l ms =>
    let ms := if sh.allSent ∧ 0 < cfg.totalBlocks then cfg.totalBlocks - 1 else ms
    some (sh, { fb with pc := .loadSeen l ms })
  | .loadSeen l ms =>
    if (sh.seenAny || sh.allSent) ∧ fb.scanner.total ≠ 0 then
      let due := LossScanner.dueAt f64 l.now l.pathRto
      some (sh, { fb with pc := .scanHoles l (fb.scanner.scanTop ms) due fb.scanner.nextScan })
    else some (sh, { fb with pc := .complete l })
  | .scanHoles l maxSeen due seq =>
    match fb.scanner.scanHolesIter sh.bm.isSet maxSeen due seq with
    | some (sc, seq) => some (sh, { fb with scanner := sc, pc := .scanHoles l maxSeen due seq })
    | none => some (sh, { fb with scanner := fb.scanner.scanHolesEnd maxSeen, pc := .complete l })
  | .complete l =>
    let complete := sh.allSent && sh.flushedBlocks == cfg.totalBlocks
    some (sh, { fb with pc := .storeHi { l with complete := complete } })
  | .storeHi l =>
    let stats := { sh.stats with hiContig := l.hi, rexQueueLen := fb.scanner.pendingCount }
    some ({ sh with stats := stats }, { fb with pc := .peer l })
  | .peer l =>
    match sh.peer with
    | some p =>
      let reDue := LossScanner.dueAt f64 l.now l.pathRto
      some (sh, { fb with pc := .collectDue l p reDue (nackCap cfg l.target) [] })
    | none => some (sh, { fb with pc := .top })
  | .collectDue l p reDue max out =>
    match fb.scanner.collectDueIter f64 sh.bm.isSet l.now reDue max out with
    | some (sc, out) => some (sh, { fb with scanner := sc, pc := .collectDue l p reDue max out })
    | none => some (sh, { fb with pc := .netTick l p out })
  | .netTick l p due =>
    let isNet : Bool := cfg.netTickIntervalUs ≤ (env.now - fb.lastNetTick).toNat
    some (sh, { fb with
      lastNetTick := if isNet then env.now else fb.lastNetTick
      pc := .send l p due isNet })
  | .send l p due isNet =>
    let nacks := nackEntries due
    let fb := { fb with pc := .finish l }
    match env.io with
    | .ok =>
      some ({ sh with
        stats := { sh.stats with nacksSent := sh.stats.nacksSent + nacks.length }
        trace := .feedback p (feedbackHeader cfg l isNet env.now) nacks :: sh.trace }, fb)
    | .err _ => some (sh, fb)
  | .finish l =>
    if l.complete then
      let fb := { fb with doneSends := fb.doneSends + 1 }
      if 8 ≤ fb.doneSends then some ({ sh with done := true }, { fb with pc := .exited })
      else some (sh, { fb with pc := .top })
    else some (sh, { fb with pc := .top })
  | .exited => none

/-! ## The whole receiver -/

inductive MainPc
  | waiting
  | joinFeedback
  | joinIngest
  | signal
  | joinFlusher
  | returned (res : Except String Unit)

/-- A receiver with `n` ingest workers. -/
structure State (n : Nat) where
  sh : Shared cfg.totalBlocks
  workers : Fin n → IngestPc cfg.totalBlocks
  flusher : Flusher
  feedback : Feedback
  main : MainPc

/-- What `new_receiver` stores in the statistics. -/
def initStats : Stats :=
  let stats :=
    { cfg.stats with
      totalBytes := asUsize cfg.fileSize
      totalBlocks := cfg.totalBlocks
      blockSize := cfg.blockSize
      targetRateBps := cfg.rate.targetBps }
  match cfg.warmStart with
  | none => stats
  | some warm =>
    { stats with
      targetRateBps :=
        if warm.rateBps = 0 then cfg.rate.targetBps
        else if cfg.rate.maxBps = 0 then warm.rateBps
        else min warm.rateBps cfg.rate.maxBps
      srttNetUs := warm.srttNetUs
      baseRttUs := warm.baseRttUs }

@[simp] theorem initStats_hiContig : (initStats cfg).hiContig = cfg.stats.hiContig := by
  unfold initStats
  split <;> rfl

@[simp] theorem initStats_payloadRecv : (initStats cfg).payloadRecv = cfg.stats.payloadRecv := by
  unfold initStats
  split <;> rfl

@[simp] theorem initStats_blocksWritten : (initStats cfg).blocksWritten = cfg.stats.blocksWritten := by
  unfold initStats
  split <;> rfl

@[simp] theorem initStats_dupRecv : (initStats cfg).dupRecv = cfg.stats.dupRecv := by
  unfold initStats
  split <;> rfl

/-- `new_receiver` and the start of the threads; nothing if the warm start makes a clamp panic. -/
def newReceiver (n : Nat) (sink : Sink) : Option (State cfg n) :=
  let warm := cfg.warmStart.getD {}
  ((RateController.new cfg.rate).setRate warm.rateBps).map fun rate =>
    { sh :=
        { bm := RecvBitmap.new cfg.totalBlocks
          readyBm := RecvBitmap.new cfg.totalBlocks
          maxSeen := 0
          seenAny := false
          allSent := false
          flushedBlocks := 0
          done := false
          peer := none
          rtt := ⟨.new, RttEstimator.new.seed warm.srttNetUs warm.baseRttUs, rate⟩
          stage := ∅
          free := cfg.poolDepth
          flushSignal := false
          sink := sink
          stop := false
          control := cfg.control
          stats := initStats cfg
          trace := [] }
      workers := fun _ => .top
      flusher := ⟨flusherOuter cfg 0, 0⟩
      feedback := ⟨.top, LossScanner.new cfg.totalBlocks, 0, 0⟩
      main := .waiting }

variable {cfg} {n : Nat}

def FeedbackPc.isExited : FeedbackPc → Bool
  | .exited => true
  | _ => false

def IngestPc.isExited {total : Nat} : IngestPc total → Bool
  | .exited => true
  | _ => false

/-- The main thread: wait for completion or stop, join feedback and ingest, let the flusher drain,
then decide by the contiguous mark. -/
def mainStep (s : State cfg n) : Option (State cfg n) :=
  match s.main with
  | .waiting =>
    if s.sh.done || s.sh.shouldStop then some { s with main := .joinFeedback } else some s
  | .joinFeedback => if s.feedback.pc.isExited then some { s with main := .joinIngest } else none
  | .joinIngest =>
    if ∀ i, (s.workers i).isExited = true then some { s with main := .signal } else none
  | .signal => some { s with sh := s.sh.signalFlush, main := .joinFlusher }
  | .joinFlusher =>
    if s.flusher.pc = .exited then
      let hi := s.sh.stats.hiContig
      let total := cfg.totalBlocks
      if hi ≠ total then
        let err := s!"receiver stopped before completion ({hi}/{total} blocks)"
        some { s with main := .returned (.error err) }
      else some { s with main := .returned (.ok ()) }
    else none
  | .returned _ => none

inductive Action (n : Nat)
  | ingest (i : Fin n) (env : Env)
  | flusher (env : Env)
  | feedback (env : Env)
  | main
  /-- The owner of the stop flag sets it. -/
  | stop
  | control (op : TransferControl.Op)

def step (s : State cfg n) : Action n → Option (State cfg n)
  | .ingest i env => (ingestStep prim cfg s.sh env (s.workers i)).map fun (sh, pc) =>
      { s with sh := sh, workers := Function.update s.workers i pc }
  | .flusher env => (flusherStep cfg s.sh env s.flusher).map fun (sh, f) =>
      { s with sh := sh, flusher := f }
  | .feedback env => (feedbackStep cfg s.sh env s.feedback).map fun (sh, fb) =>
      { s with sh := sh, feedback := fb }
  | .main => mainStep s
  | .stop => some { s with sh := { s.sh with stop := true } }
  | .control op => s.sh.control.map fun c =>
      { s with sh := { s.sh with control := some (c.apply op) } }

end

end Receiver

end Girth
