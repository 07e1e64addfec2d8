import Girth.Codec
import Girth.Sender.Machine

/-!
# What one step of each sender thread can do

The step functions of the sender are taken apart here once. The frame lemmas say which shared fields
a thread leaves alone. `PrefetchMove` is a step of the prefetch thread and `PacerStep` one of the pacing
loop; `FeedbackMove` lists what the feedback thread does with a FEEDBACK, and `PacerMove` what the
pacing loop does to the PDUs it hands over (`handed`), to the retransmit queue, to the pending tick and
to the ready channel; everything else these two do is one quiet move. `StepMove` is a step of the whole
sender. `buildPdu_header` and
`attachTick_header` follow the header of a PDU from the moment it is built until it is handed over.
-/

namespace Girth.Sender

open Lib

variable {prim : Primitives} {cfg : SendConfig} {sh sh' : Shared} {env : Env}

/-! ## The prefetch thread -/

/-- What a step of the prefetch thread does. -/
inductive PrefetchMove (prim : Primitives) (cfg : SendConfig) (sh : Shared) (env : Env) :
    PrefetchPc → Shared → PrefetchPc → Prop
  | leave {seq} (hexit : ¬ seq < cfg.totalBlocks ∨ sh.shouldStop ∨ sh.done) :
      PrefetchMove prim cfg sh env (.borrow seq) { sh with readyClosed := true } .exited
  | borrow {seq} (hseq : seq < cfg.totalBlocks) :
      PrefetchMove prim cfg sh env (.borrow seq) sh (.recvFree seq)
  | retry {seq} : PrefetchMove prim cfg sh env (.recvFree seq) sh (.borrow seq)
  | take {seq buf free} (hfree : sh.free = buf :: free) :
      PrefetchMove prim cfg sh env (.recvFree seq) { sh with free := free } (.fill seq buf)
  /-- The read fails. -/
  | fail {seq buf buf'} (hbuild : prefetchPdu prim cfg env.toReadEnv buf seq = .nothing buf') :
      PrefetchMove prim cfg sh env (.fill seq buf) { sh with readyClosed := true } .exited
  | fill {seq buf item sealed}
      (hbuild : prefetchPdu prim cfg env.toReadEnv buf seq = .pdu item sealed) :
      PrefetchMove prim cfg sh env (.fill seq buf) (sh.record sealed) (.publish seq item)
  | publish {seq item} :
      PrefetchMove prim cfg sh env (.publish seq item) { sh with ready := sh.ready ++ [item] }
        (.borrow (seq + 1))

theorem prefetchStep_move {pc pc' : PrefetchPc}
    (h : prefetchStep prim cfg sh env pc = some (sh', pc')) :
    PrefetchMove prim cfg sh env pc sh' pc' := by
  cases pc with
  | borrow seq =>
    simp only [prefetchStep] at h
    split at h <;> cases h
    · rename_i hexit
      exact .leave hexit
    · rename_i hgo
      push Not at hgo
      exact .borrow hgo.1
  | recvFree seq =>
    simp only [prefetchStep] at h
    split at h <;> cases h
    · exact .retry
    · rename_i hfree
      exact .take hfree
  | fill seq buf =>
    simp only [prefetchStep] at h
    split at h <;> cases h
    · rename_i hbuild
      exact .fail hbuild
    · rename_i hbuild
      exact .fill hbuild
  | publish seq item =>
    simp only [prefetchStep] at h
    split at h <;> cases h
    exact .publish
  | exited => cases h

/-- The shared fields that the prefetch thread never writes. -/
structure PrefetchFrame (sh sh' : Shared) : Prop where
  targetBps : sh'.targetBps = sh.targetBps
  configuredTargetBps : sh'.configuredTargetBps = sh.configuredTargetBps
  rex : sh'.rex = sh.rex
  tick : sh'.tick = sh.tick
  wire : sh'.wire = sh.wire
  hiContig : sh'.stats.hiContig = sh.stats.hiContig
  basis : sh'.stats.basis = sh.stats.basis

theorem prefetchStep_frame {pc pc' : PrefetchPc}
    (h : prefetchStep prim cfg sh env pc = some (sh', pc')) : PrefetchFrame sh sh' := by
  cases prefetchStep_move h <;> exact ⟨rfl, rfl, rfl, rfl, rfl, rfl, rfl⟩

/-! ## The feedback thread -/

/-- The shared fields that the feedback thread never writes. -/
structure FeedbackFrame (sh sh' : Shared) : Prop where
  configuredTargetBps : sh'.configuredTargetBps = sh.configuredTargetBps
  free : sh'.free = sh.free
  ready : sh'.ready = sh.ready
  readyClosed : sh'.readyClosed = sh.readyClosed
  wire : sh'.wire = sh.wire
  seals : sh'.seals = sh.seals
  basis : sh'.stats.basis = sh.stats.basis

/-- The FEEDBACK of this session in what arrives. -/
def Env.feedback (cfg : SendConfig) (env : Env) : Option (FeedbackHeader × List NackEntry) :=
  match env.recv with
  | .datagram data _ => feedbackOf cfg data
  | .timeout | .fatal _ => none

/-- Where the datagram comes from. -/
def Env.addr (env : Env) : Option SocketAddr :=
  match env.recv with
  | .datagram _ addr => some addr
  | .timeout | .fatal _ => none

/-- The rate a FEEDBACK makes the sender hold. -/
def adoptRate (cfg : SendConfig) (sh : Shared) (fh : FeedbackHeader) : Nat :=
  if 0 < fh.targetRate then
    match cfg.rate.mode with
    | .adaptive => fh.targetRate.toNat
    | .fixed => min fh.targetRate.toNat sh.configuredTargetBps
  else sh.targetBps

/-- Working on a FEEDBACK whose tick, NACKs and rate are not all taken over yet. -/
def FeedbackPc.pending : FeedbackPc → Option (FeedbackHeader × List NackEntry)
  | .setTick fh nacks _ | .pushNacks fh nacks => some (fh, nacks)
  | .storeRate fh => some (fh, [])
  | .top | .recv | .storeHi _ | .storeDone | .exited => none

/-- A step of the feedback thread, with what it has found. -/
inductive FeedbackStep (cfg : SendConfig) (sh : Shared) (env : Env) :
    FeedbackPc → Shared → FeedbackPc → Prop
  | leave (hend : (sh.done || sh.shouldStop) = true) : FeedbackStep cfg sh env .top sh .exited
  | listen (hend : (sh.done || sh.shouldStop) = false) : FeedbackStep cfg sh env .top sh .recv
  | ignore : FeedbackStep cfg sh env .recv sh .top
  | fatal {err} (hrecv : env.recv = .fatal err) : FeedbackStep cfg sh env .recv sh .exited
  | arrive {data addr fh nacks} (hrecv : env.recv = .datagram data addr) (hpeer : sh.peer = some addr)
      (hmsg : feedbackOf cfg data = some (fh, nacks)) :
      FeedbackStep cfg sh env .recv sh (.setTick fh nacks env.now)
  | setTick {fh nacks t2} :
      FeedbackStep cfg sh env (.setTick fh nacks t2)
        { sh with tick := ⟨true, fh.tick, fh.tickIsNetwork, t2⟩ } (.pushNacks fh nacks)
  | noNacks {fh} : FeedbackStep cfg sh env (.pushNacks fh []) sh (.storeRate fh)
  | pushNacks {fh nacks} :
      FeedbackStep cfg sh env (.pushNacks fh nacks)
        { sh with
          rex := sh.rex.pushAll nacks
          stats := { sh.stats with
            nacksRecv := sh.stats.nacksRecv + nacks.length
            rexQueueLen := (sh.rex.pushAll nacks).set.card } } (.storeRate fh)
  | storeRate {fh} (hpos : 0 < fh.targetRate) :
      FeedbackStep cfg sh env (.storeRate fh)
        { sh with
          targetBps := adoptRate cfg sh fh
          stats := { sh.stats with targetRateBps := effectiveRate sh.control (adoptRate cfg sh fh) } }
        (.storeHi fh)
  | noRate {fh} (hzero : ¬ 0 < fh.targetRate) :
      FeedbackStep cfg sh env (.storeRate fh) sh (.storeHi fh)
  | storeHi {fh} (hdone : fh.done = false) :
      FeedbackStep cfg sh env (.storeHi fh)
        { sh with stats := { sh.stats with hiContig := fh.hiContig.toNat } } .top
  | last {fh} (hdone : fh.done = true) :
      FeedbackStep cfg sh env (.storeHi fh)
        { sh with stats := { sh.stats with hiContig := fh.hiContig.toNat } } .storeDone
  | storeDone : FeedbackStep cfg sh env .storeDone { sh with done := true } .exited

theorem feedbackStep_cases {pc pc' : FeedbackPc} (h : feedbackStep cfg sh env pc = some (sh', pc')) :
    FeedbackStep cfg sh env pc sh' pc' := by
  cases pc with
  | top =>
    cases h
    split_ifs with hend
    · exact .leave hend
    · exact .listen (by simpa using hend)
  | recv =>
    simp only [feedbackStep] at h
    split at h <;> rename_i hrecv
    · cases h
      exact .ignore
    · cases h
      exact .fatal hrecv
    · split_ifs at h with hpeer
      · cases h
        exact .ignore
      · split at h <;> rename_i hmsg <;> cases h
        · exact .ignore
        · exact .arrive hrecv (not_not.mp hpeer) hmsg
  | setTick fh nacks t2 =>
    cases h
    exact .setTick
  | pushNacks fh nacks =>
    simp only [feedbackStep] at h
    split_ifs at h with hempty <;> cases h
    · rw [List.isEmpty_iff.mp hempty]
      exact .noNacks
    · exact .pushNacks
  | storeRate fh =>
    simp only [feedbackStep] at h
    split_ifs at h with hpos <;> cases h
    · have hstore : FeedbackStep cfg sh env (.storeRate fh) _ _ := .storeRate hpos
      rwa [adoptRate, if_pos hpos] at hstore
    · exact .noRate hpos
  | storeHi fh =>
    cases h
    split_ifs with hdone
    · exact .last hdone
    · exact .storeHi (by simpa using hdone)
  | storeDone =>
    cases h
    exact .storeDone
  | exited => cases h

/-- What a step of the feedback thread does to the tick, the queue and the rate. -/
inductive FeedbackMove (cfg : SendConfig) (sh : Shared) (env : Env) :
    FeedbackPc → Shared → FeedbackPc → Prop
  | quiet {pc sh' pc'} (hframe : FeedbackFrame sh sh') (hpc : pc'.pending = none)
      (htarget : sh'.targetBps = sh.targetBps) (hrex : sh'.rex = sh.rex)
      (htick : sh'.tick = sh.tick) : FeedbackMove cfg sh env pc sh' pc'
  | arrive {fh nacks} (hmsg : env.feedback cfg = some (fh, nacks)) (haddr : env.addr = sh.peer) :
      FeedbackMove cfg sh env .recv sh (.setTick fh nacks env.now)
  | setTick {fh nacks t2} : FeedbackMove cfg sh env (.setTick fh nacks t2)
      { sh with tick := ⟨true, fh.tick, fh.tickIsNetwork, t2⟩ } (.pushNacks fh nacks)
  | pushNacks {fh nacks sh'} (hframe : FeedbackFrame sh sh')
      (htarget : sh'.targetBps = sh.targetBps) (hrex : sh'.rex = sh.rex.pushAll nacks)
      (htick : sh'.tick = sh.tick) :
      FeedbackMove cfg sh env (.pushNacks fh nacks) sh' (.storeRate fh)
  | storeRate {fh sh'} (hframe : FeedbackFrame sh sh') (htarget : sh'.targetBps = adoptRate cfg sh fh)
      (hrex : sh'.rex = sh.rex) (htick : sh'.tick = sh.tick) :
      FeedbackMove cfg sh env (.storeRate fh) sh' (.storeHi fh)

theorem feedbackStep_move {pc pc' : FeedbackPc} (h : feedbackStep cfg sh env pc = some (sh', pc')) :
    FeedbackMove cfg sh env pc sh' pc' := by
  cases feedbackStep_cases h with
  | arrive hrecv hpeer hmsg =>
    exact .arrive (by simpa only [Env.feedback, hrecv] using hmsg) (by rw [Env.addr, hrecv, hpeer])
  | setTick => exact .setTick
  | noNacks | pushNacks => exact .pushNacks ⟨rfl, rfl, rfl, rfl, rfl, rfl, rfl⟩ rfl rfl rfl
  | storeRate => exact .storeRate ⟨rfl, rfl, rfl, rfl, rfl, rfl, rfl⟩ rfl rfl rfl
  | noRate hzero =>
    exact .storeRate ⟨rfl, rfl, rfl, rfl, rfl, rfl, rfl⟩ (if_neg hzero).symm rfl rfl
  | _ => exact .quiet ⟨rfl, rfl, rfl, rfl, rfl, rfl, rfl⟩ rfl rfl rfl rfl

theorem feedbackStep_frame {pc pc' : FeedbackPc} (h : feedbackStep cfg sh env pc = some (sh', pc')) :
    FeedbackFrame sh sh' := by
  cases feedbackStep_move h with
  | quiet hframe => exact hframe
  | pushNacks hframe => exact hframe
  | storeRate hframe => exact hframe
  | arrive | setTick => exact ⟨rfl, rfl, rfl, rfl, rfl, rfl, rfl⟩

/-! ## The pacing loop -/

/-- The PDUs of the batch under construction. -/
def PacerPc.out : PacerPc → List Bytes
  | .build b | .fillRex b _ | .stampRex b _ | .tryRecv b | .stampNew b _ | .flush b => b.out
  | .waitForPeer | .top | .stopCheck | .pauseCheck | .rate | .giveBack _ | .fin | .storeDone _
  | .join _ | .returned _ => []

/-- Everything handed to the batch sender or the socket so far, oldest first. -/
def handed (sh : Shared) (pc : PacerPc) : List Bytes := sh.wire.reverse ++ pc.out

/-- In the middle of handing over a PDU. -/
def PacerPc.busy : PacerPc → Bool
  | .fillRex .. | .stampRex .. | .stampNew .. => true
  | _ => false

/-- The item taken from the ready channel and not handed over yet. -/
def PacerPc.item : PacerPc → Option Prefetched
  | .stampNew _ item => some item
  | _ => none

/-- The PDU in a pooled buffer. -/
def Prefetched.pdu (item : Prefetched) : Bytes := item.buf.take item.size

theorem batchSize_le (cfg : SendConfig) (rate : Nat) : batchSize cfg rate ≤ 64 := by
  unfold batchSize
  dsimp only
  split <;> omega

/-- A step of the pacing loop, with what it has found. -/
inductive PacerStep (prim : Primitives) (cfg : SendConfig) (sh : Shared) (env : Env) (p : Pacer) :
    PacerPc → Shared → Pacer → PacerPc → Prop
  | giveUp {err} : PacerStep prim cfg sh env p .waitForPeer sh p (.returned (.error err))
  | listen (hstop : sh.shouldStop = false) : PacerStep prim cfg sh env p .waitForPeer sh p .waitForPeer
  | meet {addr} (hstop : sh.shouldStop = false) :
      PacerStep prim cfg sh env p .waitForPeer { sh with peer := some addr } p .top
  | finish (hdone : sh.done = true) : PacerStep prim cfg sh env p .top sh p (.storeDone (.ok ()))
  | turn (hdone : sh.done = false) : PacerStep prim cfg sh env p .top sh p .stopCheck
  | stop (hstop : sh.shouldStop = true) :
      PacerStep prim cfg sh env p .stopCheck sh p (.storeDone (.error "sender stopped"))
  | goOn (hstop : sh.shouldStop = false) : PacerStep prim cfg sh env p .stopCheck sh p .pauseCheck
  | pause : PacerStep prim cfg sh env p .pauseCheck sh p .top
  | proceed : PacerStep prim cfg sh env p .pauseCheck sh p .rate
  | rate {r p'} (hr : r = effectiveRate sh.control sh.targetBps)
      (hp' : p' = if r ≠ p.curRate then p.recompute cfg r else p) :
      PacerStep prim cfg sh env p .rate { sh with stats := { sh.stats with targetRateBps := r } } p'
        (.build { toSend := p'.batch })
  /-- A NACKed block leaves the retransmit queue. -/
  | pop {b seq rex scratch} (hroom : b.built < b.toSend) (hpop : sh.rex.pop = some (seq, rex))
      (hscratch : scratch = if b.rexIdx = p.rexScratch.length then
        p.rexScratch ++ [List.replicate (bufLen cfg) 0] else p.rexScratch) :
      PacerStep prim cfg sh env p (.build b)
        { sh with rex := rex, stats := { sh.stats with rexQueueLen := rex.set.card } }
        { p with rexScratch := scratch } (.fillRex b seq)
  | seek {b} (hroom : b.built < b.toSend) (hpop : sh.rex.pop = none) (hnew : p.newDone = false) :
      PacerStep prim cfg sh env p (.build b) sh p (.tryRecv b)
  | close {b} : PacerStep prim cfg sh env p (.build b) sh p (.flush b)
  /-- The block cannot be read. -/
  | skip {b seq buf buf'} (hbuf : p.rexScratch[b.rexIdx]? = some buf)
      (hfill : fillRetransmit prim cfg env.toReadEnv buf seq = .nothing buf') :
      PacerStep prim cfg sh env p (.fillRex b seq) sh
        { p with rexScratch := p.rexScratch.set b.rexIdx buf' } (.build b)
  | fill {b seq buf item sealed} (hbuf : p.rexScratch[b.rexIdx]? = some buf)
      (hfill : fillRetransmit prim cfg env.toReadEnv buf seq = .pdu item sealed) :
      PacerStep prim cfg sh env p (.fillRex b seq) (sh.record sealed)
        { p with rexScratch := p.rexScratch.set b.rexIdx item.buf } (.stampRex b item.size)
  /-- A retransmission gets the pending tick and joins the batch. -/
  | stampRex {b size buf} (hbuf : p.rexScratch[b.rexIdx]? = some buf) :
      PacerStep prim cfg sh env p (.stampRex b size)
        { sh with tick := (attachTick sh.tick env.now buf).1 }
        { p with rexScratch := p.rexScratch.set b.rexIdx (attachTick sh.tick env.now buf).2 }
        (.build { b with
          out := b.out ++ [(attachTick sh.tick env.now buf).2.take size]
          rexBytes := b.rexBytes + size
          rexN := b.rexN + 1
          rexIdx := b.rexIdx + 1
          built := b.built + 1 })
  /-- A new block leaves the ready channel. -/
  | take {b item ready} (hready : sh.ready = item :: ready) :
      PacerStep prim cfg sh env p (.tryRecv b) { sh with ready := ready } p (.stampNew b item)
  | exhausted {b} (hready : sh.ready = []) (hclosed : sh.readyClosed = true) :
      PacerStep prim cfg sh env p (.tryRecv b) sh { p with newDone := true } (.build b)
  | empty {b} : PacerStep prim cfg sh env p (.tryRecv b) sh p (.build { b with built := b.toSend })
  | stampNew {b item} :
      PacerStep prim cfg sh env p (.stampNew b item)
        { sh with tick := (attachTick sh.tick env.now item.buf).1 } p
        (.build { b with
          out := b.out ++ [(attachTick sh.tick env.now item.buf).2.take item.size]
          newBytes := b.newBytes + item.size
          newN := b.newN + 1
          newBufs := b.newBufs ++ [(attachTick sh.tick env.now item.buf).2]
          built := b.built + 1 })
  | flush {b} :
      PacerStep prim cfg sh env p (.flush b)
        { sh with
          wire := b.out.reverse ++ sh.wire
          stats := { sh.stats with
            retransSent := sh.stats.retransSent + b.rexN
            packetsSent := sh.stats.packetsSent + b.rexN + b.newN
            bytesSent := sh.stats.bytesSent + b.rexBytes + b.newBytes } } p (.giveBack b.newBufs)
  | giveBack {buf bufs} (hroom : sh.free.length < poolCap) :
      PacerStep prim cfg sh env p (.giveBack (buf :: bufs)) { sh with free := sh.free ++ [buf] } p
        (.giveBack bufs)
  | given : PacerStep prim cfg sh env p (.giveBack []) sh p .fin
  | fin (hnew : p.newDone = true) (hrex : sh.rex.heap.isEmpty = true) :
      PacerStep prim cfg sh env p .fin { sh with wire := finPdu cfg :: sh.wire } p .top
  | again : PacerStep prim cfg sh env p .fin sh p .top
  | storeDone {res} :
      PacerStep prim cfg sh env p (.storeDone res) { sh with done := true } p (.join res)

/-- The shared fields that the pacing loop never writes. -/
structure PacerFrame (sh sh' : Shared) : Prop where
  targetBps : sh'.targetBps = sh.targetBps
  configuredTargetBps : sh'.configuredTargetBps = sh.configuredTargetBps
  readyClosed : sh'.readyClosed = sh.readyClosed
  hiContig : sh'.stats.hiContig = sh.stats.hiContig
  basis : sh'.stats.basis = sh.stats.basis

/-- What a step of the pacing loop does to the PDUs, the queue, the tick and the channel. -/
inductive PacerMove (prim : Primitives) (cfg : SendConfig) (sh : Shared) (env : Env) (p : Pacer) :
    PacerPc → Shared → Pacer → PacerPc → Prop
  | quiet {pc sh' p' pc'} (hframe : PacerFrame sh sh')
      (hhanded : handed sh' pc' = handed sh pc) (hitem : pc.item = none)
      (hbusy : pc'.busy = false) (hready : sh'.ready = sh.ready) (hrex : sh'.rex = sh.rex)
      (htick : sh'.tick = sh.tick) (hnew : p'.newDone = p.newDone) :
      PacerMove prim cfg sh env p pc sh' p' pc'
  /-- A NACKed block leaves the retransmit queue. -/
  | pop {b sh' p' seq rex} (hframe : PacerFrame sh sh') (hpop : sh.rex.pop = some (seq, rex))
      (hwire : sh'.wire = sh.wire) (hready : sh'.ready = sh.ready) (hrex : sh'.rex = rex)
      (htick : sh'.tick = sh.tick) (hnew : p'.newDone = p.newDone) :
      PacerMove prim cfg sh env p (.build b) sh' p' (.fillRex b seq)
  /-- Its PDU is built in a scratch buffer. -/
  | fill {b seq buf item sealed} (hbuf : p.rexScratch[b.rexIdx]? = some buf)
      (hfill : fillRetransmit prim cfg env.toReadEnv buf seq = .pdu item sealed) :
      PacerMove prim cfg sh env p (.fillRex b seq) (sh.record sealed)
        { p with rexScratch := p.rexScratch.set b.rexIdx item.buf } (.stampRex b item.size)
  /-- It gets the pending tick and joins the batch. -/
  | stampRex {b size buf p' b'} (hbuf : p.rexScratch[b.rexIdx]? = some buf)
      (hout : b'.out = b.out ++ [(attachTick sh.tick env.now buf).2.take size])
      (hnew : p'.newDone = p.newDone) :
      PacerMove prim cfg sh env p (.stampRex b size)
        { sh with tick := (attachTick sh.tick env.now buf).1 } p' (.build b')
  /-- A new block leaves the ready channel. -/
  | take {b item ready} (hready : sh.ready = item :: ready) :
      PacerMove prim cfg sh env p (.tryRecv b) { sh with ready := ready } p (.stampNew b item)
  /-- The ready channel is empty and disconnected. -/
  | exhausted {b} (hready : sh.ready = []) (hclosed : sh.readyClosed = true) :
      PacerMove prim cfg sh env p (.tryRecv b) sh { p with newDone := true } (.build b)
  /-- The new block gets the pending tick and joins the batch. -/
  | stampNew {b item b'}
      (hout : b'.out = b.out ++ [(attachTick sh.tick env.now item.buf).2.take item.size]) :
      PacerMove prim cfg sh env p (.stampNew b item)
        { sh with tick := (attachTick sh.tick env.now item.buf).1 } p (.build b')
  | fin (hnew : p.newDone = true) (hrex : sh.rex.heap.isEmpty = true) :
      PacerMove prim cfg sh env p .fin { sh with wire := finPdu cfg :: sh.wire } p .top

variable {p p' : Pacer} {pc pc' : PacerPc}

theorem pacerStep_cases (h : pacerStep prim cfg sh env p pc = some (sh', p', pc')) :
    PacerStep prim cfg sh env p pc sh' p' pc' := by
  cases pc with
  | waitForPeer =>
    simp only [pacerStep] at h
    split_ifs at h with hstop
    · cases h
      exact .giveUp
    · cases h
      exact .giveUp
    · split at h
      · split_ifs at h <;> cases h
        · exact .meet (by simpa using hstop)
        · exact .listen (by simpa using hstop)
      · cases h
        exact .listen (by simpa using hstop)
      · cases h
        exact .giveUp
  | top =>
    cases h
    split_ifs with hdone
    · exact .finish hdone
    · exact .turn (by simpa using hdone)
  | stopCheck =>
    cases h
    split_ifs with hstop
    · exact .stop hstop
    · exact .goOn (by simpa using hstop)
  | pauseCheck =>
    cases h
    split_ifs
    · exact .pause
    · exact .proceed
  | rate =>
    cases h
    exact .rate rfl rfl
  | build b =>
    simp only [pacerStep] at h
    split at h
    · rename_i hroom
      split at h <;> rename_i hpop
      · cases h
        exact .pop hroom hpop rfl
      · cases h
        split_ifs with hnew
        · exact .close
        · exact .seek hroom hpop (by simpa using hnew)
    · cases h
      exact .close
  | fillRex b seq =>
    simp only [pacerStep] at h
    split at h
    · cases h
    · rename_i hbuf
      split at h <;> cases h <;> rename_i hfill
      · exact .skip hbuf hfill
      · exact .fill hbuf hfill
  | stampRex b size =>
    simp only [pacerStep] at h
    split at h <;> cases h
    rename_i hbuf
    exact .stampRex hbuf
  | tryRecv b =>
    simp only [pacerStep] at h
    split at h <;> rename_i hready
    · cases h
      exact .take hready
    · split_ifs at h with hclosed <;> cases h
      · exact .exhausted hready hclosed
      · exact .empty
  | stampNew b item =>
    cases h
    exact .stampNew
  | flush b =>
    cases h
    exact .flush
  | giveBack bufs =>
    cases bufs with
    | nil =>
      cases h
      exact .given
    | cons buf bufs =>
      simp only [pacerStep] at h
      split_ifs at h with hroom
      cases h
      exact .giveBack hroom
  | fin =>
    simp only [pacerStep] at h
    split_ifs at h with hfin <;> cases h
    · exact .fin hfin.1 hfin.2
    · exact .again
  | storeDone res =>
    cases h
    exact .storeDone
  | join res | returned res => cases h

theorem pacerStep_move (h : pacerStep prim cfg sh env p pc = some (sh', p', pc')) :
    PacerMove prim cfg sh env p pc sh' p' pc' := by
  cases pacerStep_cases h with
  | pop _ hpop => exact .pop ⟨rfl, rfl, rfl, rfl, rfl⟩ hpop rfl rfl rfl rfl rfl
  | fill hbuf hfill => exact .fill hbuf hfill
  | stampRex hbuf => exact .stampRex hbuf rfl rfl
  | take hready => exact .take hready
  | exhausted hready hclosed => exact .exhausted hready hclosed
  | stampNew => exact .stampNew rfl
  | fin hnew hrex => exact .fin hnew hrex
  | rate _ hp' =>
    refine .quiet ⟨rfl, rfl, rfl, rfl, rfl⟩ rfl rfl rfl rfl rfl rfl ?_
    rw [hp']
    split_ifs <;> rfl
  | flush =>
    refine .quiet ⟨rfl, rfl, rfl, rfl, rfl⟩ ?_ rfl rfl rfl rfl rfl rfl
    simp [handed, PacerPc.out]
  | _ => exact .quiet ⟨rfl, rfl, rfl, rfl, rfl⟩ rfl rfl rfl rfl rfl rfl rfl

theorem pacerStep_frame (h : pacerStep prim cfg sh env p pc = some (sh', p', pc')) :
    PacerFrame sh sh' := by
  cases pacerStep_move h with
  | quiet hframe => exact hframe
  | pop hframe => exact hframe
  | fill | stampRex | take | exhausted | stampNew | fin => exact ⟨rfl, rfl, rfl, rfl, rfl⟩

/-! ## The sender -/

/-- What a step of the sender is: a step of one thread, the end of `run`, or a change of the flags
from outside. -/
inductive StepMove (prim : Primitives) (cfg : SendConfig) (s : State) : Action → State → Prop
  | prefetch {env : Env} {sh : Shared} {pc : PrefetchPc}
      (hp : prefetchStep prim cfg s.sh env s.prefetch = some (sh, pc)) :
      StepMove prim cfg s (.prefetch env) { s with sh := sh, prefetch := pc }
  | pacer {env : Env} {sh : Shared} {p : Pacer} {pc : PacerPc}
      (hp : pacerStep prim cfg s.sh env s.pacer s.pacerPc = some (sh, p, pc)) :
      StepMove prim cfg s (.pacer env) { s with sh := sh, pacer := p, pacerPc := pc }
  | feedback {env : Env} {sh : Shared} {pc : FeedbackPc}
      (hp : feedbackStep cfg s.sh env s.feedback = some (sh, pc)) :
      StepMove prim cfg s (.feedback env) { s with sh := sh, feedback := pc }
  | join {res} (hpc : s.pacerPc = .join res) :
      StepMove prim cfg s .join { s with pacerPc := .returned res }
  | flags {act stop control} :
      StepMove prim cfg s act { s with sh := { s.sh with stop := stop, control := control } }

theorem step_move {s t : State} {act : Action} (h : step prim cfg s act = some t) :
    StepMove prim cfg s act t := by
  cases act with
  | prefetch env =>
    simp only [step] at h
    split at h
    · cases h
    · obtain ⟨⟨sh, pc⟩, hp, rfl⟩ := Option.map_eq_some_iff.mp h
      exact .prefetch hp
  | pacer env =>
    obtain ⟨⟨sh, p, pc⟩, hp, rfl⟩ := Option.map_eq_some_iff.mp h
    exact .pacer hp
  | feedback env =>
    simp only [step] at h
    split at h
    · cases h
    · obtain ⟨⟨sh, pc⟩, hp, rfl⟩ := Option.map_eq_some_iff.mp h
      exact .feedback hp
  | join =>
    simp only [step] at h
    split at h
    · rename_i hpc _ _
      cases h
      exact .join hpc
    · cases h
  | stop =>
    cases h
    exact .flags
  | control op =>
    obtain ⟨ctl, -, rfl⟩ := Option.map_eq_some_iff.mp h
    exact .flags

/-! ## The header of a PDU, from the buffer to the batch -/

variable {buf : Bytes} {seq : UInt64} {flags : UInt8} {rexIndex : Int64} {item : Prefetched}
  {sealed : Option Seal}

theorem sealData_take (a : Aead) (box : AeadBox) {buf : Bytes} {hdrLen plen : Nat} (seq : UInt64)
    (h : hdrLen ≤ buf.length) :
    (sealData a box buf hdrLen plen seq).1.take hdrLen = buf.take hdrLen := by
  have hkeep : ∀ {l bs : Bytes} {off : Nat}, hdrLen ≤ off → hdrLen ≤ l.length →
      (overwrite l off bs).take hdrLen = l.take hdrLen := by
    intro l bs off hoff hl
    have hle : hdrLen ≤ (l.take off).length := by
      rw [List.length_take]
      omega
    rw [overwrite, List.append_assoc, List.take_append_of_le_length hle, List.take_take,
      Nat.min_eq_left hoff]
  have hlen : hdrLen ≤ (overwrite buf hdrLen
      (a.encrypt box (blockNonce seq) (slice buf hdrLen plen)).1).length := by
    simp only [overwrite, List.length_append, List.length_take]
    omega
  rw [sealData, hkeep (by omega) hlen, hkeep le_rfl h]

theorem decode_pdu (h : dataHeaderSize ≤ item.size) :
    decodeDataHeader item.pdu = decodeDataHeader item.buf :=
  decodeDataHeader_take item.buf h

theorem finishPdu_header
    (h : finishPdu prim cfg buf seq flags rexIndex = .pdu item sealed) :
    ∃ hdr, decodeDataHeader item.pdu = some hdr ∧ hdr.blockSeq = seq ∧
      (hdr.flags = flags ∨ hdr.flags = flags ||| flagLastBlock) ∧ hdr.echoTick = 0 := by
  simp only [finishPdu] at h
  generalize hh : DataHeader.mk _ _ _ _ _ _ _ = hdr at h
  have hseq : hdr.blockSeq = seq := by rw [← hh]
  have hecho : hdr.echoTick = 0 := by rw [← hh]
  have hflags : hdr.flags = flags ∨ hdr.flags = flags ||| flagLastBlock := by
    rw [← hh]
    dsimp only
    split
    · exact .inr rfl
    · exact .inl rfl
  refine ⟨hdr, ?_, hseq, hflags, hecho⟩
  have hlen : dataHeaderSize ≤ (encodeDataHeader buf hdr).length := by
    rw [encodeDataHeader_eq, List.length_append, DataHeader.bytes_length]
    omega
  cases hcrypto : cfg.crypto with
  | none =>
    rw [hcrypto] at h
    simp only [Built.pdu.injEq] at h
    obtain ⟨rfl, -⟩ := h
    rw [decode_pdu (by dsimp only; omega), decodeDataHeader_encode]
  | some box =>
    rw [hcrypto] at h
    simp only [Built.pdu.injEq] at h
    obtain ⟨rfl, -⟩ := h
    rw [decode_pdu (by simp only [sealData]; omega), ← decodeDataHeader_take _ le_rfl,
      sealData_take prim.aead box seq hlen, decodeDataHeader_take _ le_rfl, decodeDataHeader_encode]

/-- A built PDU names its block, has the flags it was built with, whatever the buffer held before, and
echoes nothing. -/
theorem buildPdu_header {renv : ReadEnv}
    (h : buildPdu prim cfg renv buf seq flags rexIndex = .pdu item sealed) :
    ∃ hdr, decodeDataHeader item.pdu = some hdr ∧ hdr.blockSeq = seq ∧
      (hdr.flags = flags ∨ hdr.flags = flags ||| flagLastBlock) ∧ hdr.echoTick = 0 := by
  obtain ⟨payload, -, -, hfin⟩ := buildPdu_read h
  exact finishPdu_header hfin

theorem attachTick_header (tick : TickState) (now : UInt64) {size : Nat} {hdr : DataHeader}
    (h : decodeDataHeader (buf.take size) = some hdr) :
    decodeDataHeader ((attachTick tick now buf).2.take size) = some (tick.stamp now hdr) := by
  have hbytes := bytes_of_decodeDataHeader h
  have hlen := congrArg List.length hbytes
  rw [DataHeader.bytes_length, List.length_take, List.length_take] at hlen
  have hbuf : buf = hdr.bytes ++ buf.drop dataHeaderSize := by
    rw [hbytes, List.take_take, Nat.min_eq_left (by omega), List.take_append_drop]
  have htick := attachTick_bytes tick now hdr (buf.drop dataHeaderSize)
  rw [← hbuf] at htick
  rw [decodeDataHeader_take _ (by omega), htick, decodeDataHeader_bytes]

end Girth.Sender
