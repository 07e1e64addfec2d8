import Girth.Receiver.Machine

/-!
# What one step of each thread can do

The step functions are taken apart here once: `StepMove` is a step of the whole receiver, `IngestMove`
one of an ingest worker, `FlusherStep` one of the flusher and `FeedbackStep` one of the feedback thread. `emitted` is the event an action adds to the history
(`step_trace`) and the one way to change the sink (`step_sink`), and the frame lemmas say which parts
of the shared state a thread leaves alone: ingest workers never write `flushed_blocks` or the
contiguous mark, the flusher never the bitmaps, the feedback thread only its statistics, the rate,
`done` and the history.
-/

namespace Girth.Receiver

open Lib

variable {prim : Primitives} {cfg : RecvConfig} {n : Nat}

/-! ## Events -/

def IngestPc.emits {total : Nat} (env : Env) : IngestPc total → Option Event
  | .data .direct pkt _ => some (.write .direct pkt.seq pkt.payload env.io)
  | _ => none

def Flusher.emits (env : Env) (f : Flusher) : Option Event :=
  match f.pc with
  | .write buf => some (.write .flush f.writeFront buf env.io)
  | _ => none

def FeedbackPc.emits (cfg : RecvConfig) (env : Env) : FeedbackPc → Option Event
  | .send l p due isNet =>
    match env.io with
    | .ok => some (.feedback p (feedbackHeader cfg l isNet env.now) (nackEntries due))
    | .err _ => none
  | _ => none

/-- The event an action adds to the history. -/
def emitted (s : State cfg n) : Action n → Option Event
  | .ingest i env => (s.workers i).emits env
  | .flusher env => s.flusher.emits env
  | .feedback env => s.feedback.pc.emits cfg env
  | .main | .stop | .control _ => none

theorem dataStep_trace (sh : Shared cfg.totalBlocks) (pkt : DataPkt cfg.totalBlocks)
    (rest : List Datagram) (env : Env) (pc : DataPc) :
    (dataStep cfg sh pkt rest env pc).1.trace =
      ((IngestPc.data pc pkt rest).emits env).toList ++ sh.trace := by
  cases pc <;> simp only [dataStep]
  case learn => split_ifs <;> rfl
  case tick =>
    simp only [Shared.applyTick]
    split_ifs <;> rfl
  case setBm => split_ifs <;> rfl
  case tryPool => split <;> rfl
  case direct => split <;> rfl
  all_goals rfl

/-- The worker has no packet, or one that it has not looked at yet. -/
def IngestPc.idle {total : Nat} : IngestPc total → Prop
  | .data (.learn _) .. => True
  | .data .. => False
  | .top | .recv | .timedOut | .batch _ | .finLearn .. | .finStore _ | .exited => True

/-- A step of an ingest worker is one for the packet it holds, or it changes nothing but the peer,
`all_sent` and the traffic counters. -/
inductive IngestMove (cfg : RecvConfig) (sh : Shared cfg.totalBlocks) (env : Env) :
    IngestPc cfg.totalBlocks → Shared cfg.totalBlocks → IngestPc cfg.totalBlocks → Prop
  | data {dpc pkt rest} : IngestMove cfg sh env (.data dpc pkt rest)
      (dataStep cfg sh pkt rest env dpc).1 (dataStep cfg sh pkt rest env dpc).2
  | quiet {pc pc' peer allSent packets bytes corrupt} (hemits : pc.emits env = none)
      (hidle : pc.idle) (hidle' : pc'.idle) :
      IngestMove cfg sh env pc
        { sh with
          peer := peer, allSent := allSent
          stats := { sh.stats with
            packetsRecv := packets, bytesRecv := bytes, corruptRecv := corrupt } } pc'

theorem ingestStep_move {sh sh' : Shared cfg.totalBlocks} {env : Env}
    {pc pc' : IngestPc cfg.totalBlocks} (h : ingestStep prim cfg sh env pc = some (sh', pc')) :
    IngestMove cfg sh env pc sh' pc' := by
  cases pc with
  | data dpc pkt rest =>
    have hdata : IngestMove cfg sh env (.data dpc pkt rest) _ _ := .data
    rwa [Option.some.inj h] at hdata
  | batch rest =>
    cases rest with
    | nil =>
      cases h
      exact .quiet rfl trivial trivial
    | cons m rest =>
      simp only [ingestStep] at h
      split at h
      · cases h
        exact .quiet rfl trivial trivial
      · split at h <;> cases h <;> exact .quiet rfl trivial trivial
  | recv =>
    simp only [ingestStep] at h
    split at h <;> cases h <;> exact .quiet rfl trivial trivial
  | exited => cases h
  | top | timedOut | finLearn addr rest =>
    cases h
    refine .quiet rfl trivial ?_
    split_ifs <;> trivial
  | finStore rest =>
    cases h
    exact .quiet rfl trivial trivial

theorem ingestStep_trace {sh sh' : Shared cfg.totalBlocks} {env : Env}
    {pc pc' : IngestPc cfg.totalBlocks} (h : ingestStep prim cfg sh env pc = some (sh', pc')) :
    sh'.trace = (pc.emits env).toList ++ sh.trace := by
  cases ingestStep_move h with
  | data => exact dataStep_trace ..
  | quiet hemits =>
    rw [hemits]
    rfl

/-- A step of the flusher, with what it has found. -/
inductive FlusherStep (cfg : RecvConfig) (sh : Shared cfg.totalBlocks) (env : Env) :
    Flusher → Shared cfg.totalBlocks → Flusher → Prop
  | ready {progressed front} (hlt : front < cfg.totalBlocks) (hready : sh.readyBm.isSet front = true) :
      FlusherStep cfg sh env ⟨.inner progressed, front⟩ sh ⟨.remove, front⟩
  | finish {progressed front} (hge : cfg.totalBlocks ≤ front) :
      FlusherStep cfg sh env ⟨.inner progressed, front⟩ sh ⟨.exited, front⟩
  | retry {front} : FlusherStep cfg sh env ⟨.inner true, front⟩ sh ⟨flusherOuter cfg front, front⟩
  | pause {front} (hlt : front < cfg.totalBlocks) (hready : sh.readyBm.isSet front = false) :
      FlusherStep cfg sh env ⟨.inner false, front⟩ sh ⟨.stopCheck, front⟩
  | lift {front buf} (hstage : sh.stage.lookup front = some buf) :
      FlusherStep cfg sh env ⟨.remove, front⟩ { sh with stage := sh.stage.erase front }
        ⟨.write buf, front⟩
  | pass {front} (hstage : sh.stage.lookup front = none) :
      FlusherStep cfg sh env ⟨.remove, front⟩ { sh with stage := sh.stage.erase front }
        ⟨.advance, front⟩
  | write {front buf} :
      FlusherStep cfg sh env ⟨.write buf, front⟩
        (sh.writeBlock cfg.blockSize .flush front buf env.io) ⟨.free, front⟩
  | free {front} (hroom : sh.free < cfg.poolDepth) :
      FlusherStep cfg sh env ⟨.free, front⟩ { sh with free := sh.free + 1 } ⟨.advance, front⟩
  | advance {front} :
      FlusherStep cfg sh env ⟨.advance, front⟩ { sh with flushedBlocks := front + 1 }
        ⟨.inner true, front + 1⟩
  | giveUp {front} (hstop : sh.shouldStop = true) :
      FlusherStep cfg sh env ⟨.stopCheck, front⟩ sh ⟨.exited, front⟩
  | goOn {front} (hstop : sh.shouldStop = false) :
      FlusherStep cfg sh env ⟨.stopCheck, front⟩ sh ⟨.wait, front⟩
  | wake {front} :
      FlusherStep cfg sh env ⟨.wait, front⟩ { sh with flushSignal := false }
        ⟨flusherOuter cfg front, front⟩

theorem flusherStep_cases {sh sh' : Shared cfg.totalBlocks} {env : Env} {f f' : Flusher}
    (h : flusherStep cfg sh env f = some (sh', f')) : FlusherStep cfg sh env f sh' f' := by
  obtain ⟨pc, front⟩ := f
  cases pc with
  | inner progressed =>
    simp only [flusherStep] at h
    split_ifs at h with hready hge hprog <;> cases h
    · exact .ready hready.1 hready.2
    · exact .finish hge
    · exact hprog ▸ .retry
    · have hlt := not_le.mp hge
      rw [Bool.not_eq_true] at hprog
      exact hprog ▸ .pause hlt (by simpa [hlt] using hready)
  | remove =>
    simp only [flusherStep] at h
    split at h <;> rename_i hstage <;> cases h
    · exact .lift hstage
    · exact .pass hstage
  | write buf =>
    cases h
    exact .write
  | free =>
    simp only [flusherStep] at h
    split_ifs at h with hroom
    cases h
    exact .free hroom
  | advance =>
    cases h
    exact .advance
  | stopCheck =>
    cases h
    split_ifs with hstop
    · exact .giveUp hstop
    · exact .goOn (by simpa using hstop)
  | wait =>
    cases h
    exact .wake
  | exited => cases h

/-- A step of the feedback thread, with what it has found. -/
inductive FeedbackStep (cfg : RecvConfig) (sh : Shared cfg.totalBlocks) (env : Env) :
    Feedback → Shared cfg.totalBlocks → Feedback → Prop
  | leave {sc last sends} (hstop : sh.shouldStop = true) :
      FeedbackStep cfg sh env ⟨.top, sc, last, sends⟩ sh ⟨.exited, sc, last, sends⟩
  | start {sc last sends} (hstop : sh.shouldStop = false) :
      FeedbackStep cfg sh env ⟨.top, sc, last, sends⟩ sh ⟨.rtt, sc, last, sends⟩
  | rtt {sc last sends rate target}
      (hupdate : sh.rtt.rate.update sh.rtt.net.srtt sh.rtt.net.minRtt = some (rate, target)) :
      FeedbackStep cfg sh env ⟨.rtt, sc, last, sends⟩
        { sh with
          rtt := { sh.rtt with rate := rate }
          stats := { sh.stats with targetRateBps := effectiveRate sh.control target } }
        ⟨.advance ⟨f64 env.now.toNat, sh.rtt.path.rto, effectiveRate sh.control target, 0, false⟩,
          sc, last, sends⟩
  | advance {l sc last sends sc'} (hiter : sc.advanceIter sh.bm.isSet = some sc') :
      FeedbackStep cfg sh env ⟨.advance l, sc, last, sends⟩ sh ⟨.advance l, sc', last, sends⟩
  | advanced {l sc last sends} (hiter : sc.advanceIter sh.bm.isSet = none) :
      FeedbackStep cfg sh env ⟨.advance l, sc, last, sends⟩ sh
        ⟨.loadMaxSeen { l with hi := sc.hiContig }, sc, last, sends⟩
  | loadMaxSeen {l sc last sends} :
      FeedbackStep cfg sh env ⟨.loadMaxSeen l, sc, last, sends⟩ sh
        ⟨.loadAllSent l sh.maxSeen, sc, last, sends⟩
  | loadAllSent {l ms sc last sends} :
      FeedbackStep cfg sh env ⟨.loadAllSent l ms, sc, last, sends⟩ sh
        ⟨.loadSeen l (if sh.allSent ∧ 0 < cfg.totalBlocks then cfg.totalBlocks - 1 else ms),
          sc, last, sends⟩
  | scan {l ms sc last sends} (hscan : (sh.seenAny || sh.allSent) ∧ sc.total ≠ 0) :
      FeedbackStep cfg sh env ⟨.loadSeen l ms, sc, last, sends⟩ sh
        ⟨.scanHoles l (sc.scanTop ms) (LossScanner.dueAt f64 l.now l.pathRto) sc.nextScan,
          sc, last, sends⟩
  | noScan {l ms sc last sends} (hscan : ¬ ((sh.seenAny || sh.allSent) ∧ sc.total ≠ 0)) :
      FeedbackStep cfg sh env ⟨.loadSeen l ms, sc, last, sends⟩ sh ⟨.complete l, sc, last, sends⟩
  | scanHoles {l maxSeen due seq sc last sends sc' seq'}
      (hiter : sc.scanHolesIter sh.bm.isSet maxSeen due seq = some (sc', seq')) :
      FeedbackStep cfg sh env ⟨.scanHoles l maxSeen due seq, sc, last, sends⟩ sh
        ⟨.scanHoles l maxSeen due seq', sc', last, sends⟩
  | scanned {l maxSeen due seq sc last sends}
      (hiter : sc.scanHolesIter sh.bm.isSet maxSeen due seq = none) :
      FeedbackStep cfg sh env ⟨.scanHoles l maxSeen due seq, sc, last, sends⟩ sh
        ⟨.complete l, sc.scanHolesEnd maxSeen, last, sends⟩
  | complete {l sc last sends} :
      FeedbackStep cfg sh env ⟨.complete l, sc, last, sends⟩ sh
        ⟨.storeHi { l with complete := sh.allSent && sh.flushedBlocks == cfg.totalBlocks },
          sc, last, sends⟩
  | storeHi {l sc last sends} :
      FeedbackStep cfg sh env ⟨.storeHi l, sc, last, sends⟩
        { sh with stats := { sh.stats with hiContig := l.hi, rexQueueLen := sc.pendingCount } }
        ⟨.peer l, sc, last, sends⟩
  | peer {l sc last sends p} (hpeer : sh.peer = some p) :
      FeedbackStep cfg sh env ⟨.peer l, sc, last, sends⟩ sh
        ⟨.collectDue l p (LossScanner.dueAt f64 l.now l.pathRto) (nackCap cfg l.target) [],
          sc, last, sends⟩
  | noPeer {l sc last sends} (hpeer : sh.peer = none) :
      FeedbackStep cfg sh env ⟨.peer l, sc, last, sends⟩ sh ⟨.top, sc, last, sends⟩
  | collectDue {l p reDue max out sc last sends sc' out'}
      (hiter : sc.collectDueIter f64 sh.bm.isSet l.now reDue max out = some (sc', out')) :
      FeedbackStep cfg sh env ⟨.collectDue l p reDue max out, sc, last, sends⟩ sh
        ⟨.collectDue l p reDue max out', sc', last, sends⟩
  | collected {l p reDue max out sc last sends}
      (hiter : sc.collectDueIter f64 sh.bm.isSet l.now reDue max out = none) :
      FeedbackStep cfg sh env ⟨.collectDue l p reDue max out, sc, last, sends⟩ sh
        ⟨.netTick l p out, sc, last, sends⟩
  | netTick {l p due sc last sends isNet last'} :
      FeedbackStep cfg sh env ⟨.netTick l p due, sc, last, sends⟩ sh
        ⟨.send l p due isNet, sc, last', sends⟩
  | send {l p due isNet sc last sends} (hio : env.io = .ok) :
      FeedbackStep cfg sh env ⟨.send l p due isNet, sc, last, sends⟩
        { sh with
          stats := { sh.stats with nacksSent := sh.stats.nacksSent + (nackEntries due).length }
          trace := .feedback p (feedbackHeader cfg l isNet env.now) (nackEntries due) :: sh.trace }
        ⟨.finish l, sc, last, sends⟩
  | lost {l p due isNet sc last sends written} (hio : env.io = .err written) :
      FeedbackStep cfg sh env ⟨.send l p due isNet, sc, last, sends⟩ sh ⟨.finish l, sc, last, sends⟩
  | again {l sc last sends} (hcomplete : l.complete = false) :
      FeedbackStep cfg sh env ⟨.finish l, sc, last, sends⟩ sh ⟨.top, sc, last, sends⟩
  | announced {l sc last sends} (hcomplete : l.complete = true) (hsends : sends + 1 < 8) :
      FeedbackStep cfg sh env ⟨.finish l, sc, last, sends⟩ sh ⟨.top, sc, last, sends + 1⟩
  | done {l sc last sends} (hcomplete : l.complete = true) (hsends : 8 ≤ sends + 1) :
      FeedbackStep cfg sh env ⟨.finish l, sc, last, sends⟩ { sh with done := true }
        ⟨.exited, sc, last, sends + 1⟩

theorem feedbackStep_cases {sh sh' : Shared cfg.totalBlocks} {env : Env} {fb fb' : Feedback}
    (h : feedbackStep cfg sh env fb = some (sh', fb')) : FeedbackStep cfg sh env fb sh' fb' := by
  obtain ⟨pc, sc, last, sends⟩ := fb
  cases pc with
  | top =>
    cases h
    split_ifs with hstop
    · exact .leave hstop
    · exact .start (by simpa using hstop)
  | rtt =>
    obtain ⟨⟨rate, target⟩, hupdate, hmap⟩ := Option.map_eq_some_iff.mp h
    cases hmap
    exact .rtt hupdate
  | advance l =>
    simp only [feedbackStep] at h
    split at h <;> rename_i hiter <;> cases h
    · exact .advance hiter
    · exact .advanced hiter
  | loadMaxSeen l =>
    cases h
    exact .loadMaxSeen
  | loadAllSent l ms =>
    cases h
    exact .loadAllSent
  | loadSeen l ms =>
    simp only [feedbackStep] at h
    split_ifs at h with hscan <;> cases h
    · exact .scan hscan
    · exact .noScan hscan
  | scanHoles l maxSeen due seq =>
    simp only [feedbackStep] at h
    split at h <;> rename_i hiter <;> cases h
    · exact .scanHoles hiter
    · exact .scanned hiter
  | complete l =>
    cases h
    exact .complete
  | storeHi l =>
    cases h
    exact .storeHi
  | peer l =>
    simp only [feedbackStep] at h
    split at h <;> rename_i hpeer <;> cases h
    · exact .peer hpeer
    · exact .noPeer hpeer
  | collectDue l p reDue max out =>
    simp only [feedbackStep] at h
    split at h <;> rename_i hiter <;> cases h
    · exact .collectDue hiter
    · exact .collected hiter
  | netTick l p due =>
    cases h
    exact .netTick
  | send l p due isNet =>
    simp only [feedbackStep] at h
    split at h <;> rename_i hio <;> cases h
    · exact .send hio
    · exact .lost hio
  | finish l =>
    simp only [feedbackStep] at h
    split_ifs at h with hcomplete hsends <;> cases h
    · exact .done hcomplete hsends
    · exact .announced hcomplete (not_le.mp hsends)
    · exact .again (by simpa using hcomplete)
  | exited => cases h

theorem flusherStep_trace {sh sh' : Shared cfg.totalBlocks} {env : Env} {f f' : Flusher}
    (h : flusherStep cfg sh env f = some (sh', f')) :
    sh'.trace = (f.emits env).toList ++ sh.trace := by
  cases flusherStep_cases h <;> rfl

theorem feedbackStep_trace {sh sh' : Shared cfg.totalBlocks} {env : Env} {fb fb' : Feedback}
    (h : feedbackStep cfg sh env fb = some (sh', fb')) :
    sh'.trace = (fb.pc.emits cfg env).toList ++ sh.trace := by
  cases feedbackStep_cases h with
  | send hio | lost hio =>
    simp only [FeedbackPc.emits, hio]
    rfl
  | _ => rfl

theorem mainStep_frame {s t : State cfg n} (h : mainStep s = some t) :
    ∃ signal main, t = { s with sh := { s.sh with flushSignal := signal }, main := main } := by
  unfold mainStep at h
  cases hpc : s.main <;> simp only [hpc] at h
  case signal =>
    cases h
    exact ⟨_, _, rfl⟩
  case returned => cases h
  all_goals
    split_ifs at h <;> cases h <;> exact ⟨_, _, rfl⟩

/-- What a step of the receiver is: a step of one of its three kinds of threads, or a quiet one of
the main thread or from outside. -/
inductive StepMove (prim : Primitives) (s : State cfg n) : Action n → State cfg n → Prop
  | ingest {i env sh pc} (hi : ingestStep prim cfg s.sh env (s.workers i) = some (sh, pc)) :
      StepMove prim s (.ingest i env)
        { s with sh := sh, workers := Function.update s.workers i pc }
  | flusher {env sh f} (hf : flusherStep cfg s.sh env s.flusher = some (sh, f)) :
      StepMove prim s (.flusher env) { s with sh := sh, flusher := f }
  | feedback {env sh fb} (hfb : feedbackStep cfg s.sh env s.feedback = some (sh, fb)) :
      StepMove prim s (.feedback env) { s with sh := sh, feedback := fb }
  | quiet {act signal stop control main} (hemitted : emitted s act = none) :
      StepMove prim s act
        { s with
          sh := { s.sh with flushSignal := signal, stop := stop, control := control }
          main := main }

theorem step_move {s t : State cfg n} {act : Action n} (h : step prim s act = some t) :
    StepMove prim s act t := by
  cases act with
  | ingest i env =>
    obtain ⟨⟨sh, pc⟩, hi, rfl⟩ := Option.map_eq_some_iff.mp h
    exact .ingest hi
  | flusher env =>
    obtain ⟨⟨sh, f⟩, hf, rfl⟩ := Option.map_eq_some_iff.mp h
    exact .flusher hf
  | feedback env =>
    obtain ⟨⟨sh, fb⟩, hfb, rfl⟩ := Option.map_eq_some_iff.mp h
    exact .feedback hfb
  | main =>
    obtain ⟨signal, main, rfl⟩ := mainStep_frame h
    exact .quiet rfl
  | stop =>
    cases h
    exact .quiet rfl
  | control op =>
    obtain ⟨ctl, -, rfl⟩ := Option.map_eq_some_iff.mp h
    exact .quiet rfl

theorem step_trace {s t : State cfg n} {act : Action n} (h : step prim s act = some t) :
    t.sh.trace = (emitted s act).toList ++ s.sh.trace := by
  cases step_move h with
  | ingest hi => exact ingestStep_trace hi
  | flusher hf => exact flusherStep_trace hf
  | feedback hfb => exact feedbackStep_trace hfb
  | quiet hemitted =>
    rw [hemitted]
    rfl

theorem mem_trace_step {s t : State cfg n} {act : Action n} (h : step prim s act = some t)
    (e : Event) : e ∈ t.sh.trace ↔ emitted s act = some e ∨ e ∈ s.sh.trace := by
  rw [step_trace h, List.mem_append, Option.mem_toList]

theorem emitted_feedback {s : State cfg n} {act : Action n} {p : SocketAddr} {fh : FeedbackHeader}
    {nacks : List NackEntry} (h : emitted s act = some (.feedback p fh nacks)) :
    ∃ env l due isNet, act = .feedback env ∧ s.feedback.pc = .send l p due isNet ∧
      fh = feedbackHeader cfg l isNet env.now ∧ nacks = nackEntries due := by
  cases act with
  | ingest i env =>
    simp only [emitted, IngestPc.emits] at h
    split at h <;> cases h
  | flusher env =>
    simp only [emitted, Flusher.emits] at h
    split at h <;> cases h
  | feedback env =>
    simp only [emitted, FeedbackPc.emits] at h
    split at h
    · rename_i l p due isNet hpc
      split at h <;> cases h
      exact ⟨env, l, due, isNet, rfl, hpc, rfl, rfl⟩
    · cases h
  | main | stop | control op => cases h

/-! ## The sink -/

/-- The sink after an event: a write reaches it, nothing else does. -/
def Shared.sinkAfter {total : Nat} (sh : Shared total) (blockSize : Nat) : Option Event → Sink
  | some (.write path seq buf res) => (sh.writeBlock blockSize path seq buf res).sink
  | _ => sh.sink

theorem dataStep_sink (sh : Shared cfg.totalBlocks) (pkt : DataPkt cfg.totalBlocks)
    (rest : List Datagram) (env : Env) (pc : DataPc) :
    (dataStep cfg sh pkt rest env pc).1.sink =
      sh.sinkAfter cfg.blockSize ((IngestPc.data pc pkt rest).emits env) := by
  cases pc <;> simp only [dataStep]
  case learn => split_ifs <;> rfl
  case tick =>
    simp only [Shared.applyTick]
    split_ifs <;> rfl
  case setBm => split_ifs <;> rfl
  case tryPool => split <;> rfl
  case direct => split <;> rfl
  all_goals rfl

theorem ingestStep_sink {sh sh' : Shared cfg.totalBlocks} {env : Env}
    {pc pc' : IngestPc cfg.totalBlocks} (h : ingestStep prim cfg sh env pc = some (sh', pc')) :
    sh'.sink = sh.sinkAfter cfg.blockSize (pc.emits env) := by
  cases ingestStep_move h with
  | data => exact dataStep_sink ..
  | quiet hemits =>
    rw [hemits]
    rfl

theorem flusherStep_sink {sh sh' : Shared cfg.totalBlocks} {env : Env} {f f' : Flusher}
    (h : flusherStep cfg sh env f = some (sh', f')) :
    sh'.sink = sh.sinkAfter cfg.blockSize (f.emits env) := by
  cases flusherStep_cases h <;> rfl

/-! ## Frames -/

/-- The shared fields that ingest workers never write. -/
structure IngestFrame (sh sh' : Shared cfg.totalBlocks) : Prop where
  flushedBlocks : sh'.flushedBlocks = sh.flushedBlocks
  hiContig : sh'.stats.hiContig = sh.stats.hiContig
  done : sh'.done = sh.done
  stop : sh'.stop = sh.stop
  control : sh'.control = sh.control

theorem IngestFrame.applyTick (sh : Shared cfg.totalBlocks) (h : DataHeader) (now : UInt64) :
    IngestFrame sh (sh.applyTick h now) ∧ (sh.applyTick h now).bm = sh.bm := by
  unfold Shared.applyTick
  dsimp only
  split
  · exact ⟨⟨rfl, rfl, rfl, rfl, rfl⟩, rfl⟩
  · split <;> exact ⟨⟨rfl, rfl, rfl, rfl, rfl⟩, rfl⟩

theorem dataStep_frame (sh : Shared cfg.totalBlocks) (pkt : DataPkt cfg.totalBlocks)
    (rest : List Datagram) (env : Env) (pc : DataPc) :
    IngestFrame sh (dataStep cfg sh pkt rest env pc).1 ∧
      ((dataStep cfg sh pkt rest env pc).1.bm = sh.bm ∨
        pc = .setBm ∧ (dataStep cfg sh pkt rest env pc).1.bm = (sh.bm.setAndTest pkt.seq).1) := by
  cases pc with
  | tick =>
    obtain ⟨hframe, hbm⟩ := IngestFrame.applyTick sh pkt.header env.now
    exact ⟨hframe, .inl hbm⟩
  | learn addr =>
    simp only [dataStep]
    split_ifs <;> exact ⟨⟨rfl, rfl, rfl, rfl, rfl⟩, .inl rfl⟩
  | setBm =>
    simp only [dataStep]
    split_ifs <;> exact ⟨⟨rfl, rfl, rfl, rfl, rfl⟩, .inr ⟨trivial, rfl⟩⟩
  | tryPool =>
    simp only [dataStep]
    split <;> exact ⟨⟨rfl, rfl, rfl, rfl, rfl⟩, .inl rfl⟩
  | direct =>
    simp only [dataStep]
    split <;> exact ⟨⟨rfl, rfl, rfl, rfl, rfl⟩, .inl rfl⟩
  | seenAny | maxSeen | count | stage | ready path | signal =>
    exact ⟨⟨rfl, rfl, rfl, rfl, rfl⟩, .inl rfl⟩

theorem ingestStep_frame {sh sh' : Shared cfg.totalBlocks} {env : Env}
    {pc pc' : IngestPc cfg.totalBlocks} (h : ingestStep prim cfg sh env pc = some (sh', pc')) :
    IngestFrame sh sh' ∧
      (sh'.bm = sh.bm ∨ ∃ pkt rest, pc = .data .setBm pkt rest ∧
        sh'.bm = (sh.bm.setAndTest pkt.seq).1) := by
  cases ingestStep_move h with
  | @data dpc pkt rest =>
    obtain ⟨hframe, hbm⟩ := dataStep_frame sh pkt rest env dpc
    refine ⟨hframe, ?_⟩
    rcases hbm with hbm | ⟨rfl, hbm⟩
    · exact .inl hbm
    · exact .inr ⟨pkt, rest, rfl, hbm⟩
  | quiet => exact ⟨⟨rfl, rfl, rfl, rfl, rfl⟩, .inl rfl⟩

/-- The shared fields that the flusher never writes. -/
structure FlusherFrame (sh sh' : Shared cfg.totalBlocks) : Prop where
  bm : sh'.bm = sh.bm
  readyBm : sh'.readyBm = sh.readyBm
  stats : sh'.stats = sh.stats

theorem flusherStep_frame {sh sh' : Shared cfg.totalBlocks} {env : Env} {f f' : Flusher}
    (h : flusherStep cfg sh env f = some (sh', f')) : FlusherFrame sh sh' := by
  cases flusherStep_cases h <;> exact ⟨rfl, rfl, rfl⟩

/-- The shared fields that the feedback thread never writes. -/
structure FeedbackFrame (sh sh' : Shared cfg.totalBlocks) : Prop where
  bm : sh'.bm = sh.bm
  readyBm : sh'.readyBm = sh.readyBm
  stage : sh'.stage = sh.stage
  flushedBlocks : sh'.flushedBlocks = sh.flushedBlocks
  sink : sh'.sink = sh.sink

theorem feedbackStep_frame {sh sh' : Shared cfg.totalBlocks} {env : Env} {fb fb' : Feedback}
    (h : feedbackStep cfg sh env fb = some (sh', fb')) : FeedbackFrame sh sh' := by
  cases feedbackStep_cases h <;> exact ⟨rfl, rfl, rfl, rfl, rfl⟩

theorem step_sink {s t : State cfg n} {act : Action n} (h : step prim s act = some t) :
    t.sh.sink = s.sh.sinkAfter cfg.blockSize (emitted s act) := by
  cases step_move h with
  | ingest hi => exact ingestStep_sink hi
  | flusher hf => exact flusherStep_sink hf
  | feedback hfb =>
    refine (feedbackStep_frame hfb).sink.trans ?_
    simp only [emitted, FeedbackPc.emits]
    split
    · split <;> rfl
    · rfl
  | quiet hemitted =>
    rw [hemitted]
    rfl

end Girth.Receiver
