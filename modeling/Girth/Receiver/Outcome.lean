import Girth.Receiver.Scan

/-!
# What a successful receive means

A condition on the writes of a run is a condition on its steps (`NoFailure`), read off the history at
the end (`not_failed_run`). The flusher's frontier is what `flushed_blocks` holds, and everything
behind it has been handed to the sink once (`handed_of_flushed`). From that and from the custody of
blocks follow:

* `flushed_written`: as long as no write of the flusher fails, every block below `flushed_blocks`
  was written, and DONE is sent only when all were;
* `run_ok_written`: `run` returns `Ok` only when everything was written, provided that a stop never
  makes the flusher give up on a block that has been received or will be.
-/

namespace Girth.Receiver

open Lib

variable {prim : Primitives} {cfg : RecvConfig} {n : Nat}

/-- A failed write on this path. -/
def Event.failed (path : WritePath) : Event → Bool
  | .write p _ _ (.err _) => p == path
  | _ => false

theorem Event.failed_eq_true {path : WritePath} {e : Event} (h : e.failed path = true) :
    ∃ seq buf written, e = .write path seq buf (.err written) := by
  cases e with
  | write p seq buf res =>
    cases res with
    | ok => cases h
    | err written => exact ⟨seq, buf, written, by rw [eq_of_beq h]⟩
  | feedback => cases h

/-- No write on this path fails in this step. -/
def NoFailure (path : WritePath) (s : State cfg n) (act : Action n) : Prop :=
  ∀ e ∈ emitted s act, e.failed path = false

instance (path : WritePath) (s : State cfg n) (act : Action n) : Decidable (NoFailure path s act) :=
  inferInstanceAs (Decidable (∀ e ∈ emitted s act, e.failed path = false))

/-- No write fails in this step. -/
def AllWritesOk (s : State cfg n) (act : Action n) : Prop :=
  NoFailure .direct s act ∧ NoFailure .flush s act

instance (s : State cfg n) (act : Action n) : Decidable (AllWritesOk s act) :=
  inferInstanceAs (Decidable (_ ∧ _))

theorem trace_new {sink : Sink} {s : State cfg n} (h : newReceiver cfg n sink = some s) :
    s.sh.trace = [] := by
  obtain ⟨rate, _, rfl⟩ := Option.map_eq_some_iff.mp h
  rfl

theorem trace_run {C : State cfg n → Action n → Prop} {Q : Event → Prop} {sink : Sink}
    {s t : State cfg n} {as : List (Action n)} (hC : ∀ s act e, C s act → emitted s act = some e → Q e)
    (hnew : newReceiver cfg n sink = some s) (h : Steps (step prim) C s as t) :
    ∀ e ∈ t.sh.trace, Q e := by
  refine h.invariant (I := fun t => ∀ e ∈ t.sh.trace, Q e) ?_ (by rw [trace_new hnew]; simp)
  intro s act t hinv hc hstep e he
  rcases (mem_trace_step hstep e).mp he with hemit | hold
  · exact hC s act e hc hemit
  · exact hinv e hold

theorem not_failed_run {path : WritePath} {sink : Sink} {s t : State cfg n} {as : List (Action n)}
    (hnew : newReceiver cfg n sink = some s) (h : Steps (step prim) (NoFailure path) s as t) :
    ∀ e ∈ t.sh.trace, e.failed path = false :=
  trace_run (fun _ _ e hc hemit => hc e hemit) hnew h

theorem mem_writesOf {b : Nat} {path : WritePath} {buf : Bytes} {res : WriteResult}
    {trace : List Event} : (path, buf, res) ∈ writesOf b trace ↔ .write path b buf res ∈ trace := by
  rw [writesOf, List.mem_filterMap]
  constructor
  · rintro ⟨e, he, heq⟩
    cases e with
    | write path' seq buf' res' =>
      simp only [Event.writeOf] at heq
      split at heq
      · rename_i hseq
        cases heq
        exact hseq ▸ he
      · cases heq
    | feedback => cases heq
  · intro he
    exact ⟨_, he, if_pos rfl⟩

def Event.isOkWrite : Event → Bool
  | .write _ _ _ .ok => true
  | _ => false

def Event.isDone : Event → Bool
  | .feedback _ fh _ => fh.done
  | _ => false

/-- Some `write_all_at` of the block returned `Ok`. -/
def Written (trace : List Event) (seq : Nat) : Prop :=
  ∃ path buf, .write path seq buf .ok ∈ trace

/-! ## The frontier -/

/-- `flushed_blocks` is the flusher's frontier, which stays inside the object. -/
structure Frontier (s : State cfg n) : Prop where
  flushed : s.sh.flushedBlocks = s.flusher.writeFront
  le : s.flusher.writeFront ≤ cfg.totalBlocks
  busy : s.flusher.pc.pos ≠ .before → s.flusher.writeFront < cfg.totalBlocks

theorem flusherStep_frontier {sh sh' : Shared cfg.totalBlocks} {env : Env} {f f' : Flusher}
    (h : flusherStep cfg sh env f = some (sh', f')) :
    (sh'.flushedBlocks = sh.flushedBlocks ∧ f'.writeFront = f.writeFront ∧
        (f'.pc.pos = .before ∨ f.writeFront < cfg.totalBlocks ∨ f.pc.pos ≠ .before)) ∨
      (f.pc = .advance ∧ sh'.flushedBlocks = f.writeFront + 1 ∧
        f' = ⟨.inner true, f.writeFront + 1⟩) := by
  cases flusherStep_cases h with
  | ready hlt => exact .inl ⟨rfl, rfl, .inr (.inl hlt)⟩
  | retry | wake => exact .inl ⟨rfl, rfl, .inl (flusherOuter_pos _)⟩
  | finish | pause | giveUp | goOn => exact .inl ⟨rfl, rfl, .inl rfl⟩
  | lift | pass | write | free => exact .inl ⟨rfl, rfl, .inr (.inr (by simp [FlusherPc.pos]))⟩
  | advance => exact .inr ⟨rfl, rfl, rfl⟩

theorem frontier_step {s t : State cfg n} {act : Action n} (hinv : Frontier s)
    (h : step prim s act = some t) : Frontier t := by
  cases step_move h with
  | ingest hi =>
    exact ⟨(ingestStep_frame hi).1.flushedBlocks.trans hinv.flushed, hinv.le, hinv.busy⟩
  | flusher hf =>
    rcases flusherStep_frontier hf with ⟨hfl, hfront, hbusy⟩ | ⟨hpc, hfl, rfl⟩
    · refine ⟨hfl.trans (hinv.flushed.trans hfront.symm), hfront ▸ hinv.le, fun hpos => ?_⟩
      rw [hfront]
      rcases hbusy with hbefore | hlt | hold
      · exact absurd hbefore hpos
      · exact hlt
      · exact hinv.busy hold
    · have hlt := hinv.busy (by rw [hpc]; simp [FlusherPc.pos])
      exact ⟨hfl, hlt, fun hpos => absurd rfl hpos⟩
  | feedback hfb =>
    exact ⟨(feedbackStep_frame hfb).flushedBlocks.trans hinv.flushed, hinv.le, hinv.busy⟩
  | quiet => exact ⟨hinv.flushed, hinv.le, hinv.busy⟩

section runs

variable {C : State cfg n → Action n → Prop} {sink : Sink} {s t : State cfg n}
  {as : List (Action n)}

theorem frontier_run (hnew : newReceiver cfg n sink = some s) (h : Steps (step prim) C s as t) :
    Frontier t := by
  refine h.invariant (fun _ _ _ hinv _ hstep => frontier_step hinv hstep) ?_
  obtain ⟨rate, _, rfl⟩ := Option.map_eq_some_iff.mp hnew
  exact ⟨rfl, Nat.zero_le _, fun hpos => absurd (flusherOuter_pos _) hpos⟩

theorem flusher_passed (hnew : newReceiver cfg n sink = some s) (h : Steps (step prim) C s as t)
    {seq : Nat} (hlt : seq < t.sh.flushedBlocks) : t.flusher.pos seq = .passed := by
  rw [(frontier_run hnew h).flushed] at hlt
  rw [Flusher.pos, if_neg (by omega), if_pos hlt]

/-- A block behind the frontier was handed to the sink: by its worker, successfully, or by the
flusher. -/
theorem handed_of_flushed (hnew : newReceiver cfg n sink = some s) (h : Steps (step prim) Any s as t)
    {seq : Nat} (hlt : seq < t.sh.flushedBlocks) :
    (∃ buf, .write .direct seq buf .ok ∈ t.sh.trace) ∨
      ∃ buf res, .write .flush seq buf res ∈ t.sh.trace := by
  obtain ⟨c, hc⟩ := tracks_run hnew h seq
  have hat := hc.flusher
  rw [flusher_passed hnew h hlt] at hat
  cases c with
  | direct p => exact .inl ⟨p, mem_writesOf.mp (by rw [hc.writes]; simp [Custody.writes])⟩
  | flushed p res => exact .inr ⟨p, res, mem_writesOf.mp (by rw [hc.writes]; simp [Custody.writes])⟩
  | queued p => rcases hat with hat | hat <;> cases hat
  | missing | held | lifted | stranded => cases hat

theorem written_of_flushed (hnew : newReceiver cfg n sink = some s)
    (h : Steps (step prim) (NoFailure .flush) s as t) {seq : Nat} (hlt : seq < t.sh.flushedBlocks) :
    Written t.sh.trace seq := by
  rcases handed_of_flushed hnew (h.mono fun _ _ _ => trivial) hlt with ⟨buf, hw⟩ | ⟨buf, res, hw⟩
  · exact ⟨.direct, buf, hw⟩
  · have hok := not_failed_run hnew h _ hw
    cases res with
    | ok => exact ⟨.flush, buf, hw⟩
    | err written => simp [Event.failed] at hok

/-! ## DONE -/

/-- This round of the feedback loop found the transfer complete. -/
def FeedbackPc.claimsDone : FeedbackPc → Bool
  | .advance l | .loadMaxSeen l | .loadAllSent l _ | .loadSeen l _ | .scanHoles l _ _ _ | .complete l
  | .storeHi l | .peer l | .collectDue l _ _ _ _ | .netTick l _ _ | .send l _ _ _ | .finish l =>
    l.complete
  | .top | .rtt | .exited => false

theorem feedbackStep_claimsDone {sh sh' : Shared cfg.totalBlocks} {env : Env} {fb fb' : Feedback}
    (h : feedbackStep cfg sh env fb = some (sh', fb')) (hc : fb'.pc.claimsDone = true) :
    fb.pc.claimsDone = true ∨ sh.flushedBlocks = cfg.totalBlocks := by
  cases feedbackStep_cases h with
  | leave | start | rtt | noPeer | again | announced | done => cases hc
  | complete =>
    simp only [FeedbackPc.claimsDone, Bool.and_eq_true, beq_iff_eq] at hc
    exact .inr hc.2
  | _ => exact .inl hc

theorem flushed_total_step {act : Action n} (hinv : Frontier s)
    (h : step prim s act = some t) (htotal : s.sh.flushedBlocks = cfg.totalBlocks) :
    t.sh.flushedBlocks = cfg.totalBlocks := by
  cases step_move h with
  | ingest hi => exact (ingestStep_frame hi).1.flushedBlocks.trans htotal
  | flusher hf =>
    rcases flusherStep_frontier hf with ⟨hfl, _, _⟩ | ⟨hpc, _, rfl⟩
    · exact hfl.trans htotal
    · have hlt := hinv.busy (by rw [hpc]; simp [FlusherPc.pos])
      have hfl := hinv.flushed
      omega
  | feedback hfb => exact (feedbackStep_frame hfb).flushedBlocks.trans htotal
  | quiet => exact htotal

/-- A round that claims completion runs while everything is behind the frontier. -/
def ClaimInv (s : State cfg n) : Prop :=
  s.feedback.pc.claimsDone = true → s.sh.flushedBlocks = cfg.totalBlocks

theorem claimInv_step {act : Action n} (hfront : Frontier s) (hinv : ClaimInv s)
    (h : step prim s act = some t) : ClaimInv t := by
  intro hclaim
  refine flushed_total_step hfront h ?_
  cases step_move h with
  | feedback hfb =>
    rcases feedbackStep_claimsDone hfb hclaim with hold | htotal
    · exact hinv hold
    · exact htotal
  | ingest | flusher | quiet => exact hinv hclaim

theorem claimInv_run (hnew : newReceiver cfg n sink = some s) (h : Steps (step prim) C s as t) :
    ClaimInv t := by
  refine h.invariant_of_run (fun _ _ _ _ hrun hinv _ hstep => claimInv_step (frontier_run hnew hrun)
    hinv hstep) ?_
  obtain ⟨rate, _, rfl⟩ := Option.map_eq_some_iff.mp hnew
  exact fun hclaim => by cases hclaim

theorem claimsDone_of_emitted {act : Action n} {p : SocketAddr} {fh : FeedbackHeader}
    {nacks : List NackEntry} (h : emitted s act = some (.feedback p fh nacks))
    (hdone : fh.done = true) : s.feedback.pc.claimsDone = true := by
  obtain ⟨env, l, due, isNet, -, hpc, rfl, -⟩ := emitted_feedback h
  rw [hpc]
  exact hdone

/-- Every DONE in a history comes after an `Ok` write of every block. -/
def DoneAfterWritten (total : Nat) (trace : List Event) : Prop :=
  ∀ later p fh nacks earlier, trace = later ++ .feedback p fh nacks :: earlier → fh.done = true →
    ∀ seq < total, Written earlier seq

theorem DoneAfterWritten.cons {total : Nat} {trace : List Event} {e : Event}
    (h : DoneAfterWritten total trace)
    (he : ∀ p fh nacks, e = .feedback p fh nacks → fh.done = true → ∀ seq < total, Written trace seq) :
    DoneAfterWritten total (e :: trace) := by
  intro later p fh nacks earlier heq hdone
  cases later with
  | nil =>
    obtain ⟨rfl, rfl⟩ := List.cons.inj heq
    exact he p fh nacks rfl hdone
  | cons e' later =>
    obtain ⟨-, rfl⟩ := List.cons.inj heq
    exact h later p fh nacks earlier rfl hdone

theorem doneAfterWritten_run (hnew : newReceiver cfg n sink = some s)
    (h : Steps (step prim) (NoFailure .flush) s as t) :
    DoneAfterWritten cfg.totalBlocks t.sh.trace := by
  refine h.invariant_of_run (I := fun t => DoneAfterWritten cfg.totalBlocks t.sh.trace) ?_ ?_
  · intro bs u act v hrun hinv _ hstep
    rw [step_trace hstep]
    cases hemit : emitted u act with
    | none => exact hinv
    | some e =>
      refine hinv.cons fun p fh nacks he hdone seq hlt => ?_
      have hclaim := claimsDone_of_emitted (hemit.trans (congrArg some he)) hdone
      refine written_of_flushed hnew hrun ?_
      rwa [claimInv_run hnew hrun hclaim]
  · rw [trace_new hnew]
    intro later p fh nacks earlier heq
    simp at heq

/-- **DONE means written.** In every run in which no write of the flusher fails, every block below
`flushed_blocks` has had a write return `Ok`, and every FEEDBACK with `done` was sent after one of
every block of the object. -/
theorem flushed_written (hnew : newReceiver cfg n sink = some s)
    (h : Steps (step prim) (NoFailure .flush) s as t) :
    (∀ seq < t.sh.flushedBlocks, Written t.sh.trace seq) ∧
      DoneAfterWritten cfg.totalBlocks t.sh.trace :=
  ⟨fun _ hlt => written_of_flushed hnew h hlt, doneAfterWritten_run hnew h⟩

theorem exists_run (prim : Primitives) (sink : Sink) (as : List (Action n))
    (D : State cfg n → Action n → Prop) [∀ s act, Decidable (D s act)] (Q : State cfg n → Bool)
    (h : ((newReceiver cfg n sink).any fun s =>
      (exec (fun s act => if D s act then step prim s act else none) s as).any Q) = true) :
    ∃ s t, newReceiver cfg n sink = some s ∧ Steps (step prim) D s as t ∧ Q t = true :=
  exists_steps_of_exec_check (newReceiver cfg n sink) id (step prim) as D Q h

/-! ### One block of one byte, with its FIN -/

def oneBlock : RecvConfig where
  fileSize := 1
  blockSize := 256
  totalBlocks := 1
  session := 9
  expectedPeerIp := none
  rate := ⟨.fixed, 100000000, 0, 10000000000, 30000000⟩
  crypto := none
  feedbackIntervalUs := 5000
  netTickIntervalUs := 10000
  maxNacksPerPdu := 90
  control := none
  warmStart := none
  blockSize_pos := by decide
  fileSize_lt := by decide
  total_eq := by decide

/-- The CRC32C of the one payload that occurs. -/
def oneBlockPrims : Primitives := ⟨fun bs => if bs = [7] then 0x86b737ba else 0, .unused⟩

def oneBlockHeader : DataHeader :=
  { flags := flagLastBlock, payloadLen := 1, session := 9, payloadCrc := 0x86b737ba }

def fromPeer (data : Bytes) : Datagram := ⟨data, some ⟨.v4 0x7f000001, 5000⟩⟩

/-- The one worker moves on. -/
def idle : Action 1 := .ingest 0 {}

/-- The one worker receives a batch. -/
def deliver (msgs : List Datagram) : Action 1 := .ingest 0 { recv := .batch msgs }

def oneBlockBatch : List Datagram :=
  [fromPeer (oneBlockHeader.bytes ++ [7]), fromPeer (finBytes 9 1)]

def zeroByte : Sink := ⟨.mem, [0]⟩

/-- The worker stages the block and handles the FIN; the flusher writes with the given result. -/
def oneBlockActs (res : WriteResult) : List (Action 1) :=
  [idle, deliver oneBlockBatch] ++ List.replicate 13 idle ++
    [.flusher {}, .flusher {}, .flusher { io := res }, .flusher {}, .flusher {}, .flusher {}]

/-- Three bytes in two blocks, the last of them short. -/
def twoBlocks : RecvConfig :=
  { oneBlock with
    fileSize := 3
    blockSize := 2
    totalBlocks := 2
    blockSize_pos := by decide
    fileSize_lt := by decide
    total_eq := by decide }

def zeroBytes : Sink := ⟨.mem, [0, 0, 0]⟩

/-- The CRC32C of the two payloads. -/
def twoBlocksPrims : Primitives :=
  ⟨fun bs => if bs = [7, 8] then 0x01d5e658 else if bs = [9] then 0x2acf889d else 0, .unused⟩

def firstHeader : DataHeader := { payloadLen := 2, session := 9, payloadCrc := 0x01d5e658 }

def lastHeader : DataHeader :=
  { flags := flagLastBlock, blockSeq := 1, payloadLen := 1, session := 9, payloadCrc := 0x2acf889d }

/-- The last block comes first and the first one behind the FIN; the worker stages both, and the flusher
writes them. -/
def twoBlocksActs (first last : Bytes) : List (Action 1) :=
  [idle, deliver [fromPeer last, fromPeer (finBytes 9 2), fromPeer first]] ++
    List.replicate 24 idle ++ List.replicate 11 (.flusher {})

theorem flushed_written_twoBlocks : ∃ s t, newReceiver twoBlocks 1 zeroBytes = some s ∧
    Steps (step twoBlocksPrims) (NoFailure .flush) s
      (twoBlocksActs (firstHeader.bytes ++ [7, 8]) (lastHeader.bytes ++ [9]) ++
        List.replicate 17 (.feedback {})) t ∧
    t.sh.flushedBlocks = 2 ∧ t.sh.trace.any Event.isDone = true ∧
    (∀ seq < 2, Written t.sh.trace seq) ∧ DoneAfterWritten 2 t.sh.trace := by
  obtain ⟨s, t, hnew, hrun, hQ⟩ := exists_run twoBlocksPrims zeroBytes
    (twoBlocksActs (firstHeader.bytes ++ [7, 8]) (lastHeader.bytes ++ [9]) ++
      List.replicate 17 (.feedback {})) (NoFailure .flush)
    (fun t : State twoBlocks 1 => t.sh.flushedBlocks == 2 && t.sh.trace.any Event.isDone)
    (by decide +kernel)
  simp only [Bool.and_eq_true, beq_iff_eq] at hQ
  obtain ⟨hwritten, hdone⟩ := flushed_written hnew hrun
  exact ⟨s, t, hnew, hrun, hQ.1, hQ.2, fun seq hlt => hwritten seq (by omega), hdone⟩

theorem not_written_of_all {trace : List Event} {seq : Nat}
    (h : trace.all (fun e => !e.isOkWrite) = true) : ¬ Written trace seq := by
  rintro ⟨path, buf, hw⟩
  have hno := List.all_eq_true.mp h _ hw
  simp [Event.isOkWrite] at hno

/-- The only write fails, and still the block counts as flushed and DONE is sent. -/
theorem flushed_not_written : ∃ s t, newReceiver oneBlock 1 zeroByte = some s ∧
    Steps (step oneBlockPrims) Any s
      (oneBlockActs (.err 0) ++ List.replicate 16 (.feedback {})) t ∧
    0 < t.sh.flushedBlocks ∧ ¬ Written t.sh.trace 0 ∧
    ∃ p fh nacks, .feedback p fh nacks ∈ t.sh.trace ∧ fh.done = true := by
  obtain ⟨s, t, hnew, hrun, hQ⟩ := exists_run oneBlockPrims zeroByte
    (oneBlockActs (.err 0) ++ List.replicate 16 (.feedback {})) Any
    (fun t : State oneBlock 1 => t.sh.flushedBlocks == 1 && t.sh.trace.all (fun e => !e.isOkWrite) &&
      t.sh.trace.any Event.isDone) (by decide +kernel)
  simp only [Bool.and_eq_true, beq_iff_eq] at hQ
  obtain ⟨⟨hflushed, hnone⟩, hdone⟩ := hQ
  obtain ⟨e, he, hd⟩ := List.any_eq_true.mp hdone
  refine ⟨s, t, hnew, hrun, by omega, not_written_of_all hnone, ?_⟩
  cases e with
  | write => cases hd
  | feedback p fh nacks => exact ⟨p, fh, nacks, he, hd⟩

/-! ## The result of `run` -/

/-- The block whose received bit a worker is about to set. -/
def IngestPc.setsBm {total : Nat} : IngestPc total → Option Nat
  | .data .setBm pkt _ => some pkt.seq
  | _ => none

/-- A stop does not make the flusher give up on a block that is received, before or after. -/
def FlusherNotCutOff (s : State cfg n) : Action n → Prop
  | .flusher _ => s.flusher.pc = .stopCheck → s.sh.shouldStop = true →
      s.sh.bm.isSet s.flusher.writeFront = false
  | .ingest i _ => s.flusher.pc = .exited → (s.workers i).setsBm ≠ some s.flusher.writeFront
  | .feedback _ | .main | .stop | .control _ => True

instance (s : State cfg n) : (act : Action n) → Decidable (FlusherNotCutOff s act)
  | .flusher _ => inferInstanceAs (Decidable (_ = _ → _ = _ → _ = _))
  | .ingest _ _ => inferInstanceAs (Decidable (_ = _ → _ ≠ _))
  | .feedback _ | .main | .stop | .control _ => inferInstanceAs (Decidable True)

/-- A flusher that gave up stands at a block that is missing. -/
def GaveUpAtHole (s : State cfg n) : Prop :=
  s.flusher.pc = .exited → s.flusher.writeFront < cfg.totalBlocks →
    s.sh.bm.isSet s.flusher.writeFront = false

theorem flusherStep_exited {sh sh' : Shared cfg.totalBlocks} {env : Env} {f f' : Flusher}
    (h : flusherStep cfg sh env f = some (sh', f')) (hexit : f'.pc = .exited) :
    f'.writeFront = f.writeFront ∧
      (cfg.totalBlocks ≤ f.writeFront ∨ f.pc = .stopCheck ∧ sh.shouldStop = true) := by
  have houter : ∀ front, flusherOuter cfg front = .exited → cfg.totalBlocks ≤ front := by
    intro front hfront
    unfold flusherOuter at hfront
    split at hfront
    · cases hfront
    · omega
  cases flusherStep_cases h with
  | finish hge => exact ⟨rfl, .inl hge⟩
  | retry | wake => exact ⟨rfl, .inl (houter _ hexit)⟩
  | giveUp hstop => exact ⟨rfl, .inr ⟨rfl, hstop⟩⟩
  | _ => cases hexit

theorem gaveUpAtHole_step {act : Action n} (hinv : GaveUpAtHole s) (hC : FlusherNotCutOff s act)
    (h : step prim s act = some t) : GaveUpAtHole t := by
  intro hexit hlt
  cases step_move h with
  | ingest hi =>
    have hold := hinv hexit hlt
    rcases (ingestStep_frame hi).2 with hbm | ⟨pkt, rest, hpc, hbm⟩
    · dsimp only
      rw [hbm]
      exact hold
    · have hne : pkt.seq ≠ s.flusher.writeFront := by
        have hsets := hC hexit
        rw [hpc] at hsets
        exact fun heq => hsets (congrArg some heq)
      dsimp only
      rw [hbm, isSet_setAndTest_ne hne]
      exact hold
  | flusher hf =>
    dsimp only at hexit hlt ⊢
    rw [(flusherStep_frame hf).bm]
    obtain ⟨hfront, hge | ⟨hpc, hstop⟩⟩ := flusherStep_exited hf hexit
    · omega
    · rw [hfront]
      exact hC hpc hstop
  | feedback hfb =>
    dsimp only
    rw [(feedbackStep_frame hfb).bm]
    exact hinv hexit hlt
  | quiet => exact hinv hexit hlt

/-- Once the main thread has joined the feedback thread that thread is gone, and when `run` has
returned `Ok` the flusher is gone too and the contiguous mark is at the end. -/
structure Joined (s : State cfg n) : Prop where
  feedback : (match s.main with | .waiting | .joinFeedback => False | _ => True) →
    s.feedback.pc.isExited = true
  ok : s.main = .returned (.ok ()) →
    s.flusher.pc = .exited ∧ s.sh.stats.hiContig = cfg.totalBlocks

theorem mainStep_joined (hinv : Joined s) (h : mainStep s = some t) : Joined t := by
  unfold mainStep at h
  cases hpc : s.main <;> simp only [hpc] at h
  case waiting =>
    split_ifs at h <;> cases h
    · exact ⟨fun hm => hm.elim, fun hm => by cases hm⟩
    · exact hinv
  case joinFeedback =>
    split_ifs at h with hfb
    cases h
    exact ⟨fun _ => hfb, fun hm => by cases hm⟩
  case joinIngest =>
    split_ifs at h
    cases h
    exact ⟨fun _ => hinv.feedback (by rw [hpc]; trivial), fun hm => by cases hm⟩
  case signal =>
    cases h
    exact ⟨fun _ => hinv.feedback (by rw [hpc]; trivial), fun hm => by cases hm⟩
  case joinFlusher =>
    have hfb := hinv.feedback (by rw [hpc]; trivial)
    split_ifs at h with hexit hhi <;> cases h
    · exact ⟨fun _ => hfb, fun hm => by cases hm⟩
    · exact ⟨fun _ => hfb, fun _ => ⟨hexit, not_not.mp hhi⟩⟩
  case returned => cases h

theorem joined_step {act : Action n} (hinv : Joined s) (h : step prim s act = some t) :
    Joined t := by
  cases act with
  | main => exact mainStep_joined hinv h
  | ingest i env =>
    obtain ⟨⟨sh, pc⟩, hi, rfl⟩ := Option.map_eq_some_iff.mp h
    refine ⟨hinv.feedback, fun hm => ?_⟩
    dsimp only
    rw [(ingestStep_frame hi).1.hiContig]
    exact hinv.ok hm
  | flusher env =>
    obtain ⟨⟨sh, f⟩, hf, rfl⟩ := Option.map_eq_some_iff.mp h
    refine ⟨hinv.feedback, fun hm => ?_⟩
    have hexit := (hinv.ok hm).1
    generalize s.flusher = f₀ at hf hexit
    cases flusherStep_cases hf <;> cases hexit
  | feedback env =>
    obtain ⟨⟨sh, fb⟩, hfb, rfl⟩ := Option.map_eq_some_iff.mp h
    -- a feedback thread that still moves has not been joined
    have hmoves : s.feedback.pc.isExited = false := by
      generalize s.feedback = fb₀ at hfb
      cases feedbackStep_cases hfb <;> rfl
    refine ⟨fun hm => ?_, fun hm => ?_⟩
    · rw [hinv.feedback hm] at hmoves
      cases hmoves
    · have hm' : s.main = .returned (.ok ()) := hm
      rw [hinv.feedback (by rw [hm']; trivial)] at hmoves
      cases hmoves
  | stop =>
    cases h
    exact ⟨hinv.feedback, hinv.ok⟩
  | control op =>
    obtain ⟨ctl, _, rfl⟩ := Option.map_eq_some_iff.mp h
    exact ⟨hinv.feedback, hinv.ok⟩

theorem joined_run (hnew : newReceiver cfg n sink = some s) (h : Steps (step prim) C s as t) :
    Joined t := by
  refine h.invariant (fun _ _ _ hinv _ hstep => joined_step hinv hstep) ?_
  obtain ⟨rate, _, rfl⟩ := Option.map_eq_some_iff.mp hnew
  exact ⟨fun hm => hm.elim, fun hm => by cases hm⟩

theorem gaveUpAtHole_run (hC : ∀ s act, C s act → FlusherNotCutOff s act)
    (hnew : newReceiver cfg n sink = some s) (h : Steps (step prim) C s as t) : GaveUpAtHole t := by
  refine h.invariant (fun _ _ _ hinv hc hstep => gaveUpAtHole_step hinv (hC _ _ hc) hstep) ?_
  obtain ⟨rate, _, rfl⟩ := Option.map_eq_some_iff.mp hnew
  intro _ _
  exact RecvBitmap.isSet_new _ _

def MainPc.isOk : MainPc → Bool
  | .returned (.ok _) => true
  | _ => false

theorem MainPc.eq_ok {pc : MainPc} (h : pc.isOk = true) : pc = .returned (.ok ()) := by
  unfold MainPc.isOk at h
  split at h
  · rfl
  · cases h

/-- **Soundness of a successful receive.** If every sink write succeeds, a stop never makes the flusher
give up on a block that is received, and the caller's statistics do not already have the mark of a
finished transfer, `run` returns `Ok` only after every block was written. -/
theorem run_ok_written (hnew : newReceiver cfg n sink = some s)
    (hmark : 0 < cfg.totalBlocks → cfg.stats.hiContig ≠ cfg.totalBlocks)
    (h : Steps (step prim) (fun s act => AllWritesOk s act ∧ FlusherNotCutOff s act) s as t)
    (hok : t.main = .returned (.ok ())) : ∀ seq < cfg.totalBlocks, Written t.sh.trace seq := by
  obtain ⟨hexit, hhi⟩ := (joined_run hnew h).ok hok
  have hfront := frontier_run hnew h
  have hend : t.flusher.writeFront = cfg.totalBlocks := by
    refine le_antisymm hfront.le (not_lt.mp fun hlt => ?_)
    -- the flusher gave up at a hole, yet the contiguous mark is past it
    have hhole := gaveUpAtHole_run (fun _ _ hc => hc.2) hnew h hexit hlt
    have hown : t.sh.stats.hiContig ≠ cfg.stats.hiContig := by
      rw [hhi]
      exact (hmark (Nat.zero_lt_of_lt hlt)).symm
    have hset := isSet_of_lt_hiContig hnew (h.mono fun _ _ _ => trivial) hown (hhi ▸ hlt)
    rw [hhole] at hset
    cases hset
  intro seq hlt
  refine written_of_flushed hnew (h.mono fun _ _ hc => hc.1.2) ?_
  rwa [hfront.flushed, hend]

/-- The whole run: block and FIN, the flusher, eight DONE rounds, then the joins. -/
def oneBlockRun : List (Action 1) :=
  oneBlockActs .ok ++ List.replicate 114 (.feedback {}) ++ [idle, idle] ++
    List.replicate 5 .main

theorem run_ok_written_oneBlock : ∃ s t, newReceiver oneBlock 1 zeroByte = some s ∧
    Steps (step oneBlockPrims) (fun s act => AllWritesOk s act ∧ FlusherNotCutOff s act) s oneBlockRun
      t ∧ t.main = .returned (.ok ()) ∧ Written t.sh.trace 0 := by
  obtain ⟨s, t, hnew, hrun, hQ⟩ := exists_run oneBlockPrims zeroByte oneBlockRun
    (fun s act => AllWritesOk s act ∧ FlusherNotCutOff s act)
    (fun t : State oneBlock 1 => t.main.isOk) (by decide +kernel)
  have hok := MainPc.eq_ok hQ
  exact ⟨s, t, hnew, hrun, hok, run_ok_written hnew (by decide) hrun hok 0 (by decide)⟩

/-- The flusher sees the stop after the block's received bit is set and before it is ready; the
feedback round under way counts the block as contiguous. -/
def cutOffRun : List (Action 1) :=
  [idle, deliver oneBlockBatch] ++ List.replicate 5 idle ++
    [.feedback {}, .flusher {}, .stop, .flusher {}] ++ List.replicate 16 (.feedback {}) ++
    List.replicate 10 idle ++ List.replicate 5 .main

/-- The statistics are those of an earlier transfer of one block. -/
def oneBlockAgain : RecvConfig := { oneBlock with stats := { hiContig := 1 } }

/-- The receiver is stopped before it has done anything. -/
def stoppedRun : List (Action 1) :=
  [.stop, idle, .feedback {}, .flusher {}, .flusher {}] ++ List.replicate 5 .main

/-- Every write succeeds and `run` returns `Ok`, but the only block was never written: the flusher was
cut off, or the mark was left by an earlier transfer. -/
theorem run_ok_not_written :
    (∃ s t, newReceiver oneBlock 1 zeroByte = some s ∧
      Steps (step oneBlockPrims) AllWritesOk s cutOffRun t ∧ t.main = .returned (.ok ()) ∧
      ¬ Written t.sh.trace 0) ∧
    ∃ s t, newReceiver oneBlockAgain 1 zeroByte = some s ∧
      Steps (step oneBlockPrims) (fun s act => AllWritesOk s act ∧ FlusherNotCutOff s act) s stoppedRun
        t ∧ t.main = .returned (.ok ()) ∧ ¬ Written t.sh.trace 0 := by
  constructor
  · obtain ⟨s, t, hnew, hrun, hQ⟩ := exists_run oneBlockPrims zeroByte cutOffRun AllWritesOk
      (fun t : State oneBlock 1 => t.main.isOk && t.sh.trace.all (fun e => !e.isOkWrite))
      (by decide +kernel)
    simp only [Bool.and_eq_true] at hQ
    exact ⟨s, t, hnew, hrun, MainPc.eq_ok hQ.1, not_written_of_all hQ.2⟩
  · obtain ⟨s, t, hnew, hrun, hQ⟩ := exists_run oneBlockPrims zeroByte stoppedRun
      (fun s act => AllWritesOk s act ∧ FlusherNotCutOff s act)
      (fun t : State oneBlockAgain 1 => t.main.isOk && t.sh.trace.all (fun e => !e.isOkWrite))
      (by decide +kernel)
    simp only [Bool.and_eq_true] at hQ
    exact ⟨s, t, hnew, hrun, MainPc.eq_ok hQ.1, not_written_of_all hQ.2⟩

end runs

end Girth.Receiver
