import Girth.Receiver.Pool
import Girth.Receiver.Rtt
import Girth.Receiver.Threads
import Mathlib.Algebra.Order.BigOperators.Group.Finset

/-!
# A receiver that is to end does end

`run` ends when the eighth DONE is sent, or when it is stopped or cancelled. By then a worker may be in
the middle of a batch, the flusher in front of any number of blocks that are ready, and the feedback
thread inside one of the loops of the loss scanner. `State.work` bounds what each of them still does:
a block that the flusher can still write costs eight steps, a hole that is still to be scanned two, since
it puts an entry into the heap that may still be popped in this round.

The threads are joined in an order, first feedback, START and write-back, then the workers, then the
flusher. `exists_enabled_full` says that the thread that is waited for can go on; the flusher can, since
the pool has room for the buffer it sends back, and the feedback thread can if the bounds of the rate
controller are in order, for otherwise its clamp panics.
-/

namespace Girth.Receiver

open Lib

variable {prim : Primitives} {cfg : RecvConfig} {n cap : Nat} {sh sh' : Shared cfg.totalBlocks} {env : Env}

/-! ## The flags -/

/-- The receiver is to end. -/
def Shared.Ending {total : Nat} (sh : Shared total) : Prop := sh.shouldStop = true ∨ sh.done = true

theorem shouldStop_congr (hstop : sh'.stop = sh.stop) (hcontrol : sh'.control = sh.control) :
    sh'.shouldStop = sh.shouldStop := by
  rw [Shared.shouldStop, Shared.shouldStop, hstop, hcontrol]

theorem ingestStep_shouldStop {pc pc' : IngestPc cfg.totalBlocks}
    (h : ingestStep prim cfg sh env pc = some (sh', pc')) : sh'.shouldStop = sh.shouldStop :=
  shouldStop_congr (ingestStep_frame h).1.stop (ingestStep_frame h).1.control

theorem flusherStep_flags {f f' : Flusher} (h : flusherStep cfg sh env f = some (sh', f')) :
    sh'.shouldStop = sh.shouldStop ∧ sh'.done = sh.done := by
  cases flusherStep_cases h <;> exact ⟨rfl, rfl⟩

theorem feedbackStep_flags {fb fb' : Feedback} (h : feedbackStep cfg sh env fb = some (sh', fb')) :
    sh'.shouldStop = sh.shouldStop ∧
      (sh'.done = sh.done ∨ sh'.done = true ∧ fb.pc.claimsDone = true ∧ fb'.pc = .exited) := by
  cases feedbackStep_cases h with
  | done hcomplete => exact ⟨rfl, .inr ⟨rfl, hcomplete, rfl⟩⟩
  | _ => exact ⟨rfl, .inl rfl⟩

/-! ## The work that is left -/

/-- A worker has this many steps left for the packet it holds. -/
def DataPc.work : DataPc → Nat
  | .learn _ => 10
  | .tick => 9
  | .seenAny => 8
  | .maxSeen => 7
  | .setBm => 6
  | .count => 5
  | .tryPool => 4
  | .stage | .direct => 3
  | .ready _ => 2
  | .signal => 1

/-- Up to eleven steps for each message of a batch of at most `cap`. -/
def IngestPc.work {total : Nat} (cap : Nat) : IngestPc total → Nat
  | .recv => 3 + 11 * cap
  | .data pc _ rest => 2 + 11 * rest.length + pc.work
  | .finLearn _ rest => 2 + 11 * rest.length + 2
  | .finStore rest => 2 + 11 * rest.length + 1
  | .batch rest => 2 + 11 * rest.length
  | .timedOut => 2
  | .top => 1
  | .exited => 0

/-- Up to eight steps for each block that the flusher may still reach. -/
def Flusher.work (sh : Shared cfg.totalBlocks) (f : Flusher) : Nat :=
  let left := cfg.totalBlocks - f.writeFront
  match f.pc with
  | .stopCheck => if sh.shouldStop then 1 else 8 * left + 10
  | .inner true | .wait => 8 * left + 9
  | .inner false => 8 * left + 8
  | .remove => 8 * left + 7
  | .write _ => 8 * left + 6
  | .free => 8 * left + 5
  | .advance => 8 * left + 4
  | .exited => 0

/-- What follows the scan: the entries of the heap are popped, and the round ends. -/
def Feedback.tail (cfg : RecvConfig) (fb : Feedback) : Nat :=
  fb.scanner.heap.length + cfg.maxNacksPerPdu

/-- The rest of a round. -/
def Feedback.work (cfg : RecvConfig) (fb : Feedback) : Nat :=
  match fb.pc with
  | .rtt => 14 + fb.tail cfg + 2 * cfg.totalBlocks + (fb.scanner.total - fb.scanner.hiContig)
  | .advance _ => 13 + fb.tail cfg + 2 * cfg.totalBlocks + (fb.scanner.total - fb.scanner.hiContig)
  | .loadMaxSeen _ => 12 + fb.tail cfg + 2 * cfg.totalBlocks
  | .loadAllSent .. => 11 + fb.tail cfg + 2 * cfg.totalBlocks
  | .loadSeen .. => 10 + fb.tail cfg + 2 * cfg.totalBlocks
  | .scanHoles _ maxSeen _ seq => 9 + fb.tail cfg + 2 * (maxSeen + 1 - seq)
  | .complete _ => 8 + fb.tail cfg
  | .storeHi _ => 7 + fb.tail cfg
  | .peer _ => 6 + fb.tail cfg
  | .collectDue _ _ _ max out => 5 + fb.scanner.heap.length + (max - out.length)
  | .netTick .. => 4
  | .send .. => 3
  | .finish _ => 2
  | .top => 1
  | .exited => 0

def MainPc.work : MainPc → Nat
  | .waiting => 5
  | .joinFeedback => 4
  | .joinIngest => 3
  | .signal => 2
  | .joinFlusher => 1
  | .returned _ => 0

def State.work (cap : Nat) (s : State cfg n) : Nat :=
  ∑ i, (s.workers i).work cap + s.flusher.work s.sh + s.feedback.work cfg + s.main.work

/-! ## One step of each thread -/

/-- The messages that a call of the batch receiver returns. -/
def Env.received (env : Env) : Nat :=
  match env.recv with
  | .batch msgs => msgs.length
  | .timeout | .fatal => 0

theorem Env.received_batch {msgs : List Datagram} (h : env.recv = .batch msgs) :
    env.received = msgs.length := by
  rw [Env.received, h]

theorem dataStep_work (cap : Nat) (sh : Shared cfg.totalBlocks) (pkt : DataPkt cfg.totalBlocks)
    (rest : List Datagram) (env : Env) (pc : DataPc) :
    (dataStep cfg sh pkt rest env pc).2.work cap < 2 + 11 * rest.length + pc.work := by
  cases pc <;> simp only [dataStep]
  case learn => split_ifs <;> simp [IngestPc.work, DataPc.work]
  case setBm => split_ifs <;> simp [IngestPc.work, DataPc.work]
  case tryPool => split <;> simp [IngestPc.work, DataPc.work]
  case direct => split <;> simp [IngestPc.work, DataPc.work]
  all_goals simp [IngestPc.work, DataPc.work]

theorem ingestStep_work {pc pc' : IngestPc cfg.totalBlocks} (hend : pc = .top → sh.Ending)
    (henv : env.received ≤ cap) (h : ingestStep prim cfg sh env pc = some (sh', pc')) :
    pc'.work cap < pc.work cap := by
  cases pc with
  | top =>
    have hexit : (sh.shouldStop || sh.done) = true := by
      rcases hend rfl with hstop | hdone
      · rw [hstop, Bool.true_or]
      · rw [hdone, Bool.or_true]
    rw [ingestStep, hexit, if_pos rfl] at h
    cases h
    simp [IngestPc.work]
  | recv =>
    simp only [ingestStep] at h
    split at h <;> cases h
    · rename_i msgs hrecv
      have hlen := Env.received_batch hrecv
      simp only [IngestPc.work, List.length_map]
      omega
    · simp only [IngestPc.work]
      omega
    · simp only [IngestPc.work]
      omega
  | timedOut =>
    cases h
    split_ifs <;> simp [IngestPc.work]
  | batch rest =>
    cases rest with
    | nil =>
      cases h
      simp [IngestPc.work]
    | cons m rest =>
      simp only [ingestStep] at h
      split_ifs at h
      · cases h
        simp only [IngestPc.work, List.length_cons]
        omega
      · split at h <;> cases h <;> simp only [IngestPc.work, DataPc.work, List.length_cons] <;> omega
  | finLearn addr rest =>
    cases h
    split_ifs <;> simp [IngestPc.work]
  | finStore rest =>
    cases h
    simp [IngestPc.work]
  | data pc pkt rest =>
    have hless := dataStep_work cap sh pkt rest env pc
    rw [ingestStep, Option.some.injEq] at h
    rw [h] at hless
    exact hless
  | exited => cases h

theorem outer_work (sh : Shared cfg.totalBlocks) (front : Nat) :
    Flusher.work sh ⟨flusherOuter cfg front, front⟩ ≤ 8 * (cfg.totalBlocks - front) + 8 := by
  unfold flusherOuter
  split_ifs
  · exact Nat.le_refl _
  · exact Nat.zero_le _

/-- The flusher goes on with the blocks that are ready, and stops at the first that is not. If it is not
told to stop, it is at the end, or the next block is ready. -/
theorem flusherStep_work {f f' : Flusher}
    (hend : sh.shouldStop = true ∨ cfg.totalBlocks ≤ f.writeFront ∨ sh.readyBm.isSet f.writeFront = true)
    (hbusy : f.pc.pos ≠ .before → f.writeFront < cfg.totalBlocks)
    (h : flusherStep cfg sh env f = some (sh', f')) : f'.work sh' < f.work sh := by
  cases flusherStep_cases h with
  | @ready progressed | @finish progressed => cases progressed <;> simp [Flusher.work]
  | @retry front =>
    have houter := outer_work sh front
    simp only [Flusher.work] at houter ⊢
    omega
  | pause hlt hready =>
    have hstop : sh.shouldStop = true := by
      refine hend.resolve_right ?_
      rintro (hfront | hset)
      · exact not_le.mpr hlt hfront
      · rw [hready] at hset
        cases hset
    simp only [Flusher.work, hstop, if_true]
    omega
  | lift | pass | write | free => simp [Flusher.work]
  | @advance front =>
    have hlt : front < cfg.totalBlocks := hbusy (by simp [FlusherPc.pos])
    simp only [Flusher.work]
    omega
  | giveUp hstop | goOn hstop => simp [Flusher.work, hstop]
  | @wake front =>
    have houter := outer_work { sh with flushSignal := false } front
    simp only [Flusher.work] at houter ⊢
    omega

theorem nackCap_le (cfg : RecvConfig) (target : Nat) : nackCap cfg target ≤ cfg.maxNacksPerPdu := by
  unfold nackCap
  dsimp only
  split_ifs <;> omega

theorem heap_length_scanHoles {isSet : Nat → Bool} {sc sc' : LossScanner} {maxSeen due seq seq' : Nat}
    (h : sc.scanHolesIter isSet maxSeen due seq = some (sc', seq')) :
    sc'.heap.length ≤ sc.heap.length + 1 := by
  obtain ⟨-, -, ⟨-, -, rfl⟩ | ⟨-, rfl⟩⟩ := LossScanner.scanHolesIter_eq h
  · simp only [LossScanner.push, List.orderedInsert_length]
    exact Nat.le_refl _
  · exact Nat.le_succ _

theorem heap_length_collectDue {fl : ℚ → ℚ} {isSet : Nat → Bool} {sc sc' : LossScanner} {now : ℚ}
    {reDue max : Nat} {out out' : List Nat}
    (h : sc.collectDueIter fl isSet now reDue max out = some (sc', out')) :
    sc'.heap.length + (max - out'.length) < sc.heap.length + (max - out.length) := by
  have hroom : out.length < max := by
    unfold LossScanner.collectDueIter at h
    split_ifs at h with hroom
    exact hroom
  obtain ⟨top, rest, hheap, -, ⟨-, rfl, rfl⟩ | ⟨-, rfl, rfl⟩ | ⟨-, -, rfl, rfl⟩⟩ :=
    LossScanner.collectDueIter_eq h
  · simp only [hheap, List.length_cons]
    omega
  · simp only [hheap, List.length_cons]
    omega
  · simp only [hheap, LossScanner.push, List.orderedInsert_length, List.length_cons,
      List.length_append, List.length_nil]
    omega

theorem heap_length_le {isSet : Nat → Bool} {sc : LossScanner} {front : Nat}
    (h : LossScanner.Scheduled isSet sc front) : sc.heap.length ≤ front := by
  have hnodup : (sc.heap.map HeapItem.seq).Nodup := List.nodup_iff_count_le_one.mpr h.once
  have hbelow : sc.heap.map HeapItem.seq ⊆ List.range front := by
    intro seq hmem
    exact List.mem_range.mpr (h.below seq (List.count_pos_iff.mpr hmem))
  have hle := (hnodup.subperm hbelow).length_le
  rwa [List.length_map, List.length_range] at hle

theorem feedbackStep_work {fb fb' : Feedback} (hstop : fb.pc = .top → sh.shouldStop = true)
    (htotal : fb.scanner.total = cfg.totalBlocks)
    (h : feedbackStep cfg sh env fb = some (sh', fb')) : fb'.work cfg < fb.work cfg := by
  cases feedbackStep_cases h with
  | leave | loadMaxSeen | loadAllSent | complete | storeHi | netTick | send | lost | again
  | announced | done => simp [Feedback.work, Feedback.tail]
  | start hgo =>
    rw [hstop rfl] at hgo
    cases hgo
  | rtt | advanced | noScan =>
    simp only [Feedback.work, Feedback.tail]
    omega
  | advance hiter =>
    obtain ⟨hlt, -, rfl⟩ := LossScanner.advanceIter_eq hiter
    simp only [Feedback.work, Feedback.tail]
    omega
  | @scan _ ms sc _ _ hscan =>
    have htop : sc.scanTop ms + 1 ≤ cfg.totalBlocks := by
      have hpos := hscan.2
      simp only at htotal
      unfold LossScanner.scanTop
      split_ifs <;> omega
    simp only [Feedback.work, Feedback.tail]
    omega
  | scanHoles hiter =>
    have hheap := heap_length_scanHoles hiter
    obtain ⟨hle, rfl, -⟩ := LossScanner.scanHolesIter_eq hiter
    simp only [Feedback.work, Feedback.tail]
    omega
  | @scanned _ maxSeen _ _ sc =>
    have hend : (sc.scanHolesEnd maxSeen).heap = sc.heap := by
      unfold LossScanner.scanHolesEnd
      split_ifs <;> rfl
    simp only [Feedback.work, Feedback.tail, hend]
    omega
  | @peer l =>
    have hcap := nackCap_le cfg l.target
    simp only [Feedback.work, Feedback.tail, List.length_nil]
    omega
  | noPeer | collected =>
    simp only [Feedback.work]
    omega
  | collectDue hiter =>
    have hless := heap_length_collectDue hiter
    simp only [Feedback.work]
    omega

theorem feedbackStep_rate_cfg {fb fb' : Feedback} (h : feedbackStep cfg sh env fb = some (sh', fb')) :
    sh'.rtt.rate.cfg = sh.rtt.rate.cfg := by
  cases feedbackStep_cases h with
  | @rtt _ _ _ rate _ hupdate =>
    have hcall : sh.rtt.rate.call (.update sh.rtt.net.srtt sh.rtt.net.minRtt) = some rate := by
      rw [RateController.call, hupdate]
      rfl
    exact RateController.call_cfg hcall
  | _ => rfl

theorem Flusher.work_mono (f : Flusher) (hstop : sh.shouldStop = true → sh'.shouldStop = true) :
    f.work sh' ≤ f.work sh := by
  obtain ⟨pc, front⟩ := f
  cases pc with
  | stopCheck =>
    simp only [Flusher.work]
    split_ifs with hnew hold hold
    · exact Nat.le_refl _
    · omega
    · exact absurd (hstop hold) hnew
    · exact Nat.le_refl _
  | inner progressed => cases progressed <;> exact Nat.le_refl _
  | _ => exact Nat.le_refl _

theorem mainStep_work {s t : State cfg n} (hend : s.sh.Ending) (h : mainStep s = some t) :
    t.main.work < s.main.work := by
  unfold mainStep at h
  cases hpc : s.main with
  | waiting =>
    have hexit : (s.sh.done || s.sh.shouldStop) = true := by
      rcases hend with hstop | hdone
      · rw [hstop, Bool.or_true]
      · rw [hdone, Bool.true_or]
    simp only [hpc, hexit, if_true] at h
    cases h
    simp [MainPc.work]
  | joinFeedback | joinIngest | joinFlusher =>
    simp only [hpc] at h
    split_ifs at h <;> cases h <;> simp [MainPc.work]
  | signal =>
    simp only [hpc] at h
    cases h
    simp [MainPc.work]
  | returned res =>
    simp only [hpc] at h
    cases h

/-! ## What every run keeps -/

/-- With the eighth DONE everything has been flushed, and the feedback thread has left. -/
def DoneInv (s : State cfg n) : Prop :=
  s.sh.done = true → s.feedback.pc = .exited ∧ s.sh.flushedBlocks = cfg.totalBlocks

section runs

variable {sink : Sink} {recv s t : State cfg n} {as : List (Action n)}
  {C : State cfg n → Action n → Prop}

theorem feedbackStep_exited {fb : Feedback} (hpc : fb.pc = .exited) :
    feedbackStep cfg sh env fb = none := by
  unfold feedbackStep
  rw [hpc]

theorem doneInv_run (hnew : newReceiver cfg n sink = some recv) (h : Steps (step prim) C recv as s) :
    DoneInv s := by
  refine h.invariant_of_run (I := DoneInv) (fun bs u act v hrun hinv _ hstep hdone => ?_) ?_
  · have hstay (hu : u.sh.done = true) := flushed_total_step (frontier_run hnew hrun) hstep (hinv hu).2
    cases step_move hstep with
    | ingest hi =>
      have hu : u.sh.done = true := (ingestStep_frame hi).1.done.symm.trans hdone
      exact ⟨(hinv hu).1, hstay hu⟩
    | flusher hf =>
      have hu : u.sh.done = true := (flusherStep_flags hf).2.symm.trans hdone
      exact ⟨(hinv hu).1, hstay hu⟩
    | feedback hfb =>
      rcases (feedbackStep_flags hfb).2 with hsame | ⟨-, hclaim, hpc⟩
      · have hu : u.sh.done = true := hsame.symm.trans hdone
        rw [feedbackStep_exited (hinv hu).1] at hfb
        cases hfb
      · exact ⟨hpc, (feedbackStep_frame hfb).flushedBlocks.trans (claimInv_run hnew hrun hclaim)⟩
    | quiet => exact hinv hdone
  · obtain ⟨rate, -, rfl⟩ := Option.map_eq_some_iff.mp hnew
    exact fun hdone => by cases hdone

theorem rate_cfg_run (hnew : newReceiver cfg n sink = some recv) (h : Steps (step prim) C recv as s) :
    s.sh.rtt.rate.cfg = RateController.defaults cfg.rate := by
  refine h.invariant (I := fun s => s.sh.rtt.rate.cfg = RateController.defaults cfg.rate) ?_ ?_
  · intro s act t hinv _ hstep
    cases step_move hstep with
    | ingest hi => exact (congrArg RateController.cfg (ingestStep_rtt hi).rate).trans hinv
    | flusher hf => exact (congrArg (fun r => r.rate.cfg) (flusherStep_rtt hf)).trans hinv
    | feedback hfb => exact (feedbackStep_rate_cfg hfb).trans hinv
    | quiet => exact hinv
  · obtain ⟨rate, hrate, rfl⟩ := Option.map_eq_some_iff.mp hnew
    exact RateController.call_cfg (k := .setRate _) hrate

/-- The messages that a step receives. -/
def Action.received : Action n → Nat
  | .ingest _ env => env.received
  | .flusher _ | .feedback _ | .main | .stop | .control _ => 0

/-- The batch receivers have `cap` slots. -/
def Receives (cap : Nat) (_ : State cfg n) (act : Action n) : Prop := act.received ≤ cap

/-- The messages a worker still has to look at. -/
def IngestPc.Within {total : Nat} (cap : Nat) : IngestPc total → Prop
  | .batch rest => rest.length ≤ cap
  | .data _ _ rest | .finLearn _ rest | .finStore rest => rest.length + 1 ≤ cap
  | .top | .recv | .timedOut | .exited => True

theorem ingestStep_within {pc pc' : IngestPc cfg.totalBlocks} (hinv : pc.Within cap)
    (henv : env.received ≤ cap) (h : ingestStep prim cfg sh env pc = some (sh', pc')) :
    pc'.Within cap := by
  cases pc with
  | top | timedOut =>
    cases h
    split_ifs <;> trivial
  | recv =>
    simp only [ingestStep] at h
    split at h <;> cases h
    · rename_i msgs hrecv
      show (msgs.map _).length ≤ cap
      rw [List.length_map, ← Env.received_batch hrecv]
      exact henv
    · trivial
    · trivial
  | batch rest =>
    cases rest with
    | nil =>
      cases h
      trivial
    | cons m rest =>
      simp only [ingestStep] at h
      split_ifs at h
      · cases h
        exact Nat.le_of_succ_le hinv
      · split at h <;> cases h
        · exact Nat.le_of_succ_le hinv
        · exact Nat.le_of_succ_le hinv
        · exact hinv
        · exact hinv
  | finLearn addr rest =>
    cases h
    split_ifs
    · exact hinv
    · exact Nat.le_of_succ_le hinv
  | finStore rest =>
    cases h
    exact Nat.le_of_succ_le hinv
  | data pc pkt rest =>
    rw [ingestStep, Option.some.injEq] at h
    have hnext : (dataStep cfg sh pkt rest env pc).2.Within cap := by
      cases pc <;> simp only [dataStep]
      case learn => split_ifs <;> first | exact hinv | exact Nat.le_of_succ_le hinv
      case setBm => split_ifs <;> first | exact hinv | exact Nat.le_of_succ_le hinv
      case tryPool => split <;> exact hinv
      case direct => split <;> first | exact hinv | exact Nat.le_of_succ_le hinv
      case signal => exact Nat.le_of_succ_le hinv
      all_goals exact hinv
    rwa [h] at hnext
  | exited => cases h

theorem within_run (hnew : newReceiver cfg n sink = some recv)
    (h : Steps (step prim) (Receives cap) recv as s) (i : Fin n) : (s.workers i).Within cap := by
  refine h.invariant (I := fun s => ∀ i, (s.workers i).Within cap) ?_ ?_ i
  · intro s act t hinv hC hstep j
    cases step_move hstep with
    | @ingest i env sh pc hi =>
      by_cases hj : j = i
      · subst hj
        simp only [Function.update_self]
        exact ingestStep_within (hinv j) hC hi
      · simp only [Function.update_of_ne hj]
        exact hinv j
    | flusher | feedback | quiet => exact hinv j
  · obtain ⟨rate, -, rfl⟩ := Option.map_eq_some_iff.mp hnew
    exact fun _ => trivial

theorem IngestPc.work_le {total : Nat} {pc : IngestPc total} (h : pc.Within cap) :
    pc.work cap ≤ 3 + 11 * cap := by
  cases pc with
  | data pc pkt rest =>
    have hrest : rest.length + 1 ≤ cap := h
    have hpc : pc.work ≤ 10 := by cases pc <;> simp [DataPc.work]
    simp only [IngestPc.work]
    omega
  | finLearn addr rest | finStore rest =>
    have hrest : rest.length + 1 ≤ cap := h
    simp only [IngestPc.work]
    omega
  | batch rest =>
    have hrest : rest.length ≤ cap := h
    simp only [IngestPc.work]
    omega
  | _ =>
    simp only [IngestPc.work]
    omega

/-- A round asks for no more than one PDU holds. -/
def FeedbackPc.Capped (cfg : RecvConfig) : FeedbackPc → Prop
  | .collectDue _ _ _ max _ => max ≤ cfg.maxNacksPerPdu
  | _ => True

theorem feedbackStep_capped {fb fb' : Feedback} (hinv : fb.pc.Capped cfg)
    (h : feedbackStep cfg sh env fb = some (sh', fb')) : fb'.pc.Capped cfg := by
  cases feedbackStep_cases h with
  | @peer l => exact nackCap_le cfg l.target
  | collectDue => exact hinv
  | _ => trivial

theorem capped_run (hnew : newReceiver cfg n sink = some recv) (h : Steps (step prim) C recv as s) :
    s.feedback.pc.Capped cfg := by
  refine h.invariant (I := fun s => s.feedback.pc.Capped cfg) ?_ ?_
  · intro s act t hinv _ hstep
    cases step_move hstep with
    | feedback hfb => exact feedbackStep_capped hinv hfb
    | ingest | flusher | quiet => exact hinv
  · obtain ⟨rate, -, rfl⟩ := Option.map_eq_some_iff.mp hnew
    trivial

theorem heap_le_total (hnew : newReceiver cfg n sink = some recv)
    (h : Steps (step prim) Any recv as s) : s.feedback.scanner.heap.length ≤ cfg.totalBlocks := by
  have hscan := scanInv_receiver hnew h
  have htotal : s.feedback.scanner.total = cfg.totalBlocks := hscan.total
  have hnext : s.feedback.scanner.nextScan ≤ s.feedback.scanner.total := hscan.nextScan_le
  have hheap : s.feedback.scanner.heap.length ≤ s.scanView.front := heap_length_le hscan.sched
  have hfront : s.scanView.front ≤ cfg.totalBlocks := by
    unfold ScanSys.front
    split
    · rename_i maxSeen due seq hpc
      have hlt : maxSeen < s.feedback.scanner.total := (hscan.loop maxSeen due seq hpc).1
      have hseq : seq ≤ max s.feedback.scanner.nextScan (maxSeen + 1) := (hscan.loop maxSeen due seq hpc).2.2
      omega
    · show s.feedback.scanner.nextScan ≤ cfg.totalBlocks
      omega
  omega

theorem feedback_work_le (hnew : newReceiver cfg n sink = some recv)
    (h : Steps (step prim) Any recv as s) :
    s.feedback.work cfg ≤ 14 + cfg.maxNacksPerPdu + 4 * cfg.totalBlocks := by
  have hcapped := capped_run hnew h
  have hheap := heap_le_total hnew h
  have hscan := scanInv_receiver hnew h
  have htotal : s.feedback.scanner.total = cfg.totalBlocks := hscan.total
  have hloop := hscan.loop
  simp only [State.scanView] at hloop
  generalize s.feedback = fb at hcapped hheap htotal hloop
  obtain ⟨pc, scanner, lastNetTick, doneSends⟩ := fb
  simp only at hcapped hheap htotal hloop
  cases pc with
  | scanHoles l maxSeen due seq =>
    have hlt := (hloop maxSeen due seq rfl).1
    simp only [Feedback.work, Feedback.tail]
    omega
  | collectDue l p reDue max out =>
    have hmax : max ≤ cfg.maxNacksPerPdu := hcapped
    simp only [Feedback.work]
    omega
  | _ =>
    simp only [Feedback.work, Feedback.tail]
    omega

theorem flusher_work_le (sh : Shared cfg.totalBlocks) (f : Flusher) :
    f.work sh ≤ 8 * cfg.totalBlocks + 10 := by
  obtain ⟨pc, front⟩ := f
  have hleft : cfg.totalBlocks - front ≤ cfg.totalBlocks := Nat.sub_le _ _
  cases pc with
  | stopCheck =>
    simp only [Flusher.work]
    split_ifs <;> omega
  | inner progressed =>
    cases progressed <;> simp only [Flusher.work] <;> omega
  | _ =>
    simp only [Flusher.work]
    omega

theorem work_le (hnew : newReceiver cfg n sink = some recv)
    (h : Steps (step prim) (Receives cap) recv as s) :
    s.work cap ≤ n * (3 + 11 * cap) + 12 * cfg.totalBlocks + cfg.maxNacksPerPdu + 29 := by
  have hworkers : ∑ i, (s.workers i).work cap ≤ n * (3 + 11 * cap) := by
    have hsum := Finset.sum_le_card_nsmul Finset.univ (fun i => (s.workers i).work cap) (3 + 11 * cap)
      fun i _ => IngestPc.work_le (within_run hnew h i)
    rwa [Finset.card_univ, Fintype.card_fin, smul_eq_mul] at hsum
  have hflusher := flusher_work_le s.sh s.flusher
  have hfeedback := feedback_work_le hnew (h.mono fun _ _ _ => trivial)
  have hmain : s.main.work ≤ 5 := by cases s.main <;> simp [MainPc.work]
  unfold State.work
  omega

/-! ## One step of the receiver -/

/-- A step of `run` or of one of its threads, not a change of the flags from outside. -/
def Action.isThread : Action n → Bool
  | .ingest .. | .flusher _ | .feedback _ | .main => true
  | .stop | .control _ => false

theorem step_flags {act : Action n} (h : step prim s act = some t) :
    (s.sh.shouldStop = true → t.sh.shouldStop = true) ∧ (s.sh.done = true → t.sh.done = true) := by
  cases act with
  | ingest i env =>
    obtain ⟨⟨sh, pc⟩, hi, rfl⟩ := Option.map_eq_some_iff.mp h
    exact ⟨(ingestStep_shouldStop hi).trans, (ingestStep_frame hi).1.done.trans⟩
  | flusher env =>
    obtain ⟨⟨sh, f⟩, hf, rfl⟩ := Option.map_eq_some_iff.mp h
    exact ⟨(flusherStep_flags hf).1.trans, (flusherStep_flags hf).2.trans⟩
  | feedback env =>
    obtain ⟨⟨sh, fb⟩, hfb, rfl⟩ := Option.map_eq_some_iff.mp h
    refine ⟨(feedbackStep_flags hfb).1.trans, fun hdone => ?_⟩
    rcases (feedbackStep_flags hfb).2 with hsame | ⟨hset, -⟩
    · exact hsame.trans hdone
    · exact hset
  | main =>
    obtain ⟨signal, main, rfl⟩ := mainStep_frame h
    exact ⟨id, id⟩
  | stop =>
    cases h
    exact ⟨fun _ => rfl, id⟩
  | control op =>
    obtain ⟨c, hc, rfl⟩ := Option.map_eq_some_iff.mp h
    refine ⟨fun hstop => ?_, id⟩
    rw [Shared.shouldStop, hc] at hstop
    exact shouldStop_apply op hstop

/-- The stop flag is set, or the handle cancelled. -/
def Action.stops : Action n → Bool
  | .stop | .control .cancel => true
  | .ingest .. | .flusher _ | .feedback _ | .main | .control _ => false

theorem step_unstopped {act : Action n} (hstop : s.sh.shouldStop = false) (hact : act.stops = false)
    (h : step prim s act = some t) : t.sh.shouldStop = false := by
  cases act with
  | ingest i env =>
    obtain ⟨⟨sh, pc⟩, hi, rfl⟩ := Option.map_eq_some_iff.mp h
    exact (ingestStep_shouldStop hi).trans hstop
  | flusher env =>
    obtain ⟨⟨sh, f⟩, hf, rfl⟩ := Option.map_eq_some_iff.mp h
    exact (flusherStep_flags hf).1.trans hstop
  | feedback env =>
    obtain ⟨⟨sh, fb⟩, hfb, rfl⟩ := Option.map_eq_some_iff.mp h
    exact (feedbackStep_flags hfb).1.trans hstop
  | main =>
    obtain ⟨signal, main, rfl⟩ := mainStep_frame h
    cases signal <;> exact hstop
  | stop => cases hact
  | control op =>
    obtain ⟨c, hc, rfl⟩ := Option.map_eq_some_iff.mp h
    have hold : Girth.shouldStop s.sh.stop (some c) = false := hc ▸ hstop
    refine unstopped_apply ?_ hold
    rintro rfl
    cases hact

theorem stops_or_stopped {act : Action n} (h : step prim s act = some t)
    (hset : t.sh.shouldStop = true) : act.stops = true ∨ s.sh.shouldStop = true := by
  by_contra hnot
  simp only [not_or, Bool.not_eq_true] at hnot
  rw [step_unstopped hnot.2 hnot.1 h] at hset
  cases hset

theorem step_ending {act : Action n} (h : step prim s act = some t) (hend : s.sh.Ending) :
    t.sh.Ending :=
  hend.imp (step_flags h).1 (step_flags h).2

/-- **One step**: there is less to do. -/
theorem step_work {act : Action n} (hnew : newReceiver cfg n sink = some recv)
    (hrun : Steps (step prim) Any recv as s) (hend : s.sh.Ending) (hC : Receives cap s act)
    (h : step prim s act = some t) : act.isThread.toNat + t.work cap ≤ s.work cap := by
  have hmono := s.flusher.work_mono (step_flags h).1
  cases act with
  | ingest i env =>
    obtain ⟨⟨sh, pc⟩, hi, rfl⟩ := Option.map_eq_some_iff.mp h
    have hless := ingestStep_work (fun _ => hend) hC hi
    have hsum := sum_update_add (IngestPc.work cap) s.workers i pc
    simp only [Action.isThread, Bool.toNat_true, State.work] at hmono ⊢
    omega
  | flusher env =>
    obtain ⟨⟨sh, f⟩, hf, rfl⟩ := Option.map_eq_some_iff.mp h
    have hfrontier := frontier_run hnew hrun
    have hlast (hdone : s.sh.done = true) : cfg.totalBlocks ≤ s.flusher.writeFront :=
      ((doneInv_run hnew hrun hdone).2.symm.trans hfrontier.flushed).le
    have hless := flusherStep_work (hend.imp_right fun hdone => .inl (hlast hdone)) hfrontier.busy hf
    simp only [Action.isThread, Bool.toNat_true, State.work]
    omega
  | feedback env =>
    obtain ⟨⟨sh, fb⟩, hfb, rfl⟩ := Option.map_eq_some_iff.mp h
    have hstop : s.sh.shouldStop = true := by
      rcases hend with hstop | hdone
      · exact hstop
      · rw [feedbackStep_exited (doneInv_run hnew hrun hdone).1] at hfb
        cases hfb
    have hless := feedbackStep_work (fun _ => hstop) (scanInv_receiver hnew hrun).total hfb
    simp only [Action.isThread, Bool.toNat_true, State.work] at hmono ⊢
    omega
  | main =>
    have hless := mainStep_work hend h
    obtain ⟨signal, main, rfl⟩ := mainStep_frame h
    simp only [Action.isThread, Bool.toNat_true, State.work] at hmono hless ⊢
    omega
  | stop =>
    cases h
    simp only [Action.isThread, Bool.toNat_false, State.work] at hmono ⊢
    omega
  | control op =>
    obtain ⟨c, hc, rfl⟩ := Option.map_eq_some_iff.mp h
    simp only [Action.isThread, Bool.toNat_false, State.work] at hmono ⊢
    omega

/-! ## No thread waits in vain -/

theorem ingest_enabled {pc : IngestPc cfg.totalBlocks} (hpc : pc.isExited = false)
    (sh : Shared cfg.totalBlocks) (env : Env) : (ingestStep prim cfg sh env pc).isSome = true := by
  cases pc with
  | exited => cases hpc
  | recv =>
    simp only [ingestStep]
    split <;> rfl
  | batch rest =>
    cases rest with
    | nil => rfl
    | cons m rest =>
      simp only [ingestStep]
      (repeat' split) <;> rfl
  | _ => rfl

theorem flusher_enabled (hnew : newReceiver cfg n sink = some recv) (hrun : Steps (step prim) Any recv as s)
    (hpc : s.flusher.pc ≠ .exited) (env : Env) : (flusherStep cfg s.sh env s.flusher).isSome = true := by
  have hpool := buffers_run hnew hrun
  unfold flusherStep
  cases hat : s.flusher.pc with
  | free =>
    have hheld : s.flusher.pc.buffers = 1 := by rw [hat]; rfl
    have hroom : s.sh.free < cfg.poolDepth := by
      simp only [State.buffers, Shared.buffers] at hpool
      omega
    simp only [if_pos hroom]
    rfl
  | exited => exact absurd hat hpc
  | inner progressed =>
    dsimp only
    (repeat' split) <;> rfl
  | remove =>
    dsimp only
    split <;> rfl
  | _ => rfl

theorem update_isSome {c : RateController} (hle : c.cfg.minBps ≤ c.cfg.maxBps) (srttNetUs baseUs : ℚ) :
    (c.update srttNetUs baseUs).isSome = true := by
  have hle' : (c.cfg.minBps : ℚ) ≤ c.cfg.maxBps := by exact_mod_cast hle
  unfold RateController.update
  split_ifs
  · rfl
  · rfl
  · simp only [RateController.clamp?_of_le hle', Option.map_some, Option.isSome_some]

theorem feedback_enabled
    (hrate : (RateController.defaults cfg.rate).minBps ≤ (RateController.defaults cfg.rate).maxBps)
    (hnew : newReceiver cfg n sink = some recv) (hrun : Steps (step prim) Any recv as s)
    (hpc : s.feedback.pc.isExited = false) (env : Env) :
    (feedbackStep cfg s.sh env s.feedback).isSome = true := by
  unfold feedbackStep
  cases hat : s.feedback.pc <;> simp only
  case exited =>
    rw [hat] at hpc
    cases hpc
  case rtt =>
    rw [Option.isSome_map]
    refine update_isSome ?_ _ _
    rw [rate_cfg_run hnew hrun]
    exact hrate
  all_goals first | rfl | ((repeat' split) <;> rfl)

end runs

/-! ## All threads -/

section full

variable {sink : Sink} {recv : State cfg n} {startPeer noWriteback : Bool} {s t : FullState cfg n}
  {as bs : List (FullAction n)}

def StartPc.work : StartPc → Nat
  | .nudge left => left + 1
  | .exited => 0

def WritebackPc.work : WritebackPc → Nat
  | .sync _ => 3
  | .mark _ => 2
  | .check _ => 1
  | .exited => 0

def FullState.work (cap : Nat) (s : FullState cfg n) : Nat :=
  s.recv.work cap + s.start.work + s.writeback.work

def FullAction.isThread : FullAction n → Bool
  | .recv act => act.isThread
  | .start | .writeback => true

def FullAction.received : FullAction n → Nat
  | .recv act => act.received
  | .start | .writeback => 0

def FullReceives (cap : Nat) (_ : FullState cfg n) (act : FullAction n) : Prop := act.received ≤ cap

instance (s : FullState cfg n) (act : FullAction n) : Decidable (FullReceives cap s act) :=
  inferInstanceAs (Decidable (_ ≤ _))

theorem startStep_work {sent : Bool} {pc pc' : StartPc} (h : startStep sh pc = some (pc', sent)) :
    pc'.work < pc.work := by
  cases pc with
  | nudge left =>
    cases left with
    | zero =>
      cases h
      simp [StartPc.work]
    | succ left =>
      simp only [startStep] at h
      split_ifs at h <;> cases h <;> simp [StartPc.work]
  | exited => cases h

theorem writebackStep_work {pc pc' : WritebackPc} {range : Option (Int × Int)} (hend : sh.Ending)
    (h : writebackStep sh pc = some (pc', range)) : pc'.work < pc.work := by
  cases pc with
  | check lo =>
    have hexit : (sh.shouldStop || sh.done) = true := by
      rcases hend with hstop | hdone
      · rw [hstop, Bool.true_or]
      · rw [hdone, Bool.or_true]
    rw [writebackStep, hexit, if_pos rfl] at h
    cases h
    simp [WritebackPc.work]
  | sync lo | mark lo =>
    cases h
    simp [WritebackPc.work]
  | exited => cases h

theorem start_work_le (h : Steps (fullStep prim) (FullReceives cap) (newFull recv startPeer noWriteback) as s) :
    s.start.work ≤ 26 := by
  refine h.invariant (I := fun s => s.start.work ≤ 26) ?_ ?_
  · intro s act t hinv _ hstep
    cases full_move hstep with
    | recv | writeback => exact hinv
    | start hs => exact (startStep_work hs).le.trans hinv
  · unfold newFull
    dsimp only
    split_ifs <;> simp [StartPc.work]

/-- A state that a run has reached, and in which the receiver is to end. -/
def ReachedEnding (prim : Primitives) (cap : Nat) (start s : FullState cfg n) : Prop :=
  (∃ as, Steps (fullStep prim) (FullReceives cap) start as s) ∧ s.recv.sh.Ending

theorem ReachedEnding.base {start : FullState cfg n} (h : ReachedEnding prim cap start s) :
    ∃ as, Steps (step prim) Any start.recv as s.recv :=
  recv_run (fun _ _ _ => trivial) h.1.choose_spec

theorem reachedEnding_step {start : FullState cfg n} {act : FullAction n}
    (h : ReachedEnding prim cap start s) (hC : FullReceives cap s act)
    (hstep : fullStep prim s act = some t) : ReachedEnding prim cap start t := by
  obtain ⟨⟨as, hrun⟩, hend⟩ := h
  refine ⟨⟨as ++ [act], hrun.append (.single hC hstep)⟩, ?_⟩
  cases full_move hstep with
  | recv _ hrecv => exact step_ending hrecv hend
  | start | writeback => exact hend

theorem full_works (hnew : newReceiver cfg n sink = some recv) :
    Works (fullStep prim) (FullReceives cap)
      (ReachedEnding prim cap (newFull recv startPeer noWriteback)) FullAction.isThread
      (FullState.work cap) := by
  intro s act t hI hC hstep
  cases full_move hstep with
  | @recv act recv' hgo hrecv =>
    obtain ⟨as, hrun⟩ := hI.base
    have hless := step_work hnew hrun hI.2 hC hrecv
    simp only [FullAction.isThread, FullState.work]
    omega
  | start hs =>
    have hless := startStep_work hs
    simp only [FullAction.isThread, Bool.toNat_true, FullState.work]
    omega
  | writeback hw =>
    have hless := writebackStep_work hI.2 hw
    simp only [FullAction.isThread, Bool.toNat_true, FullState.work]
    omega

/-- The threads of a receiver. -/
inductive Thread (n : Nat)
  | ingest (i : Fin n)
  | flusher
  | feedback
  | start
  | writeback
  | main

/-- A step of a thread, with what the environment decides in it. -/
def Thread.action (env : Env) : Thread n → FullAction n
  | .ingest i => .recv (.ingest i env)
  | .flusher => .recv (.flusher env)
  | .feedback => .recv (.feedback env)
  | .start => .start
  | .writeback => .writeback
  | .main => .recv .main

/-- The thread can take a step, whatever the environment decides. -/
def Enabled (prim : Primitives) (s : FullState cfg n) (thread : Thread n) : Prop :=
  ∀ env, (fullStep prim s (thread.action env)).isSome = true

theorem start_enabled (hpc : s.start ≠ .exited) : Enabled prim s .start := by
  intro env
  have hgoes : (startStep s.recv.sh s.start).isSome = true := by
    cases hat : s.start with
    | nudge left =>
      cases left with
      | zero => rfl
      | succ left =>
        simp only [startStep]
        split_ifs <;> rfl
    | exited => exact absurd hat hpc
  simpa [Thread.action, fullStep] using hgoes

theorem writeback_enabled (hpc : s.writeback.isExited = false) : Enabled prim s .writeback := by
  intro env
  have hgoes : (writebackStep s.recv.sh s.writeback).isSome = true := by
    cases hat : s.writeback with
    | exited =>
      rw [hat] at hpc
      cases hpc
    | _ => rfl
  simpa [Thread.action, fullStep] using hgoes

theorem exists_enabled {recv' : State cfg n} {as : List (Action n)}
    (hrate : (RateController.defaults cfg.rate).minBps ≤ (RateController.defaults cfg.rate).maxBps)
    (hnew : newReceiver cfg n sink = some recv) (hrun : Steps (step prim) Any recv as recv') :
    (∃ res, recv'.main = .returned res) ∨ ∃ (thread : Thread n) (act : Env → Action n),
      (∀ env, thread.action env = .recv (act env)) ∧ ∀ env, (step prim recv' (act env)).isSome = true := by
  have hmain {P : Prop} (hgoes : (mainStep recv').isSome = true) :
      P ∨ ∃ (thread : Thread n) (act : Env → Action n), (∀ env, thread.action env = .recv (act env)) ∧
        ∀ env, (step prim recv' (act env)).isSome = true :=
    .inr ⟨.main, fun _ => .main, fun _ => rfl, fun _ => hgoes⟩
  cases hpc : recv'.main with
  | waiting =>
    refine hmain ?_
    simp only [mainStep, hpc]
    split_ifs <;> rfl
  | joinFeedback =>
    cases hfeedback : recv'.feedback.pc.isExited with
    | false =>
      refine .inr ⟨.feedback, .feedback, fun _ => rfl, fun env => ?_⟩
      have hgoes := feedback_enabled hrate hnew hrun hfeedback env
      simpa [step] using hgoes
    | true => exact hmain (by simp [mainStep, hpc, hfeedback])
  | joinIngest =>
    by_cases hall : ∀ i, (recv'.workers i).isExited = true
    · exact hmain (by simp [mainStep, hpc, hall])
    · obtain ⟨i, hi⟩ := not_forall.mp hall
      refine .inr ⟨.ingest i, .ingest i, fun _ => rfl, fun env => ?_⟩
      have hgoes : (ingestStep prim cfg recv'.sh env (recv'.workers i)).isSome = true :=
        ingest_enabled (Bool.not_eq_true _ ▸ hi) recv'.sh env
      simpa [step] using hgoes
  | signal => exact hmain (by simp [mainStep, hpc])
  | joinFlusher =>
    by_cases hflusher : recv'.flusher.pc = .exited
    · refine hmain ?_
      simp only [mainStep, hpc, hflusher, if_true]
      split_ifs <;> rfl
    · refine .inr ⟨.flusher, .flusher, fun _ => rfl, fun env => ?_⟩
      have hgoes := flusher_enabled hnew hrun hflusher env
      simpa [step] using hgoes
  | returned res => exact .inl ⟨res, rfl⟩

theorem exists_enabled_full
    (hrate : (RateController.defaults cfg.rate).minBps ≤ (RateController.defaults cfg.rate).maxBps)
    (hnew : newReceiver cfg n sink = some recv)
    (hI : ReachedEnding prim cap (newFull recv startPeer noWriteback) s) :
    (∃ res, s.recv.main = .returned res) ∨ ∃ thread, Enabled prim s thread := by
  obtain ⟨as, hrun⟩ := hI.base
  rcases exists_enabled hrate hnew hrun with hres | ⟨thread, act, haction, hgoes⟩
  · exact .inl hres
  refine .inr ?_
  cases hwriteback : s.writeback.isExited with
  | false => exact ⟨.writeback, writeback_enabled hwriteback⟩
  | true =>
    by_cases hstart : s.start = .exited
    · refine ⟨thread, fun env => ?_⟩
      have hgo : mayGo s (act env) = true := by
        unfold mayGo
        split
        · split <;> simp [hstart, hwriteback]
        · rfl
      rw [haction, fullStep, if_pos hgo, Option.isSome_map]
      exact hgoes env
    · exact ⟨.start, start_enabled hstart⟩

theorem full_work_le (hnew : newReceiver cfg n sink = some recv)
    (h : Steps (fullStep prim) (FullReceives cap) (newFull recv startPeer noWriteback) as s) :
    s.work cap ≤ n * (3 + 11 * cap) + 12 * cfg.totalBlocks + cfg.maxNacksPerPdu + 58 := by
  obtain ⟨bs, hrun⟩ := recv_run (D := Receives cap) (fun _ _ hC => hC) h
  have hrecv := work_le hnew hrun
  have hstart := start_work_le h
  have hwriteback : s.writeback.work ≤ 3 := by cases s.writeback <;> simp [WritebackPc.work]
  unfold FullState.work
  omega

/-- **A receiver that is to end ends.** From a state in which it has sent its last DONE or is told to
stop, however the threads take turns and whatever the environment decides, the threads take only so many
steps more; as long as `run` has not returned some thread can take one; and so it can return. -/
theorem receiver_returns
    (hrate : (RateController.defaults cfg.rate).minBps ≤ (RateController.defaults cfg.rate).maxBps)
    (hnew : newReceiver cfg n sink = some recv)
    (h : Steps (fullStep prim) (FullReceives cap) (newFull recv startPeer noWriteback) as s)
    (hend : s.recv.sh.Ending) (h' : Steps (fullStep prim) (FullReceives cap) s bs t) :
    bs.countP FullAction.isThread ≤
        n * (3 + 11 * cap) + 12 * cfg.totalBlocks + cfg.maxNacksPerPdu + 58 ∧
      ((∃ res, t.recv.main = .returned res) ∨ ∃ thread, Enabled prim t thread) ∧
      ∃ cs u res, Steps (fullStep prim) (FullReceives cap) t cs u ∧ u.recv.main = .returned res := by
  have hkeeps := fun s act t (hI : ReachedEnding prim cap (newFull recv startPeer noWriteback) s)
    (hC : FullReceives cap s act) (hstep : fullStep prim s act = some t) => reachedEnding_step hI hC hstep
  have hworks : Works (fullStep prim) (FullReceives cap)
      (ReachedEnding prim cap (newFull recv startPeer noWriteback)) FullAction.isThread
      (FullState.work cap) := full_works hnew
  have hs : ReachedEnding prim cap (newFull recv startPeer noWriteback) s := ⟨⟨as, h⟩, hend⟩
  have ht := h'.invariant hkeeps hs
  refine ⟨?_, exists_enabled_full hrate hnew ht, ?_⟩
  · have hcount := h'.countP_add_le hkeeps hworks hs
    have hle := full_work_le hnew h
    omega
  · have hnext : ∀ s, ReachedEnding prim cap (newFull recv startPeer noWriteback) s →
        ¬ (∃ res, s.recv.main = .returned res) →
        ∃ act t, act.isThread = true ∧ FullReceives cap s act ∧ fullStep prim s act = some t := by
      intro s hI hrunning
      obtain ⟨thread, hgoes⟩ := (exists_enabled_full hrate hnew hI).resolve_left hrunning
      obtain ⟨t, hstep⟩ := Option.isSome_iff_exists.mp (hgoes {})
      refine ⟨thread.action {}, t, (by cases thread <;> rfl), ?_, hstep⟩
      cases thread <;> exact Nat.zero_le _
    obtain ⟨cs, u, hrun, res, hres⟩ := reach_final hkeeps hworks hnext ht
    exact ⟨cs, u, res, hrun, hres⟩

/-- The receiver is stopped when its worker holds the only block. -/
def stoppedActs : List (FullAction 1) :=
  ((oneBlockActs .ok).take 5).map .recv ++ [.recv .stop]

theorem receiver_returns_oneBlock : ∃ recv t, newReceiver oneBlock 1 zeroByte = some recv ∧
    Steps (fullStep oneBlockPrims) (FullReceives 2) (newFull recv true false) stoppedActs t ∧
    t.recv.sh.shouldStop = true ∧ (t.recv.workers 0).isExited = false ∧
    ∃ cs u res, Steps (fullStep oneBlockPrims) (FullReceives 2) t cs u ∧
      u.recv.main = .returned res := by
  obtain ⟨recv, t, hnew, hrun, hQ⟩ := exists_steps_of_exec_check
    (newReceiver oneBlock 1 zeroByte) (fun recv => newFull recv true false)
    (fullStep oneBlockPrims) stoppedActs (FullReceives 2)
    (fun t => t.recv.sh.shouldStop && !(t.recv.workers 0).isExited) (by decide +kernel)
  simp only [Bool.and_eq_true, Bool.not_eq_true'] at hQ
  exact ⟨recv, t, hnew, hrun, hQ.1, hQ.2,
    (receiver_returns (by decide) hnew hrun (.inl hQ.1) (.nil t)).2.2⟩

end full

end Girth.Receiver
