import Girth.Sender.Injection
import Girth.Sender.Nacks
import Girth.Sender.Pool

/-!
# A sender that is to end does end

`run` ends when the receiver has reported that it is done, or when it is stopped or cancelled. No thread
looks at these flags all the time: the pacing loop first sends the batch it is building, the prefetch
thread publishes the block it is reading, the feedback thread works off the FEEDBACK it has received, and
`run` returns after all three have left. `State.work` counts the steps that are still to come: the
position in each thread, the room in the batch, and the queued blocks, since those that cannot be
retransmitted do not fill a batch. No step adds to it (`step_work`).

That the threads do not wait for each other is `exists_enabled`: both channels have room, no slice is
out of range, and each wait has a limit.
-/

namespace Girth.Sender

open Lib

variable {prim : Primitives} {cfg : SendConfig} {sh sh' : Shared} {env : Env} {s t : State}
  {p p' : Pacer}

/-! ## The flags -/

/-- The sender is to end. -/
def Shared.Ending (sh : Shared) : Prop := sh.shouldStop = true ∨ sh.done = true

/-- What a thread does to the flags and to the peer: it may set `done`, and the peer stays known. -/
structure Flags (sh sh' : Shared) : Prop where
  stop : sh'.stop = sh.stop
  control : sh'.control = sh.control
  done : sh.done = true → sh'.done = true
  peer : sh'.peer = none → sh.peer = none

theorem Flags.shouldStop (h : Flags sh sh') : sh'.shouldStop = sh.shouldStop := by
  rw [Shared.shouldStop, Shared.shouldStop, h.stop, h.control]

theorem prefetchStep_flags {pc pc' : PrefetchPc}
    (h : prefetchStep prim cfg sh env pc = some (sh', pc')) : Flags sh sh' := by
  cases prefetchStep_move h <;> exact ⟨rfl, rfl, id, id⟩

theorem feedbackStep_flags {pc pc' : FeedbackPc} (h : feedbackStep cfg sh env pc = some (sh', pc')) :
    Flags sh sh' := by
  cases feedbackStep_cases h with
  | storeDone => exact ⟨rfl, rfl, fun _ => rfl, id⟩
  | _ => exact ⟨rfl, rfl, id, id⟩

theorem pacerStep_flags {pc pc' : PacerPc}
    (h : pacerStep prim cfg sh env p pc = some (sh', p', pc')) : Flags sh sh' := by
  cases pacerStep_cases h with
  | meet => exact ⟨rfl, rfl, id, fun hnone => by cases hnone⟩
  | storeDone => exact ⟨rfl, rfl, fun _ => rfl, id⟩
  | _ => exact ⟨rfl, rfl, id, id⟩

/-! ## One step of the sender -/

/-- A step of a thread, with the peer known, the end of `run`, or a change of the flags, which are never
taken back. -/
inductive EndMove (prim : Primitives) (cfg : SendConfig) (s : State) : Action → State → Prop
  | prefetch {env : Env} {sh : Shared} {pc : PrefetchPc} (hpeer : s.sh.peer.isSome = true)
      (hp : prefetchStep prim cfg s.sh env s.prefetch = some (sh, pc)) :
      EndMove prim cfg s (.prefetch env) { s with sh := sh, prefetch := pc }
  | pacer {env : Env} {sh : Shared} {p : Pacer} {pc : PacerPc}
      (hp : pacerStep prim cfg s.sh env s.pacer s.pacerPc = some (sh, p, pc)) :
      EndMove prim cfg s (.pacer env) { s with sh := sh, pacer := p, pacerPc := pc }
  | feedback {env : Env} {sh : Shared} {pc : FeedbackPc} (hpeer : s.sh.peer.isSome = true)
      (hp : feedbackStep cfg s.sh env s.feedback = some (sh, pc)) :
      EndMove prim cfg s (.feedback env) { s with sh := sh, feedback := pc }
  | join {res} (hpc : s.pacerPc = .join res) :
      EndMove prim cfg s .join { s with pacerPc := .returned res }
  | stop : EndMove prim cfg s .stop { s with sh := { s.sh with stop := true } }
  | control {op control} (hstop : s.sh.shouldStop = true →
      Girth.shouldStop s.sh.stop (some control) = true) :
      EndMove prim cfg s (.control op) { s with sh := { s.sh with control := some control } }

theorem step_endMove {act : Action} (h : step prim cfg s act = some t) : EndMove prim cfg s act t := by
  cases act with
  | prefetch env =>
    simp only [step] at h
    split_ifs at h with hpeer
    obtain ⟨⟨sh, pc⟩, hp, rfl⟩ := Option.map_eq_some_iff.mp h
    exact .prefetch (by simpa [Option.isSome_iff_ne_none] using hpeer) hp
  | pacer env =>
    obtain ⟨⟨sh, p, pc⟩, hp, rfl⟩ := Option.map_eq_some_iff.mp h
    exact .pacer hp
  | feedback env =>
    simp only [step] at h
    split_ifs at h with hpeer
    obtain ⟨⟨sh, pc⟩, hp, rfl⟩ := Option.map_eq_some_iff.mp h
    exact .feedback (by simpa [Option.isSome_iff_ne_none] using hpeer) hp
  | join =>
    simp only [step] at h
    split at h
    · rename_i hpc _ _
      cases h
      exact .join hpc
    · cases h
  | stop =>
    cases h
    exact .stop
  | control op =>
    obtain ⟨c, hc, rfl⟩ := Option.map_eq_some_iff.mp h
    refine .control fun hstop => ?_
    rw [Shared.shouldStop, hc] at hstop
    exact shouldStop_apply op hstop

theorem step_shouldStop {act : Action} (h : step prim cfg s act = some t)
    (hstop : s.sh.shouldStop = true) : t.sh.shouldStop = true := by
  cases step_endMove h with
  | prefetch _ hp => exact (prefetchStep_flags hp).shouldStop.trans hstop
  | pacer hp => exact (pacerStep_flags hp).shouldStop.trans hstop
  | feedback _ hp => exact (feedbackStep_flags hp).shouldStop.trans hstop
  | join => exact hstop
  | stop => rfl
  | control hmono => exact hmono hstop

theorem step_done {act : Action} (h : step prim cfg s act = some t) (hdone : s.sh.done = true) :
    t.sh.done = true := by
  cases step_endMove h with
  | prefetch _ hp => exact (prefetchStep_flags hp).done hdone
  | pacer hp => exact (pacerStep_flags hp).done hdone
  | feedback _ hp => exact (feedbackStep_flags hp).done hdone
  | join | stop | control => exact hdone

theorem step_ending {act : Action} (h : step prim cfg s act = some t) (hend : s.sh.Ending) :
    t.sh.Ending :=
  hend.imp (step_shouldStop h) (step_done h)

/-- The stop flag is set, or the handle cancelled. -/
def Action.stops : Action → Bool
  | .stop | .control .cancel => true
  | .prefetch _ | .pacer _ | .feedback _ | .join | .control _ => false

theorem step_unstopped {act : Action} (hstop : s.sh.shouldStop = false) (hact : act.stops = false)
    (h : step prim cfg s act = some t) : t.sh.shouldStop = false := by
  cases act with
  | control op =>
    obtain ⟨c, hc, rfl⟩ := Option.map_eq_some_iff.mp h
    have hold : Girth.shouldStop s.sh.stop (some c) = false := hc ▸ hstop
    refine unstopped_apply ?_ hold
    rintro rfl
    cases hact
  | stop => cases hact
  | prefetch env =>
    cases step_endMove h with
    | prefetch _ hp => exact (prefetchStep_flags hp).shouldStop.trans hstop
  | pacer env =>
    cases step_endMove h with
    | pacer hp => exact (pacerStep_flags hp).shouldStop.trans hstop
  | feedback env =>
    cases step_endMove h with
    | feedback _ hp => exact (feedbackStep_flags hp).shouldStop.trans hstop
  | join =>
    cases step_endMove h with
    | join => exact hstop

theorem stops_or_stopped {act : Action} (h : step prim cfg s act = some t)
    (hset : t.sh.shouldStop = true) : act.stops = true ∨ s.sh.shouldStop = true := by
  by_contra hnot
  simp only [not_or, Bool.not_eq_true] at hnot
  rw [step_unstopped hnot.2 hnot.1 h] at hset
  cases hset

/-! ## The work that is left -/

def PrefetchPc.work : PrefetchPc → Nat
  | .recvFree _ => 4
  | .fill .. => 3
  | .publish .. => 2
  | .borrow _ => 1
  | .exited => 0

/-- The NACKs that fit into a datagram. -/
def maxNacks : Nat := 125

/-- A NACKed block costs up to four steps of the pacing loop. -/
def FeedbackPc.work : FeedbackPc → Nat
  | .recv => 6 + 4 * maxNacks
  | .setTick _ nacks _ => 5 + 4 * nacks.length
  | .pushNacks _ nacks => 4 + 4 * nacks.length
  | .storeRate _ => 3
  | .storeHi _ => 2
  | .top | .storeDone => 1
  | .exited => 0

/-- The rest of a batch, up to five steps for each packet, and what follows it. -/
def Batch.work (b : Batch) : Nat := 8 + b.newBufs.length + 5 * (b.toSend - b.built)

/-- The loop may once find the ready channel closed. -/
def Pacer.work (p : Pacer) : Nat := if p.newDone then 0 else 3

/-- A turn of the pacing loop from the batch on. -/
def Pacer.turn (p : Pacer) : Nat := 12 + 5 * max 64 p.batch

def PacerPc.work (sh : Shared) (p : Pacer) : PacerPc → Nat
  | .stopCheck => if sh.shouldStop then 3 else p.turn + 2
  | .pauseCheck => p.turn + 1
  | .rate => p.turn
  | .fillRex b _ => b.work + p.work + 3
  | .stampRex b _ => b.work + p.work + 2
  | .build b => b.work + p.work
  | .tryRecv b => 8 + b.newBufs.length + 5 * max (b.toSend - b.built) 1 + 2
  | .stampNew b _ => 8 + b.newBufs.length + 5 * max (b.toSend - b.built) 1 + 1
  | .flush b => 7 + b.newBufs.length
  | .giveBack bufs => 6 + bufs.length
  | .fin => 5
  | .top => 4
  | .storeDone _ => 2
  | .waitForPeer | .join _ => 1
  | .returned _ => 0

def Shared.queued (sh : Shared) : Nat := 4 * sh.rex.heap.length

def State.work (s : State) : Nat :=
  s.prefetch.work + s.pacerPc.work s.sh s.pacer + s.feedback.work + s.sh.queued

theorem prefetchStep_work {pc pc' : PrefetchPc} (hend : sh.Ending)
    (h : prefetchStep prim cfg sh env pc = some (sh', pc')) : pc'.work < pc.work := by
  cases pc with
  | borrow seq =>
    have hexit : ¬ seq < cfg.totalBlocks ∨ sh.shouldStop = true ∨ sh.done = true := .inr hend
    rw [prefetchStep, if_pos hexit] at h
    cases h
    simp [PrefetchPc.work]
  | _ =>
    cases prefetchStep_move h <;> simp [PrefetchPc.work]

theorem length_decodeNacks (buf : Bytes) (off n : Nat) : (decodeNacks buf off n).length = n := by
  induction n generalizing off with
  | zero => rfl
  | succ n ih => rw [decodeNacks, List.length_cons, ih]

theorem length_feedbackOf {data : Bytes} {fh : FeedbackHeader} {nacks : List NackEntry}
    (h : feedbackOf cfg data = some (fh, nacks)) : nacks.length ≤ maxNacks := by
  unfold feedbackOf at h
  dsimp only at h
  split_ifs at h
  obtain ⟨hdec, -⟩ := Option.filter_eq_some_iff.mp h
  have hlen : (data.take 2048).length ≤ 2048 := by simp
  unfold decodeFeedback at hdec
  split_ifs at hdec
  dsimp only at hdec
  split_ifs at hdec with hneed
  cases hdec
  rw [length_decodeNacks]
  unfold feedbackHeaderSize nackEntrySize at hneed
  unfold maxNacks
  omega

theorem length_pushAll (q : RexQueue) (nacks : List NackEntry) :
    (q.pushAll nacks).heap.length ≤ q.heap.length + nacks.length := by
  unfold RexQueue.pushAll
  induction nacks generalizing q with
  | nil => exact Nat.le_refl _
  | cons n nacks ih =>
    have hrest := ih (q.push n.blockSeq)
    have hpush : (q.push n.blockSeq).heap.length ≤ q.heap.length + 1 := by
      unfold RexQueue.push
      split_ifs
      · omega
      · rw [List.orderedInsert_length]
    rw [List.foldl_cons, List.length_cons]
    omega

theorem feedbackStep_work {pc pc' : FeedbackPc} (hend : sh.Ending)
    (h : feedbackStep cfg sh env pc = some (sh', pc')) :
    pc'.work + sh'.queued < pc.work + sh.queued := by
  cases feedbackStep_cases h with
  | listen hgo =>
    rw [Bool.or_eq_false_iff] at hgo
    rcases hend with hstop | hdone
    · rw [hstop] at hgo
      cases hgo.2
    · rw [hdone] at hgo
      cases hgo.1
  | ignore | fatal => simp [FeedbackPc.work, maxNacks]
  | arrive _ _ hmsg =>
    have hlen := length_feedbackOf hmsg
    simp only [FeedbackPc.work]
    omega
  | @pushNacks fh nacks =>
    have hlen := length_pushAll sh.rex nacks
    simp only [FeedbackPc.work, Shared.queued]
    omega
  | noNacks =>
    simp only [FeedbackPc.work]
    omega
  | _ => simp [FeedbackPc.work, Shared.queued]

theorem pop_length {q rex : RexQueue} {seq : UInt64} (h : q.pop = some (seq, rex)) :
    q.heap.length = rex.heap.length + 1 := by
  unfold RexQueue.pop at h
  split at h
  · cases h
  · rename_i hheap
    cases h
    rw [hheap, List.length_cons]

theorem Pacer.work_le (p : Pacer) : p.work ≤ 3 := by
  unfold Pacer.work
  split_ifs <;> omega

theorem pacerStep_work {pc pc' : PacerPc} (hend : pc = .top → sh.Ending)
    (hwait : pc = .waitForPeer → sh.shouldStop = true)
    (h : pacerStep prim cfg sh env p pc = some (sh', p', pc')) :
    pc'.work sh' p' + sh'.queued < pc.work sh p + sh.queued := by
  cases pacerStep_cases h with
  | giveUp | finish | given | fin | again | storeDone => simp [PacerPc.work, Shared.queued]
  | listen hstop | meet hstop =>
    rw [hwait rfl] at hstop
    cases hstop
  | turn hdone =>
    have hstop : sh.shouldStop = true := (hend rfl).resolve_right (by simp [hdone])
    simp [PacerPc.work, hstop]
  | stop hstop | goOn hstop => simp [PacerPc.work, hstop]
  | pause =>
    simp only [PacerPc.work, Pacer.turn]
    omega
  | proceed => simp [PacerPc.work]
  | rate _ hp' =>
    have hbatch : p'.batch ≤ max 64 p.batch := by
      rw [hp']
      split_ifs
      · exact le_max_of_le_left (batchSize_le cfg _)
      · exact le_max_right ..
    have hwork := p'.work_le
    simp only [PacerPc.work, Pacer.turn, Batch.work, Shared.queued, List.length_nil]
    omega
  | pop _ hpop =>
    have hlen := pop_length hpop
    simp only [PacerPc.work, Pacer.work, Shared.queued]
    omega
  | seek _ _ hnew =>
    simp only [PacerPc.work, Batch.work, Pacer.work, hnew, Bool.false_eq_true, if_false, Shared.queued]
    omega
  | close =>
    simp only [PacerPc.work, Batch.work, Shared.queued]
    omega
  | skip =>
    simp only [PacerPc.work, Pacer.work]
    omega
  | fill =>
    simp only [PacerPc.work, Pacer.work, Shared.queued, Shared.record]
    omega
  | stampRex =>
    simp only [PacerPc.work, Batch.work, Pacer.work, Shared.queued]
    omega
  | take | flush =>
    simp only [PacerPc.work, Shared.queued]
    omega
  | exhausted =>
    simp only [PacerPc.work, Batch.work, Pacer.work, if_true]
    omega
  | empty =>
    have hwork := p.work_le
    simp only [PacerPc.work, Batch.work]
    omega
  | stampNew =>
    have hwork := p.work_le
    simp only [PacerPc.work, Batch.work, Shared.queued, List.length_append, List.length_singleton]
    omega
  | giveBack =>
    simp only [PacerPc.work, Shared.queued, List.length_cons]
    omega

theorem PacerPc.work_mono (pc : PacerPc) (hstop : sh.shouldStop = true → sh'.shouldStop = true) :
    pc.work sh' p ≤ pc.work sh p := by
  cases pc with
  | stopCheck =>
    simp only [PacerPc.work]
    split_ifs with hnew hold hold
    · exact Nat.le_refl _
    · unfold Pacer.turn
      omega
    · exact absurd (hstop hold) hnew
    · exact Nat.le_refl _
  | _ => exact Nat.le_refl _

/-! ## What the threads can rely on -/

/-- The scratch buffers and the pooled buffers of a batch. -/
structure Batch.Counts (p : Pacer) (b : Batch) : Prop where
  scratch : b.rexIdx ≤ p.rexScratch.length
  out : b.newBufs.length ≤ b.out.length

def PacerPc.Counts (p : Pacer) : PacerPc → Prop
  | .build b | .tryRecv b | .stampNew b _ | .flush b => b.Counts p
  | .fillRex b _ | .stampRex b _ => b.Counts p ∧ b.rexIdx < p.rexScratch.length
  | .giveBack bufs => bufs.length ≤ 64
  | .waitForPeer | .top | .stopCheck | .pauseCheck | .rate | .fin | .storeDone _ | .join _
  | .returned _ => True

theorem pacerStep_counts {pc pc' : PacerPc} (hfits : pc.Fits) (hinv : pc.Counts p)
    (h : pacerStep prim cfg sh env p pc = some (sh', p', pc')) : pc'.Counts p' := by
  cases pacerStep_cases h with
  | rate => exact ⟨Nat.zero_le _, Nat.le_refl _⟩
  | @pop b _ _ scratch _ _ hscratch =>
    have hidx := hinv.scratch
    have hlt : b.rexIdx < scratch.length := by
      rw [hscratch]
      split_ifs with hlast
      · rw [List.length_append, List.length_singleton]
        omega
      · omega
    exact ⟨⟨hlt.le, hinv.out⟩, hlt⟩
  | seek | close | take => exact hinv
  | skip => exact ⟨hinv.1.scratch.trans_eq List.length_set.symm, hinv.1.out⟩
  | fill =>
    exact ⟨⟨hinv.1.scratch.trans_eq List.length_set.symm, hinv.1.out⟩,
      hinv.2.trans_eq List.length_set.symm⟩
  | stampRex =>
    refine ⟨hinv.2.trans_eq List.length_set.symm, ?_⟩
    rw [List.length_append]
    exact Nat.le_add_right_of_le hinv.1.out
  | exhausted | empty => exact ⟨hinv.scratch, hinv.out⟩
  | stampNew =>
    refine ⟨hinv.scratch, ?_⟩
    rw [List.length_append, List.length_append]
    exact Nat.add_le_add_right hinv.out 1
  | flush => exact hinv.out.trans (hfits.1.trans (hfits.2.1.trans hfits.2.2))
  | giveBack => exact Nat.le_of_succ_le hinv
  | _ => trivial

/-- Before the receiver is known nothing has begun. -/
structure Started (s : State) : Prop where
  waiting : s.sh.peer = none → s.pacerPc = .waitForPeer ∨ ∃ res, s.pacerPc = .returned res
  undone : s.pacerPc = .waitForPeer → s.sh.peer = none ∧ s.sh.done = false

theorem pacerStep_ne_waitForPeer {pc pc' : PacerPc} (hne : pc ≠ .waitForPeer)
    (h : pacerStep prim cfg sh env p pc = some (sh', p', pc')) : pc' ≠ .waitForPeer := by
  cases pacerStep_cases h with
  | listen => exact hne
  | _ => simp

theorem started_step {act : Action} (hinv : Started s) (h : step prim cfg s act = some t) :
    Started t := by
  have hknown : s.sh.peer.isSome = true → s.pacerPc ≠ .waitForPeer := by
    intro hpeer hpc
    rw [(hinv.undone hpc).1] at hpeer
    cases hpeer
  cases step_endMove h with
  | prefetch hpeer hp =>
    refine ⟨fun hnone => ?_, fun hpc => absurd hpc (hknown hpeer)⟩
    exact hinv.waiting ((prefetchStep_flags hp).peer hnone)
  | feedback hpeer hp =>
    refine ⟨fun hnone => ?_, fun hpc => absurd hpc (hknown hpeer)⟩
    exact hinv.waiting ((feedbackStep_flags hp).peer hnone)
  | pacer hp =>
    by_cases hwait : s.pacerPc = .waitForPeer
    · rw [hwait] at hp
      cases pacerStep_cases hp with
      | giveUp => exact ⟨fun _ => .inr ⟨_, rfl⟩, fun hpc => (by cases hpc)⟩
      | listen => exact ⟨fun _ => .inl rfl, fun _ => hinv.undone hwait⟩
      | meet => exact ⟨fun hnone => (by cases hnone), fun hpc => (by cases hpc)⟩
    · refine ⟨fun hnone => ?_, fun hpc => absurd hpc (pacerStep_ne_waitForPeer hwait hp)⟩
      obtain ⟨res, hres⟩ := (hinv.waiting ((pacerStep_flags hp).peer hnone)).resolve_left hwait
      rw [hres] at hp
      cases hp
  | join hpc => exact ⟨fun _ => .inr ⟨_, rfl⟩, fun hpc => by cases hpc⟩
  | stop | control => exact ⟨hinv.waiting, hinv.undone⟩

/-- What every reachable state keeps. -/
structure EndInv (prim : Primitives) (cfg : SendConfig) (s : State) : Prop where
  sender : SenderInv prim cfg s
  pool : PoolInv s
  batch : BatchInv s.pacer s.pacerPc
  counts : s.pacerPc.Counts s.pacer
  reading : ReadingOk cfg s.prefetch
  nacks : ∀ fh nacks, s.feedback.pending = some (fh, nacks) → nacks.length ≤ maxNacks
  started : Started s

theorem reading_step {pc pc' : PrefetchPc} (hinv : ReadingOk cfg pc)
    (h : prefetchStep prim cfg sh env pc = some (sh', pc')) : ReadingOk cfg pc' := by
  cases prefetchStep_move h with
  | borrow hseq => exact hseq
  | take => exact hinv
  | leave | retry | fail | fill | publish => trivial

theorem nacks_step {pc pc' : FeedbackPc}
    (hinv : ∀ fh nacks, pc.pending = some (fh, nacks) → nacks.length ≤ maxNacks)
    (h : feedbackStep cfg sh env pc = some (sh', pc')) :
    ∀ fh nacks, pc'.pending = some (fh, nacks) → nacks.length ≤ maxNacks := by
  intro fh nacks hpend
  cases feedbackStep_move h with
  | quiet _ hnone =>
    rw [hnone] at hpend
    cases hpend
  | arrive hmsg =>
    cases hpend
    unfold Env.feedback at hmsg
    split at hmsg
    · exact length_feedbackOf hmsg
    · cases hmsg
    · cases hmsg
  | setTick => exact hinv fh nacks hpend
  | pushNacks =>
    cases hpend
    exact Nat.zero_le _
  | storeRate => cases hpend

theorem endInv_step {act : Action} (hinv : EndInv prim cfg s) (h : step prim cfg s act = some t) :
    EndInv prim cfg t := by
  have hsender := senderInv_step hinv.sender h
  have hpool := pool_step hinv.pool h
  have hstarted := started_step hinv.started h
  cases step_endMove h with
  | prefetch _ hp =>
    exact ⟨hsender, hpool, hinv.batch, hinv.counts, reading_step hinv.reading hp, hinv.nacks, hstarted⟩
  | pacer hp =>
    exact ⟨hsender, hpool, batch_step hinv.batch hp, pacerStep_counts hinv.batch.fits hinv.counts hp,
      hinv.reading, hinv.nacks, hstarted⟩
  | feedback _ hp =>
    exact ⟨hsender, hpool, hinv.batch, hinv.counts, hinv.reading, nacks_step hinv.nacks hp, hstarted⟩
  | join => exact ⟨hsender, hpool, ⟨hinv.batch.batch_le, trivial⟩, trivial, hinv.reading, hinv.nacks,
      hstarted⟩
  | stop | control =>
    exact ⟨hsender, hpool, hinv.batch, hinv.counts, hinv.reading, hinv.nacks, hstarted⟩

theorem endInv_new : EndInv prim cfg (newSender cfg) := by
  refine ⟨senderInv_new, pool_new, ⟨batchSize_le cfg _, ?_⟩, ?_, trivial, fun _ _ h => (by cases h), ?_, ?_⟩
  · show (if cfg.peer.isSome then PacerPc.top else .waitForPeer).Fits
    split_ifs <;> trivial
  · show (if cfg.peer.isSome then PacerPc.top else .waitForPeer).Counts _
    split_ifs <;> trivial
  · intro hnone
    have hpeer : cfg.peer = none := hnone
    left
    simp [newSender, hpeer]
  · intro hpc
    refine ⟨?_, rfl⟩
    simpa [newSender] using hpc

theorem endInv_run {C : State → Action → Prop} {as : List Action}
    (h : Steps (step prim cfg) C (newSender cfg) as s) : EndInv prim cfg s :=
  h.invariant (fun _ _ _ hinv _ hstep => endInv_step hinv hstep) endInv_new

/-! ## No thread waits for another -/

theorem bufLen_le {buf : Bytes} (h : buf.length = bufLen cfg) :
    cfg.blockSize + dataHeaderSize ≤ buf.length := by
  rw [h, bufLen]
  omega

theorem buildPdu_ne_panic {renv : ReadEnv} {buf : Bytes} {seq : UInt64} {flags : UInt8}
    {rexIndex : Int64} (hbuf : buf.length = bufLen cfg) (hlen : plen cfg seq ≤ cfg.blockSize) :
    buildPdu prim cfg renv buf seq flags rexIndex ≠ .panic := by
  have hroom := bufLen_le hbuf
  unfold buildPdu
  dsimp only
  rw [if_neg (by omega)]
  split
  · unfold finishPdu
    dsimp only
    split <;> simp
  · simp

theorem prefetchPdu_ne_panic (hcfg : Consistent cfg) {renv : ReadEnv} {buf : Bytes} {seq : UInt64}
    (hbuf : buf.length = bufLen cfg) (hseq : seq < cfg.totalBlocks) :
    prefetchPdu prim cfg renv buf seq ≠ .panic := by
  apply buildPdu_ne_panic hbuf
  rw [plen_of_lt ((lt_totalBlocks_iff hcfg).mp hseq)]
  omega

theorem fillRetransmit_ne_panic {renv : ReadEnv} {buf : Bytes} {seq : UInt64}
    (hbuf : buf.length = bufLen cfg) : fillRetransmit prim cfg renv buf seq ≠ .panic := by
  unfold fillRetransmit
  split_ifs with hnone
  · simp
  · apply buildPdu_ne_panic hbuf
    unfold plen
    split_ifs with hlast
    · unfold asUsize
      omega
    · exact Nat.le_refl _

theorem prefetch_enabled (hcfg : Consistent cfg) (hinv : EndInv prim cfg s)
    (hrunning : s.prefetch ≠ .exited) (env : Env) :
    (prefetchStep prim cfg s.sh env s.prefetch).isSome = true := by
  have hok := hinv.sender.prefetch
  have hreading := hinv.reading
  have hwhole := hinv.pool.whole hrunning
  unfold State.buffers Shared.buffers at hwhole
  generalize s.prefetch = pc at *
  cases pc with
  | borrow seq =>
    rw [prefetchStep]
    split_ifs <;> rfl
  | recvFree seq =>
    rw [prefetchStep]
    split <;> rfl
  | fill seq buf =>
    have hpanic : prefetchPdu prim cfg env.toReadEnv buf seq ≠ .panic :=
      prefetchPdu_ne_panic hcfg hok hreading
    rw [prefetchStep]
    split
    · exact absurd ‹_› hpanic
    · rfl
    · rfl
  | publish seq item =>
    rw [PrefetchPc.buffers] at hwhole
    rw [prefetchStep, if_pos (by omega)]
    rfl
  | exited => exact absurd rfl hrunning

theorem feedback_enabled {pc : FeedbackPc} (hrunning : pc ≠ .exited) (sh : Shared) (env : Env) :
    (feedbackStep cfg sh env pc).isSome = true := by
  cases pc with
  | exited => exact absurd rfl hrunning
  | _ =>
    simp only [feedbackStep]
    (repeat' split) <;> rfl

theorem pacer_enabled (hinv : EndInv prim cfg s) (hjoin : ∀ res, s.pacerPc ≠ .join res)
    (hreturned : ∀ res, s.pacerPc ≠ .returned res) (env : Env) :
    (pacerStep prim cfg s.sh env s.pacer s.pacerPc).isSome = true := by
  have hscratch := hinv.sender.pacing.scratch
  have hcounts := hinv.counts
  have hpool := hinv.pool.le
  unfold State.buffers Shared.buffers at hpool
  generalize s.pacerPc = pc at *
  cases pc with
  | fillRex b seq =>
    have hbuf := List.getElem?_eq_getElem hcounts.2
    have hlen := hscratch _ (List.getElem_mem hcounts.2)
    rw [pacerStep, hbuf]
    dsimp only
    split
    · exact absurd ‹_› (fillRetransmit_ne_panic hlen)
    · rfl
    · rfl
  | stampRex b size =>
    rw [pacerStep, List.getElem?_eq_getElem hcounts.2]
    rfl
  | giveBack bufs =>
    cases bufs with
    | nil => rfl
    | cons buf bufs =>
      rw [PacerPc.buffers, List.length_cons] at hpool
      rw [pacerStep, if_pos (by omega)]
      rfl
  | join res => exact absurd rfl (hjoin res)
  | returned res => exact absurd rfl (hreturned res)
  | _ =>
    simp only [pacerStep]
    (repeat' split) <;> rfl

theorem exists_enabled (hcfg : Consistent cfg) (hinv : EndInv prim cfg s) (env : Env) :
    (∃ res, s.pacerPc = .returned res) ∨
      ∃ act ∈ [.prefetch env, .pacer env, .feedback env, .join], (step prim cfg s act).isSome = true := by
  by_cases hreturned : ∃ res, s.pacerPc = .returned res
  · exact .inl hreturned
  right
  by_cases hjoin : ∃ res, s.pacerPc = .join res
  · obtain ⟨res, hpc⟩ := hjoin
    have hpeer : s.sh.peer.isNone = false := by
      cases hpeer : s.sh.peer with
      | some addr => rfl
      | none =>
        rcases hinv.started.waiting hpeer with hwait | ⟨res', hres⟩
        · rw [hwait] at hpc
          cases hpc
        · exact absurd ⟨res', hres⟩ hreturned
    by_cases hprefetch : s.prefetch = .exited
    · by_cases hfeedback : s.feedback = .exited
      · refine ⟨.join, by simp, ?_⟩
        simp [step, hpc, hprefetch, hfeedback]
      · refine ⟨.feedback env, by simp, ?_⟩
        have hgoes : (feedbackStep cfg s.sh env s.feedback).isSome = true :=
          feedback_enabled hfeedback s.sh env
        simpa [step, hpeer] using hgoes
    · refine ⟨.prefetch env, by simp, ?_⟩
      have hgoes := prefetch_enabled hcfg hinv hprefetch env
      simpa [step, hpeer] using hgoes
  · refine ⟨.pacer env, by simp, ?_⟩
    have hgoes := pacer_enabled hinv (fun res hpc => hjoin ⟨res, hpc⟩)
      (fun res hpc => hreturned ⟨res, hpc⟩) env
    simpa [step] using hgoes

/-! ## The end of a run -/

/-- A step of `run` or of one of its threads, not a change of the flags from outside. -/
def Action.isThread : Action → Bool
  | .prefetch _ | .pacer _ | .feedback _ | .join => true
  | .stop | .control _ => false

theorem work_flags {stop : Bool} {control : Option TransferControl}
    (hmono : s.sh.shouldStop = true → Girth.shouldStop stop control = true) :
    State.work { s with sh := { s.sh with stop := stop, control := control } } ≤ s.work := by
  unfold State.work
  gcongr ?_ + ?_ + _ + _
  · exact Nat.le_refl _
  · exact s.pacerPc.work_mono hmono

/-- **One step**: there is less to do. -/
theorem step_work {act : Action} (hstarted : Started s) (hend : s.sh.Ending)
    (h : step prim cfg s act = some t) : act.isThread.toNat + t.work ≤ s.work := by
  cases step_endMove h with
  | @prefetch env sh pc _ hp =>
    have hless := prefetchStep_work hend hp
    have hflags := prefetchStep_flags hp
    have hpacer := s.pacerPc.work_mono (p := s.pacer) fun hstop => hflags.shouldStop.trans hstop
    have hqueued : sh.queued = s.sh.queued := by rw [Shared.queued, (prefetchStep_frame hp).rex]; rfl
    simp only [Action.isThread, Bool.toNat_true, State.work]
    omega
  | @pacer env sh p pc hp =>
    have hwait : s.pacerPc = .waitForPeer → s.sh.shouldStop = true := by
      intro hpc
      refine hend.resolve_right ?_
      rw [(hstarted.undone hpc).2]
      exact Bool.false_ne_true
    have hless := pacerStep_work (fun _ => hend) hwait hp
    simp only [Action.isThread, Bool.toNat_true, State.work]
    omega
  | @feedback env sh pc _ hp =>
    have hless := feedbackStep_work hend hp
    have hflags := feedbackStep_flags hp
    have hpacer := s.pacerPc.work_mono (p := s.pacer) fun hstop => hflags.shouldStop.trans hstop
    simp only [Action.isThread, Bool.toNat_true, State.work]
    omega
  | join hpc =>
    simp only [Action.isThread, Bool.toNat_true, State.work, hpc, PacerPc.work]
    omega
  | stop =>
    exact (Nat.zero_add _).le.trans (work_flags fun _ => rfl)
  | @control op control hmono =>
    exact (Nat.zero_add _).le.trans (work_flags hmono)

theorem pacer_work_le {pc : PacerPc} (hbatch : BatchInv p pc) (hcounts : pc.Counts p) (sh : Shared) :
    pc.work sh p ≤ 334 := by
  have hle := hbatch.batch_le
  have hfits := hbatch.fits
  have hp := p.work_le
  have hmax : max 64 p.batch = 64 := by omega
  cases pc with
  | stopCheck =>
    simp only [PacerPc.work, Pacer.turn, hmax]
    split_ifs <;> omega
  | pauseCheck | rate =>
    simp only [PacerPc.work, Pacer.turn, hmax]
    omega
  | build b | flush b =>
    obtain ⟨hout, hbuilt, hsend⟩ := hfits
    have hbufs := hcounts.out
    simp only [PacerPc.work, Batch.work]
    omega
  | fillRex b _ | stampRex b _ =>
    obtain ⟨hout, hbuilt, hsend⟩ := hfits
    have hbufs := hcounts.1.out
    simp only [PacerPc.work, Batch.work]
    omega
  | tryRecv b | stampNew b _ =>
    obtain ⟨hout, hbuilt, hsend⟩ := hfits
    have hbufs := hcounts.out
    simp only [PacerPc.work]
    omega
  | giveBack bufs =>
    have hlen : bufs.length ≤ 64 := hcounts
    simp only [PacerPc.work]
    omega
  | _ => simp [PacerPc.work]

theorem work_le (hinv : EndInv prim cfg s) : s.work ≤ 4 * s.sh.rex.heap.length + 844 := by
  have hpacer := pacer_work_le hinv.batch hinv.counts s.sh
  have hprefetch : s.prefetch.work ≤ 4 := by
    cases s.prefetch <;> simp [PrefetchPc.work]
  have hfeedback : s.feedback.work ≤ 506 := by
    have hnacks := hinv.nacks
    generalize s.feedback = pc at hnacks
    cases pc with
    | setTick fh nacks t2 | pushNacks fh nacks =>
      have hlen := hnacks fh nacks rfl
      unfold maxNacks at hlen
      simp only [FeedbackPc.work]
      omega
    | _ => simp [FeedbackPc.work, maxNacks]
  unfold State.work Shared.queued
  omega

/-- A step of a thread in which nothing arrives and no read fails. -/
def Calm (_ : State) (act : Action) : Prop :=
  act ∈ [Action.prefetch {}, .pacer {}, .feedback {}, .join]

theorem endInv_ending_step {act : Action} (hI : EndInv prim cfg s ∧ s.sh.Ending)
    (hstep : step prim cfg s act = some t) : EndInv prim cfg t ∧ t.sh.Ending :=
  ⟨endInv_step hI.1 hstep, step_ending hstep hI.2⟩

theorem works {C : State → Action → Prop} : Works (step prim cfg) C
    (fun s => EndInv prim cfg s ∧ s.sh.Ending) Action.isThread State.work :=
  fun _ _ _ hI _ hstep => step_work hI.1.started hI.2 hstep

theorem reach_returned (hcfg : Consistent cfg) (hinv : EndInv prim cfg s) (hend : s.sh.Ending) :
    Reach (step prim cfg) Calm s fun t => ∃ res, t.pacerPc = .returned res := by
  refine reach_final (fun s act t hI _ hstep => endInv_ending_step hI hstep) works ?_ ⟨hinv, hend⟩
  intro s hI hrunning
  obtain ⟨act, hact, hgoes⟩ := (exists_enabled hcfg hI.1 {}).resolve_left hrunning
  obtain ⟨t, hstep⟩ := Option.isSome_iff_exists.mp hgoes
  refine ⟨act, t, ?_, hact, hstep⟩
  simp only [List.mem_cons, List.not_mem_nil, or_false] at hact
  rcases hact with rfl | rfl | rfl | rfl <;> rfl

/-- **A sender that is to end does end.** From the moment it is stopped or cancelled, or the receiver has
reported that it is done, whatever datagrams arrive, whatever reads fail and whatever its owner does, the
threads take a bounded number of steps, four for each queued block and fewer than 850 besides; as long as
`run` has not returned, one of them can take its next step, whatever the environment decides; and so
every such run can be continued to one in which it has returned. -/
theorem run_returns (hcfg : Consistent cfg) {as : List Action}
    (h : Steps (step prim cfg) Any (newSender cfg) as s) (hend : s.sh.Ending) {bs : List Action}
    (h' : Steps (step prim cfg) Any s bs t) :
    bs.countP Action.isThread ≤ 4 * s.sh.rex.heap.length + 844 ∧
    (∀ env, (∃ res, t.pacerPc = .returned res) ∨
      ∃ act ∈ [.prefetch env, .pacer env, .feedback env, .join],
        (step prim cfg t act).isSome = true) ∧
    ∃ cs u res, Steps (step prim cfg) Any t cs u ∧ u.pacerPc = .returned res := by
  have hs : EndInv prim cfg s ∧ s.sh.Ending := ⟨endInv_run h, hend⟩
  have ht := h'.invariant (fun s act t hI _ hstep => endInv_ending_step hI hstep) hs
  refine ⟨?_, exists_enabled hcfg ht.1, ?_⟩
  · have hcount := h'.countP_add_le (fun s act t hI _ hstep => endInv_ending_step hI hstep) works hs
    have hle := work_le hs.1
    omega
  · obtain ⟨cs, u, hrun, res, hres⟩ := reach_returned hcfg ht.1 ht.2
    exact ⟨cs, u, res, hrun.mono fun _ _ _ => trivial, hres⟩

/-- A sender that is stopped with a block in its batch. -/
theorem run_returns_sealedByte : ∃ t,
    Steps (step sealedBytePrims sealedByte) Any (newSender sealedByte) (batchedByteActs ++ [.stop]) t ∧
      t.sh.shouldStop = true ∧ t.pacerPc.out.length = 1 ∧
      ∃ cs u res, Steps (step sealedBytePrims sealedByte) Any t cs u ∧ u.pacerPc = .returned res := by
  obtain ⟨t, hrun, hQ⟩ := steps_of_exec_check (step sealedBytePrims sealedByte)
    (newSender sealedByte) (batchedByteActs ++ [.stop]) Any
    (fun t => t.sh.shouldStop && t.pacerPc.out.length == 1) (by decide +kernel)
  simp only [Bool.and_eq_true, beq_iff_eq] at hQ
  obtain ⟨hstop, hout⟩ := hQ
  exact ⟨t, hrun, hstop, hout,
    (run_returns sealedByte_consistent hrun (.inl hstop) (.nil t)).2.2⟩

end Girth.Sender
