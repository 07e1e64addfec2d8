import Girth.Receiver.Scan
import Girth.Receiver.Outcome

/-!
# All threads of a receiver

Besides the workers, the flusher and the feedback thread, `run` starts two more: one that repeats START
until the first datagram has arrived, if the receiver is the end that begins, and one that asks the
system to write back what has been received (`sync_range`). Neither touches what the other threads share,
but `run` joins both together with the feedback thread before it goes on. `FullState` is the receiver
with them; `recv_run` says that a run of it is a run of the receiver for everything else.

The write-back is asked for from the last contiguous mark that was seen up to the highest block that was
seen. `writeback_inside`: that is never a byte outside the object, and never one behind a hole.
-/

namespace Girth.Receiver

open Lib

variable (prim : Primitives) {cfg : RecvConfig} {n : Nat}

/-! ## The two threads -/

/-- The repetitions of START that are left. -/
inductive StartPc
  | nudge (left : Nat)
  | exited
  deriving DecidableEq

/-- One step of the thread that repeats START; the flag says whether it sends one. -/
def startStep (sh : Shared cfg.totalBlocks) : StartPc → Option (StartPc × Bool)
  | .nudge 0 => some (.exited, false)
  | .nudge (left + 1) =>
    if sh.shouldStop || 0 < sh.stats.packetsRecv then some (.exited, false)
    else some (.nudge left, true)
  | .exited => none

/-- `lo` is the end of what was contiguous. -/
inductive WritebackPc
  | check (lo : Int)
  | sync (lo : Int)
  | mark (lo : Int)
  | exited

/-- The end of a block, as an `i64`. -/
def blockEnd (cfg : RecvConfig) (blocks : Nat) : Int :=
  ((blocks : Int) * cfg.blockSize).bmod (2 ^ 64)

/-- One step of the write-back thread, with the range it asks for. -/
def writebackStep (sh : Shared cfg.totalBlocks) : WritebackPc → Option (WritebackPc × Option (Int × Int))
  | .check lo => some (if sh.shouldStop || sh.done then .exited else .sync lo, none)
  | .sync lo =>
    let hi := blockEnd cfg (sh.maxSeen + 1)
    let hi := if hi > cfg.fileSize then cfg.fileSize else hi
    some (.mark lo, if hi > lo then some (lo, hi - lo) else none)
  | .mark lo =>
    let contig := blockEnd cfg sh.stats.hiContig
    some (.check (if contig > lo then contig else lo), none)
  | .exited => none

/-! ## The whole receiver -/

structure FullState (cfg : RecvConfig) (n : Nat) where
  recv : State cfg n
  start : StartPc
  writeback : WritebackPc
  /-- The STARTs sent, and the ranges asked for. -/
  starts : Nat := 0
  synced : List (Int × Int) := []

/-- `run` sends START five times before it starts the threads. -/
def newFull (recv : State cfg n) (startPeer noWriteback : Bool) : FullState cfg n where
  recv := recv
  start := if startPeer then .nudge 25 else .exited
  writeback := if cfg.totalBlocks = 0 ∨ noWriteback then .exited else .check 0
  starts := if startPeer then 5 else 0

inductive FullAction (n : Nat)
  | recv (act : Action n)
  | start
  | writeback

def WritebackPc.isExited : WritebackPc → Bool
  | .exited => true
  | _ => false

/-- The main thread also waits for the two threads. -/
def mayGo (s : FullState cfg n) : Action n → Bool
  | .main =>
    match s.recv.main with
    | .joinFeedback => s.start = .exited && s.writeback.isExited
    | _ => true
  | _ => true

def fullStep (s : FullState cfg n) : FullAction n → Option (FullState cfg n)
  | .recv act =>
    if mayGo s act then (step prim s.recv act).map fun recv => { s with recv := recv } else none
  | .start => (startStep s.recv.sh s.start).map fun (pc, sent) =>
      { s with start := pc, starts := s.starts + sent.toNat }
  | .writeback => (writebackStep s.recv.sh s.writeback).map fun (pc, range) =>
      { s with writeback := pc, synced := range.toList ++ s.synced }

variable {prim} {s t : FullState cfg n} {as : List (FullAction n)}
  {C : FullState cfg n → FullAction n → Prop}

/-- What a step of the whole receiver is. -/
inductive FullMove (prim : Primitives) (s : FullState cfg n) : FullAction n → FullState cfg n → Prop
  | recv {act recv} (hgo : mayGo s act = true) (hstep : step prim s.recv act = some recv) :
      FullMove prim s (.recv act) { s with recv := recv }
  | start {pc sent} (hstep : startStep s.recv.sh s.start = some (pc, sent)) :
      FullMove prim s .start { s with start := pc, starts := s.starts + sent.toNat }
  | writeback {pc range} (hstep : writebackStep s.recv.sh s.writeback = some (pc, range)) :
      FullMove prim s .writeback { s with writeback := pc, synced := range.toList ++ s.synced }

theorem full_move {act : FullAction n} (h : fullStep prim s act = some t) : FullMove prim s act t := by
  cases act with
  | recv act =>
    simp only [fullStep] at h
    split_ifs at h with hgo
    obtain ⟨recv, hstep, rfl⟩ := Option.map_eq_some_iff.mp h
    exact .recv hgo hstep
  | start =>
    obtain ⟨⟨pc, sent⟩, hstep, rfl⟩ := Option.map_eq_some_iff.mp h
    exact .start hstep
  | writeback =>
    obtain ⟨⟨pc, range⟩, hstep, rfl⟩ := Option.map_eq_some_iff.mp h
    exact .writeback hstep

/-- For everything else a run of the whole receiver is a run of the receiver; what holds of its steps
there holds of them here. -/
theorem recv_run {D : State cfg n → Action n → Prop}
    (hCD : ∀ s act, C s (.recv act) → D s.recv act) (h : Steps (fullStep prim) C s as t) :
    ∃ bs, Steps (step prim) D s.recv bs t.recv := by
  induction h with
  | nil s => exact ⟨[], .nil _⟩
  | @cons s u t act as hC hstep _ ih =>
    obtain ⟨bs, hrun⟩ := ih
    cases full_move hstep with
    | @recv act recv hgo hrecv => exact ⟨act :: bs, .cons (hCD s act hC) hrecv hrun⟩
    | start => exact ⟨bs, hrun⟩
    | writeback => exact ⟨bs, hrun⟩

/-! ## The ranges -/

/-- A range inside the object, with no hole in front of it. -/
structure Inside (cfg : RecvConfig) (isSet : Nat → Bool) (range : Int × Int) : Prop where
  nonneg : 0 ≤ range.1
  pos : 0 < range.2
  le : range.1 + range.2 ≤ cfg.fileSize
  contiguous : ∀ b : Nat, (b : Int) * cfg.blockSize < range.1 → isSet b = true

def WritebackPc.lo : WritebackPc → Int
  | .check lo | .sync lo | .mark lo => lo
  | .exited => 0

theorem WritebackPc.lo_check (lo : Int) : (WritebackPc.check lo).lo = lo := rfl

/-- What lies in front of the mark was received. -/
structure WritebackInv (cfg : RecvConfig) (isSet : Nat → Bool) (lo : Int) (synced : List (Int × Int)) :
    Prop where
  nonneg : 0 ≤ lo
  contiguous : ∀ b : Nat, (b : Int) * cfg.blockSize < lo → isSet b = true
  inside : ∀ range ∈ synced, Inside cfg isSet range

theorem isSet_step {s t : State cfg n} {act : Action n} (h : step prim s act = some t) {b : Nat}
    (hb : s.sh.bm.isSet b = true) : t.sh.bm.isSet b = true := by
  cases step_move h with
  | ingest hi =>
    rcases (ingestStep_frame hi).2 with hbm | ⟨pkt, rest, -, hbm⟩
    · show RecvBitmap.isSet _ b = true
      rw [hbm]
      exact hb
    · show RecvBitmap.isSet _ b = true
      rw [hbm]
      exact RecvBitmap.isSet_setAndTest_of_isSet pkt.seq_lt hb
  | flusher hf =>
    show RecvBitmap.isSet _ b = true
    rw [(flusherStep_frame hf).bm]
    exact hb
  | feedback hfb =>
    show RecvBitmap.isSet _ b = true
    rw [(feedbackStep_frame hfb).bm]
    exact hb
  | quiet => exact hb

theorem WritebackInv.mono {isSet isSet' : Nat → Bool} {lo : Int} {synced : List (Int × Int)}
    (h : WritebackInv cfg isSet lo synced) (hle : ∀ b, isSet b = true → isSet' b = true) :
    WritebackInv cfg isSet' lo synced := by
  refine ⟨h.nonneg, fun b hb => hle b (h.contiguous b hb), fun range hrange => ?_⟩
  have hin := h.inside range hrange
  exact ⟨hin.nonneg, hin.pos, hin.le, fun b hb => hle b (hin.contiguous b hb)⟩

theorem WritebackInv.raise {isSet : Nat → Bool} {lo contig : Int} {synced : List (Int × Int)}
    (h : WritebackInv cfg isSet lo synced)
    (hcontig : ∀ b : Nat, (b : Int) * cfg.blockSize < contig → isSet b = true) :
    WritebackInv cfg isSet (if contig > lo then contig else lo) synced := by
  have hlo := h.nonneg
  split_ifs with hfar
  · exact ⟨by omega, hcontig, h.inside⟩
  · exact h

theorem blockEnd_le (cfg : RecvConfig) (blocks : Nat) :
    blockEnd cfg blocks ≤ (blocks : Int) * cfg.blockSize := by
  have hnonneg : (0 : Int) ≤ (blocks : Int) * cfg.blockSize := by positivity
  unfold blockEnd
  generalize (blocks : Int) * cfg.blockSize = x at hnonneg
  unfold Int.bmod
  dsimp only
  push_cast
  split_ifs <;> omega

theorem lt_of_blockEnd {blocks b : Nat} (h : (b : Int) * cfg.blockSize < blockEnd cfg blocks) :
    b < blocks := by
  have hle := blockEnd_le cfg blocks
  have hmul : (b : Int) * cfg.blockSize < (blocks : Int) * cfg.blockSize := lt_of_lt_of_le h hle
  have hpos : (0 : Int) < cfg.blockSize := by exact_mod_cast cfg.blockSize_pos
  have hlt := lt_of_mul_lt_mul_right hmul hpos.le
  exact_mod_cast hlt

theorem writebackStep_inv {sh : Shared cfg.totalBlocks} {pc pc' : WritebackPc}
    {range : Option (Int × Int)} {synced : List (Int × Int)}
    (hmark : ∀ b < sh.stats.hiContig, sh.bm.isSet b = true)
    (hinv : WritebackInv cfg sh.bm.isSet pc.lo synced)
    (h : writebackStep sh pc = some (pc', range)) :
    WritebackInv cfg sh.bm.isSet pc'.lo (range.toList ++ synced) := by
  cases pc with
  | check lo =>
    cases h
    split_ifs
    · refine ⟨Int.le_refl 0, fun b hb => ?_, hinv.inside⟩
      have hnonneg : (0 : Int) ≤ (b : Int) * cfg.blockSize := by positivity
      exact absurd hb (not_lt.mpr hnonneg)
    · exact hinv
  | sync lo =>
    cases h
    refine ⟨hinv.nonneg, hinv.contiguous, ?_⟩
    have hlo := hinv.nonneg
    split_ifs with hover hrange hrange
    · intro range hmem
      rcases List.mem_cons.mp hmem with rfl | hmem
      · exact ⟨hlo, by dsimp only; omega, by dsimp only; omega, hinv.contiguous⟩
      · exact hinv.inside range hmem
    · exact hinv.inside
    · intro range hmem
      rcases List.mem_cons.mp hmem with rfl | hmem
      · exact ⟨hlo, by dsimp only; omega, by dsimp only; omega, hinv.contiguous⟩
      · exact hinv.inside range hmem
    · exact hinv.inside
  | mark lo =>
    cases h
    rw [WritebackPc.lo_check]
    exact hinv.raise fun b hb => hmark b (lt_of_blockEnd hb)
  | exited => cases h

/-- **Write-back stays inside.** In every run of a receiver whose `Stats` carry no mark of an earlier
transfer, whatever the arithmetic does at the upper end, the ranges that are written back are not empty
and inside the object, and every block that begins in front of one has been received. -/
theorem writeback_inside {sink : Sink} {recv : State cfg n} {startPeer noWriteback : Bool}
    (hnew : newReceiver cfg n sink = some recv) (hmark : cfg.stats.hiContig = 0)
    (h : Steps (fullStep prim) Any (newFull recv startPeer noWriteback) as s) :
    ∀ range ∈ s.synced, Inside cfg s.recv.sh.bm.isSet range := by
  have hinv : WritebackInv cfg s.recv.sh.bm.isSet s.writeback.lo s.synced := by
    refine h.invariant_of_run
      (I := fun s => WritebackInv cfg s.recv.sh.bm.isSet s.writeback.lo s.synced) ?_ ?_
    · intro bs u act v hrun hinv _ hstep
      cases full_move hstep with
      | recv _ hrecv => exact hinv.mono fun b hb => isSet_step hrecv hb
      | start => exact hinv
      | writeback hwb =>
        obtain ⟨cs, hbase⟩ := recv_run (D := Any) (fun _ _ _ => trivial) hrun
        refine writebackStep_inv (fun b (hb : b < u.recv.sh.stats.hiContig) => ?_) hinv hwb
        exact isSet_of_lt_hiContig hnew hbase (by omega) hb
    · have hlo : (newFull recv startPeer noWriteback).writeback.lo = 0 := by
        unfold newFull
        dsimp only
        split_ifs <;> rfl
      rw [hlo]
      refine ⟨Int.le_refl 0, fun b hb => ?_, fun range hmem => (by cases hmem)⟩
      have hnonneg : (0 : Int) ≤ (b : Int) * cfg.blockSize := by positivity
      exact absurd hb (not_lt.mpr hnonneg)
  exact hinv.inside

/-- The only block arrives; its byte is written back, and then the mark is past it. -/
def syncedActs : List (FullAction 1) :=
  (oneBlockActs .ok).map .recv ++ [.writeback, .writeback, .writeback]

theorem writeback_inside_oneBlock : ∃ recv s, newReceiver oneBlock 1 zeroByte = some recv ∧
    Steps (fullStep oneBlockPrims) Any (newFull recv false false) syncedActs s ∧
    (0, 1) ∈ s.synced ∧ Inside oneBlock s.recv.sh.bm.isSet (0, 1) := by
  obtain ⟨recv, s, hnew, hrun, hQ⟩ := exists_steps_of_exec_check
    (newReceiver oneBlock 1 zeroByte) (fun recv => newFull recv false false)
    (fullStep oneBlockPrims) syncedActs Any (fun s => decide ((0, 1) ∈ s.synced)) (by decide +kernel)
  have hmem : (0, 1) ∈ s.synced := of_decide_eq_true hQ
  exact ⟨recv, s, hnew, hrun, hmem, writeback_inside hnew rfl hrun (0, 1) hmem⟩

end Girth.Receiver
