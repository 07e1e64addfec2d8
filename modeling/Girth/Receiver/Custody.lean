import Girth.Receiver.Steps

/-!
# Who holds a block

A block that was received is always in exactly one place: with the one worker that accepted it, in
the stage map waiting for the flusher, in the flusher's hands, or written. `Custody` lists the
places. `Tracks b s c` says that in the state `s` every component that mentions block `b` (the two
bitmaps, the stage map, the workers, the flusher and the history of writes) is as block `b` in place
`c` implies. `Custody.Moves` lists the ways from place to place; `tracks_step` is the step lemma over
all threads, a simulation: each step of the receiver is a move of each block. `tracks_run` is the run
lemma: every block always has a place.

One place has no way out: a direct write that failed leaves its block `stranded`.
-/

namespace Girth.Receiver

open Lib

/-! ## Places -/

/-- How far the worker that accepted a block has come. -/
inductive Hold
  | accepted
  | staged
  | written
  deriving DecidableEq

inductive Custody (n : Nat)
  | missing
  | held (i : Fin n) (h : Hold) (p : Bytes)
  /-- In the stage map and ready. -/
  | queued (p : Bytes)
  /-- Taken out of the stage map by the flusher. -/
  | lifted (p : Bytes)
  /-- Handed to the sink by the flusher, with the result. -/
  | flushed (p : Bytes) (res : WriteResult)
  /-- Written directly by its worker, and ready. -/
  | direct (p : Bytes)
  /-- The direct write failed. -/
  | stranded (p : Bytes) (written : Nat)

/-- Where the flusher is, seen from one block. -/
inductive FlusherPos
  | before
  | removing
  | writing (buf : Bytes)
  | freeing
  | advancing
  | passed
  deriving DecidableEq

/-- At the block at the front. -/
def FlusherPc.pos : FlusherPc → FlusherPos
  | .remove => .removing
  | .write buf => .writing buf
  | .free => .freeing
  | .advance => .advancing
  | .inner _ | .stopCheck | .wait | .exited => .before

def Flusher.pos (f : Flusher) (b : Nat) : FlusherPos :=
  if f.writeFront < b then .before else if b < f.writeFront then .passed else f.pc.pos

def DataPc.hold : DataPc → Option Hold
  | .count | .tryPool | .stage | .direct => some .accepted
  | .ready .flush => some .staged
  | .ready .direct => some .written
  | _ => none

/-- What a worker holds of block `b`. -/
def IngestPc.holding {total : Nat} (b : Nat) : IngestPc total → Option (Hold × Bytes)
  | .data pc pkt _ => if pkt.seq = b then pc.hold.map (·, pkt.payload) else none
  | _ => none

def Event.writeOf (b : Nat) : Event → Option (WritePath × Bytes × WriteResult)
  | .write path seq buf res => if seq = b then some (path, buf, res) else none
  | .feedback .. => none

/-- The writes of block `b`, newest first. -/
def writesOf (b : Nat) (trace : List Event) : List (WritePath × Bytes × WriteResult) :=
  trace.filterMap (Event.writeOf b)

namespace Custody

variable {n : Nat}

def received : Custody n → Bool
  | .missing => false
  | _ => true

def isReady : Custody n → Bool
  | .missing | .held .. | .stranded .. => false
  | _ => true

def staged : Custody n → Option Bytes
  | .held _ .staged p | .queued p => some p
  | _ => none

def holder (i : Fin n) : Custody n → Option (Hold × Bytes)
  | .held j h p => if j = i then some (h, p) else none
  | _ => none

def writes : Custody n → List (WritePath × Bytes × WriteResult)
  | .held _ .written p | .direct p => [(.direct, p, .ok)]
  | .flushed p res => [(.flush, p, res)]
  | .stranded p written => [(.direct, p, .err written)]
  | _ => []

/-- The positions the flusher can have. -/
def FlusherAt (pos : FlusherPos) : Custody n → Prop
  | .missing | .held .. | .stranded .. => pos = .before
  | .queued _ => pos = .before ∨ pos = .removing
  | .lifted p => pos = .writing p
  | .flushed .. => pos = .freeing ∨ pos = .advancing ∨ pos = .passed
  | .direct _ => pos = .before ∨ pos = .removing ∨ pos = .advancing ∨ pos = .passed

/-- How a block goes from place to place. -/
inductive Moves : Custody n → Custody n → Prop
  | stay (c : Custody n) : Moves c c
  | accept (i : Fin n) (p : Bytes) : Moves .missing (.held i .accepted p)
  | stage (i : Fin n) (p : Bytes) : Moves (.held i .accepted p) (.held i .staged p)
  | write (i : Fin n) (p : Bytes) : Moves (.held i .accepted p) (.held i .written p)
  | strand (i : Fin n) (p : Bytes) (written : Nat) :
      Moves (.held i .accepted p) (.stranded p written)
  | queue (i : Fin n) (p : Bytes) : Moves (.held i .staged p) (.queued p)
  | finish (i : Fin n) (p : Bytes) : Moves (.held i .written p) (.direct p)
  | lift (p : Bytes) : Moves (.queued p) (.lifted p)
  | flush (p : Bytes) (res : WriteResult) : Moves (.lifted p) (.flushed p res)

def payload : Custody n → Option Bytes
  | .missing => none
  | .held _ _ p | .queued p | .lifted p | .flushed p _ | .direct p | .stranded p _ => some p

theorem Moves.payload_eq {c c' : Custody n} (h : c.Moves c') :
    c'.payload = c.payload ∨ ∃ i p, c' = .held i .accepted p := by
  cases h with
  | accept i p => exact .inr ⟨i, p, rfl⟩
  | _ => exact .inl rfl

theorem payload_of_mem_writes {c : Custody n} {path : WritePath} {p : Bytes} {res : WriteResult}
    (h : (path, p, res) ∈ c.writes) : c.payload = some p := by
  cases c with
  | held i hold q => cases hold <;> simp_all [writes, payload]
  | _ => simp_all [writes, payload]

theorem eq_missing {c : Custody n} (h : c.received = false) : c = .missing := by
  cases c <;> first | rfl | cases h

theorem eq_held {c : Custody n} {i : Fin n} {h : Hold} {p : Bytes}
    (hc : c.holder i = some (h, p)) : c = .held i h p := by
  cases c with
  | held j h' p' =>
    simp only [holder] at hc
    split at hc
    · rename_i hji
      cases hc
      rw [hji]
    · cases hc
  | _ => cases hc

/-! What the position of the flusher says about the block at the front. -/

theorem FlusherAt.removing {c : Custody n} (h : c.FlusherAt .removing) :
    (∃ p, c = .queued p) ∨ ∃ p, c = .direct p := by
  cases c <;> simp_all [FlusherAt]

theorem FlusherAt.writing {c : Custody n} {buf : Bytes} (h : c.FlusherAt (.writing buf)) :
    c = .lifted buf := by
  cases c <;> simp_all [FlusherAt]

theorem FlusherAt.freeing {c : Custody n} (h : c.FlusherAt .freeing) :
    ∃ p res, c = .flushed p res := by
  cases c <;> simp_all [FlusherAt]

theorem FlusherAt.advancing {c : Custody n} (h : c.FlusherAt .advancing) :
    (∃ p res, c = .flushed p res) ∨ ∃ p, c = .direct p := by
  cases c <;> simp_all [FlusherAt]

theorem FlusherAt.before_ready {c : Custody n} (h : c.FlusherAt .before)
    (hready : c.isReady = true) : (∃ p, c = .queued p) ∨ ∃ p, c = .direct p := by
  cases c <;> simp_all [FlusherAt, isReady]

theorem holder_held_ne {i : Fin n} {h : Hold} {p : Bytes} (j : Fin n) (hj : j ≠ i) :
    (held i h p).holder j = none := if_neg (Ne.symm hj)

end Custody

variable {prim : Primitives} {cfg : RecvConfig} {n : Nat} {b : Nat}

structure Tracks (b : Nat) (s : State cfg n) (c : Custody n) : Prop where
  bm : s.sh.bm.isSet b = c.received
  ready : s.sh.readyBm.isSet b = c.isReady
  stage : s.sh.stage.lookup b = c.staged
  workers : ∀ i, (s.workers i).holding b = c.holder i
  flusher : c.FlusherAt (s.flusher.pos b)
  writes : writesOf b s.sh.trace = c.writes

/-! ## Steps that do not touch the block -/

/-- The parts of the shared state that say where blocks are. -/
structure SameBlock (b : Nat) (sh sh' : Shared cfg.totalBlocks) : Prop where
  bm : sh'.bm.isSet b = sh.bm.isSet b
  ready : sh'.readyBm.isSet b = sh.readyBm.isSet b
  stage : sh'.stage.lookup b = sh.stage.lookup b
  writes : writesOf b sh'.trace = writesOf b sh.trace

theorem SameBlock.rfl {sh : Shared cfg.totalBlocks} : SameBlock b sh sh :=
  ⟨by rfl, by rfl, by rfl, by rfl⟩

theorem Tracks.frame {s t : State cfg n} {c : Custody n} (h : Tracks b s c)
    (hsh : SameBlock b s.sh t.sh) (hworkers : ∀ i, (t.workers i).holding b = (s.workers i).holding b)
    (hpos : t.flusher.pos b = s.flusher.pos b) : Tracks b t c where
  bm := hsh.bm.trans h.bm
  ready := hsh.ready.trans h.ready
  stage := hsh.stage.trans h.stage
  workers i := (hworkers i).trans (h.workers i)
  flusher := hpos ▸ h.flusher
  writes := hsh.writes.trans h.writes

theorem Tracks.ingest_frame {s : State cfg n} {c : Custody n} (h : Tracks b s c) (i : Fin n)
    {sh : Shared cfg.totalBlocks} {pc : IngestPc cfg.totalBlocks} (hsh : SameBlock b s.sh sh)
    (hpc : pc.holding b = (s.workers i).holding b) :
    Tracks b { s with sh := sh, workers := Function.update s.workers i pc } c := by
  refine h.frame hsh (fun j => ?_) rfl
  by_cases hj : j = i
  · subst hj
    simp only [Function.update_self]
    exact hpc
  · simp only [Function.update_of_ne hj]

theorem holding_of_ne {total : Nat} {pc : DataPc} {pkt : DataPkt total} {rest : List Datagram}
    (h : pkt.seq ≠ b) : (IngestPc.data pc pkt rest).holding b = none := if_neg h

theorem holding_of_idle {total : Nat} {pc : IngestPc total} (h : pc.idle) : pc.holding b = none := by
  cases pc with
  | data dpc pkt rest =>
    cases dpc with
    | learn addr => exact ite_self none
    | _ => cases h
  | _ => rfl

theorem writesOf_cons_ne {path : WritePath} {seq : Nat} {buf : Bytes} {res : WriteResult}
    (h : seq ≠ b) (trace : List Event) :
    writesOf b (.write path seq buf res :: trace) = writesOf b trace :=
  List.filterMap_cons_none (if_neg h)

theorem writesOf_cons_self (path : WritePath) (buf : Bytes) (res : WriteResult)
    (trace : List Event) :
    writesOf b (.write path b buf res :: trace) = (path, buf, res) :: writesOf b trace :=
  List.filterMap_cons_some (if_pos rfl)

theorem Shared.writeBlock_trace (sh : Shared cfg.totalBlocks) (blockSize : Nat) (path : WritePath)
    (seq : Nat) (buf : Bytes) (res : WriteResult) :
    (sh.writeBlock blockSize path seq buf res).trace = .write path seq buf res :: sh.trace := rfl

theorem SameBlock.writeBlock {sh : Shared cfg.totalBlocks} {blockSize seq : Nat} (path : WritePath)
    (buf : Bytes) (res : WriteResult) (h : seq ≠ b) :
    SameBlock b sh (sh.writeBlock blockSize path seq buf res) :=
  ⟨by rfl, by rfl, by rfl, writesOf_cons_ne h _⟩

theorem isSet_setAndTest_seq {bm : RecvBitmap cfg.totalBlocks} {pkt : DataPkt cfg.totalBlocks}
    (h : pkt.seq = b) : (bm.setAndTest pkt.seq).1.isSet b = true := by
  rw [RecvBitmap.isSet_setAndTest (show pkt.seq < cfg.totalBlocks from pkt.seq_lt), ← h,
    beq_self_eq_true, Bool.or_true]

theorem isSet_setAndTest_ne {bm : RecvBitmap cfg.totalBlocks} {pkt : DataPkt cfg.totalBlocks}
    (h : pkt.seq ≠ b) : (bm.setAndTest pkt.seq).1.isSet b = bm.isSet b := by
  rw [RecvBitmap.isSet_setAndTest (show pkt.seq < cfg.totalBlocks from pkt.seq_lt),
    beq_eq_false_iff_ne.mpr (Ne.symm h), Bool.or_false]

theorem SameBlock.applyTick {sh : Shared cfg.totalBlocks} (h : DataHeader) (now : UInt64) :
    SameBlock b sh (sh.applyTick h now) := by
  unfold Shared.applyTick
  dsimp only
  split
  · exact .rfl
  · split <;> exact ⟨by rfl, by rfl, by rfl, by rfl⟩

/-! ## Ingest -/

theorem Tracks.ingest_move {s : State cfg n} {i : Fin n} {sh : Shared cfg.totalBlocks}
    {pc : IngestPc cfg.totalBlocks} {c c' : Custody n} (h : Tracks b s c)
    (hbm : sh.bm.isSet b = c'.received) (hready : sh.readyBm.isSet b = c'.isReady)
    (hstage : sh.stage.lookup b = c'.staged) (hpc : pc.holding b = c'.holder i)
    (hothers : ∀ j, j ≠ i → c.holder j = none) (hothers' : ∀ j, j ≠ i → c'.holder j = none)
    (hpos : c'.FlusherAt (s.flusher.pos b)) (hwrites : writesOf b sh.trace = c'.writes) :
    Tracks b { s with sh := sh, workers := Function.update s.workers i pc } c' where
  bm := hbm
  ready := hready
  stage := hstage
  workers j := by
    by_cases hj : j = i
    · subst hj
      simp only [Function.update_self]
      exact hpc
    · simp only [Function.update_of_ne hj]
      rw [h.workers j, hothers j hj, hothers' j hj]
  flusher := hpos
  writes := hwrites

section data

variable {s : State cfg n} {c : Custody n} {i : Fin n} {pkt : DataPkt cfg.totalBlocks}
  {rest : List Datagram}

theorem Tracks.eq_held {pc : DataPc} {hold : Hold} (h : Tracks b s c)
    (hpc : s.workers i = .data pc pkt rest) (hhold : pc.hold = some hold) (hseq : pkt.seq = b) :
    c = .held i hold pkt.payload := by
  refine Custody.eq_held ?_
  rw [← h.workers i, hpc, IngestPc.holding, if_pos hseq, hhold]
  rfl

theorem tracks_setBm (h : Tracks b s c) (env : Env) (hpc : s.workers i = .data .setBm pkt rest) :
    ∃ c', c.Moves c' ∧ Tracks b { s with
      sh := (dataStep cfg s.sh pkt rest env .setBm).1
      workers := Function.update s.workers i (dataStep cfg s.sh pkt rest env .setBm).2 } c' := by
  have hnone : (s.workers i).holding b = none := by
    rw [hpc, IngestPc.holding]
    split <;> rfl
  simp only [dataStep]
  rw [RecvBitmap.setAndTest_snd]
  by_cases hset : s.sh.bm.isSet pkt.seq = true
  · -- a duplicate: the bit was set already
    rw [hset]
    refine ⟨c, .stay c, h.ingest_frame i ⟨?_, rfl, rfl, rfl⟩ hnone.symm⟩
    by_cases hseq : pkt.seq = b
    · exact (isSet_setAndTest_seq hseq).trans (hseq ▸ hset).symm
    · exact isSet_setAndTest_ne hseq
  · rw [Bool.not_eq_true] at hset
    rw [hset]
    by_cases hseq : pkt.seq = b
    · -- the block is new, and this worker accepts it
      rw [hseq] at hset
      have hmiss : c = .missing := Custody.eq_missing (h.bm.symm.trans hset)
      subst hmiss
      refine ⟨.held i .accepted pkt.payload, .accept _ _, h.ingest_move (isSet_setAndTest_seq hseq)
        h.ready h.stage ?_ (fun _ _ => rfl) Custody.holder_held_ne h.flusher h.writes⟩
      simp [IngestPc.holding, hseq, DataPc.hold, Custody.holder]
    · refine ⟨c, .stay c, h.ingest_frame i ⟨isSet_setAndTest_ne hseq, rfl, rfl, rfl⟩ ?_⟩
      rw [hnone]
      exact holding_of_ne hseq

theorem tracks_stage (h : Tracks b s c) (env : Env) (hpc : s.workers i = .data .stage pkt rest) :
    ∃ c', c.Moves c' ∧ Tracks b { s with
      sh := (dataStep cfg s.sh pkt rest env .stage).1
      workers := Function.update s.workers i (dataStep cfg s.sh pkt rest env .stage).2 } c' := by
  simp only [dataStep]
  by_cases hseq : pkt.seq = b
  · obtain rfl := h.eq_held hpc rfl hseq
    refine ⟨.held i .staged pkt.payload, .stage _ _, h.ingest_move h.bm h.ready ?_ ?_
      Custody.holder_held_ne Custody.holder_held_ne h.flusher h.writes⟩
    · rw [hseq]
      exact AList.lookup_insert _
    · simp [IngestPc.holding, hseq, DataPc.hold, Custody.holder]
  · refine ⟨c, .stay c, h.ingest_frame i ⟨rfl, rfl, ?_, rfl⟩ ?_⟩
    · exact AList.lookup_insert_ne (Ne.symm hseq)
    · rw [hpc, holding_of_ne hseq, holding_of_ne hseq]

theorem tracks_direct (h : Tracks b s c) (env : Env) (hpc : s.workers i = .data .direct pkt rest) :
    ∃ c', c.Moves c' ∧ Tracks b { s with
      sh := (dataStep cfg s.sh pkt rest env .direct).1
      workers := Function.update s.workers i (dataStep cfg s.sh pkt rest env .direct).2 } c' := by
  by_cases hseq : pkt.seq = b
  · obtain rfl := h.eq_held hpc rfl hseq
    have hwrites : writesOf b (s.sh.writeBlock cfg.blockSize .direct pkt.seq pkt.payload env.io).trace
        = [(.direct, pkt.payload, env.io)] := by
      rw [Shared.writeBlock_trace, hseq, writesOf_cons_self, h.writes]
      rfl
    cases hio : env.io with
    | ok =>
      rw [hio] at hwrites
      simp only [dataStep, hio]
      refine ⟨.held i .written pkt.payload, .write _ _, h.ingest_move h.bm h.ready h.stage ?_
        Custody.holder_held_ne Custody.holder_held_ne h.flusher hwrites⟩
      simp [IngestPc.holding, hseq, DataPc.hold, Custody.holder]
    | err written =>
      rw [hio] at hwrites
      simp only [dataStep, hio]
      exact ⟨.stranded pkt.payload written, .strand _ _ _, h.ingest_move h.bm h.ready h.stage rfl
        Custody.holder_held_ne (fun _ _ => rfl) h.flusher hwrites⟩
  · have hsame : SameBlock b s.sh (s.sh.writeBlock cfg.blockSize .direct pkt.seq pkt.payload env.io) :=
      .writeBlock _ _ _ hseq
    have hnone : (s.workers i).holding b = none := by rw [hpc, holding_of_ne hseq]
    cases hio : env.io with
    | ok =>
      rw [hio] at hsame
      simp only [dataStep, hio]
      exact ⟨c, .stay c, h.ingest_frame i hsame (by rw [hnone]; exact holding_of_ne hseq)⟩
    | err written =>
      rw [hio] at hsame
      simp only [dataStep, hio]
      exact ⟨c, .stay c, h.ingest_frame i hsame hnone.symm⟩

theorem tracks_ready (h : Tracks b s c) (env : Env) {path : WritePath}
    (hpc : s.workers i = .data (.ready path) pkt rest) :
    ∃ c', c.Moves c' ∧ Tracks b { s with
      sh := (dataStep cfg s.sh pkt rest env (.ready path)).1
      workers := Function.update s.workers i (dataStep cfg s.sh pkt rest env (.ready path)).2 } c' := by
  simp only [dataStep]
  by_cases hseq : pkt.seq = b
  · have hset : (s.sh.readyBm.setAndTest pkt.seq).1.isSet b = true := isSet_setAndTest_seq hseq
    have hgone : (IngestPc.data .signal pkt rest).holding b = none := by
      rw [IngestPc.holding, if_pos hseq]
      rfl
    cases path with
    | flush =>
      obtain rfl := h.eq_held hpc rfl hseq
      exact ⟨.queued pkt.payload, .queue _ _, h.ingest_move h.bm hset h.stage hgone
        Custody.holder_held_ne (fun _ _ => rfl) (.inl h.flusher) h.writes⟩
    | direct =>
      obtain rfl := h.eq_held hpc rfl hseq
      exact ⟨.direct pkt.payload, .finish _ _, h.ingest_move h.bm hset h.stage hgone
        Custody.holder_held_ne (fun _ _ => rfl) (.inl h.flusher) h.writes⟩
  · refine ⟨c, .stay c, h.ingest_frame i ⟨rfl, isSet_setAndTest_ne hseq, rfl, rfl⟩ ?_⟩
    rw [hpc, holding_of_ne hseq, holding_of_ne hseq]

theorem tracks_data (h : Tracks b s c) (env : Env) {pc : DataPc}
    (hpc : s.workers i = .data pc pkt rest) :
    ∃ c', c.Moves c' ∧ Tracks b { s with
      sh := (dataStep cfg s.sh pkt rest env pc).1
      workers := Function.update s.workers i (dataStep cfg s.sh pkt rest env pc).2 } c' := by
  have hholding : (s.workers i).holding b =
      if pkt.seq = b then pc.hold.map (·, pkt.payload) else none := by
    rw [hpc]
    rfl
  cases pc with
  | setBm => exact tracks_setBm h env hpc
  | stage => exact tracks_stage h env hpc
  | direct => exact tracks_direct h env hpc
  | ready path => exact tracks_ready h env hpc
  | learn addr =>
    refine ⟨c, .stay c, h.ingest_frame i ?_ ?_⟩
    · simp only [dataStep]
      split_ifs <;> exact ⟨rfl, rfl, rfl, rfl⟩
    · rw [hholding]
      simp only [dataStep]
      split_ifs <;> simp_all [IngestPc.holding, DataPc.hold]
  | tick =>
    refine ⟨c, .stay c, h.ingest_frame i (.applyTick _ _) ?_⟩
    rw [hholding]
    rfl
  | tryPool =>
    refine ⟨c, .stay c, h.ingest_frame i ?_ ?_⟩
    · simp only [dataStep]
      split <;> exact ⟨rfl, rfl, rfl, rfl⟩
    · rw [hholding]
      simp only [dataStep]
      split <;> rfl
  | seenAny | maxSeen | count =>
    refine ⟨c, .stay c, h.ingest_frame i ⟨rfl, rfl, rfl, rfl⟩ ?_⟩
    rw [hholding]
    rfl
  | signal =>
    refine ⟨c, .stay c, h.ingest_frame i ⟨rfl, rfl, rfl, rfl⟩ ?_⟩
    rw [hholding]
    split_ifs <;> rfl

end data

theorem tracks_ingest {s : State cfg n} {c : Custody n} {i : Fin n} {env : Env}
    {sh : Shared cfg.totalBlocks} {pc : IngestPc cfg.totalBlocks} (h : Tracks b s c)
    (hstep : ingestStep prim cfg s.sh env (s.workers i) = some (sh, pc)) :
    ∃ c', c.Moves c' ∧ Tracks b { s with sh := sh, workers := Function.update s.workers i pc } c' := by
  have hmove := ingestStep_move hstep
  generalize hpc : s.workers i = pc₀ at hmove
  cases hmove with
  | data => exact tracks_data h env hpc
  | quiet _ hidle hidle' =>
    refine ⟨c, .stay c, h.ingest_frame i ⟨rfl, rfl, rfl, rfl⟩ ?_⟩
    rw [hpc, holding_of_idle hidle, holding_of_idle hidle']

/-! ## The flusher -/

theorem Flusher.pos_of_ne {f : Flusher} (pc : FlusherPc) (h : f.writeFront ≠ b) :
    Flusher.pos { f with pc := pc } b = f.pos b := by
  rcases Nat.lt_or_gt_of_ne h with h | h
  · simp only [Flusher.pos, if_pos h]
  · simp only [Flusher.pos, if_neg (Nat.lt_asymm h), if_pos h]

theorem Flusher.pos_of_eq {f : Flusher} (h : f.writeFront = b) : f.pos b = f.pc.pos := by
  rw [Flusher.pos, if_neg (by omega), if_neg (by omega)]

theorem Flusher.pos_congr {f : Flusher} {pc : FlusherPc} (h : pc.pos = f.pc.pos) :
    Flusher.pos { f with pc := pc } b = f.pos b := by
  by_cases hb : f.writeFront = b
  · have hnew : Flusher.pos { f with pc := pc } b = pc.pos := Flusher.pos_of_eq hb
    rw [hnew, h, Flusher.pos_of_eq hb]
  · exact Flusher.pos_of_ne pc hb

theorem flusherOuter_pos (front : Nat) : (flusherOuter cfg front).pos = .before := by
  unfold flusherOuter
  split <;> rfl

section flusher

variable {s : State cfg n} {c : Custody n}

theorem Tracks.flusher_frame (h : Tracks b s c) {sh : Shared cfg.totalBlocks} {f : Flusher}
    (hsh : SameBlock b s.sh sh) (hpos : f.pos b = s.flusher.pos b) :
    Tracks b { s with sh := sh, flusher := f } c :=
  h.frame hsh (fun _ => rfl) hpos

theorem tracks_inner {progressed : Bool} (h : Tracks b s c) (hpc : s.flusher.pc = .inner progressed)
    {f : Flusher} (hf : f.writeFront = s.flusher.writeFront)
    (hcase : f.pc.pos = .before ∨
      f.pc = .remove ∧ s.sh.readyBm.isSet s.flusher.writeFront = true) :
    Tracks b { s with flusher := f } c := by
  by_cases hb : s.flusher.writeFront = b
  · have hold : s.flusher.pos b = .before := by rw [Flusher.pos_of_eq hb, hpc]; rfl
    have hnew : f.pos b = f.pc.pos := Flusher.pos_of_eq (hf.trans hb)
    rcases hcase with hbefore | ⟨hremove, hset⟩
    · exact h.flusher_frame .rfl (by rw [hnew, hbefore, hold])
    · -- the block at the front is ready, so it is staged or was written directly
      refine ⟨h.bm, h.ready, h.stage, h.workers, ?_, h.writes⟩
      have hready : c.isReady = true := h.ready.symm.trans (hb ▸ hset)
      have hpos : f.pos b = .removing := by rw [hnew, hremove]; rfl
      obtain ⟨p, rfl⟩ | ⟨p, rfl⟩ := (hold ▸ h.flusher).before_ready hready
      · exact .inr hpos
      · exact .inr (.inl hpos)
  · have hf' : f = { s.flusher with pc := f.pc } := by
      cases f
      simp only at hf
      rw [hf]
    exact h.flusher_frame .rfl (by rw [hf', Flusher.pos_of_ne _ hb])

theorem tracks_remove (h : Tracks b s c) (hpc : s.flusher.pc = .remove) (env : Env)
    {sh : Shared cfg.totalBlocks} {f : Flusher}
    (hstep : flusherStep cfg s.sh env s.flusher = some (sh, f)) :
    ∃ c', c.Moves c' ∧ Tracks b { s with sh := sh, flusher := f } c' := by
  simp only [flusherStep, hpc] at hstep
  by_cases hb : s.flusher.writeFront = b
  · have hat := h.flusher
    rw [Flusher.pos_of_eq hb, hpc] at hat
    have herase : (s.sh.stage.erase s.flusher.writeFront).lookup b = none := by
      rw [hb]
      exact AList.lookup_erase _ _
    have hlookup := h.stage
    rw [← hb] at hlookup
    rw [hlookup] at hstep
    obtain ⟨p, rfl⟩ | ⟨p, rfl⟩ := hat.removing
    · cases hstep
      exact ⟨.lifted p, .lift _, h.bm, h.ready, herase, h.workers, Flusher.pos_of_eq hb, h.writes⟩
    · cases hstep
      exact ⟨.direct p, .stay _, h.bm, h.ready, herase, h.workers,
        .inr (.inr (.inl (Flusher.pos_of_eq hb))), h.writes⟩
  · have herase : (s.sh.stage.erase s.flusher.writeFront).lookup b = s.sh.stage.lookup b :=
      AList.lookup_erase_ne (Ne.symm hb)
    split at hstep <;> cases hstep <;>
      exact ⟨c, .stay c, h.flusher_frame ⟨rfl, rfl, herase, rfl⟩ (Flusher.pos_of_ne _ hb)⟩

theorem tracks_write {buf : Bytes} (h : Tracks b s c) (hpc : s.flusher.pc = .write buf) (env : Env) :
    ∃ c', c.Moves c' ∧ Tracks b { s with
      sh := s.sh.writeBlock cfg.blockSize .flush s.flusher.writeFront buf env.io
      flusher := { s.flusher with pc := .free } } c' := by
  by_cases hb : s.flusher.writeFront = b
  · have hat := h.flusher
    rw [Flusher.pos_of_eq hb, hpc] at hat
    obtain rfl := hat.writing
    refine ⟨.flushed buf env.io, .flush _ _, h.bm, h.ready, h.stage, h.workers,
      .inl (Flusher.pos_of_eq hb), ?_⟩
    rw [Shared.writeBlock_trace, hb, writesOf_cons_self, h.writes]
    rfl
  · exact ⟨c, .stay c, h.flusher_frame (.writeBlock _ _ _ hb) (Flusher.pos_of_ne _ hb)⟩

theorem tracks_free (h : Tracks b s c) (hpc : s.flusher.pc = .free) {sh : Shared cfg.totalBlocks}
    (hsh : SameBlock b s.sh sh) :
    Tracks b { s with sh := sh, flusher := { s.flusher with pc := .advance } } c := by
  by_cases hb : s.flusher.writeFront = b
  · have hat := h.flusher
    rw [Flusher.pos_of_eq hb, hpc] at hat
    refine ⟨hsh.bm.trans h.bm, hsh.ready.trans h.ready, hsh.stage.trans h.stage, h.workers, ?_,
      hsh.writes.trans h.writes⟩
    obtain ⟨p, res, rfl⟩ := hat.freeing
    exact .inr (.inl (Flusher.pos_of_eq hb))
  · exact h.flusher_frame hsh (Flusher.pos_of_ne _ hb)

theorem tracks_advance (h : Tracks b s c) (hpc : s.flusher.pc = .advance)
    {sh : Shared cfg.totalBlocks} (hsh : SameBlock b s.sh sh) :
    Tracks b { s with sh := sh, flusher := ⟨.inner true, s.flusher.writeFront + 1⟩ } c := by
  by_cases hb : s.flusher.writeFront = b
  · have hat := h.flusher
    rw [Flusher.pos_of_eq hb, hpc] at hat
    have hpassed : Flusher.pos ⟨.inner true, s.flusher.writeFront + 1⟩ b = .passed := by
      simp only [Flusher.pos]
      rw [if_neg (by omega), if_pos (by omega)]
    refine ⟨hsh.bm.trans h.bm, hsh.ready.trans h.ready, hsh.stage.trans h.stage, h.workers, ?_,
      hsh.writes.trans h.writes⟩
    obtain ⟨p, res, rfl⟩ | ⟨p, rfl⟩ := hat.advancing
    · exact .inr (.inr hpassed)
    · exact .inr (.inr (.inr hpassed))
  · refine h.flusher_frame hsh ?_
    rcases Nat.lt_or_gt_of_ne hb with hlt | hgt
    · simp only [Flusher.pos, FlusherPc.pos, if_pos hlt]
      split_ifs <;> first | rfl | omega
    · simp only [Flusher.pos, if_neg (Nat.lt_asymm hgt), if_pos hgt]
      rw [if_neg (by omega), if_pos (by omega)]

theorem tracks_flusher {env : Env} {sh : Shared cfg.totalBlocks} {f : Flusher} (h : Tracks b s c)
    (hstep : flusherStep cfg s.sh env s.flusher = some (sh, f)) :
    ∃ c', c.Moves c' ∧ Tracks b { s with sh := sh, flusher := f } c' := by
  obtain ⟨sh₀, workers, flusher, fb, main⟩ := s
  cases flusherStep_cases hstep with
  | ready _ hready => exact ⟨c, .stay c, tracks_inner h rfl rfl (.inr ⟨rfl, hready⟩)⟩
  | finish | pause => exact ⟨c, .stay c, tracks_inner h rfl rfl (.inl rfl)⟩
  | retry => exact ⟨c, .stay c, tracks_inner h rfl rfl (.inl (flusherOuter_pos _))⟩
  | lift | pass => exact tracks_remove h rfl env hstep
  | write => exact tracks_write h rfl env
  | free => exact ⟨c, .stay c, tracks_free h rfl ⟨rfl, rfl, rfl, rfl⟩⟩
  | advance => exact ⟨c, .stay c, tracks_advance h rfl ⟨rfl, rfl, rfl, rfl⟩⟩
  | giveUp | goOn =>
    exact ⟨c, .stay c, h.flusher_frame .rfl (Flusher.pos_congr (f := ⟨.stopCheck, _⟩) rfl)⟩
  | wake =>
    exact ⟨c, .stay c, h.flusher_frame ⟨rfl, rfl, rfl, rfl⟩
      (Flusher.pos_congr (f := ⟨.wait, _⟩) (flusherOuter_pos _))⟩

end flusher

/-! ## Every thread, every run -/

theorem feedbackStep_sameBlock {sh sh' : Shared cfg.totalBlocks} {env : Env} {fb fb' : Feedback}
    (h : feedbackStep cfg sh env fb = some (sh', fb')) : SameBlock b sh sh' := by
  have hframe := feedbackStep_frame h
  refine ⟨by rw [hframe.bm], by rw [hframe.readyBm], by rw [hframe.stage], ?_⟩
  rw [feedbackStep_trace h]
  cases hemit : fb.pc.emits cfg env with
  | none => rfl
  | some e =>
    -- what the feedback thread emits is no write
    unfold FeedbackPc.emits at hemit
    split at hemit
    · split at hemit <;> cases hemit
      rfl
    · cases hemit

theorem tracks_step {s t : State cfg n} {act : Action n} {c : Custody n} (h : Tracks b s c)
    (hstep : step prim s act = some t) : ∃ c', c.Moves c' ∧ Tracks b t c' := by
  cases step_move hstep with
  | ingest hi => exact tracks_ingest h hi
  | flusher hf => exact tracks_flusher h hf
  | feedback hfb => exact ⟨c, .stay c, h.frame (feedbackStep_sameBlock hfb) (fun _ => rfl) rfl⟩
  | quiet => exact ⟨c, .stay c, h.frame ⟨rfl, rfl, rfl, rfl⟩ (fun _ => rfl) rfl⟩

theorem tracks_new {sink : Sink} {s : State cfg n} (h : newReceiver cfg n sink = some s) (b : Nat) :
    Tracks b s .missing := by
  obtain ⟨rate, _, rfl⟩ := Option.map_eq_some_iff.mp h
  refine ⟨RecvBitmap.isSet_new _ _, RecvBitmap.isSet_new _ _, AList.lookup_empty _, fun _ => rfl, ?_,
    rfl⟩
  show Flusher.pos _ b = .before
  simp only [Flusher.pos, flusherOuter_pos, Nat.not_lt_zero, if_false, ite_self]

/-- **Custody.** In every state of every run every block has a place. -/
theorem tracks_run {sink : Sink} {s t : State cfg n} {as : List (Action n)}
    (hnew : newReceiver cfg n sink = some s) (h : Steps (step prim) Any s as t) (b : Nat) :
    ∃ c, Tracks b t c :=
  h.invariant (I := fun t => ∃ c, Tracks b t c)
    (fun _ _ _ ⟨_, hc⟩ _ hstep => (tracks_step hc hstep).imp fun _ h => h.2) ⟨_, tracks_new hnew b⟩

end Girth.Receiver
