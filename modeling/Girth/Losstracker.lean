import Girth.Lib.BitSet
import Girth.Lib.Machine
import Girth.Rate
import Mathlib.Data.Finset.Basic
import Mathlib.Data.List.Sort

/-!
# The received-block bitmap and the loss scanner

`RecvBitmap` packs one bit per block into 64-bit words; the ingest threads only ever set bits, with
one atomic `fetch_or` each. `isSet_setAndTest` is its specification as a set.

`LossScanner` belongs to the feedback thread. Its three operations are loops that read the bitmap
once per iteration while the ingest threads keep setting bits, so an operation is modelled by its
loop body: `advanceIter`, `scanHolesIter` and `collectDueIter` are one iteration each, and `none`
means that the loop is left. The retransmit heap is the list of its items in ascending order. Times are
rationals and `fl` is what an operation on `f64` makes of its exact result: `f64` in the receiver, and
the identity where times are taken in exact arithmetic.

`ScanSys` puts a bitmap and a scanner together: ingest threads set bits at any moment, the feedback
thread calls the three operations one after another in any order. `ScanInv` is the invariant of
every such run.
-/

namespace Girth

open Lib

/-! ## The bitmap -/

structure RecvBitmap (total : Nat) where
  words : List (BitVec 64)
  words_length : words.length = (total + 63) / 64

namespace RecvBitmap

variable {total : Nat}

def new (total : Nat) : RecvBitmap total :=
  ⟨List.replicate ((total + 63) / 64) 0, List.length_replicate⟩

/-- Mark `seq` received; the flag reports whether this was the first time. -/
def setAndTest (bm : RecvBitmap total) (seq : Nat) : RecvBitmap total × Bool :=
  let w := seq >>> 6
  let mask : BitVec 64 := 1#64 <<< (seq &&& 63)
  let prev := bm.words.getD w 0
  (⟨bm.words.set w (prev ||| mask), by rw [List.length_set, bm.words_length]⟩,
    prev &&& mask == 0)

def isSet (bm : RecvBitmap total) (seq : Nat) : Bool :=
  bm.words.getD (seq >>> 6) 0 &&& 1#64 <<< (seq &&& 63) != 0

theorem mask_eq (seq : Nat) : 1#64 <<< (seq &&& 63) = BitVec.twoPow 64 (seq % 64) := by
  rw [show seq &&& 63 = seq % 64 from Nat.and_two_pow_sub_one_eq_mod seq 6, BitVec.twoPow]

theorem word_eq (seq : Nat) : seq >>> 6 = seq / 64 := Nat.shiftRight_eq_div_pow seq 6

theorem isSet_eq (bm : RecvBitmap total) (seq : Nat) : bm.isSet seq = testBit bm.words seq := by
  have hmod : seq % 64 < 64 := Nat.mod_lt _ (by decide)
  rw [isSet, mask_eq, word_eq, BitVec.and_twoPow, testBit]
  by_cases hbit : (bm.words.getD (seq / 64) 0).getLsbD (seq % 64) = true
  · have hne : BitVec.twoPow 64 (seq % 64) ≠ 0#64 := by
      intro h
      have := congrArg (fun x => BitVec.getLsbD x (seq % 64)) h
      simp [hmod] at this
    rw [if_pos hbit, hbit]
    simpa using hne
  · rw [if_neg hbit]
    simpa using hbit

@[simp] theorem isSet_new (total seq : Nat) : (new total).isSet seq = false := by
  rw [isSet_eq]
  exact testBit_replicate _ _

theorem setAndTest_snd (bm : RecvBitmap total) (seq : Nat) : (bm.setAndTest seq).2 = !bm.isSet seq := by
  rw [isSet, setAndTest, bne, Bool.not_not]

theorem isSet_setAndTest {bm : RecvBitmap total} {seq : Nat} (h : seq < total) (t : Nat) :
    (bm.setAndTest seq).1.isSet t = (bm.isSet t || t == seq) := by
  have hword : seq / 64 < bm.words.length := by
    rw [bm.words_length]
    omega
  rw [isSet_eq, isSet_eq, ← testBit_orBit hword (by decide), setAndTest, orBit]
  simp only [mask_eq, word_eq]

theorem isSet_setAndTest_of_isSet {bm : RecvBitmap total} {seq t : Nat} (h : seq < total)
    (ht : bm.isSet t = true) : (bm.setAndTest seq).1.isSet t = true := by
  rw [isSet_setAndTest h, ht, Bool.true_or]

end RecvBitmap

/-! ## The scanner -/

structure HeapItem where
  due : Nat
  seq : Nat
  deriving DecidableEq, Repr

/-- By due time, then by sequence number. -/
def HeapItem.le (a b : HeapItem) : Prop := a.due < b.due ∨ a.due = b.due ∧ a.seq ≤ b.seq

instance : DecidableRel HeapItem.le := fun a b => by unfold HeapItem.le; infer_instance

structure LossScanner where
  total : Nat
  hiContig : Nat
  nextScan : Nat
  pending : Finset Nat
  heap : List HeapItem
  deriving DecidableEq

namespace LossScanner

def new (total : Nat) : LossScanner := ⟨total, 0, 0, ∅, []⟩

def push (sc : LossScanner) (item : HeapItem) : LossScanner :=
  { sc with heap := sc.heap.orderedInsert HeapItem.le item }

/-- One iteration of `advance`: move the contiguous mark past a received block. -/
def advanceIter (isSet : Nat → Bool) (sc : LossScanner) : Option LossScanner :=
  if sc.hiContig < sc.total ∧ isSet sc.hiContig then
    some { sc with pending := sc.pending.erase sc.hiContig, hiContig := sc.hiContig + 1 }
  else none

/-- The last sequence number a scan examines. -/
def scanTop (sc : LossScanner) (maxSeen : Nat) : Nat :=
  if maxSeen ≥ sc.total then sc.total - 1 else maxSeen

/-- When a request scheduled at `now` falls due. -/
def dueAt (fl : ℚ → ℚ) (now rto : ℚ) : Nat := asU64 (fl (fl (now + rto) + rttPrecUs))

/-- One iteration of `scan_holes` at `seq`: schedule `seq` if it is missing. -/
def scanHolesIter (isSet : Nat → Bool) (sc : LossScanner) (maxSeen due seq : Nat) :
    Option (LossScanner × Nat) :=
  if seq ≤ maxSeen then
    let sc :=
      if !isSet seq ∧ seq ∉ sc.pending then
        { sc with pending := insert seq sc.pending }.push ⟨due, seq⟩
      else sc
    some (sc, seq + 1)
  else none

/-- What `scan_holes` does once its loop is left. -/
def scanHolesEnd (sc : LossScanner) (maxSeen : Nat) : LossScanner :=
  if maxSeen + 1 > sc.nextScan then { sc with nextScan := maxSeen + 1 } else sc

/-- One iteration of `collect_due`: pop the first item that is due; a block still missing is
requested and scheduled again. -/
def collectDueIter (fl : ℚ → ℚ) (isSet : Nat → Bool) (sc : LossScanner) (now : ℚ)
    (reDue max : Nat) (out : List Nat) : Option (LossScanner × List Nat) :=
  if out.length < max then
    match sc.heap with
    | [] => none
    | top :: rest =>
      if fl top.due > now then none
      else
        let sc := { sc with heap := rest }
        if top.seq ∉ sc.pending then some (sc, out)
        else if isSet top.seq then some ({ sc with pending := sc.pending.erase top.seq }, out)
        else some (sc.push ⟨reDue, top.seq⟩, out ++ [top.seq])
  else none

def pendingCount (sc : LossScanner) : Nat := sc.pending.card

def completed (sc : LossScanner) : Bool := sc.hiContig == sc.total

end LossScanner

/-! ## A scanner beside running ingest threads -/

/-- Which operation the feedback thread is inside, with the local variables of its loop. -/
inductive ScanPc
  | idle
  | advance
  | scanHoles (maxSeen due seq : Nat)
  | collectDue (now : ℚ) (reDue max : Nat) (out : List Nat)

structure ScanSys (total : Nat) where
  bm : RecvBitmap total
  sc : LossScanner
  pc : ScanPc

inductive ScanAct
  /-- An ingest thread marks a block received. -/
  | set (seq : Nat)
  | callAdvance
  | callScanHoles (maxSeen : Nat) (now rto : ℚ)
  | callCollectDue (now rto : ℚ) (max : Nat)
  /-- The feedback thread runs one iteration of the operation it is inside. -/
  | iter

namespace ScanSys

variable {total : Nat} (fl : ℚ → ℚ)

def init (total : Nat) : ScanSys total := ⟨RecvBitmap.new total, LossScanner.new total, .idle⟩

/-- One iteration of the running operation; nothing if none is running. -/
def iter (s : ScanSys total) : Option (ScanSys total) :=
  match s.pc with
  | .idle => none
  | .advance =>
    match s.sc.advanceIter s.bm.isSet with
    | some sc => some { s with sc := sc }
    | none => some { s with pc := .idle }
  | .scanHoles maxSeen due seq =>
    match s.sc.scanHolesIter s.bm.isSet maxSeen due seq with
    | some (sc, seq) => some { s with sc := sc, pc := .scanHoles maxSeen due seq }
    | none => some { s with sc := s.sc.scanHolesEnd maxSeen, pc := .idle }
  | .collectDue now reDue max out =>
    match s.sc.collectDueIter fl s.bm.isSet now reDue max out with
    | some (sc, out) => some { s with sc := sc, pc := .collectDue now reDue max out }
    | none => some { s with pc := .idle }

/-- The entry of an operation: the code before its loop. -/
def callPc (sc : LossScanner) : ScanAct → Option ScanPc
  | .callAdvance => some .advance
  | .callScanHoles maxSeen now rto =>
    if sc.total = 0 then some .idle
    else some (.scanHoles (sc.scanTop maxSeen) (LossScanner.dueAt fl now rto) sc.nextScan)
  | .callCollectDue now rto max => some (.collectDue now (LossScanner.dueAt fl now rto) max [])
  | _ => none

def step (s : ScanSys total) : ScanAct → Option (ScanSys total)
  | .set seq => if seq < total then some { s with bm := (s.bm.setAndTest seq).1 } else none
  | .iter => s.iter fl
  | act =>
    match s.pc with
    | .idle => (callPc fl s.sc act).map fun pc => { s with pc := pc }
    | _ => none

end ScanSys

end Girth
