import Girth.Protocol

/-!
# Sources, sinks and the control handle of a transfer

A source is read and a sink is written at arbitrary positions. `BlockSource` is any stable source:
a read at a position and length always returns the same bytes, or always fails. `Sink` is one of the
two built-in sinks with the bytes it holds; both grow on a write past their end, and they differ in
`allocate` and on an empty write.

`TransferControl` is the part of a transfer's handle that the data plane reads: the live rate limit,
pause and cancellation.
-/

namespace Girth

open Lib

/-! ## Sources -/

structure BlockSource where
  len : Nat
  readExactAt : Nat → Nat → Option Bytes
  read_length : ∀ {off n bs}, readExactAt off n = some bs → bs.length = n

/-- A source over bytes in memory: a read past the end fails. -/
def memSource (data : Bytes) : BlockSource where
  len := data.length
  readExactAt off n := if off + n > data.length then none else some (slice data off n)
  read_length := by
    intro off n bs h
    split at h
    · cases h
    · cases h
      exact slice_length_of_le (by omega)

theorem memSource_read {data bytes : Bytes} {off n : Nat}
    (h : (memSource data).readExactAt off n = some bytes) : bytes = slice data off n := by
  simp only [memSource] at h
  split_ifs at h
  exact (Option.some.inj h).symm

/-- A source over a file, of which any read may fail. -/
def fileSource (contents : Bytes) (fails : Nat → Nat → Bool) : BlockSource where
  len := contents.length
  readExactAt off n := if fails off n then none else (memSource contents).readExactAt off n
  read_length := by
    intro off n bs h
    split_ifs at h
    exact (memSource contents).read_length h

/-- How much a CRC reads at a time. -/
def crcChunk : Nat := 2 ^ 20

/-- The CRC of a whole source, read chunk by chunk; `append` is the crate's `crc32c_append`. -/
def sourceCrc32c (append : UInt32 → Bytes → UInt32) (src : BlockSource) : Option UInt32 :=
  (List.range ((src.len + crcChunk - 1) / crcChunk)).foldlM
    (fun crc i =>
      (src.readExactAt (i * crcChunk) (min (src.len - i * crcChunk) crcChunk)).map (append crc)) 0

/-! ## Sinks -/

inductive SinkKind
  | file
  | mem
  deriving DecidableEq, Repr

structure Sink where
  kind : SinkKind
  contents : Bytes
  deriving DecidableEq, Repr

/-- What the operating system does in `FileSink::allocate`: whether `fallocate` takes effect (its
result is ignored), and the error of `set_len` if it fails. -/
structure AllocOs where
  fallocated : Bool := true
  setLenErr : Option String := none
  deriving DecidableEq, Repr

/-- `contents` cut or zero-extended to `len`. -/
def setLen (contents : Bytes) (len : Nat) : Bytes :=
  contents.take len ++ List.replicate (len - contents.length) 0

namespace Sink

/-- What `FileSink::allocate` leaves in the file before it sets the length. -/
def preallocate (contents : Bytes) (os : AllocOs) (len : Nat) : Bytes :=
  if 0 < len ∧ os.fallocated then contents ++ List.replicate (len - contents.length) 0 else contents

/-- Size the destination to `len`. -/
def allocate (s : Sink) (os : AllocOs) (len : Nat) : Except String Unit × Sink :=
  match s.kind with
  | .mem => (.ok (), { s with contents := List.replicate len 0 })
  | .file =>
    let contents := preallocate s.contents os len
    match os.setLenErr with
    | none => (.ok (), { s with contents := setLen contents len })
    | some e => (.error e, { s with contents := contents })

/-- A successful `write_all_at`. A file is not touched by an empty write. -/
def writeAllAt (s : Sink) (off : Nat) (buf : Bytes) : Sink :=
  match s.kind with
  | .mem => { s with contents := writeAt s.contents off buf }
  | .file => if buf.isEmpty then s else { s with contents := writeAt s.contents off buf }

/-- The CRC of what a sink sized to `len` holds. -/
def readCrc32c (append : UInt32 → Bytes → UInt32) (s : Sink) (len : Nat) : Option UInt32 :=
  match s.kind with
  | .mem => some (append 0 s.contents)
  | .file => sourceCrc32c append { memSource s.contents with len := len }

@[simp] theorem setLen_length (contents : Bytes) (len : Nat) : (setLen contents len).length = len := by
  rw [setLen, List.length_append, List.length_take, List.length_replicate]
  omega

theorem allocate_length {s s' : Sink} {os : AllocOs} {len : Nat}
    (h : s.allocate os len = (.ok (), s')) : s'.contents.length = len := by
  unfold allocate at h
  split at h
  · cases h
    exact List.length_replicate
  · dsimp only at h
    split at h <;> cases h
    exact setLen_length _ _

/-- `allocate` fails: memory never does, a file does if its length cannot be set. -/
def AllocFails (s : Sink) (os : AllocOs) : Prop := s.kind = .file ∧ os.setLenErr.isSome

/-- `allocate` changes the sink: memory is cleared, a file is cut or extended, and one whose length
cannot be set may still have been extended by `fallocate`. -/
def AllocChanges (s : Sink) (os : AllocOs) (len : Nat) : Prop :=
  match s.kind with
  | .mem => s.contents ≠ List.replicate len 0
  | .file =>
    if os.setLenErr.isSome then 0 < len ∧ os.fallocated = true ∧ s.contents.length < len
    else s.contents.length ≠ len

theorem preallocate_eq_self_iff {contents : Bytes} {os : AllocOs} {len : Nat} :
    preallocate contents os len = contents ↔
      ¬ (0 < len ∧ os.fallocated = true ∧ contents.length < len) := by
  unfold preallocate
  split_ifs with hgrow
  · obtain ⟨hlen, hfall⟩ := hgrow
    rw [List.append_right_eq_self, List.replicate_eq_nil_iff, hfall]
    simp only [hlen, true_and]
    omega
  · exact iff_of_true rfl fun h => hgrow ⟨h.1, h.2.1⟩

theorem allocate_kind (s : Sink) (os : AllocOs) (len : Nat) :
    (s.allocate os len).2.kind = s.kind := by
  unfold allocate
  split
  · rfl
  · dsimp only
    split
    · rfl
    · rfl

theorem allocate_error_iff (s : Sink) (os : AllocOs) (len : Nat) :
    (∃ e, (s.allocate os len).1 = .error e) ↔ s.AllocFails os := by
  unfold allocate AllocFails
  cases s.kind with
  | mem => simp
  | file => cases os.setLenErr <;> simp

theorem allocate_eq_self_iff (s : Sink) (os : AllocOs) (len : Nat) :
    (s.allocate os len).2 = s ↔ ¬ s.AllocChanges os len := by
  obtain ⟨kind, contents⟩ := s
  unfold allocate AllocChanges
  cases kind with
  | mem => simp [eq_comm]
  | file =>
    cases herr : os.setLenErr with
    | some e =>
      simp only [Sink.mk.injEq, true_and, Option.isSome_some, if_true, preallocate_eq_self_iff]
    | none =>
      simp only [Sink.mk.injEq, true_and, Option.isSome_none, Bool.false_eq_true, if_false, not_not]
      constructor
      · intro h
        rw [← h, setLen_length]
      · rintro rfl
        rw [preallocate_eq_self_iff.mpr (by omega), setLen, List.take_length, Nat.sub_self,
          List.replicate_zero, List.append_nil]

theorem writeAllAt_of_le {s : Sink} {off : Nat} {buf : Bytes}
    (h : off + buf.length ≤ s.contents.length) :
    (s.writeAllAt off buf).contents = overwrite s.contents off buf := by
  unfold writeAllAt
  split
  · exact writeAt_of_le h
  · split
    · rename_i hempty
      rw [List.isEmpty_iff.mp hempty, overwrite, List.append_nil, List.length_nil, Nat.add_zero,
        List.take_append_drop]
    · exact writeAt_of_le h

end Sink

/-! ## The control handle -/

def pausedRateBps : Nat := 1000000

structure TransferControl where
  rateLimitBps : Nat := 0
  paused : Bool := false
  cancelled : Bool := false
  deriving DecidableEq, Repr

namespace TransferControl

def setRateLimit (c : TransferControl) (bps : Option Nat) : TransferControl :=
  { c with rateLimitBps := bps.getD 0 }

/-- The live limit; `0` is stored for none. -/
def rateLimit (c : TransferControl) : Option Nat :=
  match c.rateLimitBps with
  | 0 => none
  | n => some n

def pause (c : TransferControl) : TransferControl := { c with paused := true }
def resume (c : TransferControl) : TransferControl := { c with paused := false }
def cancel (c : TransferControl) : TransferControl := { c with cancelled := true }

def effectiveRateBps (c : TransferControl) (base : Nat) : Nat :=
  if c.paused then min pausedRateBps (max base 1)
  else
    match c.rateLimit with
    | some limit => min base (max limit 1)
    | none => base

/-- The calls the owner of a handle makes while the transfer runs. -/
inductive Op
  | setRateLimit (bps : Option Nat)
  | pause
  | resume
  | cancel
  deriving DecidableEq, Repr

def apply (c : TransferControl) : Op → TransferControl
  | .setRateLimit bps => c.setRateLimit bps
  | .pause => c.pause
  | .resume => c.resume
  | .cancel => c.cancel

end TransferControl

/-- The rate under an optional control handle. -/
def effectiveRate (control : Option TransferControl) (rate : Nat) : Nat :=
  control.elim rate fun c => c.effectiveRateBps rate

/-- The stop flag, or a cancellation. -/
def shouldStop (stop : Bool) (control : Option TransferControl) : Bool :=
  stop || control.any (·.cancelled)

theorem shouldStop_apply {stop : Bool} {c : TransferControl} (op : TransferControl.Op)
    (h : shouldStop stop (some c) = true) : shouldStop stop (some (c.apply op)) = true := by
  unfold shouldStop at h ⊢
  cases op with
  | cancel => simp [TransferControl.apply, TransferControl.cancel]
  | setRateLimit _ | pause | resume => exact h

theorem unstopped_apply {stop : Bool} {c : TransferControl} {op : TransferControl.Op} (hop : op ≠ .cancel)
    (h : shouldStop stop (some c) = false) : shouldStop stop (some (c.apply op)) = false := by
  cases op with
  | cancel => exact absurd rfl hop
  | setRateLimit bps | pause | resume => exact h

end Girth
