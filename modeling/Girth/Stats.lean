import Mathlib.Algebra.Order.Ring.Nat
import Mathlib.Order.MinMax
import Mathlib.Tactic.SplitIfs

/-!
# The statistics of a transfer

A `Stats` belongs to the caller, who may use it for one transfer after another: the start of a transfer
stores its sizes and its rate, and leaves the counters and the other gauges as they were.

`progressBlocks` and `progressBytes` are what `snapshot` derives from them.
-/

namespace Girth

structure Stats where
  bytesSent : Nat := 0
  packetsSent : Nat := 0
  retransSent : Nat := 0
  bytesRecv : Nat := 0
  packetsRecv : Nat := 0
  payloadRecv : Nat := 0
  dupRecv : Nat := 0
  corruptRecv : Nat := 0
  nacksSent : Nat := 0
  nacksRecv : Nat := 0
  blocksWritten : Nat := 0
  targetRateBps : Nat := 0
  srttPathUs : Nat := 0
  srttNetUs : Nat := 0
  baseRttUs : Nat := 0
  rtoUs : Nat := 0
  rexQueueLen : Nat := 0
  hiContig : Nat := 0
  totalBytes : Nat := 0
  totalBlocks : Nat := 0
  blockSize : Nat := 0

namespace Stats

variable (x : Stats)

def progressBlocks : Nat := min (max x.hiContig x.blocksWritten) x.totalBlocks

def progressBytes : Nat :=
  if 0 < x.payloadRecv then min x.payloadRecv x.totalBytes
  else if 0 < x.totalBytes ∧ 0 < x.blockSize then
    -- `saturating_mul`
    min (min (x.progressBlocks * x.blockSize) (2 ^ 64 - 1)) x.totalBytes
  else 0

/-- What is counted for an accepted PDU. -/
def counted : Nat × Nat := (x.payloadRecv, x.blocksWritten)

/-- What the progress is derived from, apart from `hi_contig`. -/
def basis : Nat × Nat × Nat × Nat × Nat :=
  (x.payloadRecv, x.blocksWritten, x.totalBytes, x.totalBlocks, x.blockSize)

theorem progressBlocks_le : x.progressBlocks ≤ x.totalBlocks := min_le_right _ _

theorem progressBytes_le : x.progressBytes ≤ x.totalBytes := by
  unfold progressBytes
  split_ifs
  · exact min_le_right _ _
  · exact min_le_right _ _
  · exact Nat.zero_le _

theorem progressBytes_mono {x y : Stats} (hbasis : y.basis = x.basis)
    (h : x.progressBlocks ≤ y.progressBlocks) : x.progressBytes ≤ y.progressBytes := by
  simp only [basis, Prod.mk.injEq] at hbasis
  obtain ⟨hpayload, -, hbytes, -, hsize⟩ := hbasis
  unfold progressBytes
  rw [hpayload, hbytes, hsize]
  split_ifs
  · exact le_rfl
  · exact min_le_min_right _ (min_le_min_right _ (Nat.mul_le_mul_right _ h))
  · exact le_rfl

end Stats

end Girth
