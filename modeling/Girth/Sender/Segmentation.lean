import Girth.Lib.Checked
import Girth.Lib.Tiling
import Girth.Sender.Wire
import Mathlib.Data.Set.Lattice
import Mathlib.Order.CompletePartialOrder
import Mathlib.Order.Interval.Set.Disjoint

/-!
# The blocks of a file

A file is cut into blocks by arithmetic on `u64` and `i64`: `num_blocks` counts them, and `prefetch`
and `fill_retransmit` compute the position and the length of one. `numBlocksChecked` and
`blockChecked` are the same computations with every operation and every cast checked. Inside a file
none of them faults (`blockChecked_eq`), and the blocks are the tiles of the file
(`plen_eq_tileLen`): so they cover it and do not overlap (`segmentation_tiles`).
-/

namespace Girth.Sender

open Lib

variable {prim : Primitives} {cfg : SendConfig} {seq seq' : UInt64}

/-- `num_blocks`, checked. -/
def numBlocksChecked (size : Int) (blockSize : Nat) : Checked Int :=
  if size ≤ 0 then pure 0
  else do
    let size ← fitU64 size
    let blockSize ← fitU64 blockSize
    divCeil size blockSize

/-- Position and length of a block, checked: the computation of `prefetch` and `fill_retransmit` with
the cast of the length for the header, the end of the payload in the buffer and the number of the last
block. -/
def blockChecked (cfg : SendConfig) (seq : UInt64) : Checked (Int × Int) := do
  let off ← fitU64 (seq.toNat * (← fitU64 cfg.blockSize))
  let rem ← fitI64 (cfg.fileSize - (← fitI64 off))
  let plen ← if rem < (← fitI64 cfg.blockSize) then fitU64 rem else pure (cfg.blockSize : Int)
  let _ ← fitU64 (dataHeaderSize + plen)
  let _ ← fitU64 (cfg.totalBlocks.toNat - 1)
  let _ ← fitU16 plen
  pure (off, plen)

/-- The bytes of the file that a block covers. -/
def blockRange (cfg : SendConfig) (seq : UInt64) : Set Nat :=
  Set.Ico (off cfg seq).toNat ((off cfg seq).toNat + plen cfg seq)

theorem numBlocksChecked_eq {size : Int} {blockSize : Nat} (hsize : size < 2 ^ 63)
    (hpos : 0 < blockSize) (hmax : blockSize < 2 ^ 63) :
    numBlocksChecked size blockSize = .ok (numBlocks size blockSize : Int) := by
  unfold numBlocksChecked numBlocks
  split
  · rfl
  · rename_i hgt
    obtain ⟨len, rfl⟩ := Int.eq_ofNat_of_zero_le (by omega : 0 ≤ size)
    rw [fitU64_bind (by omega) (by omega), fitU64_bind (by omega) (by omega), Int.toNat_natCast]
    exact divCeil_eq (by omega) hpos

/-! ## Inside the file -/

section inside

variable (hpos : 1 ≤ cfg.blockSize)
  (htotal : cfg.totalBlocks.toNat = numBlocks cfg.fileSize cfg.blockSize)
  (hseq : seq < cfg.totalBlocks)

include hpos htotal hseq

theorem start_lt_of_lt : seq.toNat * cfg.blockSize < cfg.fileSize.toNat := by
  rw [UInt64.lt_iff_toNat_lt, htotal] at hseq
  exact (lt_numBlocks_iff hpos).mp hseq

theorem off_eq_mul : (off cfg seq).toNat = seq.toNat * cfg.blockSize := by
  have hin := start_lt_of_lt hpos htotal hseq
  have hfs := cfg.fileSize_lt
  exact off_toNat (by omega)

theorem plen_eq_tileLen :
    plen cfg seq = tileLen cfg.fileSize.toNat cfg.blockSize seq.toNat :=
  plen_of_lt (start_lt_of_lt hpos htotal hseq)

theorem blockChecked_eq (hmax : cfg.blockSize ≤ 65455) :
    blockChecked cfg seq = .ok (((off cfg seq).toNat : Int), (plen cfg seq : Int)) := by
  have hin := start_lt_of_lt hpos htotal hseq
  have hfs := cfg.fileSize_lt
  have htot := cfg.totalBlocks.toNat_lt
  have hlen : plen cfg seq = min cfg.blockSize (cfg.fileSize.toNat - seq.toNat * cfg.blockSize) :=
    plen_of_lt hin
  have hlast : seq.toNat < cfg.totalBlocks.toNat := hseq
  rw [off_eq_mul hpos htotal hseq, hlen]
  have hmul : (seq.toNat : Int) * cfg.blockSize = (seq.toNat * cfg.blockSize : Nat) :=
    (Int.natCast_mul _ _).symm
  generalize seq.toNat * cfg.blockSize = start at hin hmul ⊢
  unfold blockChecked
  rw [fitU64_bind (by omega) (by omega), hmul, fitU64_bind (by omega) (by omega),
    fitI64_bind (by omega) (by omega), fitI64_bind (by omega) (by omega),
    fitI64_bind (by omega) (by omega)]
  have htail : ∀ n : Int, 0 ≤ n → n ≤ 65455 → (do
      let _ ← fitU64 (dataHeaderSize + n)
      let _ ← fitU64 (cfg.totalBlocks.toNat - 1)
      let _ ← fitU16 n
      pure ((start : Int), n) : Checked (Int × Int)) = .ok (start, n) := by
    intro n hlo hhi
    have hhdr : (dataHeaderSize : Int) = 36 := rfl
    rw [fitU64_bind (by omega) (by omega), fitU64_bind (by omega) (by omega),
      fitU16_bind (by omega) (by omega)]
    rfl
  by_cases hshort : cfg.fileSize - (start : Int) < cfg.blockSize
  · -- the last block: what is left of the file
    have hplen : cfg.fileSize - (start : Int) =
        (min cfg.blockSize (cfg.fileSize.toNat - start) : Nat) := by omega
    rw [if_pos hshort, hplen, fitU64_bind (by omega) (by omega)]
    exact htail _ (by omega) (by omega)
  · have hplen : (cfg.blockSize : Int) = (min cfg.blockSize (cfg.fileSize.toNat - start) : Nat) := by
      omega
    rw [if_neg hshort, pure_bind, ← hplen]
    exact htail _ (by omega) (by omega)

end inside

/-! ## The tiling -/

theorem blockRange_disjoint (hpos : 1 ≤ cfg.blockSize)
    (htotal : cfg.totalBlocks.toNat = numBlocks cfg.fileSize cfg.blockSize)
    (hseq : seq < cfg.totalBlocks) (hseq' : seq' < cfg.totalBlocks) (hne : seq ≠ seq') :
    Disjoint (blockRange cfg seq) (blockRange cfg seq') := by
  rw [blockRange, blockRange, off_eq_mul hpos htotal hseq, off_eq_mul hpos htotal hseq',
    plen_eq_tileLen hpos htotal hseq, plen_eq_tileLen hpos htotal hseq', Set.Ico_disjoint_Ico]
  have hne' : seq.toNat ≠ seq'.toNat := fun h => hne (UInt64.toNat_inj.mp h)
  rcases Nat.lt_or_gt_of_ne hne' with hlt | hgt
  · have hdis : seq.toNat * cfg.blockSize + tileLen cfg.fileSize.toNat cfg.blockSize seq.toNat ≤
        seq'.toNat * cfg.blockSize := tile_disjoint _ hlt
    omega
  · have hdis : seq'.toNat * cfg.blockSize + tileLen cfg.fileSize.toNat cfg.blockSize seq'.toNat ≤
        seq.toNat * cfg.blockSize := tile_disjoint _ hgt
    omega

theorem iUnion_blockRange (hpos : 1 ≤ cfg.blockSize)
    (htotal : cfg.totalBlocks.toNat = numBlocks cfg.fileSize cfg.blockSize) :
    ⋃ seq, ⋃ _ : seq < cfg.totalBlocks, blockRange cfg seq = Set.Ico 0 cfg.fileSize.toNat := by
  ext i
  simp only [Set.mem_iUnion, exists_prop, Set.mem_Ico, Nat.zero_le, true_and]
  constructor
  · rintro ⟨seq, hseq, hi⟩
    rw [blockRange, off_eq_mul hpos htotal hseq, plen_eq_tileLen hpos htotal hseq, Set.mem_Ico] at hi
    have hend := tile_end_le (start_lt_of_lt hpos htotal hseq).le
    omega
  · intro hi
    obtain ⟨k, hk, hlo, hhi⟩ := exists_tile hpos hi
    have hkn : k < cfg.totalBlocks.toNat := htotal ▸ (lt_numBlocks_iff hpos).mpr hk
    have hlt := cfg.totalBlocks.toNat_lt
    have hcast : (UInt64.ofNat k).toNat = k := by
      rw [UInt64.toNat_ofNat', Nat.mod_eq_of_lt (by omega)]
    have hseq : UInt64.ofNat k < cfg.totalBlocks := by rwa [UInt64.lt_iff_toNat_lt, hcast]
    refine ⟨UInt64.ofNat k, hseq, ?_⟩
    rw [blockRange, off_eq_mul hpos htotal hseq, plen_eq_tileLen hpos htotal hseq, hcast, Set.mem_Ico]
    exact ⟨hlo, hhi⟩

/-- **Segmentation tiles the file.** The blocks of a file are not empty and at most `block_size` long,
no two overlap, and together they are the file; no operation or cast of their computation overflows or
changes a value, the length fits the header's field, and the PDU with its tag fits a UDP payload and
the receiver's slot. A file without bytes has no blocks. -/
theorem segmentation_tiles (hpos : 1 ≤ cfg.blockSize) (hmax : cfg.blockSize ≤ 65455)
    (htotal : cfg.totalBlocks.toNat = numBlocks cfg.fileSize cfg.blockSize) :
    numBlocksChecked cfg.fileSize cfg.blockSize = .ok (cfg.totalBlocks.toNat : Int) ∧
      (∀ seq < cfg.totalBlocks, 0 < plen cfg seq ∧ plen cfg seq ≤ cfg.blockSize ∧
        (off cfg seq).toNat = seq.toNat * cfg.blockSize ∧
        blockChecked cfg seq = .ok (((off cfg seq).toNat : Int), (plen cfg seq : Int)) ∧
        (UInt16.ofNat (plen cfg seq)).toNat = plen cfg seq ∧
        dataHeaderSize + plen cfg seq + aeadTagLen ≤ 65507 ∧
        (∀ rcfg : RecvConfig, rcfg.blockSize = cfg.blockSize →
          dataHeaderSize + plen cfg seq + aeadTagLen ≤ rcfg.bufLen) ∧
        ∀ prim env buf flags rexIndex item sealed, buf.length = bufLen cfg →
          buildPdu prim cfg env buf seq flags rexIndex = .pdu item sealed →
            item.size ≤ dataHeaderSize + plen cfg seq + aeadTagLen) ∧
      (∀ seq < cfg.totalBlocks, ∀ seq' < cfg.totalBlocks, seq ≠ seq' →
        Disjoint (blockRange cfg seq) (blockRange cfg seq')) ∧
      ⋃ seq, ⋃ _ : seq < cfg.totalBlocks, blockRange cfg seq = Set.Ico 0 cfg.fileSize.toNat ∧
      ∀ size ≤ 0, numBlocks size cfg.blockSize = 0 ∧ numBlocksChecked size cfg.blockSize = .ok 0 := by
  have hfs := cfg.fileSize_lt
  refine ⟨?_, ?_, ?_, iUnion_blockRange hpos htotal, ?_⟩
  · rw [htotal]
    exact numBlocksChecked_eq hfs (by omega) (by omega)
  · intro seq hseq
    have hin := start_lt_of_lt hpos htotal hseq
    have hlen := plen_eq_tileLen hpos htotal hseq
    rw [tileLen] at hlen
    have hhdr : dataHeaderSize = 36 := rfl
    have htag : aeadTagLen = 16 := rfl
    refine ⟨by omega, by omega, off_eq_mul hpos htotal hseq, blockChecked_eq hpos htotal hseq hmax,
      ?_, by omega, ?_, ?_⟩
    · rw [UInt16.toNat_ofNat', Nat.mod_eq_of_lt (by omega)]
    · intro rcfg hrcfg
      rw [RecvConfig.bufLen, hrcfg]
      omega
    · intro prim env buf flags rexIndex item sealed hbuf hitem
      obtain ⟨payload, hread, -, -, hsize, -⟩ := buildPdu_bytes hbuf hitem
      have hpayload : payload.length = plen cfg seq := cfg.source.read_length hread
      have hover : overhead cfg ≤ aeadTagLen := by
        unfold overhead
        split <;> omega
      omega
  · intro seq hseq seq' hseq' hne
    exact blockRange_disjoint hpos htotal hseq hseq' hne
  · intro size hle
    exact ⟨if_pos hle, if_pos hle⟩

theorem segmentation_tiles_threeBytes :
    blockChecked threeBytes 0 = .ok (0, 2) ∧ blockChecked threeBytes 1 = .ok (2, 1) ∧
      ⋃ seq, ⋃ _ : seq < threeBytes.totalBlocks, blockRange threeBytes seq = Set.Ico 0 3 := by
  obtain ⟨-, hblock, -, hunion, -⟩ :=
    segmentation_tiles (by decide) (by decide) (by decide : threeBytes.totalBlocks.toNat = _)
  obtain ⟨-, -, -, hfirst, -⟩ := hblock 0 (by decide)
  obtain ⟨-, -, -, hlast, -⟩ := hblock 1 (by decide)
  exact ⟨hfirst, hlast, hunion⟩

end Girth.Sender
