import Girth.Io

/-!
# What the integrity check covers

The sender's CRC is that of the whole source, whatever its length relative to the chunk
(`sourceCrc32c_eq`). The in-memory sink checks everything it holds. The file sink reads back only the
length it was allocated with, so what a write puts behind the allocated end is stored and not
checked; and as a file it keeps the bytes it had before, where memory starts from zeros.
`integrity_covers_iff` says when both sinks check everything they hold and hold the same.
-/

namespace Girth

open Lib

/-! ## CRC32C -/

/-- `crc32c_append` continues a CRC: nothing appended changes nothing, and appending in two parts is
appending the whole. -/
structure Composes (append : UInt32 → Bytes → UInt32) : Prop where
  nil : ∀ crc, append crc [] = crc
  append : ∀ crc a b, append (append crc a) b = append crc (a ++ b)

/-- One bit, by the reflected Castagnoli polynomial. -/
def crc32cBit (crc : UInt32) : UInt32 :=
  if crc &&& 1 = 1 then (crc >>> 1) ^^^ 0x82f63b78 else crc >>> 1

def crc32cByte (crc : UInt32) (b : UInt8) : UInt32 := crc32cBit^[8] (crc ^^^ b.toUInt32)

def crc32cAppend (crc : UInt32) (data : Bytes) : UInt32 := ~~~ (data.foldl crc32cByte (~~~ crc))

theorem crc32cAppend_composes : Composes crc32cAppend where
  nil crc := by simp [crc32cAppend]
  append crc a b := by simp [crc32cAppend]

/-! ## Sources -/

/-- The source delivers `data`. -/
structure BlockSource.Holds (src : BlockSource) (data : Bytes) : Prop where
  len : src.len = data.length
  read : ∀ off n, off + n ≤ data.length → src.readExactAt off n = some (slice data off n)

section source

variable {append : UInt32 → Bytes → UInt32} {src : BlockSource} {data : Bytes}

theorem crc_chunk (hc : Composes append) (hsrc : src.Holds data) {off : Nat}
    (hoff : off ≤ data.length) :
    (src.readExactAt off (min (src.len - off) crcChunk)).map (append (append 0 (data.take off))) =
      some (append 0 (data.take (off + crcChunk))) := by
  rw [hsrc.len, hsrc.read _ _ (by omega), Option.map_some, hc.append]
  congr 2
  rw [slice, List.take_add]
  congr 1
  rw [← List.length_drop, ← List.take_take, List.take_of_length_le (by simp)]

/-- **The sender's CRC** is the CRC of all bytes of the source. -/
theorem sourceCrc32c_eq (hc : Composes append) (hsrc : src.Holds data) :
    sourceCrc32c append src = some (append 0 data) := by
  unfold sourceCrc32c
  -- after `k` chunks the CRC is that of the first `k * crcChunk` bytes
  have hloop : ∀ k, (∀ i < k, i * crcChunk ≤ data.length) →
      (List.range k).foldlM (fun crc i => (src.readExactAt (i * crcChunk)
        (min (src.len - i * crcChunk) crcChunk)).map (append crc)) 0 =
        some (append 0 (data.take (k * crcChunk))) := by
    intro k
    induction k with
    | zero => simp [hc.nil]
    | succ k ih =>
      intro hk
      rw [List.range_succ, List.foldlM_append, ih fun i hi => hk i (by omega)]
      simp only [Option.bind_eq_bind, Option.bind_some, List.foldlM_cons, List.foldlM_nil,
        crc_chunk hc hsrc (hk k (by omega)), Nat.succ_mul]
      rfl
  have hchunk : 0 < crcChunk := by decide
  have hlast : data.length ≤ (src.len + crcChunk - 1) / crcChunk * crcChunk := by
    have := Nat.lt_div_mul_add hchunk (a := src.len + crcChunk - 1)
    rw [← hsrc.len]
    omega
  rw [hloop _ fun i hi => ?_, List.take_of_length_le hlast]
  have := Nat.div_mul_le_self (src.len + crcChunk - 1) crcChunk
  have := Nat.mul_le_mul_right crcChunk (show i + 1 ≤ (src.len + crcChunk - 1) / crcChunk from hi)
  rw [← hsrc.len]
  rw [Nat.succ_mul] at this
  omega

end source

/-! ## Sinks -/

structure Write where
  off : Nat
  buf : Bytes
  deriving DecidableEq, Repr

/-- The write puts a byte at `i`. -/
def Write.Covers (w : Write) (i : Nat) : Prop := w.off ≤ i ∧ i < w.off + w.buf.length

instance (w : Write) (i : Nat) : Decidable (w.Covers i) := inferInstanceAs (Decidable (_ ∧ _))

namespace Sink

variable {s : Sink} {len : Nat}

/-- Successful calls of `write_all_at`, in their order. -/
def writes (s : Sink) (ws : List Write) : Sink := ws.foldl (fun s w => s.writeAllAt w.off w.buf) s

/-- The bytes that the CRC of a sink sized to `len` is computed over. -/
def checked (s : Sink) (len : Nat) : Bytes :=
  match s.kind with
  | .mem => s.contents
  | .file => s.contents.take len

theorem readCrc32c_eq {append : UInt32 → Bytes → UInt32} (hc : Composes append)
    (hlen : len ≤ s.contents.length) :
    s.readCrc32c append len = some (append 0 (s.checked len)) := by
  unfold readCrc32c checked
  cases s.kind with
  | mem => rfl
  | file =>
    refine sourceCrc32c_eq hc ⟨?_, fun off n hoff => ?_⟩
    · rw [List.length_take, Nat.min_eq_left hlen]
    · rw [List.length_take, Nat.min_eq_left hlen] at hoff
      rw [slice_take hoff]
      exact if_neg (by omega)

theorem getD_writeAllAt (s : Sink) (w : Write) (i : Nat) :
    (s.writeAllAt w.off w.buf).contents.getD i 0 =
      if w.Covers i then w.buf.getD (i - w.off) 0 else s.contents.getD i 0 := by
  unfold writeAllAt
  split
  · exact getD_writeAt _ _ _ _
  · split
    · rename_i hempty
      rw [if_neg]
      rw [Write.Covers, List.isEmpty_iff.mp hempty, List.length_nil]
      omega
    · exact getD_writeAt _ _ _ _

@[simp] theorem writeAllAt_kind (s : Sink) (w : Write) :
    (s.writeAllAt w.off w.buf).kind = s.kind := by
  unfold writeAllAt
  split
  · simp_all
  · split <;> simp_all

theorem writeAllAt_length (s : Sink) (w : Write) :
    (s.writeAllAt w.off w.buf).contents.length =
      if s.kind = .file ∧ w.buf = [] then s.contents.length
      else max s.contents.length (w.off + w.buf.length) := by
  unfold writeAllAt
  cases s.kind with
  | mem => simp [writeAt_length]
  | file =>
    by_cases hempty : w.buf = []
    · simp [hempty]
    · simp [hempty, writeAt_length]

/-! ## A run of writes -/

theorem writes_cons (s : Sink) (w : Write) (ws : List Write) :
    s.writes (w :: ws) = (s.writeAllAt w.off w.buf).writes ws := rfl

@[simp] theorem writes_kind (s : Sink) (ws : List Write) : (s.writes ws).kind = s.kind := by
  induction ws generalizing s with
  | nil => rfl
  | cons w ws ih => rw [writes_cons, ih, writeAllAt_kind]

theorem le_writes_length (s : Sink) (ws : List Write) :
    s.contents.length ≤ (s.writes ws).contents.length := by
  induction ws generalizing s with
  | nil => exact le_rfl
  | cons w ws ih =>
    have hw : s.contents.length ≤ (s.writeAllAt w.off w.buf).contents.length := by
      rw [writeAllAt_length]
      split
      · exact le_rfl
      · exact Nat.le_max_left _ _
    exact hw.trans (ih _)

/-- The writes of a run that reach past `len` are the ones that make a sink longer; a file is not
made longer by an empty one. -/
theorem writes_length_le_iff (s : Sink) (ws : List Write) (hlen : s.contents.length ≤ len) :
    (s.writes ws).contents.length ≤ len ↔
      ∀ w ∈ ws, ¬ (s.kind = .file ∧ w.buf = []) → w.off + w.buf.length ≤ len := by
  induction ws generalizing s with
  | nil => simpa [writes] using hlen
  | cons w ws ih =>
    have hstep : (s.writeAllAt w.off w.buf).contents.length ≤ len ↔
        (¬ (s.kind = .file ∧ w.buf = []) → w.off + w.buf.length ≤ len) := by
      rw [writeAllAt_length]
      split
      · rename_i hempty
        exact iff_of_true hlen (fun hnot => absurd hempty hnot)
      · rename_i hempty
        rw [Nat.max_le, forall_prop_of_true hempty]
        exact and_iff_right hlen
    rw [writes_cons, List.forall_mem_cons]
    by_cases hshort : (s.writeAllAt w.off w.buf).contents.length ≤ len
    · rw [ih _ hshort, writeAllAt_kind]
      exact ⟨fun hrest => ⟨hstep.mp hshort, hrest⟩, And.right⟩
    · exact iff_of_false (fun hle => hshort ((le_writes_length _ _).trans hle))
        (fun hall => hshort (hstep.mpr hall.1))

theorem getD_writes (s t : Sink) (ws : List Write) (i : Nat) :
    (s.writes ws).contents.getD i 0 = (t.writes ws).contents.getD i 0 ↔
      (∃ w ∈ ws, w.Covers i) ∨ s.contents.getD i 0 = t.contents.getD i 0 := by
  induction ws generalizing s t with
  | nil => simp [writes]
  | cons w ws ih =>
    rw [writes_cons, writes_cons, ih, getD_writeAllAt, getD_writeAllAt, List.exists_mem_cons_iff]
    by_cases hw : w.Covers i
    · simp [hw]
    · simp [hw]

theorem getD_allocate {s s' : Sink} {os : AllocOs} (h : s.allocate os len = (.ok (), s')) {i : Nat}
    (hi : i < len) : s'.contents.getD i 0 = if s.kind = .file then s.contents.getD i 0 else 0 := by
  unfold allocate at h
  split at h
  · rename_i hkind
    cases h
    rw [hkind, List.getD_replicate _ hi]
    rfl
  · rename_i hkind
    dsimp only at h
    split at h <;> cases h
    rw [hkind, if_pos rfl]
    show (setLen (preallocate s.contents os len) len).getD i 0 = _
    rw [setLen, getD_append_replicate, List.getD_eq_getElem?_getD, List.getElem?_take_of_lt hi,
      ← List.getD_eq_getElem?_getD, preallocate]
    split
    · rw [getD_append_replicate]
    · rfl

end Sink

/-! ## The two sinks -/

theorem eq_iff_getD {l m : Bytes} (hlen : l.length = m.length) :
    l = m ↔ ∀ i < l.length, l.getD i 0 = m.getD i 0 := by
  refine ⟨fun h i _ => by rw [h], fun h => List.ext_getElem hlen fun i hl hm => ?_⟩
  have hi := h i hl
  rwa [List.getD_eq_getElem _ _ hl, List.getD_eq_getElem _ _ hm] at hi

section sinks

variable {old contents : Bytes} {os os' : AllocOs} {len : Nat} {file mem : Sink}

theorem kind_of_allocate {s s' : Sink} (h : s.allocate os len = (.ok (), s')) : s'.kind = s.kind := by
  have hkind := s.allocate_kind os len
  rwa [h] at hkind

theorem checked_eq_contents_iff (hfile : (Sink.mk .file old).allocate os len = (.ok (), file))
    (ws : List Write) :
    (file.writes ws).checked len = (file.writes ws).contents ↔
      ∀ w ∈ ws, w.buf ≠ [] → w.off + w.buf.length ≤ len := by
  have hkind : file.kind = .file := kind_of_allocate hfile
  have hlong := file.writes_length_le_iff ws (Sink.allocate_length hfile).le
  simp only [hkind, true_and] at hlong
  rw [← hlong, Sink.checked, Sink.writes_kind, hkind]
  refine ⟨fun h => ?_, List.take_of_length_le⟩
  rw [← h]
  exact List.length_take_le _ _

/-- Both sinks check the same bytes unless a write reached past the allocated end or a byte of the
old file was left. -/
theorem checked_eq_iff (hfile : (Sink.mk .file old).allocate os len = (.ok (), file))
    (hmem : (Sink.mk .mem contents).allocate os' len = (.ok (), mem)) (ws : List Write) :
    (file.writes ws).checked len = (mem.writes ws).checked len ↔
      (∀ w ∈ ws, w.off + w.buf.length ≤ len) ∧
        ∀ i < len, old.getD i 0 ≠ 0 → ∃ w ∈ ws, w.Covers i := by
  have hkf : file.kind = .file := kind_of_allocate hfile
  have hkm : mem.kind = .mem := kind_of_allocate hmem
  have hlf := Sink.allocate_length hfile
  have hlm := Sink.allocate_length hmem
  have hinside := mem.writes_length_le_iff ws hlm.le
  simp only [hkm, reduceCtorEq, false_and, not_false_eq_true, forall_const] at hinside
  have hfgrow := file.le_writes_length ws
  have hmgrow := mem.le_writes_length ws
  rw [← hinside]
  simp only [Sink.checked, Sink.writes_kind, hkf, hkm]
  have htake : ((file.writes ws).contents.take len).length = len := by
    rw [List.length_take]
    omega
  have hbyte (i : Nat) (hi : i < len) :
      ((file.writes ws).contents.take len).getD i 0 = (mem.writes ws).contents.getD i 0 ↔
        (old.getD i 0 ≠ 0 → ∃ w ∈ ws, w.Covers i) := by
    rw [List.getD_eq_getElem?_getD, List.getElem?_take_of_lt hi, ← List.getD_eq_getElem?_getD,
      Sink.getD_writes, Sink.getD_allocate hfile hi, Sink.getD_allocate hmem hi, if_pos rfl,
      if_neg (by simp), or_comm, or_iff_not_imp_left]
  constructor
  · intro heq
    refine ⟨by rw [← heq, htake], fun i hi => (hbyte i hi).mp ?_⟩
    rw [heq]
  · rintro ⟨hlen, hall⟩
    rw [eq_iff_getD (by omega), htake]
    exact fun i hi => (hbyte i hi).mpr (hall i hi)

end sinks

/-- **What the integrity check covers.** The CRC of a source is that of all its bytes. After an
`allocate` and any successful writes, either sink returns the CRC of the bytes it checks; that is all
memory holds. The file sink checks all it holds exactly if no byte was written past the allocated
end, and both sinks check the same bytes exactly if no write reaches past it and the writes replace
every nonzero byte the file had before. -/
theorem integrity_covers_iff (append : UInt32 → Bytes → UInt32) (hc : Composes append) :
    (∀ src data, src.Holds data → sourceCrc32c append src = some (append 0 data)) ∧
    ∀ (old contents : Bytes) (os os' : AllocOs) (len : Nat) (file mem : Sink) (ws : List Write),
      (Sink.mk .file old).allocate os len = (.ok (), file) →
      (Sink.mk .mem contents).allocate os' len = (.ok (), mem) →
        (file.writes ws).readCrc32c append len = some (append 0 ((file.writes ws).checked len)) ∧
        (mem.writes ws).readCrc32c append len = some (append 0 (mem.writes ws).contents) ∧
        ((file.writes ws).checked len = (file.writes ws).contents ↔
          ∀ w ∈ ws, w.buf ≠ [] → w.off + w.buf.length ≤ len) ∧
        ((file.writes ws).checked len = (mem.writes ws).contents ↔
          (∀ w ∈ ws, w.off + w.buf.length ≤ len) ∧
            ∀ i < len, old.getD i 0 ≠ 0 → ∃ w ∈ ws, w.Covers i) := by
  refine ⟨fun src data => sourceCrc32c_eq hc, ?_⟩
  intro old contents os os' len file mem ws hfile hmem
  have hkm : (mem.writes ws).kind = .mem := by
    rw [Sink.writes_kind]
    exact kind_of_allocate hmem
  have hchecked : (mem.writes ws).checked len = (mem.writes ws).contents := by
    rw [Sink.checked, hkm]
  have hflen : len ≤ (file.writes ws).contents.length :=
    (Sink.allocate_length hfile).ge.trans (file.le_writes_length ws)
  refine ⟨Sink.readCrc32c_eq hc hflen, ?_, checked_eq_contents_iff hfile ws, ?_⟩
  · rw [Sink.readCrc32c, hkm]
  · rw [← hchecked]
    exact checked_eq_iff hfile hmem ws

/-- Two writes that fill a file of two bytes, over an older byte: both sinks hold the same and return
its CRC32C. -/
theorem integrity_covers_iff_inside :
    let ws : List Write := [⟨1, [8]⟩, ⟨0, [7]⟩]
    ∃ file mem, (Sink.mk .file [9]).allocate {} 2 = (.ok (), file) ∧
      (Sink.mk .mem []).allocate {} 2 = (.ok (), mem) ∧
      (file.writes ws).checked 2 = (file.writes ws).contents ∧
      (file.writes ws).readCrc32c crc32cAppend 2 = (mem.writes ws).readCrc32c crc32cAppend 2 := by
  refine ⟨_, _, rfl, rfl, ?_⟩
  obtain ⟨hfile, hmem, hall, hsame⟩ := (integrity_covers_iff crc32cAppend crc32cAppend_composes).2
    [9] [] {} {} 2 _ _ [⟨1, [8]⟩, ⟨0, [7]⟩] rfl rfl
  refine ⟨hall.mpr (by decide), ?_⟩
  rw [hfile, hmem, hsame.mpr (by decide)]

/-- One byte is allocated and two are written. The file sink, which now holds both, returns the
CRC32C of the first one, the value a sender of that one byte announces; memory returns that of
both. -/
theorem integrity_overrun :
    let ws : List Write := [⟨0, [7]⟩, ⟨1, [8]⟩]
    let file := (Sink.mk .file []).allocate {} 1
    let mem := (Sink.mk .mem []).allocate {} 1
    file.1 = .ok () ∧ mem.1 = .ok () ∧ (file.2.writes ws).contents = [7, 8] ∧
      (file.2.writes ws).readCrc32c crc32cAppend 1 = some 0x86b737ba ∧
      sourceCrc32c crc32cAppend (memSource [7]) = some 0x86b737ba ∧
      crc32cAppend 0 [7, 8] ≠ 0x86b737ba ∧
      (mem.2.writes ws).readCrc32c crc32cAppend 1 = some (crc32cAppend 0 [7, 8]) := by
  decide +kernel

end Girth
