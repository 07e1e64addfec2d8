import Girth.Protocol

/-!
# The wire format round trips

What an encoder writes, its decoder reads back, whatever the buffer held before and whatever follows
the PDU in the datagram; a decoded DATA header re-encodes to the bytes it came from. The four
decoders read disjoint sets of datagrams, because each asks for its own type byte.

* `encodeFeedback_eq` gives the bytes of a FEEDBACK PDU: the header, then the NACK entries.
* `encode_of_decodeDataHeader` is the converse of `decodeDataHeader_encode`.
* `wireFormat_roundTrips` collects the four layouts.
-/

namespace Girth

open Lib

/-! ## FEEDBACK -/

/-- The 36 bytes of a FEEDBACK header that announces `count` NACK entries. -/
def FeedbackHeader.bytes (h : FeedbackHeader) (count : UInt16) : Bytes :=
  [pduFeedback, if h.tickIsNetwork then 0 ||| flagTickN else 0] ++ leBytes 2 count.toNat ++
    leBytes 4 h.session.toNat ++ leBytes 8 h.tick.toNat ++ leBytes 8 h.targetRate.toNat ++
    leBytes 8 h.hiContig.toNat ++ [if h.done then 1 else 0, 0, 0, 0]

@[simp] theorem FeedbackHeader.bytes_length (h : FeedbackHeader) (count : UInt16) :
    (h.bytes count).length = feedbackHeaderSize := by
  simp [FeedbackHeader.bytes, feedbackHeaderSize]

/-- The 16 bytes of a NACK entry. -/
def NackEntry.bytes (n : NackEntry) : Bytes :=
  leBytes 8 n.blockSeq.toNat ++ leBytes 8 n.rexIndex.toUInt64.toNat

@[simp] theorem NackEntry.bytes_length (n : NackEntry) : n.bytes.length = nackEntrySize := by
  simp [NackEntry.bytes, nackEntrySize]

theorem nackBytes_length (ns : List NackEntry) :
    (ns.flatMap NackEntry.bytes).length = nackEntrySize * ns.length := by
  induction ns with
  | nil => rfl
  | cons n ns ih =>
    rw [List.flatMap_cons, List.length_append, ih, NackEntry.bytes_length, List.length_cons]
    ring

theorem encodeNacks_eq (pre rest : Bytes) (ns : List NackEntry) :
    encodeNacks (pre ++ rest) pre.length ns =
      (pre ++ ns.flatMap NackEntry.bytes ++ rest.drop (nackEntrySize * ns.length),
        pre.length + nackEntrySize * ns.length) := by
  induction ns generalizing pre rest with
  | nil => simp [encodeNacks]
  | cons n ns ih =>
    have hentry : putU64 (putU64 (pre ++ rest) pre.length n.blockSeq) (pre.length + 8)
        n.rexIndex.toUInt64 = (pre ++ n.bytes) ++ rest.drop nackEntrySize := by
      rw [putU64, putU64, overwrite_append rfl, overwrite_append (by simp)]
      simp [NackEntry.bytes, nackEntrySize]
    have hoff : pre.length + nackEntrySize = (pre ++ n.bytes).length := by simp
    rw [encodeNacks, hentry, hoff, ih, List.flatMap_cons, List.drop_drop, List.length_append,
      NackEntry.bytes_length, List.length_cons, List.append_assoc pre, Nat.mul_succ,
      Nat.add_comm (nackEntrySize * ns.length), Nat.add_assoc pre.length]

theorem encodeFeedback_eq (buf : Bytes) (h : FeedbackHeader) (ns : List NackEntry) :
    encodeFeedback buf h ns =
      (h.bytes (UInt16.ofNat ns.length) ++ ns.flatMap NackEntry.bytes ++
          buf.drop (feedbackHeaderSize + nackEntrySize * ns.length),
        feedbackHeaderSize + nackEntrySize * ns.length) := by
  simp only [encodeFeedback, putU8, putU16, putU32, putU64]
  rw [overwrite_zero, overwrite_append (by simp), overwrite_append (by simp),
    overwrite_append (by simp), overwrite_append (by simp), overwrite_append (by simp),
    overwrite_append (by simp), overwrite_append (by simp), overwrite_append (by simp),
    overwrite_append (by simp), overwrite_append (by simp)]
  -- the header is complete: the entries go behind it
  generalize hrest : List.drop _ (List.drop _ _) = rest
  have hdrop : rest = buf.drop feedbackHeaderSize := by
    rw [← hrest]
    simp [feedbackHeaderSize]
  have hentries := encodeNacks_eq (h.bytes (UInt16.ofNat ns.length)) rest ns
  rw [FeedbackHeader.bytes_length, hdrop, List.drop_drop] at hentries
  rw [← hentries, hdrop]
  simp [FeedbackHeader.bytes]

theorem getU64_append {pre : Bytes} {off : Nat} (hoff : pre.length = off) (v : UInt64)
    (rest : Bytes) : getU64 (pre ++ leBytes 8 v.toNat ++ rest) off = v := by
  have hlen : (leBytes 8 v.toNat).length = 8 := leBytes_length 8 v.toNat
  rw [getU64, slice, ← hoff, List.append_assoc, List.drop_left, List.take_append_of_le_length (by omega),
    List.take_of_length_le (by omega), u64_leBytes]

theorem decodeNacks_bytes (pre rest : Bytes) (ns : List NackEntry) :
    decodeNacks (pre ++ ns.flatMap NackEntry.bytes ++ rest) pre.length ns.length = ns := by
  induction ns generalizing pre with
  | nil => rfl
  | cons n ns ih =>
    have hsplit : pre ++ (n :: ns).flatMap NackEntry.bytes ++ rest =
        (pre ++ n.bytes) ++ ns.flatMap NackEntry.bytes ++ rest := by
      rw [List.flatMap_cons, ← List.append_assoc]
    have hoff : pre.length + nackEntrySize = (pre ++ n.bytes).length := by simp
    have hseq : getU64 (pre ++ (n :: ns).flatMap NackEntry.bytes ++ rest) pre.length =
        n.blockSeq := by
      rw [hsplit, NackEntry.bytes]
      simpa only [List.append_assoc] using
        getU64_append rfl n.blockSeq (leBytes 8 n.rexIndex.toUInt64.toNat ++
          (ns.flatMap NackEntry.bytes ++ rest))
    have hrex : getU64 (pre ++ (n :: ns).flatMap NackEntry.bytes ++ rest) (pre.length + 8) =
        n.rexIndex.toUInt64 := by
      have hpre : (pre ++ leBytes 8 n.blockSeq.toNat).length = pre.length + 8 := by simp
      rw [hsplit, NackEntry.bytes, ← List.append_assoc pre, List.append_assoc _ _ rest]
      exact getU64_append hpre n.rexIndex.toUInt64 _
    rw [List.length_cons, decodeNacks, hseq, hrex, hoff, hsplit, ih]
    simp

theorem decodeFeedback_append (h : FeedbackHeader) (count : UInt16) (tail : Bytes) :
    decodeFeedback (h.bytes count ++ tail) =
      if feedbackHeaderSize + tail.length < feedbackHeaderSize + count.toNat * nackEntrySize then none
      else
        let nacks := decodeNacks (h.bytes count ++ tail) feedbackHeaderSize count.toNat
        some ({ h with nackCount := UInt16.ofNat nacks.length }, nacks) := by
  have hlen : (h.bytes count ++ tail).length = feedbackHeaderSize + tail.length := by
    rw [List.length_append, FeedbackHeader.bytes_length]
  have htype : getU8 (h.bytes count ++ tail) 0 = pduFeedback := rfl
  have htick : (getU8 (h.bytes count ++ tail) 1 &&& flagTickN != 0) = h.tickIsNetwork := by
    show ((if h.tickIsNetwork then 0 ||| flagTickN else 0) &&& flagTickN != 0) = h.tickIsNetwork
    cases h.tickIsNetwork <;> rfl
  have hcount : getU16 (h.bytes count ++ tail) 2 = count := u16_leBytes count
  have hsession : getU32 (h.bytes count ++ tail) 4 = h.session := u32_leBytes h.session
  have htickv : getU64 (h.bytes count ++ tail) 8 = h.tick := u64_leBytes h.tick
  have hrate : getU64 (h.bytes count ++ tail) 16 = h.targetRate := u64_leBytes h.targetRate
  have hhi : getU64 (h.bytes count ++ tail) 24 = h.hiContig := u64_leBytes h.hiContig
  have hdone : (getU8 (h.bytes count ++ tail) 32 == 1) = h.done := by
    show ((if h.done then 1 else 0 : UInt8) == 1) = h.done
    cases h.done <;> rfl
  rw [decodeFeedback, if_neg (by rw [htype, hlen]; simp)]
  simp only [htick, hcount, hsession, htickv, hrate, hhi, hdone, hlen]

theorem decodeFeedback_bytes (h : FeedbackHeader) {ns : List NackEntry} (hns : ns.length ≤ 65535)
    (rest : Bytes) :
    decodeFeedback (h.bytes (UInt16.ofNat ns.length) ++ ns.flatMap NackEntry.bytes ++ rest) =
      some ({ h with nackCount := UInt16.ofNat ns.length }, ns) := by
  have hcount : (UInt16.ofNat ns.length).toNat = ns.length := by
    rw [UInt16.toNat_ofNat']
    omega
  have hnacks := decodeNacks_bytes (h.bytes (UInt16.ofNat ns.length)) rest ns
  rw [FeedbackHeader.bytes_length] at hnacks
  rw [List.append_assoc] at hnacks ⊢
  rw [decodeFeedback_append, if_neg]
  · simp only [hcount, hnacks]
  · rw [hcount, List.length_append, nackBytes_length, Nat.mul_comm]
    omega

theorem decodeFeedback_header {h : FeedbackHeader} {count : UInt16} {tail : Bytes}
    {msg : FeedbackHeader × List NackEntry} (hmsg : decodeFeedback (h.bytes count ++ tail) = some msg) :
    msg.1 = { h with nackCount := msg.1.nackCount } := by
  rw [decodeFeedback_append] at hmsg
  split at hmsg <;> cases hmsg
  rfl

/-- **Acceptance of FEEDBACK.** The type byte and room for the announced entries are all that is
asked. -/
theorem decodeFeedback_isSome_iff (buf : Bytes) :
    (decodeFeedback buf).isSome ↔
      feedbackHeaderSize ≤ buf.length ∧ getU8 buf 0 = pduFeedback ∧
        feedbackHeaderSize + nackEntrySize * (getU16 buf 2).toNat ≤ buf.length := by
  unfold decodeFeedback
  by_cases hhead : buf.length < feedbackHeaderSize ∨ getU8 buf 0 ≠ pduFeedback
  · rw [if_pos hhead]
    rcases hhead with hshort | htype
    · simp [hshort]
    · simp [htype]
  · rw [if_neg hhead]
    obtain ⟨hlen, htype⟩ := not_or.mp hhead
    simp only [not_not.mp htype, not_lt.mp hlen, true_and, Nat.mul_comm nackEntrySize]
    split
    · rename_i hneed
      simpa using hneed
    · rename_i hneed
      simpa using hneed

/-! ## START -/

/-- The 8 bytes of a START. -/
def startBytes (session : UInt32) : Bytes := [pduStart, 0, 0, 0] ++ leBytes 4 session.toNat

theorem encodeStart_eq (buf : Bytes) (session : UInt32) :
    (encodeStart buf session).1 = startBytes session ++ buf.drop 8 := by
  simp only [encodeStart, putU8, putU32]
  rw [overwrite_zero, overwrite_append (by simp), overwrite_append (by simp),
    overwrite_append (by simp), overwrite_append (by simp)]
  simp [startBytes]

theorem decodeStart_bytes (session : UInt32) (rest : Bytes) :
    decodeStart (startBytes session ++ rest) = some session := by
  have htype : getU8 (startBytes session ++ rest) 0 = pduStart := rfl
  have hsession : getU32 (startBytes session ++ rest) 4 = session := u32_leBytes session
  rw [decodeStart, if_neg (by rw [htype]; simp [startBytes]), hsession]

/-! ## DATA, from the bytes back -/

theorem leBytes_getU16 {buf : Bytes} {off : Nat} (h : off + 2 ≤ buf.length) :
    leBytes 2 (getU16 buf off).toNat = slice buf off 2 := by
  have hlen := slice_length_of_le h
  have hlt := leNat_lt (slice buf off 2)
  rw [hlen] at hlt
  rw [getU16, UInt16.toNat_ofNat_of_lt' hlt]
  simpa only [hlen] using leBytes_leNat (slice buf off 2)

theorem leBytes_getU32 {buf : Bytes} {off : Nat} (h : off + 4 ≤ buf.length) :
    leBytes 4 (getU32 buf off).toNat = slice buf off 4 := by
  have hlen := slice_length_of_le h
  have hlt := leNat_lt (slice buf off 4)
  rw [hlen] at hlt
  rw [getU32, UInt32.toNat_ofNat_of_lt' hlt]
  simpa only [hlen] using leBytes_leNat (slice buf off 4)

theorem leBytes_getU64 {buf : Bytes} {off : Nat} (h : off + 8 ≤ buf.length) :
    leBytes 8 (getU64 buf off).toNat = slice buf off 8 := by
  have hlen := slice_length_of_le h
  have hlt := leNat_lt (slice buf off 8)
  rw [hlen] at hlt
  rw [getU64, UInt64.toNat_ofNat_of_lt' hlt]
  simpa only [hlen] using leBytes_leNat (slice buf off 8)

theorem getU8_eq_slice {buf : Bytes} {off : Nat} (h : off < buf.length) :
    [getU8 buf off] = slice buf off 1 := by
  rw [getU8, slice, List.drop_eq_getElem_cons h, List.take_succ_cons, List.take_zero,
    List.getD_eq_getElem?_getD, List.getElem?_eq_getElem h, Option.getD_some]

theorem bytes_of_decodeDataHeader {buf : Bytes} {h : DataHeader}
    (hdec : decodeDataHeader buf = some h) : h.bytes = buf.take dataHeaderSize := by
  unfold decodeDataHeader at hdec
  split at hdec
  · cases hdec
  · rename_i hacc
    obtain ⟨hlen, htype⟩ := not_or.mp hacc
    have hlen : 36 ≤ buf.length := not_lt.mp hlen
    cases hdec
    have htake : buf.take dataHeaderSize = slice buf 0 36 := rfl
    have h0 : [getU8 buf 0] = slice buf 0 1 := getU8_eq_slice (by omega)
    have h1 : [getU8 buf 1] = slice buf 1 1 := getU8_eq_slice (by omega)
    rw [not_not.mp htype] at h0
    -- the fields are adjacent slices of the buffer
    simp only [DataHeader.bytes, UInt64.toUInt64_toInt64]
    rw [leBytes_getU16 (by omega), leBytes_getU32 (by omega), leBytes_getU64 (by omega),
      leBytes_getU64 (by omega), leBytes_getU64 (by omega), leBytes_getU32 (by omega), htake,
      show [pduData, getU8 buf 1] = [pduData] ++ [getU8 buf 1] from rfl, h0, h1]
    rw [slice_append_slice, slice_append_slice, slice_append_slice, slice_append_slice,
      slice_append_slice, slice_append_slice, slice_append_slice]

theorem encode_of_decodeDataHeader {buf : Bytes} {h : DataHeader}
    (hdec : decodeDataHeader buf = some h) (buf' : Bytes) :
    (encodeDataHeader buf' h).take dataHeaderSize = buf.take dataHeaderSize := by
  rw [← bytes_of_decodeDataHeader hdec, encodeDataHeader_eq, ← DataHeader.bytes_length h,
    List.take_left]

/-! ## One decoder per datagram -/

theorem decodeDataHeader_type {buf : Bytes} (h : (decodeDataHeader buf).isSome) :
    getU8 buf 0 = pduData := by
  by_contra hne
  simp [decodeDataHeader, hne] at h

theorem decodeStart_type {buf : Bytes} (h : (decodeStart buf).isSome) :
    getU8 buf 0 = pduStart := by
  by_contra hne
  simp [decodeStart, hne] at h

theorem decodeFin_type {buf : Bytes} (h : (decodeFin buf).isSome) : getU8 buf 0 = pduFin := by
  by_contra hne
  simp [decodeFin, hne] at h

/-- Which decoders accept the datagram. -/
def accepting (buf : Bytes) : List Bool :=
  [(decodeDataHeader buf).isSome, (decodeFeedback buf).isSome, (decodeStart buf).isSome,
    (decodeFin buf).isSome]

theorem accepting_count_le_one (buf : Bytes) : (accepting buf).count true ≤ 1 := by
  have hdata := @decodeDataHeader_type buf
  have hfb : (decodeFeedback buf).isSome → getU8 buf 0 = pduFeedback :=
    fun h => ((decodeFeedback_isSome_iff buf).mp h).2.1
  have hstart := @decodeStart_type buf
  have hfin := @decodeFin_type buf
  unfold accepting
  generalize getU8 buf 0 = type at hdata hfb hstart hfin
  generalize (decodeDataHeader buf).isSome = data at hdata ⊢
  generalize (decodeFeedback buf).isSome = fb at hfb ⊢
  generalize (decodeStart buf).isSome = start at hstart ⊢
  generalize (decodeFin buf).isSome = fin at hfin ⊢
  revert hdata hfb hstart hfin
  cases data <;> cases fb <;> cases start <;> cases fin <;>
    simp +contextual [pduData, pduFeedback, pduStart, pduFin]

/-! ## All four layouts -/

/-- **Round trips.** Each encoder, writing into a large enough buffer with any contents, leaves
bytes that its decoder reads back from any datagram that starts with them. -/
theorem wireFormat_roundTrips :
    (∀ (h : DataHeader) (buf : Bytes), dataHeaderSize ≤ buf.length →
      decodeDataHeader (encodeDataHeader buf h) = some h) ∧
    (∀ (buf : Bytes) (h : DataHeader), decodeDataHeader buf = some h →
      ∀ buf' : Bytes, dataHeaderSize ≤ buf'.length →
        (encodeDataHeader buf' h).take dataHeaderSize = buf.take dataHeaderSize) ∧
    (∀ (h : FeedbackHeader) (nacks : List NackEntry) (buf dgram : Bytes), nacks.length ≤ 65535 →
      feedbackHeaderSize + nackEntrySize * nacks.length ≤ buf.length →
      (encodeFeedback buf h nacks).1.take (encodeFeedback buf h nacks).2 <+: dgram →
      ∃ h', decodeFeedback dgram = some (h', nacks) ∧ h'.nackCount.toNat = nacks.length ∧
        { h' with nackCount := h.nackCount } = h) ∧
    (∀ (session : UInt32) (buf dgram : Bytes), 8 ≤ buf.length →
      (encodeStart buf session).1.take (encodeStart buf session).2 <+: dgram →
      decodeStart dgram = some session) ∧
    (∀ (session : UInt32) (totalBlocks : UInt64) (buf dgram : Bytes), 16 ≤ buf.length →
      (encodeFin buf session totalBlocks).1.take (encodeFin buf session totalBlocks).2 <+: dgram →
      decodeFin dgram = some (session, totalBlocks)) ∧
    (∀ buf : Bytes, (decodeFeedback buf).isSome ↔
      buf[0]? = some 2 ∧ 36 + 16 * (getU16 buf 2).toNat ≤ buf.length ∧ 36 ≤ buf.length) ∧
    ∀ buf : Bytes, (accepting buf).count true ≤ 1 := by
  refine ⟨fun h buf _ => decodeDataHeader_encode buf h,
    fun buf h hdec buf' _ => encode_of_decodeDataHeader hdec buf', ?_, ?_, ?_, ?_,
    accepting_count_le_one⟩
  · intro h nacks buf dgram hcount hroom hstart
    have hlen : (h.bytes (UInt16.ofNat nacks.length) ++ nacks.flatMap NackEntry.bytes).length =
        feedbackHeaderSize + nackEntrySize * nacks.length := by
      rw [List.length_append, FeedbackHeader.bytes_length, nackBytes_length]
    rw [encodeFeedback_eq, ← hlen, List.take_left] at hstart
    obtain ⟨rest, rfl⟩ := hstart
    refine ⟨_, decodeFeedback_bytes h hcount rest, ?_, rfl⟩
    rw [UInt16.toNat_ofNat']
    omega
  · intro session buf dgram _ hstart
    rw [encodeStart_eq] at hstart
    obtain ⟨rest, rfl⟩ := hstart
    exact decodeStart_bytes session rest
  · intro session totalBlocks buf dgram _ hstart
    rw [encodeFin_eq] at hstart
    obtain ⟨rest, rfl⟩ := hstart
    exact decodeFin_bytes session totalBlocks rest
  · intro buf
    have htype : ∀ hpos : 0 < buf.length, buf[0]? = some (getU8 buf 0) := by
      intro hpos
      rw [getU8, List.getD_eq_getElem?_getD, List.getElem?_eq_getElem hpos, Option.getD_some]
    rw [decodeFeedback_isSome_iff]
    constructor
    · rintro ⟨hlen, h0, hneed⟩
      exact ⟨by rw [htype (lt_of_lt_of_le (by decide) hlen), h0]; rfl, hneed, hlen⟩
    · rintro ⟨h0, hneed, hlen⟩
      rw [htype (lt_of_lt_of_le (by decide) hlen), Option.some.injEq] at h0
      exact ⟨hlen, h0, hneed⟩

theorem wireFormat_roundTrips_twoNacks :
    let h : FeedbackHeader := { session := 9, hiContig := 3, done := false }
    let pdu := encodeFeedback (List.replicate 80 255) h [⟨3, 3⟩, ⟨5, 5⟩]
    ∃ h', decodeFeedback (pdu.1.take pdu.2 ++ [1, 2]) = some (h', [⟨3, 3⟩, ⟨5, 5⟩]) ∧
      h'.nackCount.toNat = 2 ∧ { h' with nackCount := 0 } = h :=
  wireFormat_roundTrips.2.2.1 _ _ (List.replicate 80 255) _ (by decide) (by decide)
    (List.prefix_append _ _)

end Girth
