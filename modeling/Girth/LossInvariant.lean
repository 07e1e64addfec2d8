import Girth.Losstracker

/-!
# No missing block escapes the loss scanner

`Scheduled isSet sc front` relates the scanner to the bitmap it reads: below `front`, the first
sequence number not examined yet, a missing block is pending, and a pending block has exactly one
heap entry. Each loop iteration keeps it (`advanceIter_scheduled`, `scanHolesIter_scheduled`,
`collectDueIter_scheduled`), and so does a bit that an ingest thread sets meanwhile
(`Scheduled.mono`). `ScanInv` adds what the local variables of a running `scan_holes` satisfy;
`scanInv_run` is the run lemma.
-/

namespace Girth

open Lib

namespace LossScanner

/-- How many heap entries a block has. -/
def entries (sc : LossScanner) (seq : Nat) : Nat := (sc.heap.map HeapItem.seq).count seq

theorem entries_push (sc : LossScanner) (item : HeapItem) (seq : Nat) :
    (sc.push item).entries seq = sc.entries seq + if item.seq = seq then 1 else 0 := by
  have hperm : (sc.push item).heap.Perm (item :: sc.heap) := List.perm_orderedInsert _ _ _
  rw [entries, (hperm.map HeapItem.seq).count_eq, List.map_cons, List.count_cons, entries]
  simp only [beq_iff_eq]

/-- The scanner against the bitmap, with `front` the first sequence number not yet examined. -/
structure Scheduled (isSet : Nat → Bool) (sc : LossScanner) (front : Nat) : Prop where
  missing : ∀ seq < front, isSet seq = false → seq ∈ sc.pending
  queued : ∀ seq ∈ sc.pending, sc.entries seq = 1
  once : ∀ seq, sc.entries seq ≤ 1
  below : ∀ seq, 0 < sc.entries seq → seq < front
  contig : ∀ seq < sc.hiContig, isSet seq = true
  hiContig_le : sc.hiContig ≤ sc.total

variable {isSet isSet' : Nat → Bool} {sc sc' : LossScanner} {front : Nat}

theorem scheduled_new (isSet : Nat → Bool) (total : Nat) : Scheduled isSet (new total) 0 where
  missing seq h := absurd h (by omega)
  queued seq h := absurd h (Finset.notMem_empty seq)
  once seq := Nat.zero_le _
  below seq h := absurd h (by simp [entries, new])
  contig seq h := absurd h (Nat.not_lt_zero _)
  hiContig_le := Nat.zero_le _

theorem Scheduled.mono (h : Scheduled isSet sc front)
    (hle : ∀ seq, isSet seq = true → isSet' seq = true) : Scheduled isSet' sc front where
  missing seq hlt hunset := h.missing seq hlt (by
    by_contra hset
    rw [hle seq (by simpa using hset)] at hunset
    cases hunset)
  queued := h.queued
  once := h.once
  below := h.below
  contig seq hlt := hle seq (h.contig seq hlt)
  hiContig_le := h.hiContig_le

theorem Scheduled.pending_once (h : Scheduled isSet sc front) {seq : Nat} (hlt : seq < front)
    (hunset : isSet seq = false) : seq ∈ sc.pending ∧ sc.entries seq = 1 :=
  ⟨h.missing seq hlt hunset, h.queued seq (h.missing seq hlt hunset)⟩

/-! ## One iteration of each loop -/

theorem advanceIter_eq (h : sc.advanceIter isSet = some sc') :
    sc.hiContig < sc.total ∧ isSet sc.hiContig = true ∧
      sc' = { sc with pending := sc.pending.erase sc.hiContig, hiContig := sc.hiContig + 1 } := by
  unfold advanceIter at h
  split at h
  · rename_i hc
    cases h
    exact ⟨hc.1, hc.2, rfl⟩
  · cases h

theorem advanceIter_scheduled (hinv : Scheduled isSet sc front)
    (h : sc.advanceIter isSet = some sc') : Scheduled isSet sc' front := by
  obtain ⟨hlt, hset, rfl⟩ := advanceIter_eq h
  refine ⟨fun seq hseq hunset => ?_, fun seq hseq => hinv.queued seq (Finset.mem_of_mem_erase hseq),
    hinv.once, hinv.below, fun seq hseq => ?_, hlt⟩
  · refine Finset.mem_erase.mpr ⟨fun heq => ?_, hinv.missing seq hseq hunset⟩
    rw [heq, hset] at hunset
    cases hunset
  · rcases Nat.lt_succ_iff_lt_or_eq.mp hseq with hseq | rfl
    · exact hinv.contig seq hseq
    · exact hset

theorem scanHolesIter_eq {maxSeen due seq seq' : Nat}
    (h : sc.scanHolesIter isSet maxSeen due seq = some (sc', seq')) :
    seq ≤ maxSeen ∧ seq' = seq + 1 ∧
      ((isSet seq = false ∧ seq ∉ sc.pending ∧
          sc' = { sc with pending := insert seq sc.pending }.push ⟨due, seq⟩) ∨
        ((isSet seq = true ∨ seq ∈ sc.pending) ∧ sc' = sc)) := by
  unfold scanHolesIter at h
  split at h
  · rename_i hle
    simp only [Option.some.injEq, Prod.mk.injEq] at h
    obtain ⟨h, rfl⟩ := h
    refine ⟨hle, rfl, ?_⟩
    split at h
    · rename_i hc
      exact .inl ⟨by simpa using hc.1, hc.2, h.symm⟩
    · rename_i hc
      refine .inr ⟨?_, h.symm⟩
      by_contra hboth
      rw [not_or] at hboth
      exact hc ⟨by simpa using hboth.1, hboth.2⟩
  · cases h

theorem scanHolesIter_scheduled {maxSeen due seq' : Nat} (hinv : Scheduled isSet sc front)
    (h : sc.scanHolesIter isSet maxSeen due front = some (sc', seq')) :
    Scheduled isSet sc' (front + 1) := by
  have hfresh : sc.entries front = 0 := by
    by_contra hne
    exact absurd (hinv.below front (Nat.pos_of_ne_zero hne)) (lt_irrefl _)
  obtain ⟨_, _, ⟨hunset, _, rfl⟩ | ⟨hknown, rfl⟩⟩ := scanHolesIter_eq h
  · have hentries : ∀ seq, ({ sc with pending := insert front sc.pending }.push
        ⟨due, front⟩).entries seq = sc.entries seq + if front = seq then 1 else 0 :=
      fun seq => entries_push _ _ seq
    refine ⟨fun seq hseq hmiss => ?_, fun seq hseq => ?_, fun seq => ?_, fun seq hseq => ?_,
      hinv.contig, hinv.hiContig_le⟩
    · rcases Nat.lt_succ_iff_lt_or_eq.mp hseq with hseq | rfl
      · exact Finset.mem_insert_of_mem (hinv.missing seq hseq hmiss)
      · exact Finset.mem_insert_self _ _
    · rw [hentries]
      by_cases heq : front = seq
      · subst heq
        rw [hfresh, if_pos rfl]
      · rw [if_neg heq, hinv.queued seq (Finset.mem_of_mem_insert_of_ne hseq (Ne.symm heq))]
    · rw [hentries]
      by_cases heq : front = seq
      · subst heq
        rw [hfresh, if_pos rfl]
      · rw [if_neg heq]
        exact hinv.once seq
    · rw [hentries] at hseq
      by_cases heq : front = seq
      · omega
      · rw [if_neg heq] at hseq
        exact Nat.lt_succ_of_lt (hinv.below seq hseq)
  · refine ⟨fun seq hseq hmiss => ?_, hinv.queued, hinv.once,
      fun seq hseq => Nat.lt_succ_of_lt (hinv.below seq hseq), hinv.contig, hinv.hiContig_le⟩
    rcases Nat.lt_succ_iff_lt_or_eq.mp hseq with hseq | rfl
    · exact hinv.missing seq hseq hmiss
    · rcases hknown with hset | hpend
      · rw [hset] at hmiss
        cases hmiss
      · exact hpend

theorem collectDueIter_eq {fl : ℚ → ℚ} {now : ℚ} {reDue max : Nat} {out out' : List Nat}
    (h : sc.collectDueIter fl isSet now reDue max out = some (sc', out')) :
    ∃ top rest, sc.heap = top :: rest ∧ fl top.due ≤ now ∧
      ((top.seq ∉ sc.pending ∧ sc' = { sc with heap := rest } ∧ out' = out) ∨
        (isSet top.seq = true ∧
          sc' = { sc with heap := rest, pending := sc.pending.erase top.seq } ∧ out' = out) ∨
        (isSet top.seq = false ∧ top.seq ∈ sc.pending ∧
          sc' = { sc with heap := rest }.push ⟨reDue, top.seq⟩ ∧ out' = out ++ [top.seq])) := by
  unfold collectDueIter at h
  split at h
  · split at h
    · cases h
    · rename_i top rest heq
      refine ⟨top, rest, heq, ?_⟩
      split at h
      · cases h
      · rename_i hdue
        refine ⟨not_lt.mp hdue, ?_⟩
        dsimp only at h
        split at h
        · rename_i hpend
          cases h
          exact .inl ⟨hpend, rfl, rfl⟩
        · rename_i hpend
          split at h
          · rename_i hset
            cases h
            exact .inr (.inl ⟨hset, rfl, rfl⟩)
          · rename_i hset
            cases h
            exact .inr (.inr ⟨by simpa using hset, not_not.mp hpend, rfl, rfl⟩)
  · cases h

theorem entries_of_heap_cons {top : HeapItem} {rest : List HeapItem} (h : sc.heap = top :: rest)
    (seq : Nat) :
    sc.entries seq = { sc with heap := rest }.entries seq + if top.seq = seq then 1 else 0 := by
  rw [entries, h, List.map_cons, List.count_cons, entries]
  simp only [beq_iff_eq]

/-- Without its first heap entry a scanner stays scheduled if that entry was stale or its block has
arrived. -/
theorem Scheduled.pop {top : HeapItem} {rest : List HeapItem} (hinv : Scheduled isSet sc front)
    (hheap : sc.heap = top :: rest) (hset : top.seq ∈ sc.pending → isSet top.seq = true) :
    Scheduled isSet { sc with heap := rest, pending := sc.pending.erase top.seq } front where
  missing seq hlt hmiss := by
    refine Finset.mem_erase.mpr ⟨fun heq => ?_, hinv.missing seq hlt hmiss⟩
    rw [heq] at hmiss hlt
    rw [hset (hinv.missing _ hlt hmiss)] at hmiss
    cases hmiss
  queued seq hpend := by
    have hne : top.seq ≠ seq := fun heq => (Finset.mem_erase.mp hpend).1 heq.symm
    have h1 := hinv.queued seq (Finset.mem_of_mem_erase hpend)
    rw [entries_of_heap_cons hheap, if_neg hne] at h1
    exact h1
  once seq := by
    have h1 := hinv.once seq
    rw [entries_of_heap_cons hheap] at h1
    exact le_trans (Nat.le_add_right _ _) h1
  below seq hpos := hinv.below seq (by
    rw [entries_of_heap_cons hheap]
    exact Nat.add_pos_left hpos _)
  contig := hinv.contig
  hiContig_le := hinv.hiContig_le

theorem collectDueIter_scheduled {fl : ℚ → ℚ} {now : ℚ} {reDue max : Nat} {out out' : List Nat}
    (hinv : Scheduled isSet sc front)
    (h : sc.collectDueIter fl isSet now reDue max out = some (sc', out')) :
    Scheduled isSet sc' front := by
  obtain ⟨top, rest, hheap, _, ⟨hstale, rfl, _⟩ | ⟨hset, rfl, _⟩ | ⟨_, hpend, rfl, _⟩⟩ :=
    collectDueIter_eq h
  · have hpop := hinv.pop hheap (fun hpend => absurd hpend hstale)
    rwa [Finset.erase_eq_of_notMem hstale] at hpop
  · exact hinv.pop hheap (fun _ => hset)
  · -- the entry is pushed back, so every count is what it was
    have hentries : ∀ seq, ({ sc with heap := rest }.push ⟨reDue, top.seq⟩).entries seq
        = sc.entries seq := by
      intro seq
      rw [entries_push, entries_of_heap_cons hheap]
    exact ⟨hinv.missing, fun seq hseq => (hentries seq).trans (hinv.queued seq hseq),
      fun seq => (hentries seq).trans_le (hinv.once seq),
      fun seq hseq => hinv.below seq (by rwa [hentries] at hseq), hinv.contig, hinv.hiContig_le⟩

end LossScanner

/-! ## Every run -/

namespace ScanSys

open LossScanner

variable {total : Nat} {fl : ℚ → ℚ}

/-- The first sequence number not examined yet: inside `scan_holes` it is the loop variable. -/
def front (s : ScanSys total) : Nat :=
  match s.pc with
  | .scanHoles _ _ seq => seq
  | _ => s.sc.nextScan

structure ScanInv (s : ScanSys total) : Prop where
  total : s.sc.total = total
  sched : Scheduled s.bm.isSet s.sc s.front
  nextScan_le : s.sc.nextScan ≤ s.sc.total
  loop : ∀ maxSeen due seq, s.pc = .scanHoles maxSeen due seq →
    maxSeen < s.sc.total ∧ s.sc.nextScan ≤ seq ∧ seq ≤ max s.sc.nextScan (maxSeen + 1)

/-- What one iteration can do. -/
inductive IterCase (fl : ℚ → ℚ) (s : ScanSys total) : ScanSys total → Prop
  | advance {sc : LossScanner} : s.pc = .advance → s.sc.advanceIter s.bm.isSet = some sc →
      IterCase fl s { s with sc := sc }
  | advanceEnd : s.pc = .advance → s.sc.advanceIter s.bm.isSet = none →
      IterCase fl s { s with pc := .idle }
  | scanHoles {maxSeen due seq seq' : Nat} {sc : LossScanner} : s.pc = .scanHoles maxSeen due seq →
      s.sc.scanHolesIter s.bm.isSet maxSeen due seq = some (sc, seq') →
      IterCase fl s { s with sc := sc, pc := .scanHoles maxSeen due seq' }
  | scanHolesEnd {maxSeen due seq : Nat} : s.pc = .scanHoles maxSeen due seq → maxSeen < seq →
      IterCase fl s { s with sc := s.sc.scanHolesEnd maxSeen, pc := .idle }
  | collectDue {now : ℚ} {reDue max : Nat} {out out' : List Nat} {sc : LossScanner} :
      s.pc = .collectDue now reDue max out →
      s.sc.collectDueIter fl s.bm.isSet now reDue max out = some (sc, out') →
      IterCase fl s { s with sc := sc, pc := .collectDue now reDue max out' }
  | collectDueEnd {now : ℚ} {reDue max : Nat} {out : List Nat} :
      s.pc = .collectDue now reDue max out → IterCase fl s { s with pc := .idle }

theorem iter_cases {s t : ScanSys total} (h : s.iter fl = some t) : IterCase fl s t := by
  unfold iter at h
  split at h
  · cases h
  · rename_i hpc
    split at h <;> rename_i hiter <;> cases h
    · exact .advance hpc hiter
    · exact .advanceEnd hpc hiter
  · rename_i maxSeen due seq hpc
    split at h <;> rename_i hiter <;> cases h
    · exact .scanHoles hpc hiter
    · refine .scanHolesEnd hpc ?_
      unfold scanHolesIter at hiter
      split at hiter
      · cases hiter
      · rename_i hle
        exact not_le.mp hle
  · rename_i hpc
    split at h <;> rename_i hiter <;> cases h
    · exact .collectDue hpc hiter
    · exact .collectDueEnd hpc

theorem callPc_cases {sc : LossScanner} {act : ScanAct} {pc : ScanPc}
    (h : callPc fl sc act = some pc) :
    pc = .advance ∨ pc = .idle ∨
      (0 < sc.total ∧ ∃ maxSeen due, pc = .scanHoles (sc.scanTop maxSeen) due sc.nextScan) ∨
      ∃ now reDue max, pc = .collectDue now reDue max [] := by
  cases act with
  | callAdvance =>
    cases h
    exact .inl rfl
  | callScanHoles maxSeen now rto =>
    simp only [callPc] at h
    split at h <;> cases h
    · exact .inr (.inl rfl)
    · exact .inr (.inr (.inl ⟨by omega, maxSeen, _, rfl⟩))
  | callCollectDue now rto max =>
    cases h
    exact .inr (.inr (.inr ⟨now, _, max, rfl⟩))
  | set seq => cases h
  | iter => cases h

/-- What a step can do. -/
inductive StepCase (fl : ℚ → ℚ) (s : ScanSys total) : ScanSys total → Prop
  | set {seq : Nat} : seq < total → StepCase fl s { s with bm := (s.bm.setAndTest seq).1 }
  | iter {t : ScanSys total} : IterCase fl s t → StepCase fl s t
  | call {act : ScanAct} {pc : ScanPc} : s.pc = .idle → callPc fl s.sc act = some pc →
      StepCase fl s { s with pc := pc }

theorem call_cases {s t : ScanSys total} {act : ScanAct}
    (h : (match s.pc with
      | .idle => (callPc fl s.sc act).map fun pc => { s with pc := pc }
      | _ => none) = some t) : StepCase fl s t := by
  split at h
  · rename_i hidle
    obtain ⟨pc, hpc, rfl⟩ := Option.map_eq_some_iff.mp h
    exact .call hidle hpc
  · cases h

theorem step_cases {s t : ScanSys total} {act : ScanAct} (h : step fl s act = some t) : StepCase fl s t := by
  cases act with
  | set seq =>
    simp only [step] at h
    split at h <;> cases h
    exact .set ‹_›
  | iter => exact .iter (iter_cases h)
  | callAdvance => exact call_cases h
  | callScanHoles maxSeen now rto => exact call_cases h
  | callCollectDue now rto max => exact call_cases h

theorem scanInv_init (total : Nat) : ScanInv (init total) where
  total := rfl
  sched := scheduled_new _ total
  nextScan_le := Nat.zero_le _
  loop maxSeen due seq h := by cases h

theorem ScanInv.sched_of_pc {s : ScanSys total} (h : ScanInv s)
    (hpc : ∀ maxSeen due seq, s.pc ≠ .scanHoles maxSeen due seq) :
    Scheduled s.bm.isSet s.sc s.sc.nextScan := by
  have hfront : s.front = s.sc.nextScan := by
    unfold front
    split
    · rename_i heq
      exact absurd heq (hpc _ _ _)
    · rfl
  rw [← hfront]
  exact h.sched

theorem scanInv_iter {s t : ScanSys total} (hinv : ScanInv s) (h : IterCase fl s t) : ScanInv t := by
  cases h with
  | advance hpc hiter =>
    have hsched := hinv.sched_of_pc (fun _ _ _ heq => by rw [hpc] at heq; cases heq)
    have hsched' := advanceIter_scheduled hsched hiter
    obtain ⟨_, _, rfl⟩ := advanceIter_eq hiter
    refine ⟨hinv.total, ?_, hinv.nextScan_le, fun _ _ _ heq => by rw [hpc] at heq; cases heq⟩
    simp only [front, hpc]
    exact hsched'
  | advanceEnd hpc _ =>
    have hsched := hinv.sched_of_pc (fun _ _ _ heq => by rw [hpc] at heq; cases heq)
    exact ⟨hinv.total, hsched, hinv.nextScan_le, fun _ _ _ heq => by cases heq⟩
  | @scanHoles maxSeen due seq seq' sc hpc hiter =>
    have hfront : s.front = seq := by rw [front, hpc]
    have hsched : Scheduled s.bm.isSet s.sc seq := hfront ▸ hinv.sched
    have hsched' := scanHolesIter_scheduled hsched hiter
    obtain ⟨hmax, hlow, hhigh⟩ := hinv.loop maxSeen due seq hpc
    obtain ⟨hle, rfl, hsc⟩ := scanHolesIter_eq hiter
    have hframe : sc.total = s.sc.total ∧ sc.nextScan = s.sc.nextScan := by
      rcases hsc with ⟨_, _, rfl⟩ | ⟨_, rfl⟩ <;> exact ⟨rfl, rfl⟩
    refine ⟨hframe.1.trans hinv.total, hsched', ?_, ?_⟩
    · rw [hframe.1, hframe.2]
      exact hinv.nextScan_le
    · rintro _ _ _ ⟨⟩
      rw [hframe.1, hframe.2]
      exact ⟨hmax, by omega, by omega⟩
  | @scanHolesEnd maxSeen due seq hpc hlt =>
    -- the loop variable has reached the new value of `next_scan`
    have hfront : s.front = seq := by rw [front, hpc]
    have hsched : Scheduled s.bm.isSet s.sc seq := hfront ▸ hinv.sched
    obtain ⟨hmax, hlow, hhigh⟩ := hinv.loop maxSeen due seq hpc
    unfold scanHolesEnd
    split
    · have hseq : seq = maxSeen + 1 := by omega
      subst hseq
      exact ⟨hinv.total, ⟨hsched.missing, hsched.queued, hsched.once, hsched.below, hsched.contig,
        hsched.hiContig_le⟩, hmax, fun _ _ _ heq => by cases heq⟩
    · have hseq : seq = s.sc.nextScan := by omega
      subst hseq
      exact ⟨hinv.total, hsched, hinv.nextScan_le, fun _ _ _ heq => by cases heq⟩
  | @collectDue now reDue max out out' sc hpc hiter =>
    have hsched := hinv.sched_of_pc (fun _ _ _ heq => by rw [hpc] at heq; cases heq)
    have hsched' := collectDueIter_scheduled hsched hiter
    have hframe : sc.total = s.sc.total ∧ sc.nextScan = s.sc.nextScan := by
      obtain ⟨_, _, _, _, ⟨_, rfl, _⟩ | ⟨_, rfl, _⟩ | ⟨_, _, rfl, _⟩⟩ := collectDueIter_eq hiter <;>
        exact ⟨rfl, rfl⟩
    refine ⟨hframe.1.trans hinv.total, ?_, ?_, fun _ _ _ heq => by cases heq⟩
    · simp only [front, hframe.2]
      exact hsched'
    · rw [hframe.1, hframe.2]
      exact hinv.nextScan_le
  | collectDueEnd hpc =>
    have hsched := hinv.sched_of_pc (fun _ _ _ heq => by rw [hpc] at heq; cases heq)
    exact ⟨hinv.total, hsched, hinv.nextScan_le, fun _ _ _ heq => by cases heq⟩

theorem scanInv_step {s t : ScanSys total} (hinv : ScanInv s) (h : StepCase fl s t) : ScanInv t := by
  cases h with
  | set hlt =>
    exact ⟨hinv.total, hinv.sched.mono fun _ => RecvBitmap.isSet_setAndTest_of_isSet hlt,
      hinv.nextScan_le, hinv.loop⟩
  | iter hiter => exact scanInv_iter hinv hiter
  | call hidle hcall =>
    have hsched := hinv.sched_of_pc (fun _ _ _ heq => by rw [hidle] at heq; cases heq)
    obtain rfl | rfl | ⟨hpos, maxSeen, due, rfl⟩ | ⟨_, _, _, rfl⟩ := callPc_cases hcall
    · exact ⟨hinv.total, hsched, hinv.nextScan_le, fun _ _ _ heq => by cases heq⟩
    · exact ⟨hinv.total, hsched, hinv.nextScan_le, fun _ _ _ heq => by cases heq⟩
    · refine ⟨hinv.total, hsched, hinv.nextScan_le, ?_⟩
      rintro _ _ _ ⟨⟩
      refine ⟨?_, le_rfl, le_max_left _ _⟩
      unfold scanTop
      split <;> dsimp only <;> omega
    · exact ⟨hinv.total, hsched, hinv.nextScan_le, fun _ _ _ heq => by cases heq⟩

variable {s t u : ScanSys total} {as bs cs : List ScanAct}

theorem scanInv_run (h : Steps (step fl) Any (init total) as s) : ScanInv s :=
  h.invariant (fun _ _ _ hinv _ hstep => scanInv_step hinv (step_cases hstep)) (scanInv_init total)

theorem ScanInv.nextScan_le_front (h : ScanInv s) : s.sc.nextScan ≤ s.front := by
  unfold front
  split
  · rename_i hpc
    exact (h.loop _ _ _ hpc).2.1
  · exact le_rfl

theorem ScanInv.pending_once_nextScan (h : ScanInv s) {seq : Nat} (hlt : seq < s.sc.nextScan)
    (hmiss : s.bm.isSet seq = false) : seq ∈ s.sc.pending ∧ s.sc.entries seq = 1 :=
  h.sched.pending_once (hlt.trans_le h.nextScan_le_front) hmiss

/-! ### Cursors only move forward -/

theorem iter_cursors (h : IterCase fl s t) :
    s.sc.hiContig ≤ t.sc.hiContig ∧ s.sc.nextScan ≤ t.sc.nextScan ∧ t.sc.total = s.sc.total := by
  cases h with
  | advance _ hiter =>
    obtain ⟨_, _, rfl⟩ := advanceIter_eq hiter
    exact ⟨Nat.le_succ _, le_rfl, rfl⟩
  | advanceEnd => exact ⟨le_rfl, le_rfl, rfl⟩
  | scanHoles _ hiter =>
    obtain ⟨_, _, ⟨_, _, rfl⟩ | ⟨_, rfl⟩⟩ := scanHolesIter_eq hiter <;> exact ⟨le_rfl, le_rfl, rfl⟩
  | scanHolesEnd =>
    unfold scanHolesEnd
    split
    · exact ⟨le_rfl, by dsimp only; omega, rfl⟩
    · exact ⟨le_rfl, le_rfl, rfl⟩
  | collectDue _ hiter =>
    obtain ⟨_, _, _, _, ⟨_, rfl, _⟩ | ⟨_, rfl, _⟩ | ⟨_, _, rfl, _⟩⟩ := collectDueIter_eq hiter <;>
      exact ⟨le_rfl, le_rfl, rfl⟩
  | collectDueEnd => exact ⟨le_rfl, le_rfl, rfl⟩

theorem step_cursors (h : StepCase fl s t) :
    s.sc.hiContig ≤ t.sc.hiContig ∧ s.sc.nextScan ≤ t.sc.nextScan ∧ t.sc.total = s.sc.total := by
  cases h with
  | set => exact ⟨le_rfl, le_rfl, rfl⟩
  | iter hiter => exact iter_cursors hiter
  | call => exact ⟨le_rfl, le_rfl, rfl⟩

theorem run_cursors (h : Steps (step fl) Any s as t) :
    s.sc.hiContig ≤ t.sc.hiContig ∧ s.sc.nextScan ≤ t.sc.nextScan ∧ t.sc.total = s.sc.total := by
  refine h.invariant (I := fun t => s.sc.hiContig ≤ t.sc.hiContig ∧ s.sc.nextScan ≤ t.sc.nextScan ∧
    t.sc.total = s.sc.total) ?_ ⟨le_rfl, le_rfl, rfl⟩
  rintro t _ u ⟨h1, h2, h3⟩ _ hstep
  obtain ⟨k1, k2, k3⟩ := step_cursors (step_cases hstep)
  exact ⟨h1.trans k1, h2.trans k2, k3.trans h3⟩

/-! ### A scan to the end -/

/-- A scan up to the last block is running, or one has finished. -/
def ScansAll (s : ScanSys total) : Prop :=
  (∃ due seq, s.pc = .scanHoles (s.sc.total - 1) due seq) ∨ s.sc.total ≤ s.sc.nextScan

theorem scansAll_step (hall : ScansAll s) (h : StepCase fl s t) : ScansAll t := by
  obtain ⟨_, hnext, htotal⟩ := step_cursors h
  rcases hall with ⟨due, seq, hpc⟩ | hdone
  · cases h with
    | set => exact .inl ⟨due, seq, hpc⟩
    | call hidle =>
      rw [hpc] at hidle
      cases hidle
    | iter hiter =>
      cases hiter with
      | scanHoles hpc' hiter =>
        rw [hpc] at hpc'
        cases hpc'
        dsimp only at htotal
        exact .inl ⟨due, _, by dsimp only; rw [htotal]⟩
      | scanHolesEnd hpc' =>
        rw [hpc] at hpc'
        cases hpc'
        refine .inr ?_
        dsimp only at htotal ⊢
        rw [htotal, scanHolesEnd]
        split
        · exact Nat.sub_le_iff_le_add.mp le_rfl
        · omega
      | advance hpc' => exact absurd (hpc.symm.trans hpc') (by simp)
      | advanceEnd hpc' => exact absurd (hpc.symm.trans hpc') (by simp)
      | collectDue hpc' => exact absurd (hpc.symm.trans hpc') (by simp)
      | collectDueEnd hpc' => exact absurd (hpc.symm.trans hpc') (by simp)
  · exact .inr (by omega)

theorem scansAll_call {maxSeen : Nat} {now rto : ℚ} (hmax : s.sc.total ≤ maxSeen + 1)
    (h : step fl s (.callScanHoles maxSeen now rto) = some t) : ScansAll t := by
  simp only [step, callPc] at h
  split at h
  · split at h <;> cases h
    · exact .inr (by dsimp only; omega)
    · have htop : s.sc.scanTop maxSeen = s.sc.total - 1 := by
        unfold scanTop
        split <;> omega
      exact .inl ⟨dueAt fl now rto, s.sc.nextScan, by dsimp only; rw [htop]⟩
  · cases h

theorem scanned_of_call {maxSeen : Nat} {now rto : ℚ} (hmax : s.sc.total ≤ maxSeen + 1)
    (hcall : step fl s (.callScanHoles maxSeen now rto) = some t) (hrun : Steps (step fl) Any t as u)
    (hidle : u.pc = .idle) : u.sc.total ≤ u.sc.nextScan := by
  have hall : ScansAll u :=
    hrun.invariant (fun _ _ _ hall _ hstep => scansAll_step hall (step_cases hstep))
      (scansAll_call hmax hcall)
  rcases hall with ⟨_, _, hpc⟩ | hdone
  · rw [hidle] at hpc
    cases hpc
  · exact hdone

/-- **No missing block escapes loss detection.** Whatever the ingest threads set meanwhile and
whichever operations the feedback thread calls: a missing block below `next_scan` is pending with
exactly one heap entry, no block has two, everything below `hi_contig` has arrived and `hi_contig`
never decreases. After a scan to the last block every missing block stays scheduled, and
`completed` means that nothing is missing. -/
theorem lossScanner_run (h : Steps (step fl) Any (init total) as s) :
    (∀ seq < s.sc.nextScan, s.bm.isSet seq = false →
      seq ∈ s.sc.pending ∧ s.sc.entries seq = 1) ∧
    (∀ seq, s.sc.entries seq ≤ 1) ∧
    (∀ seq < s.sc.hiContig, s.bm.isSet seq = true) ∧
    (∀ bs t, Steps (step fl) Any s bs t → s.sc.hiContig ≤ t.sc.hiContig) ∧
    (∀ maxSeen now rto s' bs t cs u, total ≤ maxSeen + 1 →
      step fl s (.callScanHoles maxSeen now rto) = some s' →
      Steps (step fl) Any s' bs t → t.pc = .idle → Steps (step fl) Any t cs u →
      ∀ seq < total, u.bm.isSet seq = false → seq ∈ u.sc.pending ∧ u.sc.entries seq = 1) ∧
    (s.sc.completed = true → ∀ seq < total, s.bm.isSet seq = true) := by
  have hinv := scanInv_run h
  have htotal : s.sc.total = total := (run_cursors h).2.2
  refine ⟨fun seq hlt hmiss => ?_, hinv.sched.once, hinv.sched.contig,
    fun bs t hrun => (run_cursors hrun).1, ?_, fun hcomp seq hlt => ?_⟩
  · exact hinv.pending_once_nextScan hlt hmiss
  · intro maxSeen now rto s' bs t cs u hmax hcall hbs hidle hcs seq hlt hmiss
    have hscan := scanned_of_call (by omega) hcall hbs hidle
    have hrun : Steps (step fl) Any (init total) (as ++ [_] ++ bs) t :=
      (h.append (.single trivial hcall)).append hbs
    have ht : t.sc.total = total := (run_cursors hrun).2.2
    have hu : t.sc.nextScan ≤ u.sc.nextScan := (run_cursors hcs).2.1
    exact (scanInv_run (hrun.append hcs)).pending_once_nextScan (by omega) hmiss
  · have hhi : s.sc.hiContig = s.sc.total := by simpa [completed] using hcomp
    exact hinv.sched.contig seq (by omega)

/-- Blocks 0 and 2 of 3 arrive and the scan finds the hole between them. -/
theorem lossScanner_run_hole : ∃ s, Steps (step f64) Any (init 3)
      [.set 0, .set 2, .callScanHoles 2 0 0, .iter, .iter, .iter, .iter] s ∧
    s.sc.nextScan = 3 ∧ s.bm.isSet 1 = false ∧ 1 ∈ s.sc.pending ∧ s.sc.entries 1 = 1 := by
  have hrun : Steps (step f64) Any (init 3)
      [.set 0, .set 2, .callScanHoles 2 0 0, .iter, .iter, .iter, .iter] _ :=
    .cons trivial rfl <| .cons trivial rfl <| .cons trivial rfl <| .cons trivial rfl <|
      .cons trivial rfl <| .cons trivial rfl <| .cons trivial rfl <| .nil _
  exact ⟨_, hrun, rfl, rfl, (lossScanner_run hrun).1 1 (by decide) rfl⟩

end ScanSys

end Girth
