import Girth.Receiver.Outcome
import Girth.Receiver.Scan

/-!
# What a DONE report says about progress

One round of the feedback loop first lets the scanner run to the contiguous mark and keeps the mark
it reached; later in the same round it decides completeness by `all_sent` and `flushed_blocks`. The
other threads move in between. If the last block arrives and is flushed in that window, the round
reports completion together with a mark from before.

`FeedbackPc.window` is the mark a round holds while the window is open. `done_reports_total` is the
run lemma: as long as the flusher does not reach the end inside a window that holds a smaller mark,
every report with `done` carries the number of blocks.
-/

namespace Girth.Receiver

open Lib

variable {prim : Primitives} {cfg : RecvConfig} {n : Nat}

/-! ## The window -/

/-- The contiguous mark of a round that has not decided completeness yet. -/
def FeedbackPc.window : FeedbackPc → Option Nat
  | .loadMaxSeen l | .loadAllSent l _ | .loadSeen l _ | .scanHoles l _ _ _ | .complete l => some l.hi
  | _ => none

/-- The flusher does not publish the last block while a round holds a smaller mark. -/
def LastFlushOutsideWindow (s : State cfg n) : Action n → Prop
  | .flusher _ => s.flusher.pc = .advance → s.flusher.writeFront + 1 = cfg.totalBlocks →
      ∀ hi ∈ s.feedback.pc.window, hi = cfg.totalBlocks
  | .ingest .. | .feedback _ | .main | .stop | .control _ => True

instance (s : State cfg n) : (act : Action n) → Decidable (LastFlushOutsideWindow s act)
  | .flusher _ => inferInstanceAs (Decidable (_ = _ → _ = _ → ∀ hi ∈ _, hi = _))
  | .ingest .. | .feedback _ | .main | .stop | .control _ => inferInstanceAs (Decidable True)

/-- An open window with a smaller mark means that not everything is flushed; a round that found the
transfer complete holds the full mark. -/
structure MarkAgrees (flushed total : Nat) (pc : FeedbackPc) : Prop where
  window : ∀ hi ∈ pc.window, hi = total ∨ flushed ≠ total
  claim : pc.claimsDone = true → pc.hi = total

theorem MarkAgrees.of_none {flushed total : Nat} {pc : FeedbackPc} (hw : pc.window = none)
    (hc : pc.claimsDone = false) : MarkAgrees flushed total pc :=
  ⟨fun hi h => by simp [hw] at h, fun h => by simp [hc] at h⟩

theorem MarkAgrees.congr {flushed total : Nat} {pc pc' : FeedbackPc}
    (h : MarkAgrees flushed total pc) (hw : pc'.window = none ∨ pc'.window = pc.window)
    (hc : pc'.claimsDone = pc.claimsDone) (hhi : pc'.hi = pc.hi) : MarkAgrees flushed total pc' := by
  refine ⟨fun hi hmem => ?_, fun hclaim => ?_⟩
  · rcases hw with hw | hw
    · simp [hw] at hmem
    · exact h.window hi (hw ▸ hmem)
  · rw [hhi]
    exact h.claim (hc ▸ hclaim)

/-! ## One step -/

theorem advanceIter_none {isSet : Nat → Bool} {sc : LossScanner}
    (h : sc.advanceIter isSet = none) (hle : sc.hiContig ≤ sc.total) :
    sc.hiContig = sc.total ∨ isSet sc.hiContig = false := by
  unfold LossScanner.advanceIter at h
  split at h
  · cases h
  · rename_i hstop
    by_cases hlt : sc.hiContig < sc.total
    · right
      simpa [hlt] using hstop
    · left
      omega

theorem feedbackStep_markAgrees {sh sh' : Shared cfg.totalBlocks} {env : Env} {fb fb' : Feedback}
    (h : feedbackStep cfg sh env fb = some (sh', fb'))
    (hinv : MarkAgrees sh.flushedBlocks cfg.totalBlocks fb.pc)
    (htotal : fb.scanner.total = cfg.totalBlocks) (hle : fb.scanner.hiContig ≤ cfg.totalBlocks)
    (hreceived : sh.flushedBlocks = cfg.totalBlocks →
      ∀ seq < cfg.totalBlocks, sh.bm.isSet seq = true) :
    MarkAgrees sh.flushedBlocks cfg.totalBlocks fb'.pc := by
  cases feedbackStep_cases h with
  | leave | start | rtt | noPeer | again | announced | done => exact .of_none rfl rfl
  | advance => exact hinv
  | @advanced _ sc _ _ hiter =>
    refine ⟨?_, fun hclaim => ?_⟩
    · rintro hi ⟨⟩
      rcases advanceIter_none hiter (htotal ▸ hle) with hend | hmissing
      · exact .inl (hend.trans htotal)
      · by_cases hlt : sc.hiContig < cfg.totalBlocks
        · refine .inr fun hflushed => ?_
          rw [hreceived hflushed _ hlt] at hmissing
          cases hmissing
        · exact .inl (Nat.le_antisymm hle (not_lt.mp hlt))
    · have hzero : 0 = cfg.totalBlocks := hinv.claim hclaim
      exact Nat.le_antisymm hle (hzero ▸ Nat.zero_le _)
  | @complete l =>
    refine ⟨by rintro hi ⟨⟩, fun hclaim => ?_⟩
    simp only [FeedbackPc.claimsDone, Bool.and_eq_true, beq_iff_eq] at hclaim
    exact (hinv.window l.hi rfl).resolve_right fun hne => hne hclaim.2
  | loadMaxSeen | loadAllSent | scan | noScan | scanHoles | scanned =>
    exact hinv.congr (.inr rfl) rfl rfl
  | storeHi | peer | collectDue | collected | netTick | send | lost =>
    exact hinv.congr (.inl rfl) rfl rfl

/-! ## Every run -/

section runs

variable {C : State cfg n → Action n → Prop} {sink : Sink} {s t : State cfg n}
  {as : List (Action n)}

theorem isSet_of_flushed (hnew : newReceiver cfg n sink = some s)
    (h : Steps (step prim) Any s as t) {seq : Nat} (hlt : seq < t.sh.flushedBlocks) :
    t.sh.bm.isSet seq = true := by
  obtain ⟨c, hc⟩ := tracks_run hnew h seq
  have hat := hc.flusher
  rw [flusher_passed hnew h hlt] at hat
  rw [hc.bm]
  cases c with
  | missing => cases hat
  | held | queued | lifted | flushed | direct | stranded => rfl

theorem markAgrees_run (hnew : newReceiver cfg n sink = some s)
    (h : Steps (step prim) LastFlushOutsideWindow s as t) :
    MarkAgrees t.sh.flushedBlocks cfg.totalBlocks t.feedback.pc := by
  refine h.invariant_of_run
    (I := fun t => MarkAgrees t.sh.flushedBlocks cfg.totalBlocks t.feedback.pc) ?_ ?_
  · intro bs u act v hrun hinv hC hstep
    have hany : Steps (step prim) Any s bs u := hrun.mono fun _ _ _ => trivial
    cases step_move hstep with
    | ingest hi =>
      rw [(ingestStep_frame hi).1.flushedBlocks]
      exact hinv
    | flusher hf =>
      rcases flusherStep_frontier hf with ⟨hfl, -, -⟩ | ⟨hpc, hfl, rfl⟩
      · rw [hfl]
        exact hinv
      · refine ⟨fun hi hmem => ?_, hinv.claim⟩
        -- the step that publishes the last block meets the condition
        by_cases hlast : u.flusher.writeFront + 1 = cfg.totalBlocks
        · exact .inl (hC hpc hlast hi hmem)
        · exact .inr (hfl ▸ hlast)
    | feedback hfb =>
      have hscan := scanInv_receiver hnew hany
      have hle := hscan.sched.hiContig_le
      rw [hscan.total] at hle
      rw [(feedbackStep_frame hfb).flushedBlocks]
      refine feedbackStep_markAgrees hfb hinv hscan.total hle ?_
      intro hflushed seq hlt
      rw [← hflushed] at hlt
      exact isSet_of_flushed hnew hany hlt
    | quiet => exact hinv
  · obtain ⟨rate, -, rfl⟩ := Option.map_eq_some_iff.mp hnew
    exact .of_none rfl rfl

theorem hi_of_emitted {act : Action n} {p : SocketAddr} {fh : FeedbackHeader}
    {nacks : List NackEntry} (h : emitted s act = some (.feedback p fh nacks)) :
    fh.hiContig = UInt64.ofNat s.feedback.pc.hi := by
  obtain ⟨env, l, due, isNet, -, hpc, rfl, -⟩ := emitted_feedback h
  rw [hpc]
  rfl

/-- **DONE and progress.** In every run in which the flusher never publishes the last block inside
the window of a round that holds a smaller mark, every FEEDBACK with `done` reports all blocks as
contiguous. -/
theorem done_reports_total (hnew : newReceiver cfg n sink = some s)
    (h : Steps (step prim) LastFlushOutsideWindow s as t) {p : SocketAddr} {fh : FeedbackHeader}
    {nacks : List NackEntry} (hsent : .feedback p fh nacks ∈ t.sh.trace) (hdone : fh.done = true) :
    fh.hiContig = UInt64.ofNat cfg.totalBlocks := by
  have hall : ∀ p fh nacks, Event.feedback p fh nacks ∈ t.sh.trace → fh.done = true →
      fh.hiContig = UInt64.ofNat cfg.totalBlocks := by
    refine h.invariant_of_run (I := fun t => ∀ p fh nacks, Event.feedback p fh nacks ∈ t.sh.trace →
      fh.done = true → fh.hiContig = UInt64.ofNat cfg.totalBlocks) ?_ ?_
    · intro bs u act v hrun hinv _ hstep p fh nacks hmem hdone
      rcases (mem_trace_step hstep _).mp hmem with hemit | hold
      · have hclaim := claimsDone_of_emitted hemit hdone
        rw [hi_of_emitted hemit, (markAgrees_run hnew hrun).claim hclaim]
      · exact hinv p fh nacks hold hdone
    · rw [trace_new hnew]
      simp
  exact hall p fh nacks hsent hdone

/-- Block and FIN are handled and flushed before the round that reports them. -/
theorem done_reports_total_oneBlock : ∃ s t p fh nacks, newReceiver oneBlock 1 zeroByte = some s ∧
    Steps (step oneBlockPrims) LastFlushOutsideWindow s
      (oneBlockActs .ok ++ List.replicate 16 (.feedback {})) t ∧
    .feedback p fh nacks ∈ t.sh.trace ∧ fh.done = true ∧ fh.hiContig = 1 := by
  obtain ⟨s, t, hnew, hrun, hQ⟩ := exists_run oneBlockPrims zeroByte
    (oneBlockActs .ok ++ List.replicate 16 (.feedback {})) LastFlushOutsideWindow
    (fun t : State oneBlock 1 => t.sh.trace.any Event.isDone) (by decide +kernel)
  obtain ⟨e, he, hd⟩ := List.any_eq_true.mp hQ
  cases e with
  | write => cases hd
  | feedback p fh nacks =>
    exact ⟨s, t, p, fh, nacks, hnew, hrun, he, hd, done_reports_total hnew hrun he hd⟩

/-- A report with `done` and a smaller mark. -/
def Event.isStaleDone (total : Nat) : Event → Bool
  | .feedback _ fh _ => fh.done && fh.hiContig != UInt64.ofNat total
  | _ => false

/-- The first round reads its mark, then block and FIN arrive and are flushed, then it goes on. -/
def staleDoneActs : List (Action 1) :=
  List.replicate 3 (.feedback {}) ++ oneBlockActs .ok ++ List.replicate 14 (.feedback {})

/-- The report says that everything is done and that nothing is contiguous. -/
theorem done_reports_stale : ∃ s t p fh nacks, newReceiver oneBlock 1 zeroByte = some s ∧
    Steps (step oneBlockPrims) Any s staleDoneActs t ∧ .feedback p fh nacks ∈ t.sh.trace ∧
    fh.done = true ∧ fh.hiContig ≠ UInt64.ofNat oneBlock.totalBlocks := by
  obtain ⟨s, t, hnew, hrun, hQ⟩ := exists_run oneBlockPrims zeroByte staleDoneActs Any
    (fun t : State oneBlock 1 => t.sh.trace.any (Event.isStaleDone 1)) (by decide +kernel)
  obtain ⟨e, he, hd⟩ := List.any_eq_true.mp hQ
  cases e with
  | write => cases hd
  | feedback p fh nacks =>
    simp only [Event.isStaleDone, Bool.and_eq_true, bne_iff_ne] at hd
    exact ⟨s, t, p, fh, nacks, hnew, hrun, he, hd.1, hd.2⟩

end runs

end Girth.Receiver
