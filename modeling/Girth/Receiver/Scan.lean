import Girth.LossInvariant
import Girth.Receiver.Custody

/-!
# The receiver runs the loss scanner

Seen through its bitmap and its feedback thread alone, a receiver is a scanner beside ingest threads:
`scanView` forgets the rest, and every step of the receiver is a step of `ScanSys` or invisible there
(`scanView_step`). So what holds in every run of the scanner holds of the receiver's
(`scanInv_receiver`).

`HiContig` adds the copies of the contiguous mark that the feedback thread makes: its local variable
and the statistic that `run` decides by. Every block below any of them has been received.
-/

namespace Girth.LossScanner

variable {isSet : Nat → Bool} {sc sc' : LossScanner}

theorem scanHolesIter_hiContig {maxSeen due seq seq' : Nat}
    (h : sc.scanHolesIter isSet maxSeen due seq = some (sc', seq')) : sc'.hiContig = sc.hiContig := by
  obtain ⟨-, -, ⟨-, -, rfl⟩ | ⟨-, rfl⟩⟩ := scanHolesIter_eq h <;> rfl

theorem scanHolesEnd_hiContig (sc : LossScanner) (maxSeen : Nat) :
    (sc.scanHolesEnd maxSeen).hiContig = sc.hiContig := by
  unfold scanHolesEnd
  split <;> rfl

theorem collectDueIter_hiContig {fl : ℚ → ℚ} {now : ℚ} {reDue max : Nat} {out out' : List Nat}
    (h : sc.collectDueIter fl isSet now reDue max out = some (sc', out')) :
    sc'.hiContig = sc.hiContig := by
  obtain ⟨_, _, -, -, ⟨-, rfl, -⟩ | ⟨-, rfl, -⟩ | ⟨-, -, rfl, -⟩⟩ := collectDueIter_eq h <;> rfl

end Girth.LossScanner

namespace Girth.Receiver

open Lib

variable {prim : Primitives} {cfg : RecvConfig} {n : Nat}

/-! ## The view -/

def FeedbackPc.scanPc : FeedbackPc → ScanPc
  | .advance _ => .advance
  | .scanHoles _ maxSeen due seq => .scanHoles maxSeen due seq
  | .collectDue l _ reDue max out => .collectDue l.now reDue max out
  | _ => .idle

def State.scanView (s : State cfg n) : ScanSys cfg.totalBlocks :=
  ⟨s.sh.bm, s.feedback.scanner, s.feedback.pc.scanPc⟩

/-- A step of the feedback thread is a call of a scanner operation, one iteration of it, or no
access to the scanner. -/
theorem feedbackStep_scan {sh sh' : Shared cfg.totalBlocks} {env : Env} {fb fb' : Feedback}
    (h : feedbackStep cfg sh env fb = some (sh', fb')) :
    (fb'.scanner = fb.scanner ∧ fb'.pc.scanPc = fb.pc.scanPc) ∨
      ∃ act, ScanSys.step f64 ⟨sh.bm, fb.scanner, fb.pc.scanPc⟩ act =
        some ⟨sh.bm, fb'.scanner, fb'.pc.scanPc⟩ := by
  cases feedbackStep_cases h with
  | rtt => exact .inr ⟨.callAdvance, rfl⟩
  | advance hiter | advanced hiter | scanHoles hiter | scanned hiter | collectDue hiter
  | collected hiter =>
    refine .inr ⟨.iter, ?_⟩
    simp only [ScanSys.step, ScanSys.iter, FeedbackPc.scanPc, hiter]
  | @scan l ms _ _ _ hscan =>
    refine .inr ⟨.callScanHoles ms l.now l.pathRto, ?_⟩
    simp only [ScanSys.step, ScanSys.callPc, FeedbackPc.scanPc, if_neg hscan.2, Option.map_some]
  | @peer l => exact .inr ⟨.callCollectDue l.now l.pathRto (nackCap cfg l.target), rfl⟩
  | _ => exact .inl ⟨rfl, rfl⟩

theorem scanView_step {s t : State cfg n} {act : Action n} (h : step prim s act = some t) :
    t.scanView = s.scanView ∨ ∃ a, ScanSys.step f64 s.scanView a = some t.scanView := by
  cases step_move h with
  | ingest hi =>
    rcases (ingestStep_frame hi).2 with hbm | ⟨pkt, rest, _, hbm⟩
    · left
      simp only [State.scanView, hbm]
    · refine .inr ⟨.set pkt.seq, ?_⟩
      simp only [ScanSys.step, State.scanView, hbm]
      exact if_pos pkt.seq_lt
  | flusher hf =>
    left
    simp only [State.scanView, (flusherStep_frame hf).bm]
  | feedback hfb =>
    have hbm := (feedbackStep_frame hfb).bm
    obtain ⟨hsc, hpc⟩ | ⟨a, ha⟩ := feedbackStep_scan hfb
    · left
      simp only [State.scanView, hbm, hsc, hpc]
    · refine .inr ⟨a, ?_⟩
      simp only [State.scanView, hbm]
      exact ha
  | quiet => exact .inl rfl

theorem scanView_new {sink : Sink} {s : State cfg n} (h : newReceiver cfg n sink = some s) :
    s.scanView = ScanSys.init cfg.totalBlocks := by
  obtain ⟨rate, _, rfl⟩ := Option.map_eq_some_iff.mp h
  rfl

theorem scanView_run {sink : Sink} {s t : State cfg n} {as : List (Action n)}
    (hnew : newReceiver cfg n sink = some s) (h : Steps (step prim) Any s as t) :
    ∃ bs, Steps (ScanSys.step f64) Any (ScanSys.init cfg.totalBlocks) bs t.scanView := by
  refine h.invariant (I := fun t => ∃ bs, Steps (ScanSys.step f64) Any (ScanSys.init cfg.totalBlocks) bs
    t.scanView) ?_ ⟨[], scanView_new hnew ▸ .nil _⟩
  rintro s act t ⟨bs, hbs⟩ _ hstep
  rcases scanView_step hstep with hsame | ⟨a, ha⟩
  · exact ⟨bs, hsame ▸ hbs⟩
  · exact ⟨bs ++ [a], hbs.append (.single trivial ha)⟩

theorem scanInv_receiver {sink : Sink} {s t : State cfg n} {as : List (Action n)}
    (hnew : newReceiver cfg n sink = some s) (h : Steps (step prim) Any s as t) :
    t.scanView.ScanInv := by
  obtain ⟨bs, hbs⟩ := scanView_run hnew h
  exact ScanSys.scanInv_run hbs

/-! ## Copies of the contiguous mark -/

/-- The mark that a round has read from the scanner. -/
def FeedbackPc.mark : FeedbackPc → Option Nat
  | .loadMaxSeen l | .loadAllSent l _ | .loadSeen l _ | .scanHoles l _ _ _ | .complete l | .storeHi l
  | .peer l | .collectDue l _ _ _ _ | .netTick l _ _ | .send l _ _ _ | .finish l => some l.hi
  | .top | .rtt | .advance _ | .exited => none

/-- The scanner is where the round has read it. -/
def MarkRead (fb : Feedback) : Prop := ∀ hi ∈ fb.pc.mark, hi = fb.scanner.hiContig

theorem feedbackStep_mark {sh sh' : Shared cfg.totalBlocks} {env : Env} {fb fb' : Feedback}
    (hmark : MarkRead fb) (h : feedbackStep cfg sh env fb = some (sh', fb')) : MarkRead fb' := by
  cases feedbackStep_cases h with
  | leave | start | rtt | advance | noPeer | again | announced | done => exact fun hi hmem => by cases hmem
  | advanced =>
    rintro _ ⟨⟩
    rfl
  | scanHoles hiter => exact fun hi hmem => (hmark hi hmem).trans (LossScanner.scanHolesIter_hiContig hiter).symm
  | scanned => exact fun hi hmem => (hmark hi hmem).trans (LossScanner.scanHolesEnd_hiContig ..).symm
  | collectDue hiter => exact fun hi hmem => (hmark hi hmem).trans (LossScanner.collectDueIter_hiContig hiter).symm
  | _ => exact hmark

theorem markRead_step {s t : State cfg n} {act : Action n} (hmark : MarkRead s.feedback)
    (h : step prim s act = some t) : MarkRead t.feedback := by
  cases step_move h with
  | feedback hfb => exact feedbackStep_mark hmark hfb
  | ingest | flusher | quiet => exact hmark

theorem markRead_run {C : State cfg n → Action n → Prop} {sink : Sink} {s t : State cfg n}
    {as : List (Action n)} (hnew : newReceiver cfg n sink = some s) (h : Steps (step prim) C s as t) :
    MarkRead t.feedback := by
  refine h.invariant (I := fun t => MarkRead t.feedback)
    (fun _ _ _ hinv _ hstep => markRead_step hinv hstep) ?_
  obtain ⟨rate, -, rfl⟩ := Option.map_eq_some_iff.mp hnew
  exact fun hi hmem => by cases hmem

/-- The contiguous mark a round of the feedback loop has read. -/
def FeedbackPc.hi : FeedbackPc → Nat
  | .loadMaxSeen l | .loadAllSent l _ | .loadSeen l _ | .scanHoles l _ _ _ | .complete l | .storeHi l
  | .peer l | .collectDue l _ _ _ _ | .netTick l _ _ | .send l _ _ _ | .finish l => l.hi
  | .top | .rtt | .advance _ | .exited => 0

/-- Every copy of the mark is at most the scanner's own; the statistics may still have the caller's. -/
structure HiContig (s : State cfg n) : Prop where
  hi : s.feedback.pc.hi ≤ s.feedback.scanner.hiContig
  stat : s.sh.stats.hiContig = cfg.stats.hiContig ∨
    s.sh.stats.hiContig ≤ s.feedback.scanner.hiContig

theorem hiContig_mono {s t : State cfg n} {act : Action n} (h : step prim s act = some t) :
    s.feedback.scanner.hiContig ≤ t.feedback.scanner.hiContig := by
  rcases scanView_step h with hsame | ⟨a, ha⟩
  · exact le_of_eq (congrArg (fun v => v.sc.hiContig) hsame.symm)
  · exact (ScanSys.step_cursors (ScanSys.step_cases ha)).1

theorem feedbackStep_hi {sh sh' : Shared cfg.totalBlocks} {env : Env} {fb fb' : Feedback}
    (h : feedbackStep cfg sh env fb = some (sh', fb')) :
    (fb'.pc.hi = fb.pc.hi ∨ fb'.pc.hi = 0 ∨ fb'.pc.hi = fb.scanner.hiContig) ∧
      (sh'.stats.hiContig = sh.stats.hiContig ∨ sh'.stats.hiContig = fb.pc.hi) := by
  cases feedbackStep_cases h with
  | advanced => exact ⟨.inr (.inr rfl), .inl rfl⟩
  | storeHi => exact ⟨.inl rfl, .inr rfl⟩
  | noPeer | again | announced | done => exact ⟨.inr (.inl rfl), .inl rfl⟩
  | _ => exact ⟨.inl rfl, .inl rfl⟩

theorem hiContig_step {s t : State cfg n} {act : Action n} (hinv : HiContig s)
    (h : step prim s act = some t) : HiContig t := by
  have hmono := hiContig_mono h
  cases step_move h with
  | ingest hi =>
    exact ⟨hinv.hi, by dsimp only; rw [(ingestStep_frame hi).1.hiContig]; exact hinv.stat⟩
  | flusher hf =>
    exact ⟨hinv.hi, by dsimp only; rw [(flusherStep_frame hf).stats]; exact hinv.stat⟩
  | feedback hfb =>
    obtain ⟨hhi, hstat⟩ := feedbackStep_hi hfb
    have h1 := hinv.hi
    have h2 := hinv.stat
    dsimp only at hmono
    refine ⟨?_, ?_⟩ <;> dsimp only
    · rcases hhi with hhi | hhi | hhi <;> omega
    · rcases hstat with hstat | hstat
      · exact h2.imp hstat.trans fun hle => by omega
      · exact .inr (by omega)
  | quiet => exact ⟨hinv.hi, hinv.stat⟩

theorem hiContig_run {sink : Sink} {s t : State cfg n} {as : List (Action n)}
    (hnew : newReceiver cfg n sink = some s) (h : Steps (step prim) Any s as t) : HiContig t := by
  refine h.invariant (fun _ _ _ hinv _ hstep => hiContig_step hinv hstep) ?_
  obtain ⟨rate, _, rfl⟩ := Option.map_eq_some_iff.mp hnew
  exact ⟨le_rfl, .inl (initStats_hiContig cfg)⟩

/-- Once `run` reads a contiguous mark that is not the caller's, everything below it has been
received. -/
theorem isSet_of_lt_hiContig {sink : Sink} {s t : State cfg n} {as : List (Action n)}
    (hnew : newReceiver cfg n sink = some s) (h : Steps (step prim) Any s as t)
    (hown : t.sh.stats.hiContig ≠ cfg.stats.hiContig) {seq : Nat}
    (hlt : seq < t.sh.stats.hiContig) : t.sh.bm.isSet seq = true := by
  have hle := (hiContig_run hnew h).stat.resolve_left hown
  exact (scanInv_receiver hnew h).sched.contig seq (hlt.trans_le hle)

end Girth.Receiver
