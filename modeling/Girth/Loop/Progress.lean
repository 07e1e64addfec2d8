import Girth.Loop.Ticks
import Girth.Receiver.Scan

/-!
# The progress that a sender reports

`Stats::snapshot` derives the progress of a transfer from the counters and gauges. On the sender the
only one that moves is `hi_contig`, which the feedback thread overwrites with the mark of each FEEDBACK
it handles; it starts with what the caller's `Stats` hold.

The receiver's marks never move back: a round reads the scanner's mark (`feedbackStep_mark`), so the
reports are sorted by it in the order they were sent (`SentInv`). The network need not keep that order,
and the sender does not compare: its progress never moves back exactly if the values of the gauge are
sorted (`rises_iff_sorted`), which they are if the FEEDBACKs arrive in the order they were sent in
(`progress_rises_of_inOrder`).
-/

namespace Girth

open Lib

/-! ## The marks a receiver reports -/

theorem RecvConfig.totalBlocks_lt (cfg : RecvConfig) : cfg.totalBlocks < 2 ^ 64 := by
  by_contra hge
  have hlast : 2 ^ 63 < cfg.totalBlocks := by omega
  rw [cfg.total_eq, lt_numBlocks_iff cfg.blockSize_pos] at hlast
  have hle : 2 ^ 63 * 1 ≤ 2 ^ 63 * cfg.blockSize := Nat.mul_le_mul_left _ cfg.blockSize_pos
  have hsize := cfg.fileSize_lt
  omega

namespace Loop

variable {prim : Primitives} {rcfg : RecvConfig} {scfg : SendConfig} {n : Nat} {s t : Loop rcfg n}

/-- The reports so far, newest first, are sorted by their marks. -/
structure SentInv (s : Loop rcfg n) : Prop where
  scan : s.recv.scanView.ScanInv
  mark : Receiver.MarkRead s.recv.feedback
  sent_le : ∀ rep ∈ s.sent, rep.header.hiContig.toNat ≤ s.recv.feedback.scanner.hiContig
  sorted : s.sent.Pairwise fun newer older =>
    older.header.hiContig.toNat ≤ newer.header.hiContig.toNat

theorem scanInv_recv {recv recv' : Receiver.State rcfg n} {act : Receiver.Action n}
    (hinv : recv.scanView.ScanInv) (h : Receiver.step prim recv act = some recv') :
    recv'.scanView.ScanInv := by
  rcases Receiver.scanView_step h with hsame | ⟨a, ha⟩
  · rw [hsame]
    exact hinv
  · exact ScanSys.scanInv_step hinv (ScanSys.step_cases ha)

theorem SentInv.hiContig_of_sentBy (hinv : s.SentInv) {act : Receiver.Action n} {rep : Report}
    (h : rep ∈ s.sentBy act) : rep.header.hiContig.toNat = s.recv.feedback.scanner.hiContig := by
  obtain ⟨env, l, p, due, isNet, -, hpc, rfl⟩ := mem_sentBy h
  have hread : l.hi = s.recv.feedback.scanner.hiContig := hinv.mark l.hi (by rw [hpc]; rfl)
  have hle : s.recv.feedback.scanner.hiContig ≤ s.recv.feedback.scanner.total :=
    hinv.scan.sched.hiContig_le
  have htotal : s.recv.feedback.scanner.total = rcfg.totalBlocks := hinv.scan.total
  have hlt := rcfg.totalBlocks_lt
  show (UInt64.ofNat l.hi).toNat = _
  rw [UInt64.toNat_ofNat', Nat.mod_eq_of_lt (by omega), hread]

theorem SentInv.step {act : LoopAct n} (hinv : s.SentInv) (h : Move prim scfg s act t) :
    t.SentInv := by
  cases h with
  | @recv act recv hrecv =>
    have hmono := Receiver.hiContig_mono hrecv
    refine ⟨scanInv_recv hinv.scan hrecv, Receiver.markRead_step hinv.mark hrecv, fun rep hrep => ?_, ?_⟩
    · rcases List.mem_append.mp hrep with hnew | hold
      · exact (hinv.hiContig_of_sentBy hnew).trans_le hmono
      · exact (hinv.sent_le rep hold).trans hmono
    · have hone : (s.sentBy act).Pairwise fun newer older =>
          older.header.hiContig.toNat ≤ newer.header.hiContig.toNat := by
        unfold sentBy
        split
        · exact List.pairwise_singleton _ _
        · exact List.Pairwise.nil
      refine List.pairwise_append.mpr ⟨hone, hinv.sorted, fun newer hnew older hold => ?_⟩
      rw [hinv.hiContig_of_sentBy hnew]
      exact hinv.sent_le older hold
  | send => exact ⟨hinv.scan, hinv.mark, hinv.sent_le, hinv.sorted⟩
  | wait => exact ⟨hinv.scan, hinv.mark, hinv.sent_le, hinv.sorted⟩

theorem sentInv_start {recv : Receiver.State rcfg n} {sink : Sink}
    (hnew : Receiver.newReceiver rcfg n sink = some recv) : (start scfg recv).SentInv := by
  refine ⟨?_, ?_, fun _ h => absurd h List.not_mem_nil, List.Pairwise.nil⟩
  · show recv.scanView.ScanInv
    rw [Receiver.scanView_new hnew]
    exact ScanSys.scanInv_init _
  · obtain ⟨rate, -, rfl⟩ := Option.map_eq_some_iff.mp hnew
    exact fun hi hmem => by cases hmem

end Loop

/-! ## The gauge on the sender -/

namespace Sender

/-- The FEEDBACK that is being handled. -/
def FeedbackPc.working : FeedbackPc → Option FeedbackHeader
  | .setTick fh _ _ | .pushNacks fh _ | .storeRate fh | .storeHi fh => some fh
  | .top | .recv | .storeDone | .exited => none

end Sender

namespace Loop

variable {prim : Primitives} {rcfg : RecvConfig} {scfg : SendConfig} {n : Nat} {s t : Loop rcfg n}

/-- The FEEDBACKs whose mark has been stored: all but the one that is being handled. -/
def stored (arrivals : List Arrival) (pc : Sender.FeedbackPc) : List Arrival :=
  if pc.working.isSome then arrivals.tail else arrivals

/-- What a step of the feedback thread is to the gauge: a FEEDBACK arrives, its mark is stored, or
neither. -/
theorem feedbackStep_gauge {sh sh' : Sender.Shared} {env : Sender.Env} {pc pc' : Sender.FeedbackPc}
    (h : Sender.feedbackStep scfg sh env pc = some (sh', pc')) (time : Nat) :
    (∃ fh, pc.working = none ∧ pc'.working = some fh ∧ sh'.stats.hiContig = sh.stats.hiContig ∧
      arrived env.now time pc pc' = [⟨fh, env.now, time⟩]) ∨
    (pc'.working = pc.working ∧ sh'.stats.hiContig = sh.stats.hiContig ∧
      arrived env.now time pc pc' = []) ∨
    ∃ fh, pc.working = some fh ∧ pc'.working = none ∧
      sh'.stats.hiContig = fh.hiContig.toNat ∧ arrived env.now time pc pc' = [] := by
  cases Sender.feedbackStep_cases h with
  | arrive => exact .inl ⟨_, rfl, rfl, rfl, rfl⟩
  | @storeHi fh | @last fh => exact .inr (.inr ⟨fh, rfl, rfl, rfl, rfl⟩)
  | _ => exact .inr (.inl ⟨rfl, rfl, rfl⟩)

/-- The values of the gauge, newest first: the mark of each FEEDBACK, after what the caller left. -/
def marks (scfg : SendConfig) (arrivals : List Arrival) : List Nat :=
  arrivals.map (fun arr => arr.header.hiContig.toNat) ++ [scfg.stats.hiContig]

/-- The gauge is the mark of the last FEEDBACK stored, and nothing else of the progress moves. -/
structure GaugeInv (scfg : SendConfig) (arrivals : List Arrival) (pc : Sender.FeedbackPc)
    (stats : Stats) : Prop where
  working : ∀ fh ∈ pc.working, ∃ arr older, arrivals = arr :: older ∧ arr.header = fh
  hi_eq : (marks scfg (stored arrivals pc)).head? = some stats.hiContig
  basis : stats.basis = (Sender.newSender scfg).sh.stats.basis

/-- The blocks that a value of the gauge stands for. -/
def progressOf (scfg : SendConfig) (hi : Nat) : Nat :=
  min (max hi scfg.stats.blocksWritten) scfg.totalBlocks.toNat

theorem progressOf_mono {hi hi' : Nat} (h : hi ≤ hi') : progressOf scfg hi ≤ progressOf scfg hi' :=
  min_le_min_right _ (max_le_max_right _ h)

theorem GaugeInv.progressBlocks {arrivals : List Arrival} {pc : Sender.FeedbackPc} {stats : Stats}
    (hinv : GaugeInv scfg arrivals pc stats) :
    stats.progressBlocks = progressOf scfg stats.hiContig := by
  have hbasis := hinv.basis
  simp only [Stats.basis, Sender.newSender, Prod.mk.injEq] at hbasis
  obtain ⟨-, hwritten, -, htotal, -⟩ := hbasis
  rw [Stats.progressBlocks, progressOf, hwritten, htotal]

/-- The gauge never stood for more blocks than it does after. -/
def Sorted (scfg : SendConfig) (arrivals : List Arrival) : Prop :=
  (marks scfg arrivals).Pairwise fun newer older => progressOf scfg older ≤ progressOf scfg newer

theorem sorted_cons_iff {arr : Arrival} {older : List Arrival} {hi : Nat}
    (hhi : (marks scfg older).head? = some hi) :
    Sorted scfg (arr :: older) ↔ Sorted scfg older ∧
      progressOf scfg hi ≤ progressOf scfg arr.header.hiContig.toNat := by
  obtain ⟨rest, hmarks⟩ := List.head?_eq_some_iff.mp hhi
  have hcons : marks scfg (arr :: older) = arr.header.hiContig.toNat :: marks scfg older := rfl
  unfold Sorted
  rw [hcons, List.pairwise_cons, and_comm]
  refine and_congr_right fun hsorted => ?_
  rw [hmarks] at hsorted ⊢
  refine ⟨fun h => h hi List.mem_cons_self, fun h hi' hmem => ?_⟩
  rcases List.mem_cons.mp hmem with rfl | hmem
  · exact h
  · exact ((List.pairwise_cons.mp hsorted).1 hi' hmem).trans h

/-- One step of the feedback thread: the invariant is kept, and what is stored stays sorted exactly if
the progress does not fall. -/
theorem GaugeInv.feedback {sh sh' : Sender.Shared} {env : Sender.Env} {pc pc' : Sender.FeedbackPc}
    {arrivals : List Arrival} (hinv : GaugeInv scfg arrivals pc sh.stats)
    (h : Sender.feedbackStep scfg sh env pc = some (sh', pc')) (time : Nat) :
    GaugeInv scfg (arrived env.now time pc pc' ++ arrivals) pc' sh'.stats ∧
    (Sorted scfg (stored (arrived env.now time pc pc' ++ arrivals) pc') ↔
      Sorted scfg (stored arrivals pc) ∧
        progressOf scfg sh.stats.hiContig ≤ progressOf scfg sh'.stats.hiContig) := by
  have hhi := hinv.hi_eq
  have hbasis := (Sender.feedbackStep_frame h).basis.trans hinv.basis
  obtain ⟨fh, hpc, hpc', hsame, harr⟩ | ⟨hpc', hsame, harr⟩ | ⟨fh, hpc, hpc', hstore, harr⟩ :=
    feedbackStep_gauge h time
  · rw [harr, List.singleton_append]
    have hstored : stored (⟨fh, env.now, time⟩ :: arrivals) pc' = stored arrivals pc := by
      simp [stored, hpc, hpc']
    refine ⟨⟨fun fh' hfh' => ?_, by rw [hstored, hsame, hhi], hbasis⟩, ?_⟩
    · rw [hpc'] at hfh'
      cases hfh'
      exact ⟨_, _, rfl, rfl⟩
    · rw [hstored, hsame]
      exact (and_iff_left le_rfl).symm
  · rw [harr, List.nil_append]
    have hstored : stored arrivals pc' = stored arrivals pc := by rw [stored, stored, hpc']
    refine ⟨⟨hpc' ▸ hinv.working, by rw [hstored, hsame, hhi], hbasis⟩, ?_⟩
    rw [hstored, hsame]
    exact (and_iff_left le_rfl).symm
  · rw [harr, List.nil_append]
    obtain ⟨arr, older, rfl, rfl⟩ := hinv.working fh hpc
    have hstored : stored (arr :: older) pc = older := by simp [stored, hpc]
    have hstored' : stored (arr :: older) pc' = arr :: older := by simp [stored, hpc']
    rw [hstored] at hhi
    refine ⟨⟨fun fh hfh => absurd hfh (by rw [hpc']; exact Option.not_mem_none fh), ?_, hbasis⟩, ?_⟩
    · rw [hstored', hstore]
      rfl
    · rw [hstored', hstored, sorted_cons_iff hhi, hstore]

/-! ## Whole runs -/

/-- The step does not take back what a snapshot on the sender reports. -/
def Rises (prim : Primitives) (scfg : SendConfig) (s : Loop rcfg n) (act : LoopAct n) : Prop :=
  ∀ t, step prim scfg s act = some t →
    s.send.sh.stats.progressBlocks ≤ t.send.sh.stats.progressBlocks ∧
    s.send.sh.stats.progressBytes ≤ t.send.sh.stats.progressBytes

/-- What the sender has handled. -/
def handled (s : Loop rcfg n) : List Arrival := stored s.arrivals s.send.feedback

def Gauge (scfg : SendConfig) (s : Loop rcfg n) : Prop :=
  GaugeInv scfg s.arrivals s.send.feedback s.send.sh.stats

theorem rises_iff {act : LoopAct n} (h : step prim scfg s act = some t) (hs : s.Gauge scfg)
    (ht : t.Gauge scfg) : Rises prim scfg s act ↔
      progressOf scfg s.send.sh.stats.hiContig ≤ progressOf scfg t.send.sh.stats.hiContig := by
  rw [← hs.progressBlocks, ← ht.progressBlocks]
  refine ⟨fun hrises => (hrises t h).1, fun hle u hu => ?_⟩
  cases h.symm.trans hu
  exact ⟨hle, Stats.progressBytes_mono (ht.basis.trans hs.basis.symm) hle⟩

theorem gauge_frame {act : LoopAct n} (hinv : s.Gauge scfg) (h : step prim scfg s act = some t)
    (harr : t.arrivals = s.arrivals) (hfb : t.send.feedback = s.send.feedback)
    (hhi : t.send.sh.stats.hiContig = s.send.sh.stats.hiContig)
    (hbasis : t.send.sh.stats.basis = s.send.sh.stats.basis) :
    t.Gauge scfg ∧ (Sorted scfg t.handled ↔ Sorted scfg s.handled ∧ Rises prim scfg s act) := by
  have ht : t.Gauge scfg := by
    unfold Gauge
    rw [harr, hfb]
    exact ⟨hinv.working, hhi ▸ hinv.hi_eq, hbasis.trans hinv.basis⟩
  refine ⟨ht, ?_⟩
  rw [rises_iff h hinv ht, handled, harr, hfb, hhi]
  exact (and_iff_left le_rfl).symm

theorem gauge_step {act : LoopAct n} (hinv : s.Gauge scfg) (h : step prim scfg s act = some t) :
    t.Gauge scfg ∧ (Sorted scfg t.handled ↔ Sorted scfg s.handled ∧ Rises prim scfg s act) := by
  cases step_move h with
  | recv => exact gauge_frame hinv h rfl rfl rfl rfl
  | wait => exact gauge_frame hinv h rfl rfl rfl rfl
  | @send act send hsend =>
    cases act with
    | feedback env =>
      obtain ⟨sh, pc, hfb, rfl⟩ := feedback_of_step hsend
      have hnext := GaugeInv.feedback hinv hfb s.time
      rw [rises_iff h hinv hnext.1]
      exact hnext
    | prefetch env =>
      cases Sender.step_move hsend with
      | prefetch hp =>
        have hframe := Sender.prefetchStep_frame hp
        exact gauge_frame hinv h rfl rfl hframe.hiContig hframe.basis
      | flags => exact gauge_frame hinv h rfl rfl rfl rfl
    | pacer env =>
      cases Sender.step_move hsend with
      | pacer hp =>
        have hframe := Sender.pacerStep_frame hp
        exact gauge_frame hinv h rfl rfl hframe.hiContig hframe.basis
      | flags => exact gauge_frame hinv h rfl rfl rfl rfl
    | join | stop | control op =>
      cases Sender.step_move hsend <;> exact gauge_frame hinv h rfl rfl rfl rfl

theorem gauge_start (recv : Receiver.State rcfg n) : (start scfg recv).Gauge scfg :=
  ⟨fun fh hfh => (by cases hfh), rfl, rfl⟩

theorem rises_iff_sorted {recv : Receiver.State rcfg n} {D : Loop rcfg n → LoopAct n → Prop}
    {as : List (LoopAct n)} (hrun : Steps (step prim scfg) D (start scfg recv) as s) :
    Steps (step prim scfg) (Rises prim scfg) (start scfg recv) as s ↔ Sorted scfg s.handled := by
  have hiff : Sorted scfg s.handled ↔ Sorted scfg (start scfg recv).handled ∧
      Steps (step prim scfg) (Rises prim scfg) (start scfg recv) as s :=
    hrun.iff_of_step_of_invariant (I := Gauge scfg) (P := fun s => Sorted scfg s.handled)
      (fun _ _ _ hinv _ ha => (gauge_step hinv ha).1)
      (fun _ _ _ hinv _ ha => (gauge_step hinv ha).2) (gauge_start recv)
  rw [hiff]
  exact (and_iff_right (List.pairwise_singleton _ _)).symm

/-- The FEEDBACKs arrive in the order they were sent in: each is the report at some position of `sent`,
and none is older than the one before it. -/
def InOrder (s : Loop rcfg n) : Prop :=
  ∃ ps : List (Arrival × Nat), ps.map Prod.fst = s.arrivals ∧
    (ps.Pairwise fun newer older => newer.2 ≤ older.2) ∧
    ∀ p ∈ ps, ∃ rep, s.sent[p.2]? = some rep ∧ rep.Reads p.1.header

theorem SentInv.mono (hinv : s.SentInv) {j k : Nat} (hjk : j ≤ k) {newer older : Report}
    (hnewer : s.sent[j]? = some newer) (holder : s.sent[k]? = some older) :
    older.header.hiContig.toNat ≤ newer.header.hiContig.toNat := by
  obtain ⟨hj, rfl⟩ := List.getElem?_eq_some_iff.mp hnewer
  obtain ⟨hk, rfl⟩ := List.getElem?_eq_some_iff.mp holder
  rcases Nat.lt_or_eq_of_le hjk with hlt | rfl
  · exact List.pairwise_iff_getElem.mp hinv.sorted j k hj hk hlt
  · exact le_rfl

theorem sorted_of_pairwise {arrivals : List Arrival}
    (hfresh : scfg.stats.hiContig ≤ scfg.stats.blocksWritten)
    (h : arrivals.Pairwise fun newer older =>
      older.header.hiContig.toNat ≤ newer.header.hiContig.toNat) : Sorted scfg arrivals := by
  refine List.pairwise_append.mpr
    ⟨List.pairwise_map.mpr (h.imp progressOf_mono), List.pairwise_singleton _ _, ?_⟩
  intro hi _ start hstart
  rw [List.mem_singleton] at hstart
  rw [hstart, progressOf, max_eq_right hfresh]
  exact min_le_min_right _ (le_max_right _ _)

theorem SentInv.sorted_of_inOrder (hinv : s.SentInv) (h : s.InOrder)
    (hfresh : scfg.stats.hiContig ≤ scfg.stats.blocksWritten) : Sorted scfg s.handled := by
  obtain ⟨ps, hps, horder, hreads⟩ := h
  have hall : s.arrivals.Pairwise fun newer older =>
      older.header.hiContig.toNat ≤ newer.header.hiContig.toNat := by
    rw [← hps]
    refine List.pairwise_map.mpr (horder.imp_of_mem fun {newer older} hnewer holder hle => ?_)
    obtain ⟨rep, hrep, hread⟩ := hreads newer hnewer
    obtain ⟨rep', hrep', hread'⟩ := hreads older holder
    rw [hread, hread']
    exact hinv.mono hle hrep hrep'
  refine sorted_of_pairwise hfresh ?_
  unfold handled stored
  split
  · exact hall.sublist (List.tail_sublist _)
  · exact hall

/-- **When the progress never moves back.** In every run the reported progress stays within the totals,
and the marks of the receiver's reports never fall. If the caller's `Stats` start with a mark that is
not past the blocks they count as written, and the FEEDBACKs arrive in the order they were sent in, each
any number of times in a row or not at all, then no step takes the progress on the sender back. -/
theorem progress_rises_of_inOrder {recv : Receiver.State rcfg n} {sink : Sink}
    {as : List (LoopAct n)} (hnew : Receiver.newReceiver rcfg n sink = some recv)
    (hrun : Steps (step prim scfg) (FromReceiver scfg) (start scfg recv) as s) :
    s.send.sh.stats.progressBlocks ≤ scfg.totalBlocks.toNat ∧
    s.send.sh.stats.progressBytes ≤ asUsize scfg.fileSize ∧
    (s.sent.Pairwise fun newer older =>
      older.header.hiContig.toNat ≤ newer.header.hiContig.toNat) ∧
    (scfg.stats.hiContig ≤ scfg.stats.blocksWritten → s.InOrder →
      Steps (step prim scfg) (Rises prim scfg) (start scfg recv) as s) := by
  have hsent : s.SentInv :=
    hrun.invariant (fun _ _ _ hinv _ ha => hinv.step (step_move ha)) (sentInv_start hnew)
  have hgauge : s.Gauge scfg :=
    hrun.invariant (fun _ _ _ hinv _ ha => (gauge_step hinv ha).1) (gauge_start recv)
  have hbasis := hgauge.basis
  simp only [Stats.basis, Sender.newSender, Prod.mk.injEq] at hbasis
  obtain ⟨-, -, hbytes, htotal, -⟩ := hbasis
  refine ⟨htotal ▸ Stats.progressBlocks_le _, hbytes ▸ Stats.progressBytes_le _, hsent.sorted, ?_⟩
  intro hfresh horder
  exact (rises_iff_sorted hrun).mpr (hsent.sorted_of_inOrder horder hfresh)

/-- What the receiver reports before and after block 0. -/
def markReport (hi : UInt64) : FeedbackHeader :=
  { session := 9, targetRate := 100000000, hiContig := hi }

/-- Block 0 goes over to worker `i`; the receiver sends one FEEDBACK before it has taken the block in
and one after. -/
def twoReports (i : Fin 2) : List (LoopAct 2) := List.flatten
  [List.replicate 4 (.send (.prefetch {})), List.replicate 14 (.send (.pacer {})),
    [.recv (.ingest i {}), deliverAt i 0 { Receiver.oneBlockHeader with flags := 0 }],
    List.replicate 2 (.recv (.ingest i {})), List.replicate 12 (.recv (.feedback {})),
    List.replicate 12 (.recv (.ingest i {})), List.replicate 18 (.recv (.feedback {}))]

/-- The sender handles a FEEDBACK. -/
def handle (hi : UInt64) : List (LoopAct 2) :=
  [.send (.feedback {}),
    .send (.feedback { recv := .datagram ((markReport hi).bytes 0) ⟨.v4 0x7f000001, 5001⟩ })] ++
  List.replicate 4 (.send (.feedback {}))

/-- A run after which the progress is `blocks` and `bytes`, and a FEEDBACK with the mark 0 takes it
back, by computation. -/
theorem exists_fall (scfg : SendConfig) (as : List (LoopAct 2)) (blocks bytes : Nat)
    (h : (Receiver.newReceiver twoBytesRecv 2 ⟨.mem, []⟩).any (fun recv =>
      (exec (fun s act => if FromReceiver scfg s act then step Receiver.oneBlockPrims scfg s act
          else none) (start scfg recv) as).any fun s =>
        s.send.sh.stats.progressBlocks == blocks && s.send.sh.stats.progressBytes == bytes &&
        (exec (fun s act => if FromReceiver scfg s act then step Receiver.oneBlockPrims scfg s act
          else none) s (handle 0)).any fun t =>
          t.send.sh.stats.progressBlocks == 0 && t.send.sh.stats.progressBytes == 0) = true) :
    ∃ recv s t, Receiver.newReceiver twoBytesRecv 2 ⟨.mem, []⟩ = some recv ∧
      Steps (step Receiver.oneBlockPrims scfg) (FromReceiver scfg) (start scfg recv) as s ∧
      Steps (step Receiver.oneBlockPrims scfg) (FromReceiver scfg) s (handle 0) t ∧
      s.send.sh.stats.progressBlocks = blocks ∧ s.send.sh.stats.progressBytes = bytes ∧
      t.send.sh.stats.progressBlocks = 0 ∧ t.send.sh.stats.progressBytes = 0 := by
  obtain ⟨recv, s, hnew, hrun, hs⟩ := exists_steps_of_exec_check _ _ _ _ _ _ h
  simp only [Bool.and_eq_true, beq_iff_eq] at hs
  obtain ⟨⟨hblocks, hbytes⟩, hlate⟩ := hs
  obtain ⟨t, hlate, ht⟩ := steps_of_exec_check _ _ _ _ _ hlate
  simp only [Bool.and_eq_true, beq_iff_eq] at ht
  exact ⟨recv, s, t, hnew, hrun, hlate, hblocks, hbytes, ht.1, ht.2⟩

/-- The FEEDBACKs arrive in the order they were sent in. -/
theorem progress_rises_of_inOrder_twoReports : ∃ recv s,
    Receiver.newReceiver twoBytesRecv 2 ⟨.mem, []⟩ = some recv ∧
    Steps (step Receiver.oneBlockPrims twoBytesSend) (Rises Receiver.oneBlockPrims twoBytesSend)
      (start twoBytesSend recv) (twoReports 0 ++ handle 0 ++ handle 1) s ∧
    s.send.sh.stats.progressBlocks = 1 := by
  obtain ⟨recv, s, hnew, hrun, hs⟩ := exists_steps_of_exec_check
    (Receiver.newReceiver twoBytesRecv 2 ⟨.mem, []⟩) (start twoBytesSend)
    (step Receiver.oneBlockPrims twoBytesSend) (twoReports 0 ++ handle 0 ++ handle 1)
    (FromReceiver twoBytesSend) (fun s => s.send.sh.stats.progressBlocks == 1 &&
      s.arrivals.length == 2 && (s.arrivals.zip [0, 1]).all fun p =>
        s.sent[p.2]?.any fun (rep : Report) => decide (rep.Reads p.1.header)) (by decide +kernel)
  simp only [Bool.and_eq_true, beq_iff_eq, List.all_eq_true, Option.any_eq_true,
    decide_eq_true_eq] at hs
  obtain ⟨⟨hblocks, hlen⟩, hreads⟩ := hs
  have horder : s.InOrder := by
    refine ⟨s.arrivals.zip [0, 1], List.map_fst_zip hlen.le, ?_, hreads⟩
    have hpos : ((s.arrivals.zip [0, 1]).map Prod.snd).Pairwise (· ≤ ·) := by
      have hle : [0, 1].length ≤ s.arrivals.length := hlen.ge
      rw [List.map_snd_zip hle]
      decide
    exact List.pairwise_map.mp hpos
  exact ⟨recv, s, hnew, (progress_rises_of_inOrder hnew hrun).2.2.2 le_rfl horder, hblocks⟩

/-- The same sender with `Stats` that an object of two blocks has gone through. -/
def twoBytesAgain : SendConfig := { twoBytesSend with stats := { hiContig := 2 } }

/-- The later FEEDBACK arrives first: the sender reports one block, and then none. And with the `Stats`
of an earlier transfer it reports two blocks until the first FEEDBACK, and then none. -/
theorem progress_falls :
    (∃ recv s t, Receiver.newReceiver twoBytesRecv 2 ⟨.mem, []⟩ = some recv ∧
      Steps (step Receiver.oneBlockPrims twoBytesSend) (FromReceiver twoBytesSend)
        (start twoBytesSend recv) (twoReports 0 ++ handle 1) s ∧
      Steps (step Receiver.oneBlockPrims twoBytesSend) (FromReceiver twoBytesSend) s (handle 0) t ∧
      s.send.sh.stats.progressBlocks = 1 ∧ s.send.sh.stats.progressBytes = 1 ∧
      t.send.sh.stats.progressBlocks = 0 ∧ t.send.sh.stats.progressBytes = 0) ∧
    ∃ recv s t, Receiver.newReceiver twoBytesRecv 2 ⟨.mem, []⟩ = some recv ∧
      Steps (step Receiver.oneBlockPrims twoBytesAgain) (FromReceiver twoBytesAgain)
        (start twoBytesAgain recv) (twoReports 0) s ∧
      Steps (step Receiver.oneBlockPrims twoBytesAgain) (FromReceiver twoBytesAgain) s (handle 0) t ∧
      s.send.sh.stats.progressBlocks = 2 ∧ s.send.sh.stats.progressBytes = 2 ∧
      t.send.sh.stats.progressBlocks = 0 ∧ t.send.sh.stats.progressBytes = 0 :=
  ⟨exists_fall _ _ 1 1 (by decide +kernel), exists_fall _ _ 2 2 (by decide +kernel)⟩

end Loop

end Girth
