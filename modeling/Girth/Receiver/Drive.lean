import Girth.Receiver.Unharmed

/-!
# What a receiver can still do

Whatever has happened to a receiver, as long as no write has failed and nobody has ended it, its threads
can be driven on. Each section is about one of them:

* the workers come to rest, and one of them takes in a datagram (`reach_idle`, `reach_delivered`);
* the feedback thread finishes the round it is in and makes another one. If blocks are missing, the
  report at its end asks for some of them; if everything is flushed, it says so (`reach_nack`,
  `reach_done`). It does so since everything that was scheduled falls due at last: `late` is a clock that
  has come to its end;
* the flusher writes all that is ready (`reach_flushed`);
* the last rounds are made, and `run` returns `Ok` (`reach_ok`).
-/

namespace Girth.Receiver

open Lib

variable {prim : Primitives} {cfg : RecvConfig} {n : Nat} {a : SocketAddr}
  {sh sh' : Shared cfg.totalBlocks} {env : Env} {s t : State cfg n} {as : List (Action n)}

/-! ### Steps in which nothing arrives -/

/-- A clock that has come to its end. -/
def late : Env := { now := 18446744073709551615 }

/-- A step of a thread in which nothing arrives and every write succeeds. -/
def Calm (_ : State cfg n) : Action n → Prop
  | .ingest _ env | .flusher env | .feedback env => env.recv = .timeout ∧ env.io = .ok
  | .main => True
  | .stop | .control _ => False

theorem allWritesOk_ingest (s : State cfg n) (i : Fin n) {env : Env} (hio : env.io = .ok) :
    AllWritesOk s (.ingest i env) := by
  refine ⟨fun e he => ?_, fun e he => ?_⟩ <;>
  · simp only [emitted, IngestPc.emits, Option.mem_def, hio] at he
    split at he <;> cases he
    rfl

theorem Calm.unharmed {act : Action n} (h : Calm s act) : Unharmed a s act := by
  cases act with
  | ingest i env =>
    refine ⟨allWritesOk_ingest s i h.2, fun m hm => ?_, by simp [Action.isFatal, h.1]⟩
    simp [Action.delivered, h.1, Recv.msgs] at hm
  | flusher env =>
    refine ⟨⟨fun e he => ?_, fun e he => ?_⟩, fun m hm => (by cases hm), rfl⟩ <;>
    · simp only [emitted, Flusher.emits, Option.mem_def, h.2] at he
      split at he <;> cases he
      rfl
  | feedback env =>
    refine ⟨⟨fun e he => ?_, fun e he => ?_⟩, fun m hm => (by cases hm), rfl⟩ <;>
    · simp only [emitted, FeedbackPc.emits, Option.mem_def, h.2] at he
      split at he <;> cases he
      rfl
  | main =>
    exact ⟨⟨fun e he => (by cases he), fun e he => (by cases he)⟩, fun m hm => (by cases hm), rfl⟩
  | stop | control op => exact h.elim

theorem Calm.delivered {act : Action n} (h : Calm s act) : act.delivered = [] := by
  cases act with
  | ingest i env => simp [Action.delivered, h.1, Recv.msgs]
  | _ => rfl

theorem Intact.calm (h : Intact prim a s) (hsteps : Steps (step prim) Calm s as t) :
    Intact prim a t :=
  h.run (hsteps.mono fun _ _ => Calm.unharmed)

/-! ### The workers -/

/-- The steps of the workers. -/
def Ingests (_ : State cfg n) (act : Action n) : Prop := ∃ i, act = .ingest i {}

theorem Ingests.calm {act : Action n} (h : Ingests s act) : Calm s act := by
  obtain ⟨i, rfl⟩ := h
  exact ⟨rfl, rfl⟩

/-- The other threads stay where they are. -/
structure OnlyWorkers (s t : State cfg n) : Prop where
  flusher : t.flusher = s.flusher
  feedback : t.feedback = s.feedback
  main : t.main = s.main
  done : t.sh.done = s.sh.done

theorem onlyWorkers_step {i : Fin n} {env : Env} (h : step prim s (.ingest i env) = some t) :
    OnlyWorkers s t := by
  obtain ⟨⟨sh, pc⟩, hi, rfl⟩ := Option.map_eq_some_iff.mp h
  exact ⟨rfl, rfl, rfl, (ingestStep_frame hi).1.done⟩

theorem OnlyWorkers.trans {u : State cfg n} (h : OnlyWorkers s t) (h' : OnlyWorkers t u) :
    OnlyWorkers s u :=
  ⟨h'.flusher.trans h.flusher, h'.feedback.trans h.feedback, h'.main.trans h.main, h'.done.trans h.done⟩

theorem ingests_run (h : Steps (step prim) Ingests s as t) : OnlyWorkers s t := by
  refine h.invariant (I := OnlyWorkers s) ?_ ⟨rfl, rfl, rfl, rfl⟩
  rintro u act v hu ⟨i, rfl⟩ hstep
  exact hu.trans (onlyWorkers_step hstep)

theorem reach_idle (hready : Ready cfg) (hreach : Intact prim a s) (hdone : s.sh.done = false) :
    Reach (step prim) Ingests s fun t => ∀ i, t.workers i = .top := by
  refine (reach_of_descent (P := fun t => ∀ i, t.workers i = .top)
    (I := fun t => Intact prim a t ∧ t.sh.done = false) (fun t => ∑ i, (t.workers i).work 0) ?_
    ⟨hreach, hdone⟩).imp fun _ _ _ ht => ht.1
  rintro t ⟨ht, htdone⟩ hbusy
  obtain ⟨i, hi⟩ := not_forall.mp hbusy
  have hin : (t.workers i).isExited = false := by
    by_contra hexit
    rw [(ht.awake hready).workers i (Bool.not_eq_false _ ▸ hexit)] at htdone
    cases htdone
  have hgoes : (ingestStep prim cfg t.sh {} (t.workers i)).isSome = true := ingest_enabled hin t.sh {}
  obtain ⟨⟨sh, pc⟩, hp⟩ := Option.isSome_iff_exists.mp hgoes
  have hstep : step prim t (.ingest i {}) =
      some { t with sh := sh, workers := Function.update t.workers i pc } := by
    simp [step, hp]
  have hless : pc.work 0 < (t.workers i).work 0 :=
    ingestStep_work (fun htop => absurd htop hi) (show Env.received {} ≤ 0 from Nat.le_refl 0) hp
  have hsum := sum_update_add (IngestPc.work 0) t.workers i pc
  refine .next ⟨i, rfl⟩ hstep (.here ⟨⟨ht.calm (.single (Ingests.calm ⟨i, rfl⟩) hstep), ?_⟩, ?_⟩)
  · exact (ingestStep_frame hp).1.done.trans htdone
  · show ∑ j, (Function.update t.workers i pc j).work 0 < ∑ j, (t.workers j).work 0
    omega

/-- The datagram goes to a worker, and nothing else happens. -/
def Delivering (m : Datagram) (_ : State cfg n) (act : Action n) : Prop :=
  ∃ i, act = .ingest i {} ∨ act = .ingest i { recv := .batch [m] }

theorem Delivering.unharmed {m : Datagram} {act : Action n} (h : Delivering m s act) (haddr : m.addr = some a) :
    Unharmed a s act ∧ ∀ x ∈ act.delivered, x = m := by
  obtain ⟨i, rfl | rfl⟩ := h
  · exact ⟨(Ingests.calm ⟨i, rfl⟩).unharmed, fun x hx => by cases hx⟩
  · have honly (x : Datagram) (hx : x ∈ [m]) : x = m := List.mem_singleton.mp hx
    exact ⟨⟨allWritesOk_ingest s i rfl, fun x hx => honly x hx ▸ haddr, rfl⟩, honly⟩

theorem delivering_run {m : Datagram} (h : Steps (step prim) (Delivering m) s as t) : OnlyWorkers s t := by
  refine h.invariant (I := OnlyWorkers s) ?_ ⟨rfl, rfl, rfl, rfl⟩
  rintro u act v hu ⟨i, rfl | rfl⟩ hstep <;> exact hu.trans (onlyWorkers_step hstep)

theorem reach_delivered (m : Datagram) (i : Fin n) (hidle : s.workers i = .top)
    (hstop : s.sh.shouldStop = false) (hdone : s.sh.done = false) :
    Reach (step prim) (Delivering m) s fun t => t.sh = receive prim cfg s.sh { m.cut cfg.bufLen with } := by
  have hleads : Leads prim cfg {} (s.sh, .batch [m.cut cfg.bufLen])
      (receive prim cfg s.sh { m.cut cfg.bufLen with }, .batch []) :=
    receive_leads [] s.sh { m.cut cfg.bufLen with }
  obtain ⟨k, hk⟩ := hleads
  have hrecv : step prim s (.ingest i {}) =
      some { s with workers := Function.update s.workers i .recv } := by
    simp [step, hidle, ingestStep, hstop, hdone]
  have hbatch : step prim { s with workers := Function.update s.workers i .recv }
      (.ingest i { recv := .batch [m] }) =
      some { s with workers := Function.update s.workers i (.batch [m.cut cfg.bufLen]) } := by
    simp [step, ingestStep]
  refine .next ⟨i, .inl rfl⟩ hrecv (.next ⟨i, .inr rfl⟩ hbatch ?_)
  have hrun := ingestOnly_run (s := { s with
    workers := Function.update s.workers i (.batch [m.cut cfg.bufLen]) }) i hk (by simp)
  refine ⟨_, _, hrun.of_forall fun act hact u => ?_, rfl⟩
  obtain ⟨env, henv, rfl⟩ := List.mem_map.mp hact
  exact ⟨i, .inl (List.eq_of_mem_replicate henv ▸ rfl)⟩

theorem learnPeer_known {peer : Option SocketAddr} (hip : ∀ ip ∈ cfg.expectedPeerIp, a.ip = ip)
    (hpeer : ∀ p ∈ peer, p = a) : cfg.learnPeer peer (some a) = (some a, true) := by
  have hexpected : (cfg.expectedPeerIp.any fun ip => decide (a.ip ≠ ip)) = false := by
    cases hcfg : cfg.expectedPeerIp with
    | none => rfl
    | some ip => simp [hip ip hcfg]
  unfold RecvConfig.learnPeer
  simp only [hexpected, Bool.false_eq_true, if_false]
  cases peer with
  | none => rfl
  | some p => simp [hpeer p rfl]

theorem receive_fin {m : Arrival} (hip : ∀ ip ∈ cfg.expectedPeerIp, a.ip = ip)
    (hpeer : ∀ p ∈ sh.peer, p = a) (haddr : m.addr = some a) (hne : m.data.isEmpty = false)
    (hcls : cfg.classify prim m.data m.addr = .fin) :
    (receive prim cfg sh m).allSent = true ∧ (receive prim cfg sh m).peer = some a := by
  have hlearn : cfg.learnPeer (sh.countPacket m.data.length).peer m.addr = (some a, true) := by
    rw [haddr]
    exact learnPeer_known hip hpeer
  rw [receive, hne, if_neg Bool.false_ne_true, handlePacket_fin hcls, hlearn]
  exact ⟨rfl, rfl⟩

theorem Shared.acceptData_bm {total : Nat} (sh : Shared total) (blockSize : Nat) (pkt : DataPkt total)
    (now : UInt64) (io : WriteResult) :
    (sh.acceptData blockSize pkt now io).bm = (sh.bm.setAndTest pkt.seq).1 := by
  have htick : (sh.applyTick pkt.header now).bm = sh.bm := by
    unfold Shared.applyTick
    dsimp only
    split_ifs <;> rfl
  have hstore (sh : Shared total) : (sh.storeBlock blockSize pkt io).bm = sh.bm := by
    unfold Shared.storeBlock
    dsimp only
    split
    · rfl
    · split <;> rfl
  have hmark (sh : Shared total) :
      (sh.markBlock blockSize pkt io).bm = (sh.bm.setAndTest pkt.seq).1 := by
    unfold Shared.markBlock
    split_ifs
    · exact hstore _
    · rfl
  unfold Shared.acceptData
  dsimp only
  split_ifs
  · rw [hmark, htick]
  · exact hmark sh

theorem receive_data {m : Arrival} {pkt : DataPkt cfg.totalBlocks}
    (hip : ∀ ip ∈ cfg.expectedPeerIp, a.ip = ip) (hpeer : ∀ p ∈ sh.peer, p = a)
    (haddr : m.addr = some a) (hne : m.data.isEmpty = false)
    (hcls : cfg.classify prim m.data m.addr = .data pkt) :
    (receive prim cfg sh m).bm.isSet pkt.seq = true := by
  have hlearn : cfg.learnPeer (sh.countPacket m.data.length).peer m.addr = (some a, true) := by
    rw [haddr]
    exact learnPeer_known hip hpeer
  rw [receive, hne, if_neg Bool.false_ne_true, handlePacket_data hcls, hlearn, if_pos rfl,
    Shared.acceptData_bm]
  exact isSet_setAndTest_seq rfl

/-! ### The feedback thread -/

/-- The steps of the feedback thread. -/
def Rounds (_ : State cfg n) (act : Action n) : Prop := act = .feedback late

theorem Rounds.calm {act : Action n} (h : Rounds s act) : Calm s act := by
  cases h
  exact ⟨rfl, rfl⟩

/-- The other threads stay where they are, and so do the blocks. -/
structure OnlyFeedback (s t : State cfg n) : Prop where
  workers : t.workers = s.workers
  flusher : t.flusher = s.flusher
  bm : t.sh.bm = s.sh.bm
  flushed : t.sh.flushedBlocks = s.sh.flushedBlocks
  doneSends : s.feedback.doneSends ≤ t.feedback.doneSends

theorem rounds_run (h : Steps (step prim) Rounds s as t) : OnlyFeedback s t := by
  refine h.invariant (I := OnlyFeedback s) ?_ ⟨rfl, rfl, rfl, rfl, Nat.le_refl _⟩
  rintro u act v hu rfl hstep
  obtain ⟨⟨sh, fb⟩, hfb, rfl⟩ := Option.map_eq_some_iff.mp hstep
  have hframe := feedbackStep_frame hfb
  have hsends : u.feedback.doneSends ≤ fb.doneSends := by
    rcases feedbackStep_announces hfb with ⟨hsame, -⟩ | ⟨-, -, -, hmore, -⟩ <;> omega
  exact ⟨hu.workers, hu.flusher, hframe.bm.trans hu.bm, hframe.flushedBlocks.trans hu.flushed,
    hu.doneSends.trans hsends⟩

theorem feedback_next (hready : Ready cfg) (hreach : Intact prim a s) (hpc : s.feedback.pc.isExited = false) :
    ∃ sh fb, feedbackStep cfg s.sh late s.feedback = some (sh, fb) ∧
      step prim s (.feedback late) = some { s with sh := sh, feedback := fb } := by
  obtain ⟨sink, recv, as, hnew, hrun⟩ := hreach
  have hgoes := feedback_enabled hready.rate hnew (hrun.mono fun _ _ _ => trivial) hpc late
  obtain ⟨⟨sh, fb⟩, hfb⟩ := Option.isSome_iff_exists.mp hgoes
  exact ⟨sh, fb, hfb, by simp [step, hfb]⟩

/-- The thread will send another report before it sets `done`. -/
def Feedback.announces (fb : Feedback) : Bool :=
  match fb.pc with
  | .exited => false
  | .finish l => !l.complete || fb.doneSends + 1 < 8
  | _ => true

/-- The report that is about to be sent says that everything is done. -/
def FeedbackPc.sendsDone : FeedbackPc → Bool
  | .send l _ _ _ => l.complete
  | _ => false

theorem FeedbackPc.claimsDone_of_sends {pc : FeedbackPc} (h : pc.sendsDone = true) : pc.claimsDone = true := by
  cases pc <;> first | exact h | cases h

theorem feedbackStep_stays {fb fb' : Feedback} (hann : fb.announces = true) (hstop : sh.shouldStop = false)
    (hsend : fb.pc.sendsDone = false) (h : feedbackStep cfg sh env fb = some (sh', fb')) :
    fb'.announces = true := by
  cases feedbackStep_cases h with
  | leave hset =>
    rw [hstop] at hset
    cases hset
  | send | lost =>
    simp only [FeedbackPc.sendsDone] at hsend
    simp [Feedback.announces, hsend]
  | done hcomplete hsends =>
    simp only [Feedback.announces, hcomplete, Bool.not_true, Bool.false_or, decide_eq_true_eq] at hann
    omega
  | _ => rfl

theorem feedbackStep_silent {fb fb' : Feedback} (hann : fb.announces = false)
    (h : feedbackStep cfg sh env fb = some (sh', fb')) : fb'.announces = false := by
  cases feedbackStep_cases h with
  | again hcomplete => simp [Feedback.announces, hcomplete] at hann
  | announced _ hsends => simp [Feedback.announces, hsends] at hann
  | done => rfl
  | _ => cases hann

theorem Feedback.announces_running {fb : Feedback} (h : fb.announces = true) : fb.pc.isExited = false := by
  unfold Feedback.announces at h
  split at h
  · cases h
  · rename_i hpc
    rw [hpc]
    rfl
  · rename_i hpc _
    cases hat : fb.pc with
    | exited => exact absurd hat hpc
    | _ => rfl

theorem Intact.not_done (h : Intact prim a s) (hann : s.feedback.announces = true) : s.sh.done = false := by
  obtain ⟨sink, recv, as, hnew, hrun⟩ := h
  by_contra hset
  have hexit := (doneInv_run hnew hrun (Bool.not_eq_false _ ▸ hset)).1
  rw [Feedback.announces, hexit] at hann
  cases hann

theorem reach_top (hready : Ready cfg) (hreach : Intact prim a s) (hann : s.feedback.announces = true) :
    Reach (step prim) Rounds s fun t => t.feedback.announces = true ∧
      (t.feedback.pc = .top ∨ t.feedback.pc.sendsDone = true) := by
  refine (reach_of_descent (P := fun t => t.feedback.pc = .top ∨ t.feedback.pc.sendsDone = true)
    (I := fun t => Intact prim a t ∧ t.feedback.announces = true) (fun t => t.feedback.work cfg) ?_
    ⟨hreach, hann⟩).imp fun _ _ _ ht => ⟨ht.2.2, ht.1⟩
  rintro t ⟨ht, hann⟩ hgoal
  rw [not_or, Bool.not_eq_true] at hgoal
  obtain ⟨sh, fb, hfb, hstep⟩ := feedback_next hready ht (Feedback.announces_running hann)
  refine .next rfl hstep (.here ⟨⟨ht.calm (.single (Rounds.calm rfl) hstep), ?_⟩, ?_⟩)
  · exact feedbackStep_stays hann (ht.awake hready).stop hgoal.2 hfb
  · exact feedbackStep_work (fun htop => absurd htop hgoal.1) ht.scan_total hfb

theorem nackCap_pos (hready : Ready cfg) (target : Nat) : 0 < nackCap cfg target := by
  have hnacks := hready.nacks
  unfold nackCap
  dsimp only
  split_ifs <;> omega

/-- The block has not arrived. -/
def Missing (s : State cfg n) (seq : Nat) : Prop := seq < cfg.totalBlocks ∧ s.sh.bm.isSet seq = false

/-- The round says so if everything is flushed. -/
def Tells (s : State cfg n) (l : Locals) : Prop :=
  s.sh.flushedBlocks = cfg.totalBlocks → l.complete = true

/-- A round that began late, when FIN had arrived: it scans up to the last block, all that is scheduled is
due, and it ends with a report to `a`. -/
def Round (a : SocketAddr) (s : State cfg n) : Prop :=
  match s.feedback.pc with
  | .rtt => True
  | .advance l | .loadMaxSeen l | .loadAllSent l _ => l.now = f64 late.now.toNat
  | .loadSeen l ms => l.now = f64 late.now.toNat ∧ (0 < cfg.totalBlocks → ms = cfg.totalBlocks - 1)
  | .scanHoles l maxSeen _ _ => l.now = f64 late.now.toNat ∧ cfg.totalBlocks ≤ maxSeen + 1
  | .complete l => l.now = f64 late.now.toNat ∧ cfg.totalBlocks ≤ s.feedback.scanner.nextScan
  | .storeHi l | .peer l =>
    l.now = f64 late.now.toNat ∧ cfg.totalBlocks ≤ s.feedback.scanner.nextScan ∧ Tells s l
  | .collectDue l p _ max out =>
    l.now = f64 late.now.toNat ∧ cfg.totalBlocks ≤ s.feedback.scanner.nextScan ∧ Tells s l ∧ p = a ∧ 0 < max ∧
      ∀ seq ∈ out, Missing s seq
  | .netTick l p due | .send l p due _ =>
    Tells s l ∧ p = a ∧ (∀ seq ∈ due, Missing s seq) ∧ ((∃ seq, Missing s seq) → due ≠ [])
  | .top | .finish _ | .exited => False

theorem scanHolesEnd_nextScan {sc : LossScanner} {maxSeen : Nat} :
    maxSeen + 1 ≤ (sc.scanHolesEnd maxSeen).nextScan := by
  unfold LossScanner.scanHolesEnd
  split_ifs with hlt
  · exact Nat.le_refl _
  · exact not_lt.mp hlt

theorem collectDue_finds {l : Locals} {reDue max : Nat} {out : List Nat} (hscan : s.scanView.ScanInv)
    (htimely : Timely cfg s.feedback) (hnow : l.now = f64 late.now.toNat)
    (hall : cfg.totalBlocks ≤ s.feedback.scanner.nextScan) (hmax : 0 < max)
    (h : s.feedback.scanner.collectDueIter f64 s.sh.bm.isSet l.now reDue max out = none)
    (hmiss : ∃ seq, Missing s seq) : out ≠ [] := by
  rintro rfl
  obtain ⟨seq, hlt, hunset⟩ := hmiss
  have hentries := (hscan.pending_once_nextScan (hlt.trans_le hall) hunset).2
  unfold LossScanner.collectDueIter at h
  rw [if_pos (show ([] : List Nat).length < max from hmax)] at h
  cases hheap : s.feedback.scanner.heap with
  | nil =>
    have hnone : s.feedback.scanner.entries seq = 0 := by simp [LossScanner.entries, hheap]
    exact absurd (hnone.symm.trans hentries) Nat.zero_ne_one
  | cons top rest =>
    have hdue : top.due < 2 ^ 64 := htimely.heap top (hheap ▸ List.mem_cons_self)
    have hlate : ¬ f64 top.due > l.now := by
      rw [hnow, gt_iff_lt, not_lt]
      refine f64_mono (Nat.cast_nonneg _) (Nat.cast_le.mpr ?_)
      show top.due ≤ 18446744073709551615
      omega
    simp only [hheap, if_neg hlate] at h
    split_ifs at h

theorem collectDue_missing {now : ℚ} {reDue max : Nat} {out out' : List Nat} {sc : LossScanner}
    (hscan : s.scanView.ScanInv) (hpc : ∀ l maxSeen due seq, s.feedback.pc ≠ .scanHoles l maxSeen due seq)
    (h : s.feedback.scanner.collectDueIter f64 s.sh.bm.isSet now reDue max out = some (sc, out')) :
    sc.nextScan = s.feedback.scanner.nextScan ∧ ∀ seq ∈ out', seq ∈ out ∨ Missing s seq := by
  obtain ⟨top, rest, hheap, -, hcase⟩ := LossScanner.collectDueIter_eq h
  have hsched : LossScanner.Scheduled s.sh.bm.isSet s.feedback.scanner s.feedback.scanner.nextScan := by
    refine hscan.sched_of_pc fun maxSeen due seq hat => ?_
    cases hfb : s.feedback.pc <;> simp only [State.scanView, hfb, FeedbackPc.scanPc] at hat <;> cases hat
    exact hpc _ _ _ _ hfb
  rcases hcase with ⟨-, rfl, rfl⟩ | ⟨-, rfl, rfl⟩ | ⟨hunset, -, rfl, rfl⟩
  · exact ⟨rfl, fun _ => .inl⟩
  · exact ⟨rfl, fun _ => .inl⟩
  · refine ⟨rfl, fun seq hseq => ?_⟩
    rcases List.mem_append.mp hseq with hold | hnew
    · exact .inl hold
    · cases List.mem_singleton.mp hnew
      have hentries : 0 < s.feedback.scanner.entries top.seq := by
        simp [LossScanner.entries, hheap]
      have hbelow := hsched.below top.seq hentries
      have hle : s.feedback.scanner.nextScan ≤ s.feedback.scanner.total := hscan.nextScan_le
      have htotal : s.feedback.scanner.total = cfg.totalBlocks := hscan.total
      exact .inr ⟨by omega, hunset⟩

theorem round_step {fb : Feedback} (hready : Ready cfg) (hround : Round a s)
    (hsend : ∀ l p due isNet, s.feedback.pc ≠ .send l p due isNet) (hallSent : s.sh.allSent = true)
    (hpeer : s.sh.peer = some a) (hscan : s.scanView.ScanInv) (htimely : Timely cfg s.feedback)
    (h : feedbackStep cfg s.sh late s.feedback = some (sh, fb)) :
    Round a { s with sh := sh, feedback := fb } := by
  have htotal : s.feedback.scanner.total = cfg.totalBlocks := hscan.total
  obtain ⟨sh₀, workers, flusher, fb₀, main⟩ := s
  cases feedbackStep_cases h with
  | leave | start | again | announced | done => cases hround
  | rtt => exact rfl
  | advance | advanced | loadMaxSeen | scanHoles | storeHi | netTick => exact hround
  | loadAllSent => exact ⟨hround, fun hpos => if_pos ⟨hallSent, hpos⟩⟩
  | scan hseen =>
    simp only at htotal
    rw [htotal] at hseen
    refine ⟨hround.1, ?_⟩
    have hms := hround.2 (Nat.pos_of_ne_zero hseen.2)
    unfold LossScanner.scanTop
    rw [htotal]
    split_ifs <;> omega
  | noScan hseen =>
    simp only at htotal hallSent
    rw [htotal] at hseen
    have hzero : cfg.totalBlocks = 0 := by
      by_contra hne
      exact hseen ⟨by rw [hallSent, Bool.or_true], hne⟩
    exact ⟨hround.1, by omega⟩
  | scanned => exact ⟨hround.1, hround.2.trans scanHolesEnd_nextScan⟩
  | complete =>
    refine ⟨hround.1, hround.2, fun hend => ?_⟩
    simp only at hallSent
    simpa [hallSent] using hend
  | peer hp =>
    cases hpeer.symm.trans hp
    exact ⟨hround.1, hround.2.1, hround.2.2, rfl, nackCap_pos hready _, fun seq hseq => by cases hseq⟩
  | noPeer hp => cases hpeer.symm.trans hp
  | collectDue hiter =>
    obtain ⟨hnow, hall, htells, hp, hmax, hout⟩ := hround
    obtain ⟨hnext, hfound⟩ := collectDue_missing hscan (by simp) hiter
    exact ⟨hnow, hnext ▸ hall, htells, hp, hmax, fun seq hseq => (hfound seq hseq).elim (hout seq) id⟩
  | collected hiter =>
    obtain ⟨hnow, hall, htells, hp, hmax, hout⟩ := hround
    have hfinds := collectDue_finds hscan htimely hnow hall hmax hiter
    exact ⟨htells, hp, hout, hfinds⟩
  | send | lost => exact absurd rfl (hsend _ _ _ _)

theorem Missing.not_claims {seq : Nat} (hmiss : Missing s seq) (h : Intact prim a s) :
    s.feedback.pc.claimsDone = false := by
  by_contra hclaim
  rw [Bool.not_eq_false] at hclaim
  have hset := h.isSet_of_flushed (h.claim hclaim) hmiss.1
  rw [hmiss.2] at hset
  cases hset

/-- **One round.** It ends with a report. -/
theorem reach_send (hready : Ready cfg) (hreach : Intact prim a s) (htop : s.feedback.pc = .top)
    (hallSent : s.sh.allSent = true) (hpeer : s.sh.peer = some a) :
    Reach (step prim) Rounds s fun t => Round a t ∧ ∃ l p due isNet, t.feedback.pc = .send l p due isNet := by
  obtain ⟨sh, fb, hfb, hstep⟩ := feedback_next hready hreach (by rw [htop]; rfl)
  have hbegun : fb.pc = .rtt := by
    simp only [feedbackStep, htop, (hreach.awake hready).stop] at hfb
    cases hfb
    rfl
  have hkeeps := keeps_step hstep
  refine .next rfl hstep ((reach_of_descent
    (P := fun t => ∃ l p due isNet, t.feedback.pc = .send l p due isNet)
    (I := fun t => Intact prim a t ∧ t.sh.allSent = true ∧ t.sh.peer = some a ∧ Round a t)
    (fun t => t.feedback.work cfg) ?_ ⟨hreach.calm (.single (Rounds.calm rfl) hstep),
      hkeeps.allSent hallSent, hkeeps.peer a hpeer, ?_⟩).imp fun _ _ _ ht => ⟨ht.2.2.2.2, ht.1⟩)
  · rintro t ⟨ht, hall, hpeer, hround⟩ hgoal
    have hpc : t.feedback.pc.isExited = false ∧ t.feedback.pc ≠ .top := by
      unfold Round at hround
      cases hat : t.feedback.pc <;> rw [hat] at hround <;> simp [FeedbackPc.isExited] <;> exact hround
    obtain ⟨sh, fb, hfb, hstep⟩ := feedback_next hready ht hpc.1
    have hkeeps := keeps_step hstep
    refine .next rfl hstep (.here ⟨⟨ht.calm (.single (Rounds.calm rfl) hstep), hkeeps.allSent hall,
      hkeeps.peer a hpeer, ?_⟩, feedbackStep_work (fun hat => absurd hat hpc.2) ht.scan_total hfb⟩)
    refine round_step hready hround (fun l p due isNet hat => hgoal ⟨l, p, due, isNet, hat⟩) hall hpeer
      ht.scan ht.timely hfb
  · simp only [Round, hbegun]

/-- **What is missing can be asked for.** -/
theorem reach_nack (hready : Ready cfg) (hreach : Intact prim a s) (hann : s.feedback.announces = true)
    (hallSent : s.sh.allSent = true) (hpeer : s.sh.peer = some a) (hmiss : ∃ seq, Missing s seq) :
    Reach (step prim) Rounds s fun t => ∃ l due isNet, t.feedback.pc = .send l a due isNet ∧
      l.complete = false ∧ due ≠ [] ∧ ∀ seq ∈ due, Missing t seq := by
  refine (reach_top hready hreach hann).trans fun as t hrun ⟨_, hpc⟩ => ?_
  have ht := hreach.calm (hrun.mono fun _ _ => Rounds.calm)
  have hkeeps := keeps_run hrun
  obtain ⟨seq, hlt, hunset⟩ := hmiss
  have hmiss : Missing t seq := ⟨hlt, (congrArg (RecvBitmap.isSet · seq) (rounds_run hrun).bm).trans hunset⟩
  have htop : t.feedback.pc = .top := by
    refine hpc.resolve_right fun hdone => ?_
    have hclaims := hmiss.not_claims ht
    rw [FeedbackPc.claimsDone_of_sends hdone] at hclaims
    cases hclaims
  refine (reach_send hready ht htop (hkeeps.allSent hallSent) (hkeeps.peer a hpeer)).imp
    fun bs u hrun' ⟨hround, l, p, due, isNet, hat⟩ => ?_
  have hu := ht.calm (hrun'.mono fun _ _ => Rounds.calm)
  have hmiss' : Missing u seq :=
    ⟨hlt, (congrArg (RecvBitmap.isSet · seq) (rounds_run hrun').bm).trans hmiss.2⟩
  have hclaims := hmiss'.not_claims hu
  simp only [Round, hat] at hround
  rw [hat] at hclaims
  obtain ⟨-, rfl, hdue, hsome⟩ := hround
  exact ⟨l, due, isNet, hat, hclaims, hsome ⟨seq, hmiss'⟩, hdue⟩

/-- **The end can be announced.** -/
theorem reach_done (hready : Ready cfg) (hreach : Intact prim a s) (hann : s.feedback.announces = true)
    (hallSent : s.sh.allSent = true) (hpeer : s.sh.peer = some a)
    (hflushed : s.sh.flushedBlocks = cfg.totalBlocks) :
    Reach (step prim) Rounds s fun t => t.feedback.pc.sendsDone = true := by
  refine (reach_top hready hreach hann).trans fun as t hrun ⟨_, hpc⟩ => ?_
  rcases hpc with htop | hdone
  · have ht := hreach.calm (hrun.mono fun _ _ => Rounds.calm)
    have hkeeps := keeps_run hrun
    refine (reach_send hready ht htop (hkeeps.allSent hallSent) (hkeeps.peer a hpeer)).imp
      fun bs u hrun' ⟨hround, l, p, due, isNet, hat⟩ => ?_
    simp only [Round, hat] at hround
    rw [hat]
    exact hround.1 ((rounds_run hrun').flushed.trans ((rounds_run hrun).flushed.trans hflushed))
  · exact .here hdone

/-! ### The flusher -/

/-- The steps of the flusher. -/
def Flushes (_ : State cfg n) (act : Action n) : Prop := act = .flusher {}

theorem Flushes.calm {act : Action n} (h : Flushes s act) : Calm s act := by
  cases h
  exact ⟨rfl, rfl⟩

theorem flushes_run (h : Steps (step prim) Flushes s as t) : t.feedback = s.feedback := by
  refine h.invariant (I := fun t => t.feedback = s.feedback) ?_ rfl
  rintro u act v hu rfl hstep
  obtain ⟨⟨sh, f⟩, -, rfl⟩ := Option.map_eq_some_iff.mp hstep
  exact hu

/-- **What is ready can be flushed.** -/
theorem reach_flushed (hready : Ready cfg) (hreach : Intact prim a s)
    (hall : ∀ seq < cfg.totalBlocks, s.sh.readyBm.isSet seq = true) :
    Reach (step prim) Flushes s fun t => t.sh.flushedBlocks = cfg.totalBlocks := by
  refine (reach_of_descent (P := fun t => t.sh.flushedBlocks = cfg.totalBlocks)
    (I := fun t => Intact prim a t ∧ ∀ seq < cfg.totalBlocks, t.sh.readyBm.isSet seq = true)
    (fun t => t.flusher.work t.sh) ?_ ⟨hreach, hall⟩).imp fun _ _ _ ht => ht.1
  rintro t ⟨ht, hall⟩ hgoal
  have hfrontier := ht.frontier
  have hlt : t.flusher.writeFront < cfg.totalBlocks := by
    refine lt_of_le_of_ne hfrontier.le fun hend => hgoal (hfrontier.flushed.trans hend)
  have hrunning : t.flusher.pc ≠ .exited := fun hexit => hlt.ne ((ht.awake hready).flusher hexit)
  have hgoes : (flusherStep cfg t.sh {} t.flusher).isSome = true := by
    obtain ⟨sink, recv, as, hnew, hrun⟩ := ht
    exact flusher_enabled hnew (hrun.mono fun _ _ _ => trivial) hrunning {}
  obtain ⟨⟨sh, f⟩, hf⟩ := Option.isSome_iff_exists.mp hgoes
  have hstep : step prim t (.flusher {}) = some { t with sh := sh, flusher := f } := by simp [step, hf]
  refine .next rfl hstep (.here ⟨⟨ht.calm (.single (Flushes.calm rfl) hstep), fun seq hseq => ?_⟩,
    flusherStep_work (.inr (.inr (hall _ hlt))) hfrontier.busy hf⟩)
  exact (congrArg (RecvBitmap.isSet · seq) (flusherStep_frame hf).readyBm).trans (hall seq hseq)

/-! ### The end -/

theorem reach_counted (hready : Ready cfg) (hreach : Intact prim a s) {l : Locals}
    (hpc : s.feedback.pc = .finish l) (hcomplete : l.complete = true) :
    Reach (step prim) Rounds s fun t => t.feedback.doneSends = s.feedback.doneSends + 1 := by
  obtain ⟨sh, fb, hfb, hstep⟩ := feedback_next hready hreach (by rw [hpc]; rfl)
  refine .next rfl hstep (.here ?_)
  simp only [feedbackStep, hpc, hcomplete, if_true] at hfb
  split_ifs at hfb <;> cases hfb <;> rfl

theorem reach_last (hready : Ready cfg) (hreach : Intact prim a s) (hallSent : s.sh.allSent = true)
    (hpeer : s.sh.peer = some a) (hflushed : s.sh.flushedBlocks = cfg.totalBlocks) :
    Reach (step prim) Rounds s fun t => t.sh.done = true := by
  refine (reach_of_descent (P := fun t => t.sh.done = true)
    (I := fun t => Intact prim a t ∧ t.sh.allSent = true ∧ t.sh.peer = some a ∧
      t.sh.flushedBlocks = cfg.totalBlocks)
    (fun t => 8 - t.feedback.doneSends) ?_ ⟨hreach, hallSent, hpeer, hflushed⟩).imp
    fun _ _ _ ht => ht.1
  rintro t ⟨ht, hallSent, hpeer, hflushed⟩ hdone
  have hless := ht.announcing.sends.resolve_left hdone
  -- one more DONE is counted, at the end of this round or of the next one
  have hcounted : Reach (step prim) Rounds t fun u => t.feedback.doneSends < u.feedback.doneSends := by
    cases hann : t.feedback.announces with
    | false =>
      have hexited : t.feedback.pc ≠ .exited := fun hexit => hdone ((ht.awake hready).feedback hexit)
      obtain ⟨l, hpc, hcomplete⟩ : ∃ l, t.feedback.pc = .finish l ∧ l.complete = true := by
        unfold Feedback.announces at hann
        split at hann
        · exact absurd ‹_› hexited
        · rename_i l hpc
          rw [Bool.or_eq_false_iff, Bool.not_eq_false'] at hann
          exact ⟨l, hpc, hann.1⟩
        · cases hann
      refine (reach_counted hready ht hpc hcomplete).imp fun _ u _ hu => ?_
      omega
    | true =>
      refine (reach_done hready ht hann hallSent hpeer hflushed).trans fun bs u hrun hsend => ?_
      have hu := ht.calm (hrun.mono fun _ _ => Rounds.calm)
      have hle := (rounds_run hrun).doneSends
      obtain ⟨sh, fb, hfb, hstep⟩ := feedback_next hready hu (by
        cases hat : u.feedback.pc <;> rw [hat] at hsend <;> first | rfl | cases hsend)
      obtain ⟨l, hpc, hcomplete⟩ : ∃ l, fb.pc = .finish l ∧ l.complete = true := by
        cases hat : u.feedback.pc <;> rw [hat] at hsend <;> try cases hsend
        rename_i l p due isNet
        simp only [feedbackStep, hat, late] at hfb
        cases hfb
        exact ⟨l, rfl, hsend⟩
      have hkept : u.feedback.doneSends ≤ fb.doneSends :=
        (rounds_run (.single rfl hstep)).doneSends
      refine .next rfl hstep ((reach_counted hready (hu.calm (.single (Rounds.calm rfl) hstep)) hpc
        hcomplete).imp fun _ v _ hv => ?_)
      simp only at hv
      omega
  refine hcounted.imp fun bs u hrun hu => ?_
  have hkeeps := keeps_run hrun
  exact ⟨⟨ht.calm (hrun.mono fun _ _ => Rounds.calm), hkeeps.allSent hallSent, hkeeps.peer a hpeer,
    (rounds_run hrun).flushed.trans hflushed⟩, by omega⟩

/-- **`run` can return `Ok`** when the last DONE has been sent. -/
theorem reach_ok (hready : Ready cfg) (hreach : Intact prim a s) (hdone : s.sh.done = true) :
    Reach (step prim) Calm s fun t => t.main = .returned (.ok ()) := by
  have hkeep : ∀ (u : State cfg n) act v, (Intact prim a u ∧ u.sh.done = true) → Calm u act →
      step prim u act = some v → Intact prim a v ∧ v.sh.done = true := fun u act v hu hC hstep =>
    ⟨hu.1.calm (.single hC hstep), (step_flags hstep).2 hu.2⟩
  have hwork : Works (step prim) Calm (fun u : State cfg n => Intact prim a u ∧ u.sh.done = true) Action.isThread
      (State.work 0) := by
    rintro u act v ⟨⟨sink, recv, bs, hnew, hrun⟩, hend⟩ hC hstep
    refine step_work hnew (hrun.mono fun _ _ _ => trivial) (.inr hend) ?_ hstep
    cases act with
    | ingest i env => exact (by simp [Receives, Action.received, Env.received, hC.1])
    | _ => exact Nat.le_refl 0
  have hnext : ∀ u : State cfg n, (Intact prim a u ∧ u.sh.done = true) → ¬ (∃ res, u.main = .returned res) →
      ∃ act v, act.isThread = true ∧ Calm u act ∧ step prim u act = some v := by
    rintro u ⟨⟨sink, recv, bs, hnew, hrun⟩, -⟩ hnot
    obtain ⟨thread, act, haction, hgoes⟩ :=
      (exists_enabled hready.rate hnew (hrun.mono fun _ _ _ => trivial)).resolve_left hnot
    obtain ⟨v, hstep⟩ := Option.isSome_iff_exists.mp (hgoes {})
    have hact := haction {}
    generalize act {} = act at hact hstep
    have hkind : act.isThread = true ∧ Calm u act := by
      cases thread <;> cases hact <;> exact ⟨rfl, by first | exact ⟨rfl, rfl⟩ | trivial⟩
    exact ⟨act, v, hkind.1, hkind.2, hstep⟩
  refine (reach_final hkeep hwork hnext ⟨hreach, hdone⟩).imp fun bs u hrun hend => ?_
  obtain ⟨res, hres⟩ := hend
  rw [hres, (hreach.calm hrun).returns_ok hready hres]

end Girth.Receiver
