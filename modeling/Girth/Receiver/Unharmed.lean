import Girth.Receiver.DoneReport
import Girth.Receiver.Isolation
import Girth.Receiver.Payload
import Girth.Receiver.Shutdown

/-!
# A receiver that nothing happens to but loss

What holds in every state of a receiver as long as no write has failed, nobody has ended it and all that
it gets is from one address. No thread has left before the end (`Awake`), the end is only announced when
everything is flushed and counted in the rounds (`Announcing`), whatever is scheduled falls due before
the clock comes to its end (`Timely`), and between packets every block that was received is ready for the
flusher. `run` can return nothing but `Ok`.
-/

namespace Girth.Receiver

open Lib

variable {prim : Primitives} {cfg : RecvConfig} {n : Nat} {a : SocketAddr}
  {sh sh' : Shared cfg.totalBlocks} {env : Env} {s t : State cfg n} {as : List (Action n)}

/-! ## Unharmed runs -/

/-- A fatal error of the socket, the stop flag or a cancellation. -/
def Action.isFatal : Action n → Bool
  | .ingest _ env =>
    match env.recv with
    | .fatal => true
    | .batch _ | .timeout => false
  | .stop | .control .cancel => true
  | .flusher _ | .feedback _ | .main | .control _ => false

theorem Action.stops_of_isFatal {act : Action n} (h : act.isFatal = false) : act.stops = false := by
  cases act with
  | stop => cases h
  | control op => cases op <;> first | rfl | cases h
  | ingest | flusher | feedback | main => rfl

/-- Every datagram is from `a`, no write fails, and the step does not end the receiver. -/
def Unharmed (a : SocketAddr) (s : State cfg n) (act : Action n) : Prop :=
  AllWritesOk s act ∧ Delivers (fun m => m.addr = some a) s act ∧ act.isFatal = false

instance (a : SocketAddr) (s : State cfg n) (act : Action n) : Decidable (Unharmed a s act) :=
  inferInstanceAs (Decidable (_ ∧ _ ∧ _))

/-- A configuration under which a receiver can work: it is not cancelled, the clamp of the rate controller
does not panic, and a report may ask for a block. -/
structure Ready (cfg : RecvConfig) : Prop where
  control : Girth.shouldStop false cfg.control = false
  rate : (RateController.defaults cfg.rate).minBps ≤ (RateController.defaults cfg.rate).maxBps
  nacks : 0 < cfg.maxNacksPerPdu

/-- An unharmed run leads to `s`. -/
def Intact (prim : Primitives) (a : SocketAddr) (s : State cfg n) : Prop :=
  ∃ sink recv as, newReceiver cfg n sink = some recv ∧ Steps (step prim) (Unharmed a) recv as s

theorem Intact.run (h : Intact prim a s) (hsteps : Steps (step prim) (Unharmed a) s as t) :
    Intact prim a t := by
  obtain ⟨sink, recv, bs, hnew, hrun⟩ := h
  exact ⟨sink, recv, bs ++ as, hnew, hrun.append hsteps⟩

/-! ### The state of the threads -/

/-- The address that a worker is about to compare with the peer's. -/
def IngestPc.learning {total : Nat} : IngestPc total → Option (Option SocketAddr)
  | .finLearn addr _ | .data (.learn addr) _ _ => some addr
  | _ => none

/-- No thread has left before the end, and all that is known of the peer is `a`. -/
structure Awake (a : SocketAddr) (s : State cfg n) : Prop where
  stop : s.sh.shouldStop = false
  peer : ∀ p ∈ s.sh.peer, p = a
  pending : ∀ i, ∀ m ∈ (s.workers i).pending, m.addr = some a
  learning : ∀ i, ∀ addr ∈ (s.workers i).learning, addr = some a
  workers : ∀ i, (s.workers i).isExited = true → s.sh.done = true
  flusher : s.flusher.pc = .exited → s.flusher.writeFront = cfg.totalBlocks
  feedback : s.feedback.pc = .exited → s.sh.done = true
  main : s.main = .waiting ∨ s.sh.done = true

theorem learnPeer_fst (cfg : RecvConfig) (peer addr : Option SocketAddr) :
    (cfg.learnPeer peer addr).1 = peer ∨ (peer = none ∧ (cfg.learnPeer peer addr).1 = addr) := by
  unfold RecvConfig.learnPeer
  split
  · exact .inl rfl
  · split
    · exact .inl rfl
    · split
      · exact .inl rfl
      · exact .inr ⟨rfl, rfl⟩

theorem ingestStep_peer {pc pc' : IngestPc cfg.totalBlocks}
    (h : ingestStep prim cfg sh env pc = some (sh', pc')) :
    (sh'.peer = sh.peer ∨ sh.peer = none ∧ ∃ addr ∈ pc.learning, sh'.peer = addr) ∧
      (sh.allSent = true → sh'.allSent = true) := by
  cases pc with
  | finLearn addr rest =>
    cases h
    refine ⟨?_, id⟩
    rcases learnPeer_fst cfg sh.peer addr with hsame | ⟨hnone, hnew⟩
    · exact .inl hsame
    · exact .inr ⟨hnone, addr, rfl, hnew⟩
  | data dpc pkt rest =>
    rw [ingestStep, Option.some.injEq] at h
    cases dpc with
    | learn addr =>
      have hsh : sh'.peer = (cfg.learnPeer sh.peer addr).1 ∧ sh'.allSent = sh.allSent := by
        simp only [dataStep] at h
        split_ifs at h <;> cases h <;> exact ⟨rfl, rfl⟩
      refine ⟨?_, hsh.2.trans⟩
      rw [hsh.1]
      rcases learnPeer_fst cfg sh.peer addr with hsame | ⟨hnone, hnew⟩
      · exact .inl hsame
      · exact .inr ⟨hnone, addr, rfl, hnew⟩
    | tick =>
      cases h
      unfold Shared.applyTick
      dsimp only
      split_ifs <;> exact ⟨.inl rfl, id⟩
    | setBm =>
      simp only [dataStep] at h
      split_ifs at h <;> cases h <;> exact ⟨.inl rfl, id⟩
    | tryPool | direct =>
      simp only [dataStep] at h
      split at h <;> cases h <;> exact ⟨.inl rfl, id⟩
    | seenAny | maxSeen | count | stage | ready path | signal =>
      cases h
      exact ⟨.inl rfl, id⟩
  | batch rest =>
    cases rest with
    | nil =>
      cases h
      exact ⟨.inl rfl, id⟩
    | cons m rest =>
      simp only [ingestStep] at h
      (repeat' split at h) <;> cases h <;> exact ⟨.inl rfl, id⟩
  | recv =>
    simp only [ingestStep] at h
    split at h <;> cases h <;> exact ⟨.inl rfl, id⟩
  | finStore rest =>
    cases h
    exact ⟨.inl rfl, fun _ => rfl⟩
  | exited => cases h
  | top | timedOut =>
    cases h
    exact ⟨.inl rfl, id⟩

theorem ingestStep_learning {pc pc' : IngestPc cfg.totalBlocks}
    (h : ingestStep prim cfg sh env pc = some (sh', pc')) :
    ∀ addr ∈ pc'.learning, ∃ m ∈ pc.pending, m.addr = addr := by
  intro addr haddr
  cases pc with
  | batch rest =>
    cases rest with
    | nil =>
      cases h
      cases haddr
    | cons m rest =>
      simp only [ingestStep] at h
      (repeat' split at h) <;> cases h <;> cases haddr <;> exact ⟨m, List.mem_cons_self, rfl⟩
  | data dpc pkt rest =>
    rw [ingestStep, Option.some.injEq] at h
    cases dpc <;> simp only [dataStep] at h <;> (repeat' split at h) <;> cases h <;> cases haddr
  | recv =>
    simp only [ingestStep] at h
    split at h <;> cases h <;> cases haddr
  | top | timedOut | finLearn addr rest =>
    cases h
    split_ifs at haddr <;> cases haddr
  | finStore rest =>
    cases h
    cases haddr
  | exited => cases h

theorem ingestStep_exits {pc pc' : IngestPc cfg.totalBlocks}
    (h : ingestStep prim cfg sh env pc = some (sh', pc')) (hexit : pc'.isExited = true) :
    sh.Ending ∨ env.recv = .fatal := by
  cases pc with
  | top | timedOut =>
    cases h
    split_ifs at hexit with hend
    · refine .inl ?_
      rw [Bool.or_eq_true] at hend
      first | exact hend | exact hend.symm
    · cases hexit
  | recv =>
    simp only [ingestStep] at h
    split at h <;> cases h
    · cases hexit
    · cases hexit
    · exact .inr ‹_›
  | batch rest =>
    cases rest with
    | nil =>
      cases h
      cases hexit
    | cons m rest =>
      simp only [ingestStep] at h
      (repeat' split at h) <;> cases h <;> cases hexit
  | data dpc pkt rest =>
    rw [ingestStep, Option.some.injEq] at h
    cases dpc <;> simp only [dataStep] at h <;> (repeat' split at h) <;> cases h <;> cases hexit
  | finLearn addr rest =>
    cases h
    split_ifs at hexit <;> cases hexit
  | finStore rest =>
    cases h
    cases hexit
  | exited => cases h

theorem feedbackStep_exits {fb fb' : Feedback} (h : feedbackStep cfg sh env fb = some (sh', fb'))
    (hexit : fb'.pc = .exited) : sh.shouldStop = true ∨ sh'.done = true := by
  cases feedbackStep_cases h with
  | leave hstop => exact .inl hstop
  | done => exact .inr rfl
  | _ => cases hexit

theorem awake_ingest {i : Fin n} {pc : IngestPc cfg.totalBlocks} (hinv : Awake a s)
    (hC : Unharmed a s (.ingest i env))
    (h : ingestStep prim cfg s.sh env (s.workers i) = some (sh, pc)) :
    Awake a { s with sh := sh, workers := Function.update s.workers i pc } := by
  have hdone := (ingestStep_frame h).1.done
  have hpending := (ingestStep_pending h).1
  refine ⟨(ingestStep_shouldStop h).trans hinv.stop, fun p hp => ?_, fun j m hm => ?_,
    fun j addr haddr => ?_, fun j hexit => ?_, hinv.flusher, fun hpc => hdone.trans (hinv.feedback hpc),
    hinv.main.imp_right hdone.trans⟩
  · rcases (ingestStep_peer h).1 with hsame | ⟨-, addr, haddr, hnew⟩
    · exact hinv.peer p (hsame ▸ hp)
    · have heq := hinv.learning i addr haddr
      rw [Option.mem_def, show sh.peer = some a from hnew.trans heq, Option.some.injEq] at hp
      exact hp.symm
  · by_cases hj : j = i
    · subst hj
      simp only [Function.update_self] at hm
      rcases hpending m hm with hold | ⟨m', hm', rfl⟩
      · exact hinv.pending j m hold
      · exact hC.2.1 m' hm'
    · simp only [Function.update_of_ne hj] at hm
      exact hinv.pending j m hm
  · by_cases hj : j = i
    · subst hj
      simp only [Function.update_self] at haddr
      obtain ⟨m, hm, rfl⟩ := ingestStep_learning h addr haddr
      exact hinv.pending j m hm
    · simp only [Function.update_of_ne hj] at haddr
      exact hinv.learning j addr haddr
  · refine hdone.trans ?_
    by_cases hj : j = i
    · subst hj
      simp only [Function.update_self] at hexit
      rcases ingestStep_exits h hexit with (hstop | hset) | hfatal
      · rw [hinv.stop] at hstop
        cases hstop
      · exact hset
      · have hkind := hC.2.2
        simp only [Action.isFatal, hfatal] at hkind
        cases hkind
    · simp only [Function.update_of_ne hj] at hexit
      exact hinv.workers j hexit

theorem flusherStep_peer {f f' : Flusher} (h : flusherStep cfg sh env f = some (sh', f')) :
    sh'.peer = sh.peer ∧ sh'.allSent = sh.allSent := by
  cases flusherStep_cases h <;> exact ⟨rfl, rfl⟩

theorem feedbackStep_peer {fb fb' : Feedback} (h : feedbackStep cfg sh env fb = some (sh', fb')) :
    sh'.peer = sh.peer ∧ sh'.allSent = sh.allSent := by
  cases feedbackStep_cases h <;> exact ⟨rfl, rfl⟩

theorem awake_flusher {f : Flusher} (hinv : Awake a s) (hfrontier : Frontier s)
    (h : flusherStep cfg s.sh env s.flusher = some (sh, f)) :
    Awake a { s with sh := sh, flusher := f } := by
  obtain ⟨hstop, hdone⟩ := flusherStep_flags h
  refine ⟨hstop.trans hinv.stop, fun p hp => hinv.peer p ((flusherStep_peer h).1 ▸ hp), hinv.pending,
    hinv.learning, fun i hexit => hdone.trans (hinv.workers i hexit), fun hexit => ?_,
    fun hpc => hdone.trans (hinv.feedback hpc), hinv.main.imp_right hdone.trans⟩
  obtain ⟨hfront, hend | ⟨-, hset⟩⟩ := flusherStep_exited h hexit
  · exact hfront.trans (le_antisymm hfrontier.le hend)
  · rw [hinv.stop] at hset
    cases hset

theorem awake_feedback {fb : Feedback} (hinv : Awake a s)
    (h : feedbackStep cfg s.sh env s.feedback = some (sh, fb)) :
    Awake a { s with sh := sh, feedback := fb } := by
  obtain ⟨hstop, hflag⟩ := feedbackStep_flags h
  have hdone (hset : s.sh.done = true) : sh.done = true := by
    rcases hflag with hsame | ⟨hnew, -⟩
    · exact hsame.trans hset
    · exact hnew
  refine ⟨hstop.trans hinv.stop, fun p hp => hinv.peer p ((feedbackStep_peer h).1 ▸ hp), hinv.pending,
    hinv.learning, fun i hexit => hdone (hinv.workers i hexit), hinv.flusher, fun hexit => ?_,
    hinv.main.imp_right hdone⟩
  rcases feedbackStep_exits h hexit with hset | hset
  · rw [hinv.stop] at hset
    cases hset
  · exact hset

theorem awake_step {act : Action n} (hinv : Awake a s) (hfrontier : Frontier s) (hC : Unharmed a s act)
    (h : step prim s act = some t) : Awake a t := by
  cases act with
  | ingest i env =>
    obtain ⟨⟨sh, pc⟩, hi, rfl⟩ := Option.map_eq_some_iff.mp h
    exact awake_ingest hinv hC hi
  | flusher env =>
    obtain ⟨⟨sh, f⟩, hf, rfl⟩ := Option.map_eq_some_iff.mp h
    exact awake_flusher hinv hfrontier hf
  | feedback env =>
    obtain ⟨⟨sh, fb⟩, hfb, rfl⟩ := Option.map_eq_some_iff.mp h
    exact awake_feedback hinv hfb
  | main =>
    have hmain : t.main = .waiting ∨ s.sh.done = true := by
      rcases hinv.main with hwait | hdone
      · simp only [step, mainStep, hwait, hinv.stop, Bool.or_false] at h
        split_ifs at h with hset
        · exact .inr hset
        · cases h
          exact .inl hwait
      · exact .inr hdone
    obtain ⟨signal, main, rfl⟩ := mainStep_frame h
    exact ⟨hinv.stop, hinv.peer, hinv.pending, hinv.learning, hinv.workers, hinv.flusher, hinv.feedback, hmain⟩
  | stop => cases hC.2.2
  | control op =>
    have hstop := step_unstopped hinv.stop (Action.stops_of_isFatal hC.2.2) h
    obtain ⟨c, -, rfl⟩ := Option.map_eq_some_iff.mp h
    exact ⟨hstop, hinv.peer, hinv.pending, hinv.learning, hinv.workers, hinv.flusher, hinv.feedback, hinv.main⟩

theorem awake_new {sink : Sink} {recv : State cfg n} (hready : Ready cfg)
    (hnew : newReceiver cfg n sink = some recv) : Awake a recv := by
  obtain ⟨rate, -, rfl⟩ := Option.map_eq_some_iff.mp hnew
  refine ⟨hready.control, fun p hp => (by cases hp), fun i m hm => (by cases hm),
    fun i addr haddr => (by cases haddr), fun i hexit => (by cases hexit), fun hexit => ?_,
    fun hexit => (by cases hexit), .inl rfl⟩
  have hend : ¬ 0 < cfg.totalBlocks := by
    intro hpos
    simp only [flusherOuter, if_pos hpos] at hexit
    cases hexit
  exact (Nat.eq_zero_of_not_pos hend).symm

theorem Intact.awake (hready : Ready cfg) (h : Intact prim a s) : Awake a s := by
  obtain ⟨sink, recv, as, hnew, hrun⟩ := h
  exact hrun.invariant_of_run (fun _ _ _ _ hbs hinv hC hstep =>
    awake_step hinv (frontier_run hnew hbs) hC hstep) (awake_new hready hnew)

/-! ### DONE -/

/-- The round has stored its mark. -/
def FeedbackPc.stored : FeedbackPc → Bool
  | .peer _ | .collectDue .. | .netTick .. | .send .. | .finish _ => true
  | .top | .rtt | .advance _ | .loadMaxSeen _ | .loadAllSent .. | .loadSeen .. | .scanHoles .. | .complete _
  | .storeHi _ | .exited => false

/-- Only the first round that sends DONE may have an old mark; `run` looks at that of the eighth. -/
structure Announcing (s : State cfg n) : Prop where
  flushed : 0 < s.feedback.doneSends → s.sh.flushedBlocks = cfg.totalBlocks
  agrees : 0 < s.feedback.doneSends → MarkAgrees s.sh.flushedBlocks cfg.totalBlocks s.feedback.pc
  stored : 0 < s.feedback.doneSends → s.feedback.pc.claimsDone = true → s.feedback.pc.stored = true →
    s.sh.stats.hiContig = cfg.totalBlocks
  done : s.sh.done = true → s.sh.stats.hiContig = cfg.totalBlocks
  sends : s.sh.done = true ∨ s.feedback.doneSends < 8

/-- A step of the feedback thread leaves the number of DONEs alone, and behind the store the mark is the
stored one; or it is the end of a round that has sent a DONE. -/
theorem feedbackStep_announces {fb fb' : Feedback} (h : feedbackStep cfg sh env fb = some (sh', fb')) :
    (fb'.doneSends = fb.doneSends ∧ sh'.done = sh.done ∧ (fb'.pc.stored = true →
      fb'.pc.claimsDone = fb.pc.claimsDone ∧
        (fb.pc.stored = true ∧ sh'.stats.hiContig = sh.stats.hiContig ∨
          sh'.stats.hiContig = fb.pc.hi))) ∨
    (fb.pc.claimsDone = true ∧ fb.pc.stored = true ∧ sh'.stats.hiContig = sh.stats.hiContig ∧
      fb'.doneSends = fb.doneSends + 1 ∧ (fb'.pc = .top ∨ fb'.pc = .exited) ∧
      (sh'.done = true → sh.done = true ∨ 8 ≤ fb.doneSends + 1) ∧
      (sh'.done = true ∨ fb'.doneSends < 8)) := by
  cases feedbackStep_cases h with
  | storeHi => exact .inl ⟨rfl, rfl, fun _ => ⟨rfl, .inr rfl⟩⟩
  | peer | collectDue | collected | netTick | send | lost =>
    exact .inl ⟨rfl, rfl, fun _ => ⟨rfl, .inl ⟨rfl, rfl⟩⟩⟩
  | done hcomplete hsends =>
    exact .inr ⟨hcomplete, rfl, rfl, rfl, .inr rfl, fun _ => .inr hsends, .inl rfl⟩
  | announced hcomplete hsends => exact .inr ⟨hcomplete, rfl, rfl, rfl, .inl rfl, .inl, .inr hsends⟩
  | _ => exact .inl ⟨rfl, rfl, fun hstored => by cases hstored⟩

theorem announcing_feedback {fb : Feedback} (hinv : Announcing s) (hclaim : ClaimInv s)
    (hdoneInv : DoneInv s) (hscan : s.scanView.ScanInv)
    (hreceived : s.sh.flushedBlocks = cfg.totalBlocks → ∀ seq < cfg.totalBlocks, s.sh.bm.isSet seq = true)
    (h : feedbackStep cfg s.sh env s.feedback = some (sh, fb)) :
    Announcing { s with sh := sh, feedback := fb } := by
  have hflushed := (feedbackStep_frame h).flushedBlocks
  have hnotDone : s.sh.done ≠ true := by
    intro hset
    rw [feedbackStep_exited (hdoneInv hset).1] at h
    cases h
  rcases feedbackStep_announces h with ⟨hsends, hdone, hstored⟩ | ⟨hround, hat, hhi, hsends, hpc, hdone, hless⟩
  · refine ⟨fun hpos => hflushed.trans (hinv.flushed (hsends ▸ hpos)), fun hpos => ?_,
      fun hpos hset hat => ?_, fun hset => absurd (hdone.symm.trans hset) hnotDone,
      .inr (hsends.trans_lt (hinv.sends.resolve_left hnotDone))⟩
    · show MarkAgrees sh.flushedBlocks cfg.totalBlocks fb.pc
      rw [hflushed]
      exact feedbackStep_markAgrees h (hinv.agrees (hsends ▸ hpos)) hscan.total
        (hscan.total ▸ hscan.sched.hiContig_le) hreceived
    · obtain ⟨hsame, ⟨hat, hhi⟩ | hhi⟩ := hstored hat
      · exact hhi.trans (hinv.stored (hsends ▸ hpos) (hsame ▸ hset) hat)
      · exact hhi.trans ((hinv.agrees (hsends ▸ hpos)).claim (hsame ▸ hset))
  · have hclaims : fb.pc.claimsDone = false ∧ fb.pc.window = none := by
      rcases hpc with hpc | hpc <;> rw [hpc] <;> exact ⟨rfl, rfl⟩
    refine ⟨fun _ => hflushed.trans (hclaim hround), fun _ => .of_none hclaims.2 hclaims.1,
      fun _ hset => ?_, fun hset => ?_, hless⟩
    · rw [hclaims.1] at hset
      cases hset
    · have height := (hdone hset).resolve_left hnotDone
      exact hhi.trans (hinv.stored (by omega) hround hat)

theorem announcing_step {sink : Sink} {recv : State cfg n} {act : Action n} {C : State cfg n → Action n → Prop}
    (hnew : newReceiver cfg n sink = some recv) (hrun : Steps (step prim) C recv as s)
    (hinv : Announcing s) (h : step prim s act = some t) : Announcing t := by
  have hany := hrun.mono (D := Any) fun _ _ _ => trivial
  have hstay (hend : s.sh.flushedBlocks = cfg.totalBlocks) :=
    flushed_total_step (frontier_run hnew hrun) h hend
  cases step_move h with
  | ingest hi =>
    have hframe := (ingestStep_frame hi).1
    refine ⟨fun hpos => hstay (hinv.flushed hpos), fun hpos => ?_, fun hpos hset hat => ?_, fun hset => ?_,
      hinv.sends.imp_left hframe.done.trans⟩
    · show MarkAgrees _ _ _
      rw [hframe.flushedBlocks]
      exact hinv.agrees hpos
    · exact hframe.hiContig.trans (hinv.stored hpos hset hat)
    · exact hframe.hiContig.trans (hinv.done (hframe.done.symm.trans hset))
  | flusher hf =>
    have hstats := congrArg Stats.hiContig (flusherStep_frame hf).stats
    refine ⟨fun hpos => hstay (hinv.flushed hpos), fun hpos => ?_, fun hpos hset hat => ?_, fun hset => ?_,
      hinv.sends.imp_left (flusherStep_flags hf).2.trans⟩
    · have hagrees := hinv.agrees hpos
      rw [hinv.flushed hpos] at hagrees
      show MarkAgrees _ _ _
      rw [hstay (hinv.flushed hpos)]
      exact hagrees
    · exact hstats.trans (hinv.stored hpos hset hat)
    · exact hstats.trans (hinv.done ((flusherStep_flags hf).2.symm.trans hset))
  | feedback hfb =>
    refine announcing_feedback hinv (claimInv_run hnew hrun) (doneInv_run hnew hrun)
      (scanInv_receiver hnew hany) (fun hend seq hseq => ?_) hfb
    exact isSet_of_flushed hnew hany (hseq.trans_eq hend.symm)
  | quiet => exact ⟨hinv.flushed, hinv.agrees, hinv.stored, hinv.done, hinv.sends⟩

theorem announcing_run {sink : Sink} {recv : State cfg n} {C : State cfg n → Action n → Prop}
    (hnew : newReceiver cfg n sink = some recv) (h : Steps (step prim) C recv as s) : Announcing s := by
  refine h.invariant_of_run (fun _ _ _ _ hbs hinv _ hstep => announcing_step hnew hbs hinv hstep) ?_
  obtain ⟨rate, -, rfl⟩ := Option.map_eq_some_iff.mp hnew
  exact ⟨fun hpos => absurd hpos (Nat.lt_irrefl 0), fun hpos => absurd hpos (Nat.lt_irrefl 0),
    fun hpos => absurd hpos (Nat.lt_irrefl 0), fun hset => (by cases hset), .inr (by simp)⟩

theorem Intact.announcing (h : Intact prim a s) : Announcing s := by
  obtain ⟨sink, recv, as, hnew, hrun⟩ := h
  exact announcing_run hnew hrun

/-! ### Blocks, FIN and the peer -/

/-- What is never taken back. -/
structure Keeps (s t : State cfg n) : Prop where
  bm : ∀ seq, s.sh.bm.isSet seq = true → t.sh.bm.isSet seq = true
  allSent : s.sh.allSent = true → t.sh.allSent = true
  peer : ∀ p, s.sh.peer = some p → t.sh.peer = some p

theorem keeps_step {act : Action n} (h : step prim s act = some t) : Keeps s t := by
  cases step_move h with
  | ingest hi =>
    refine ⟨fun seq hset => ?_, (ingestStep_peer hi).2, fun p hp => ?_⟩
    · rcases (ingestStep_frame hi).2 with hbm | ⟨pkt, rest, -, hbm⟩
      · exact (congrArg (RecvBitmap.isSet · seq) hbm).trans hset
      · refine (congrArg (RecvBitmap.isSet · seq) hbm).trans ?_
        exact RecvBitmap.isSet_setAndTest_of_isSet pkt.seq_lt hset
    · rcases (ingestStep_peer hi).1 with hsame | ⟨hnone, -⟩
      · exact hsame.trans hp
      · rw [hnone] at hp
        cases hp
  | flusher hf =>
    obtain ⟨hpeer, hall⟩ := flusherStep_peer hf
    exact ⟨fun seq => (congrArg (RecvBitmap.isSet · seq) (flusherStep_frame hf).bm).trans, hall.trans,
      fun p => hpeer.trans⟩
  | feedback hfb =>
    obtain ⟨hpeer, hall⟩ := feedbackStep_peer hfb
    exact ⟨fun seq => (congrArg (RecvBitmap.isSet · seq) (feedbackStep_frame hfb).bm).trans, hall.trans,
      fun p => hpeer.trans⟩
  | quiet => exact ⟨fun _ => id, id, fun _ => id⟩

theorem keeps_run {C : State cfg n → Action n → Prop} (h : Steps (step prim) C s as t) : Keeps s t := by
  refine h.invariant (I := Keeps s) (fun u act v hu _ hstep => ?_) ⟨fun _ => id, id, fun _ => id⟩
  have hv := keeps_step hstep
  exact ⟨fun seq hset => hv.bm seq (hu.bm seq hset), fun hall => hv.allSent (hu.allSent hall),
    fun p hp => hv.peer p (hu.peer p hp)⟩

/-- The address that a report goes to. -/
def FeedbackPc.addressed : FeedbackPc → Option SocketAddr
  | .collectDue _ p _ _ _ | .netTick _ p _ | .send _ p _ _ => some p
  | _ => none

theorem feedbackStep_told {fb fb' : Feedback} (h : feedbackStep cfg sh env fb = some (sh', fb')) :
    (fb'.pc.claimsDone = true → fb.pc.claimsDone = true ∨ sh.allSent = true) ∧
      ∀ p ∈ fb'.pc.addressed, p ∈ fb.pc.addressed ∨ sh.peer = some p := by
  cases feedbackStep_cases h with
  | leave | start | rtt | noPeer | again | announced | done =>
    exact ⟨fun hclaim => (by cases hclaim), fun p hp => (by cases hp)⟩
  | complete =>
    refine ⟨fun hclaim => .inr ?_, fun p hp => (by cases hp)⟩
    simp only [FeedbackPc.claimsDone, Bool.and_eq_true] at hclaim
    exact hclaim.1
  | peer hpeer =>
    refine ⟨.inl, fun p hp => .inr ?_⟩
    cases hp
    exact hpeer
  | collectDue | collected | netTick => exact ⟨.inl, fun p hp => .inl hp⟩
  | _ => exact ⟨.inl, fun p hp => (by cases hp)⟩

theorem Intact.told (h : Intact prim a s) :
    (s.feedback.pc.claimsDone = true → s.sh.allSent = true) ∧
      ∀ p ∈ s.feedback.pc.addressed, s.sh.peer = some p := by
  obtain ⟨sink, recv, as, hnew, hrun⟩ := h
  refine hrun.invariant (I := fun s => (s.feedback.pc.claimsDone = true → s.sh.allSent = true) ∧
    ∀ p ∈ s.feedback.pc.addressed, s.sh.peer = some p) (fun u act v hu _ hstep => ?_) ?_
  · have hkeeps := keeps_step hstep
    cases step_move hstep with
    | feedback hfb =>
      obtain ⟨hclaim, haddr⟩ := feedbackStep_told hfb
      exact ⟨fun hset => hkeeps.allSent ((hclaim hset).elim hu.1 id),
        fun p hp => hkeeps.peer p ((haddr p hp).elim (hu.2 p) id)⟩
    | ingest | flusher | quiet =>
      exact ⟨fun hset => hkeeps.allSent (hu.1 hset), fun p hp => hkeeps.peer p (hu.2 p hp)⟩
  · obtain ⟨rate, -, rfl⟩ := Option.map_eq_some_iff.mp hnew
    exact ⟨fun hset => (by cases hset), fun p hp => (by cases hp)⟩

/-! ### The requests -/

/-- When a request that the round makes falls due. -/
def FeedbackPc.schedules : FeedbackPc → Option Nat
  | .scanHoles _ _ due _ => some due
  | .collectDue _ _ reDue _ _ => some reDue
  | _ => none

/-- Every request falls due at last, and a report fits a PDU. -/
structure Timely (cfg : RecvConfig) (fb : Feedback) : Prop where
  heap : ∀ item ∈ fb.scanner.heap, item.due < 2 ^ 64
  schedules : ∀ due ∈ fb.pc.schedules, due < 2 ^ 64
  fits : match fb.pc with
    | .collectDue _ _ _ max out => out.length ≤ max ∧ max ≤ cfg.maxNacksPerPdu
    | .netTick _ _ due | .send _ _ due _ => due.length ≤ cfg.maxNacksPerPdu
    | _ => True

theorem dueAt_lt (fl : ℚ → ℚ) (now rto : ℚ) : LossScanner.dueAt fl now rto < 2 ^ 64 := by
  unfold LossScanner.dueAt asU64
  omega

theorem mem_push {sc : LossScanner} {item x : HeapItem} (h : x ∈ (sc.push item).heap) :
    x = item ∨ x ∈ sc.heap :=
  (List.mem_orderedInsert _).mp h

theorem collectDueIter_length {fl : ℚ → ℚ} {isSet : Nat → Bool} {sc sc' : LossScanner} {now : ℚ}
    {reDue max : Nat} {out out' : List Nat}
    (h : sc.collectDueIter fl isSet now reDue max out = some (sc', out')) :
    out'.length ≤ max := by
  unfold LossScanner.collectDueIter at h
  split_ifs at h with hless
  obtain ⟨top, rest, -, -, ⟨-, -, rfl⟩ | ⟨-, -, rfl⟩ | ⟨-, -, -, rfl⟩⟩ :=
    LossScanner.collectDueIter_eq (by rwa [LossScanner.collectDueIter, if_pos hless])
  · exact hless.le
  · exact hless.le
  · rw [List.length_append]
    exact hless

theorem feedbackStep_timely {fb fb' : Feedback} (hinv : Timely cfg fb)
    (h : feedbackStep cfg sh env fb = some (sh', fb')) : Timely cfg fb' := by
  have hheap := hinv.heap
  have hschedules := hinv.schedules
  have hfits := hinv.fits
  cases feedbackStep_cases h with
  | advance hiter =>
    obtain ⟨-, -, rfl⟩ := LossScanner.advanceIter_eq hiter
    exact ⟨hheap, fun due hdue => (by cases hdue), trivial⟩
  | scan =>
    refine ⟨hheap, fun due hdue => ?_, trivial⟩
    cases hdue
    exact dueAt_lt _ _ _
  | @scanHoles _ _ due _ _ _ _ _ _ hiter =>
    refine ⟨?_, hschedules, trivial⟩
    obtain ⟨-, -, ⟨-, -, rfl⟩ | ⟨-, rfl⟩⟩ := LossScanner.scanHolesIter_eq hiter
    · intro item hitem
      rcases mem_push hitem with rfl | hold
      · exact hschedules due rfl
      · exact hheap item hold
    · exact hheap
  | scanned =>
    refine ⟨?_, fun due hdue => (by cases hdue), trivial⟩
    simp only [LossScanner.scanHolesEnd]
    split_ifs <;> exact hheap
  | @peer l =>
    refine ⟨hheap, fun due hdue => ?_, Nat.zero_le _, nackCap_le cfg l.target⟩
    cases hdue
    exact dueAt_lt _ _ _
  | @collectDue _ _ reDue _ _ _ _ _ _ _ hiter =>
    refine ⟨?_, hschedules, collectDueIter_length hiter, hfits.2⟩
    obtain ⟨top, rest, hcons, -, hcase⟩ := LossScanner.collectDueIter_eq hiter
    have hrest (item : HeapItem) (hitem : item ∈ rest) : item.due < 2 ^ 64 :=
      hheap item (by rw [hcons]; exact List.mem_cons_of_mem _ hitem)
    rcases hcase with ⟨-, rfl, -⟩ | ⟨-, rfl, -⟩ | ⟨-, -, rfl, -⟩
    · exact hrest
    · exact hrest
    · intro item hitem
      rcases mem_push hitem with rfl | hold
      · exact hschedules reDue rfl
      · exact hrest item hold
  | collected => exact ⟨hheap, fun due hdue => (by cases hdue), hfits.1.trans hfits.2⟩
  | netTick => exact ⟨hheap, fun due hdue => (by cases hdue), hfits⟩
  | _ => exact ⟨hheap, fun due hdue => (by cases hdue), trivial⟩

theorem Intact.timely (h : Intact prim a s) : Timely cfg s.feedback := by
  obtain ⟨sink, recv, as, hnew, hrun⟩ := h
  refine hrun.invariant (I := fun s => Timely cfg s.feedback) (fun u act v hu _ hstep => ?_) ?_
  · cases step_move hstep with
    | feedback hfb => exact feedbackStep_timely hu hfb
    | ingest | flusher | quiet => exact hu
  · obtain ⟨rate, -, rfl⟩ := Option.map_eq_some_iff.mp hnew
    exact ⟨fun item hitem => (by cases hitem), fun due hdue => (by cases hdue), trivial⟩

theorem Intact.scan_total (h : Intact prim a s) : s.feedback.scanner.total = cfg.totalBlocks := by
  obtain ⟨sink, recv, as, hnew, hrun⟩ := h
  exact (scanInv_receiver hnew (hrun.mono fun _ _ _ => trivial)).total

theorem Intact.scan (h : Intact prim a s) : s.scanView.ScanInv := by
  obtain ⟨sink, recv, as, hnew, hrun⟩ := h
  exact scanInv_receiver hnew (hrun.mono fun _ _ _ => trivial)

theorem Intact.claim (h : Intact prim a s) : ClaimInv s := by
  obtain ⟨sink, recv, as, hnew, hrun⟩ := h
  exact claimInv_run hnew hrun

theorem Intact.isSet_of_flushed (h : Intact prim a s) (hflushed : s.sh.flushedBlocks = cfg.totalBlocks)
    {seq : Nat} (hseq : seq < cfg.totalBlocks) : s.sh.bm.isSet seq = true := by
  obtain ⟨sink, recv, as, hnew, hrun⟩ := h
  exact Receiver.isSet_of_flushed hnew (hrun.mono fun _ _ _ => trivial) (hseq.trans_eq hflushed.symm)

/-! ### The end -/

theorem Intact.frontier (h : Intact prim a s) : Frontier s := by
  obtain ⟨sink, recv, as, hnew, hrun⟩ := h
  exact frontier_run hnew hrun

theorem Intact.ready (h : Intact prim a s) (hidle : ∀ i, s.workers i = .top) {seq : Nat}
    (hset : s.sh.bm.isSet seq = true) : s.sh.readyBm.isSet seq = true := by
  obtain ⟨sink, recv, as, hnew, hrun⟩ := h
  have hquiet : Quiescent s := fun i => by rw [hidle i]; rfl
  have hok := hrun.mono (D := NoFailure .direct) fun _ _ hC => hC.1.1
  exact (received_ready_iff hnew (hrun.mono fun _ _ _ => trivial) hquiet).mpr hok seq hset

theorem Intact.returns_ok (hready : Ready cfg) (h : Intact prim a s) {res : Except String Unit}
    (hres : s.main = .returned res) : res = .ok () := by
  obtain ⟨sink, recv, as, hnew, hrun⟩ := h
  refine hrun.invariant_of_run (I := fun s => ∀ res, s.main = .returned res → res = .ok ())
    (fun bs u act v hbs hu hC hstep res hres => ?_) ?_ res hres
  · have hawake := Intact.awake hready ⟨sink, recv, bs, hnew, hbs⟩
    cases act with
    | main =>
      simp only [step, mainStep] at hstep
      cases hpc : u.main with
      | joinFlusher =>
        have hdone : u.sh.done = true := hawake.main.resolve_left (by simp [hpc])
        simp only [hpc, (announcing_run hnew hbs).done hdone, ne_eq, not_true_eq_false, if_false] at hstep
        split_ifs at hstep
        cases hstep
        cases hres
        rfl
      | returned res' =>
        simp only [hpc] at hstep
        cases hstep
      | waiting | joinFeedback | joinIngest =>
        simp only [hpc] at hstep
        split_ifs at hstep <;> cases hstep <;> simp_all
      | signal =>
        simp only [hpc] at hstep
        cases hstep
        cases hres
    | ingest i env | flusher env | feedback env | control op =>
      obtain ⟨x, -, rfl⟩ := Option.map_eq_some_iff.mp hstep
      exact hu res hres
    | stop =>
      cases hstep
      exact hu res hres
  · obtain ⟨rate, -, rfl⟩ := Option.map_eq_some_iff.mp hnew
    intro res hres
    cases hres

end Girth.Receiver
