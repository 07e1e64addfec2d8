import Girth.Sender.Pacing
import Girth.Sender.Retransmit
import Girth.Sender.Shutdown

/-!
# What a running sender can still do

A sender that has neither heard of the end nor been stopped (`Running`) is never stuck, whatever has
happened before. Left alone, its pacing loop comes back to its top (`reach_top`), and a turn from there
takes a retransmission, or else a new block, or else notices that there are no more. So it can send
everything it has queued (`reach_drained`), with the prefetch thread everything that there is, and then
a FIN (`reach_fin`). A block that is queued for retransmission gets on the wire (`reach_resent`), and a
FEEDBACK that has been received gets its blocks into the queue (`reach_heard`).
-/

namespace Girth.Sender

open Lib

variable {prim : Primitives} {cfg : SendConfig} {s t : State} {as : List Action}

/-- Some run leads to the state. -/
def Reached (prim : Primitives) (cfg : SendConfig) (s : State) : Prop :=
  ∃ as, Steps (step prim cfg) Any (newSender cfg) as s

theorem Reached.run {C : State → Action → Prop} (h : Reached prim cfg s)
    (hrun : Steps (step prim cfg) C s as t) : Reached prim cfg t := by
  obtain ⟨bs, hbs⟩ := h
  exact ⟨bs ++ as, hbs.append (hrun.mono fun _ _ _ => trivial)⟩

theorem Reached.endInv (h : Reached prim cfg s) : EndInv prim cfg s := by
  obtain ⟨as, hrun⟩ := h
  exact endInv_run hrun

/-! ## What every run keeps -/

/-- A batch has room for a packet, and the ready channel is closed once the prefetch thread has left. -/
structure Supplied (s : State) : Prop where
  batch : 0 < s.pacer.batch
  closed : s.prefetch = .exited → s.sh.readyClosed = true

theorem pacerStep_batch {sh sh' : Shared} {env : Env} {p p' : Pacer} {pc pc' : PacerPc}
    (hpos : 0 < p.batch) (h : pacerStep prim cfg sh env p pc = some (sh', p', pc')) : 0 < p'.batch := by
  cases pacerStep_cases h with
  | rate _ hp' =>
    rw [hp']
    split_ifs
    · exact batchSize_pos cfg _
    · exact hpos
  | _ => exact hpos

theorem Reached.supplied (h : Reached prim cfg s) : Supplied s := by
  obtain ⟨as, hrun⟩ := h
  refine hrun.invariant (I := Supplied) ?_ ⟨batchSize_pos cfg _, fun hpc => (by cases hpc)⟩
  intro s act t hinv _ hstep
  cases step_endMove hstep with
  | prefetch _ hp =>
    refine ⟨hinv.batch, fun hpc => ?_⟩
    have hmove := prefetchStep_move hp
    generalize s.prefetch = pc₀ at hmove
    cases hmove with
    | leave | fail => rfl
    | borrow | retry | take | fill | publish => cases hpc
  | pacer hp =>
    exact ⟨pacerStep_batch hinv.batch hp, fun hpc => (pacerStep_frame hp).readyClosed.trans (hinv.closed hpc)⟩
  | feedback _ hp =>
    exact ⟨hinv.batch, fun hpc => (feedbackStep_frame hp).readyClosed.trans (hinv.closed hpc)⟩
  | join | stop | control => exact ⟨hinv.batch, hinv.closed⟩

theorem step_wire {act : Action} (h : step prim cfg s act = some t) : s.sh.wire <:+ t.sh.wire := by
  cases step_endMove h with
  | prefetch _ hp => exact (prefetchStep_frame hp).wire ▸ List.suffix_rfl
  | @pacer env sh p pc hp =>
    show s.sh.wire <:+ sh.wire
    have hmove := pacerStep_cases hp
    generalize s.pacerPc = pc₀ at hmove
    cases hmove with
    | flush => exact List.suffix_append _ _
    | fin => exact List.suffix_cons _ _
    | _ => exact List.suffix_rfl
  | feedback _ hp => exact (feedbackStep_frame hp).wire ▸ List.suffix_rfl
  | join | stop | control => exact List.suffix_rfl

/-! ## A running sender -/

/-- The pacing loop is in one of its turns. -/
def PacerPc.looping : PacerPc → Bool
  | .waitForPeer | .storeDone _ | .join _ | .returned _ => false
  | .top | .stopCheck | .pauseCheck | .rate | .build _ | .fillRex .. | .stampRex .. | .tryRecv _
  | .stampNew .. | .flush _ | .giveBack _ | .fin => true

/-- The sender is not to end, and its receiver is known. -/
structure Running (s : State) : Prop where
  peer : s.sh.peer.isSome = true
  done : s.sh.done = false
  stop : s.sh.shouldStop = false
  paused : s.sh.isPaused = false
  pacer : s.pacerPc.looping = true

/-- What steps of the pacing loop leave of a state. -/
structure Turned (s t : State) : Prop where
  prefetch : t.prefetch = s.prefetch
  feedback : t.feedback = s.feedback
  rex : t.sh.rex.heap.length ≤ s.sh.rex.heap.length
  ready : t.sh.ready.length ≤ s.sh.ready.length
  closed : t.sh.readyClosed = s.sh.readyClosed
  newDone : s.pacer.newDone = true → t.pacer.newDone = true
  handed : handed s.sh s.pacerPc <+: Sender.handed t.sh t.pacerPc

theorem Turned.refl (s : State) : Turned s s :=
  ⟨rfl, rfl, Nat.le_refl _, Nat.le_refl _, rfl, id, List.prefix_rfl⟩

theorem Turned.trans {u : State} (h : Turned s t) (h' : Turned t u) : Turned s u where
  prefetch := h'.prefetch.trans h.prefetch
  feedback := h'.feedback.trans h.feedback
  rex := h'.rex.trans h.rex
  ready := h'.ready.trans h.ready
  closed := h'.closed.trans h.closed
  newDone hnew := h'.newDone (h.newDone hnew)
  handed := h.handed.trans h'.handed

/-- The steps of the pacing loop. -/
def Paces (_ : State) (act : Action) : Prop := act = .pacer {}

theorem Paces.calm {act : Action} (h : Paces s act) : Calm s act := by
  cases h
  simp [Calm]

theorem pacerStep_turned {sh : Shared} {env : Env} {p : Pacer} {pc : PacerPc}
    (h : pacerStep prim cfg s.sh env s.pacer s.pacerPc = some (sh, p, pc)) :
    Turned s { s with sh := sh, pacer := p, pacerPc := pc } := by
  have hclosed := (pacerStep_frame h).readyClosed
  have hmove := pacerStep_move h
  refine ⟨rfl, rfl, ?_, ?_, hclosed, ?_, ?_⟩ <;> generalize s.pacerPc = pc₀ at hmove
  · cases hmove with
    | quiet _ _ _ _ _ hrex => exact (congrArg (·.heap.length) hrex).le
    | pop _ hpop _ _ hrex =>
      have hlen := pop_length hpop
      simp only [hrex]
      omega
    | fill | stampRex | take | exhausted | stampNew | fin => exact Nat.le_refl _
  · cases hmove with
    | quiet _ _ _ _ hready => exact (congrArg List.length hready).le
    | pop _ _ _ hready => exact (congrArg List.length hready).le
    | take hready =>
      simp only [hready, List.length_cons]
      omega
    | fill | stampRex | exhausted | stampNew | fin => exact Nat.le_refl _
  · intro hnew
    cases hmove with
    | quiet _ _ _ _ _ _ _ hkeep => exact hkeep.trans hnew
    | pop _ _ _ _ _ _ hkeep => exact hkeep.trans hnew
    | stampRex _ _ hkeep => exact hkeep.trans hnew
    | exhausted => rfl
    | fill | take | stampNew | fin => exact hnew
  · cases hmove with
    | quiet _ hhanded => exact hhanded ▸ List.prefix_rfl
    | pop _ _ hwire =>
      simp only [Sender.handed, hwire]
      exact List.prefix_rfl
    | fill | take | exhausted => exact List.prefix_rfl
    | stampRex _ hout =>
      simp only [Sender.handed, PacerPc.out, hout, ← List.append_assoc]
      exact List.prefix_append _ _
    | stampNew hout =>
      simp only [Sender.handed, PacerPc.out, hout, ← List.append_assoc]
      exact List.prefix_append _ _
    | fin =>
      simp only [Sender.handed, PacerPc.out, List.append_nil, List.reverse_cons]
      exact List.prefix_append _ _

theorem pacerStep_looping {sh sh' : Shared} {env : Env} {p p' : Pacer} {pc pc' : PacerPc}
    (hdone : sh.done = false) (hstop : sh.shouldStop = false) (hpc : pc.looping = true)
    (h : pacerStep prim cfg sh env p pc = some (sh', p', pc')) :
    pc'.looping = true ∧ sh'.done = false := by
  cases pacerStep_cases h with
  | giveUp | listen | meet | storeDone => cases hpc
  | finish hset => simp [hdone] at hset
  | stop hset => simp [hstop] at hset
  | _ => exact ⟨rfl, hdone⟩

theorem isPaused_congr {sh sh' : Shared} (h : sh'.control = sh.control) : sh'.isPaused = sh.isPaused := by
  rw [Shared.isPaused, Shared.isPaused, h]

theorem Running.pacerStep {sh : Shared} {env : Env} {p : Pacer} {pc : PacerPc} (hrun : Running s)
    (h : pacerStep prim cfg s.sh env s.pacer s.pacerPc = some (sh, p, pc)) :
    Running { s with sh := sh, pacer := p, pacerPc := pc } := by
  have hflags := pacerStep_flags h
  obtain ⟨hpc, hdone⟩ := pacerStep_looping hrun.done hrun.stop hrun.pacer h
  refine ⟨?_, hdone, hflags.shouldStop.trans hrun.stop, (isPaused_congr hflags.control).trans hrun.paused, hpc⟩
  by_contra hnone
  have hpeer := hflags.peer (by simpa using hnone)
  have hknown := hrun.peer
  rw [hpeer] at hknown
  cases hknown

theorem paces_run (h : Steps (step prim cfg) Paces s as t) (hrun : Running s) :
    Running t ∧ Turned s t := by
  refine h.invariant (I := fun t => Running t ∧ Turned s t) ?_ ⟨hrun, .refl s⟩
  rintro u act v ⟨hu, hsu⟩ rfl hstep
  cases step_endMove hstep with
  | pacer hp => exact ⟨hu.pacerStep hp, hsu.trans (pacerStep_turned hp)⟩

theorem pacer_next (hreach : Reached prim cfg s) (hrun : Running s) :
    ∃ sh p pc, pacerStep prim cfg s.sh {} s.pacer s.pacerPc = some (sh, p, pc) ∧
      step prim cfg s (.pacer {}) = some { s with sh := sh, pacer := p, pacerPc := pc } := by
  have hjoin : ∀ res, s.pacerPc ≠ .join res := fun res hpc => by
    have hlooping := hrun.pacer
    rw [hpc] at hlooping
    cases hlooping
  have hreturned : ∀ res, s.pacerPc ≠ .returned res := fun res hpc => by
    have hlooping := hrun.pacer
    rw [hpc] at hlooping
    cases hlooping
  obtain ⟨⟨sh, p, pc⟩, hp⟩ := Option.isSome_iff_exists.mp
    (pacer_enabled hreach.endInv hjoin hreturned {})
  refine ⟨sh, p, pc, hp, ?_⟩
  rw [step, hp]
  rfl

theorem reach_top (hreach : Reached prim cfg s) (hrun : Running s) :
    Reach (step prim cfg) Paces s fun t => t.pacerPc = .top := by
  refine (reach_of_descent (I := fun s => Reached prim cfg s ∧ Running s)
    (fun s => s.pacerPc.work s.sh s.pacer + s.sh.queued) ?_ ⟨hreach, hrun⟩).imp fun _ _ _ ht => ht.1
  rintro s ⟨hreach, hrun⟩ htop
  obtain ⟨sh, p, pc, hp, hstep⟩ := pacer_next hreach hrun
  have hless := pacerStep_work (fun hpc => absurd hpc htop) (fun hpc => ?_) hp
  · exact .next rfl hstep (.here ⟨⟨hreach.run (.single (C := Paces) rfl hstep), hrun.pacerStep hp⟩, hless⟩)
  · have hlooping := hrun.pacer
    rw [hpc] at hlooping
    cases hlooping

/-! ## A turn -/

theorem reach_build (hsup : Supplied s) (hrun : Running s) (htop : s.pacerPc = .top) :
    Reach (step prim cfg) Paces s fun t => ∃ k, 0 < k ∧ t.pacerPc = .build { toSend := k } ∧
      t.sh.rex = s.sh.rex ∧ t.sh.ready = s.sh.ready ∧ t.sh.wire = s.sh.wire ∧
      t.pacer.newDone = s.pacer.newDone := by
  have hdone : step prim cfg s (.pacer {}) = some { s with pacerPc := .stopCheck } := by
    simp [step, pacerStep, htop, hrun.done]
  have hstop : step prim cfg { s with pacerPc := .stopCheck } (.pacer {}) =
      some { s with pacerPc := .pauseCheck } := by
    simp [step, pacerStep, hrun.stop]
  have hpause : step prim cfg { s with pacerPc := .pauseCheck } (.pacer {}) =
      some { s with pacerPc := .rate } := by
    simp [step, pacerStep, hrun.paused]
  refine .next rfl hdone (.next rfl hstop (.next rfl hpause (.next rfl rfl (.here ?_))))
  refine ⟨_, ?_, rfl, rfl, rfl, rfl, ?_⟩
  · split_ifs
    · exact batchSize_pos cfg _
    · exact hsup.batch
  · split_ifs <;> rfl

theorem Reached.injecting (h : Reached prim cfg s) : ∃ k, Injecting cfg False k s := by
  obtain ⟨as, hrun⟩ := h
  exact injecting_run False (fun _ _ _ hfull => hfull.elim) hrun

theorem Reached.newDone (h : Reached prim cfg s) (hnew : s.pacer.newDone = true) :
    s.sh.readyClosed = true ∧ s.sh.ready = [] := by
  obtain ⟨k, hinj⟩ := h.injecting
  exact hinj.newDone hnew

theorem reach_turn_rex (hreach : Reached prim cfg s) (hrun : Running s) (htop : s.pacerPc = .top)
    (hrex : s.sh.rex.heap ≠ []) : Reach (step prim cfg) Paces s fun t => t.pacerPc = .top ∧
      t.sh.rex.heap.length < s.sh.rex.heap.length := by
  refine (reach_build hreach.supplied hrun htop).trans fun as t hsteps ⟨k, hroom, hpc, hsame, _⟩ => ?_
  have ht := hreach.run hsteps
  have htrun := (paces_run hsteps hrun).1
  obtain ⟨seq, heap, hheap⟩ := List.exists_cons_of_ne_nil hrex
  obtain ⟨sh, p, pc, hp, hstep⟩ := pacer_next ht htrun
  have hpop : sh.rex.heap = heap := by
    rw [hpc] at hp
    simp only [pacerStep, if_pos hroom, RexQueue.pop, hsame, hheap] at hp
    cases hp
    rfl
  have hu := ht.run (.single (C := Paces) rfl hstep)
  refine .next rfl hstep ((reach_top hu (htrun.pacerStep hp)).imp fun bs u hrest htop => ⟨htop, ?_⟩)
  have hle := (paces_run hrest (htrun.pacerStep hp)).2.rex
  rw [hheap, List.length_cons]
  rw [hpop] at hle
  omega

theorem reach_turn_new (hreach : Reached prim cfg s) (hrun : Running s) (htop : s.pacerPc = .top)
    (hrex : s.sh.rex.heap = []) (hready : s.sh.ready ≠ []) :
    Reach (step prim cfg) Paces s fun t => t.pacerPc = .top ∧
      t.sh.ready.length < s.sh.ready.length := by
  refine (reach_build hreach.supplied hrun htop).trans
    fun as t hsteps ⟨k, hroom, hpc, hsame, hsame', _, hnew⟩ => ?_
  have ht := hreach.run hsteps
  have htrun := (paces_run hsteps hrun).1
  obtain ⟨item, ready, heq⟩ := List.exists_cons_of_ne_nil hready
  have hopen : t.pacer.newDone = false := by
    by_contra hclosed
    exact hready ((hreach.newDone (hnew.symm.trans (by simpa using hclosed))).2)
  have htry : pacerStep prim cfg t.sh {} t.pacer t.pacerPc =
      some (t.sh, t.pacer, .tryRecv { toSend := k }) := by
    simp [hpc, pacerStep, hroom, RexQueue.pop, hsame, hrex, hopen]
  have hstep : step prim cfg t (.pacer {}) = some { t with pacerPc := .tryRecv { toSend := k } } := by
    rw [step, htry]
    rfl
  have hu := ht.run (.single (C := Paces) rfl hstep)
  have hurun : Running { t with pacerPc := .tryRecv { toSend := k } } := htrun.pacerStep htry
  obtain ⟨sh, p, pc, hp, hstep'⟩ := pacer_next hu hurun
  have htake : sh.ready = ready := by
    simp only [pacerStep, hsame', heq] at hp
    cases hp
    rfl
  have hv := hu.run (.single (C := Paces) rfl hstep')
  refine .next rfl hstep (.next rfl hstep' ((reach_top hv (hurun.pacerStep hp)).imp
    fun bs u hrest htop => ⟨htop, ?_⟩))
  have hle := (paces_run hrest (hurun.pacerStep hp)).2.ready
  rw [heq, List.length_cons]
  rw [htake] at hle
  omega

theorem step_fin (hpc : s.pacerPc = .fin) (hnew : s.pacer.newDone = true)
    (hrex : s.sh.rex.heap = []) : step prim cfg s (.pacer {}) =
      some { s with sh := { s.sh with wire := finPdu cfg :: s.sh.wire }, pacerPc := .top } := by
  simp [step, pacerStep, hpc, hnew, hrex]

theorem reach_turn_fin (hreach : Reached prim cfg s) (hrun : Running s) (htop : s.pacerPc = .top)
    (hrex : s.sh.rex.heap = []) (hready : s.sh.ready = []) (hclosed : s.sh.readyClosed = true) :
    Reach (step prim cfg) Paces s fun t => t.pacerPc = .top ∧ t.sh.wire = finPdu cfg :: s.sh.wire := by
  have hflush : ∀ (u : State) (k : Nat), u.pacerPc = .build { toSend := k } → u.sh.rex.heap = [] →
      u.pacer.newDone = true → u.sh.wire = s.sh.wire →
      Reach (step prim cfg) Paces u fun t => t.pacerPc = .top ∧ t.sh.wire = finPdu cfg :: s.sh.wire := by
    intro u k hpc hheap hnew hwire
    have hend : step prim cfg u (.pacer {}) = some { u with pacerPc := .flush { toSend := k } } := by
      simp [step, hpc, pacerStep, RexQueue.pop, hheap, hnew]
    refine .next rfl hend (.next rfl rfl (.next rfl rfl (.next rfl (step_fin rfl hnew hheap) ?_)))
    exact .here ⟨rfl, congrArg _ hwire⟩
  refine (reach_build hreach.supplied hrun htop).trans fun as t hsteps ht => ?_
  obtain ⟨k, hroom, hpc, hsame, hsame', hwire, -⟩ := ht
  by_cases hdone : t.pacer.newDone = true
  · exact hflush t k hpc (hsame ▸ hrex) hdone hwire
  · have htry : step prim cfg t (.pacer {}) = some { t with pacerPc := .tryRecv { toSend := k } } := by
      simp [step, hpc, pacerStep, hroom, RexQueue.pop, hsame, hrex, hdone]
    have hclosed' : t.sh.readyClosed = true := (paces_run hsteps hrun).2.closed.trans hclosed
    have hend : step prim cfg { t with pacerPc := .tryRecv { toSend := k } } (.pacer {}) =
        some { t with pacer := { t.pacer with newDone := true }, pacerPc := .build { toSend := k } } := by
      simp [step, pacerStep, hsame', hready, hclosed']
    exact .next rfl htry (.next rfl hend (hflush _ k rfl (hsame ▸ hrex) rfl hwire))

theorem reach_drained (hreach : Reached prim cfg s) (hrun : Running s) :
    Reach (step prim cfg) Paces s fun t =>
      t.pacerPc = .top ∧ t.sh.rex.heap = [] ∧ t.sh.ready = [] := by
  refine (reach_top hreach hrun).trans fun as t hsteps htop => ?_
  refine (reach_of_descent (P := fun t => t.sh.rex.heap = [] ∧ t.sh.ready = [])
    (I := fun t => Reached prim cfg t ∧ Running t ∧ t.pacerPc = .top)
    (fun t => t.sh.rex.heap.length + t.sh.ready.length) ?_
    ⟨hreach.run hsteps, (paces_run hsteps hrun).1, htop⟩).imp fun _ _ _ ht => ⟨ht.2.2.2, ht.1⟩
  rintro t ⟨ht, htrun, htop⟩ hmore
  by_cases hrex : t.sh.rex.heap = []
  · have hready : t.sh.ready ≠ [] := fun hready => hmore ⟨hrex, hready⟩
    refine (reach_turn_new ht htrun htop hrex hready).imp fun bs u hsteps hu => ?_
    obtain ⟨hurun, hturned⟩ := paces_run hsteps htrun
    have hle := hturned.rex
    exact ⟨⟨ht.run hsteps, hurun, hu.1⟩, by omega⟩
  · refine (reach_turn_rex ht htrun htop hrex).imp fun bs u hsteps hu => ?_
    obtain ⟨hurun, hturned⟩ := paces_run hsteps htrun
    have hle := hturned.ready
    exact ⟨⟨ht.run hsteps, hurun, hu.1⟩, by omega⟩

/-! ## The prefetch thread -/

/-- The steps of the pacing loop and of the prefetch thread. -/
def Sends (_ : State) (act : Action) : Prop := act = .pacer {} ∨ act = .prefetch {}

theorem Sends.calm {act : Action} (h : Sends s act) : Calm s act := by
  rcases h with rfl | rfl <;> simp [Calm]

theorem Running.prefetchStep {sh : Shared} {env : Env} {pc : PrefetchPc} (hrun : Running s)
    (h : prefetchStep prim cfg s.sh env s.prefetch = some (sh, pc)) :
    Running { s with sh := sh, prefetch := pc } := by
  have hmove := prefetchStep_move h
  generalize s.prefetch = pc₀ at hmove
  cases hmove <;> exact ⟨hrun.peer, hrun.done, hrun.stop, hrun.paused, hrun.pacer⟩

theorem sends_run (h : Steps (step prim cfg) Sends s as t) (hrun : Running s) :
    Running t ∧ t.feedback = s.feedback ∧
      handed s.sh s.pacerPc <+: handed t.sh t.pacerPc := by
  refine h.invariant (I := fun t => Running t ∧ t.feedback = s.feedback ∧
    handed s.sh s.pacerPc <+: handed t.sh t.pacerPc) ?_ ⟨hrun, rfl, List.prefix_rfl⟩
  rintro u act v ⟨hu, hfeedback, hhanded⟩ (rfl | rfl) hstep
  · cases step_endMove hstep with
    | pacer hp => exact ⟨hu.pacerStep hp, hfeedback, hhanded.trans (pacerStep_turned hp).handed⟩
  · cases step_endMove hstep with
    | @prefetch env sh pc _ hp =>
      have hsame : handed sh u.pacerPc = handed u.sh u.pacerPc := by
        rw [handed, handed, (prefetchStep_frame hp).wire]
      exact ⟨hu.prefetchStep hp, hfeedback, hsame ▸ hhanded⟩

/-- The steps that the prefetch thread has left, if there is always a buffer for it. -/
def PrefetchPc.left (cfg : SendConfig) : PrefetchPc → Nat
  | .borrow seq => 4 * (cfg.totalBlocks.toNat - seq.toNat) + 4
  | .recvFree seq => 4 * (cfg.totalBlocks.toNat - seq.toNat) + 3
  | .fill seq _ => 4 * (cfg.totalBlocks.toNat - seq.toNat) + 2
  | .publish seq _ => 4 * (cfg.totalBlocks.toNat - seq.toNat) + 1
  | .exited => 0

theorem prefetch_next (hcfg : Consistent cfg) (hreach : Reached prim cfg s) (hrun : Running s)
    (htop : s.pacerPc = .top) (hready : s.sh.ready = []) (hpc : s.prefetch ≠ .exited) :
    ∃ t, step prim cfg s (.prefetch {}) = some t ∧ t.prefetch.left cfg < s.prefetch.left cfg := by
  have hinv := hreach.endInv
  obtain ⟨⟨sh, pc⟩, hp⟩ := Option.isSome_iff_exists.mp (prefetch_enabled hcfg hinv hpc {})
  have hstep : step prim cfg s (.prefetch {}) = some { s with sh := sh, prefetch := pc } := by
    simp [step, Option.isSome_iff_ne_none.mp hrun.peer, hp]
  refine ⟨_, hstep, ?_⟩
  have hwhole := hinv.pool.whole hpc
  obtain ⟨k, hinj⟩ := hreach.injecting
  have hat := hinj.reached
  have hle := hinj.le
  unfold State.buffers Shared.buffers at hwhole
  rw [htop, hready] at hwhole
  show pc.left cfg < s.prefetch.left cfg
  have hmove := prefetchStep_move hp
  generalize hs : s.prefetch = pc₀ at *
  cases hmove with
  | leave | fail => simp [PrefetchPc.left]
  | borrow | take | fill => simp [PrefetchPc.left]
  | retry =>
    -- the pool is not empty
    simp only [PrefetchPc.buffers, PacerPc.buffers, List.length_nil] at hwhole
    obtain ⟨buf, free, hfree⟩ := List.exists_cons_of_length_pos (l := s.sh.free)
      (by rw [poolCap] at hwhole; omega)
    simp only [prefetchStep, hfree, Option.some.injEq, Prod.mk.injEq] at hp
    cases hp.2
  | @publish seq item =>
    have hseq : seq.toNat + 1 = k := hat
    have hlt := cfg.totalBlocks.toNat_lt
    have hnext : (seq + 1).toNat = seq.toNat + 1 := by
      rw [UInt64.toNat_add, UInt64.toNat_one, Nat.mod_eq_of_lt (by omega)]
    simp only [PrefetchPc.left, hnext]
    omega

theorem reach_exited (hcfg : Consistent cfg) (hreach : Reached prim cfg s) (hrun : Running s) :
    Reach (step prim cfg) Sends s fun t => t.prefetch = .exited := by
  refine (reach_of_descent (P := fun t => t.prefetch = .exited)
    (I := fun t => Reached prim cfg t ∧ Running t) (fun t => t.prefetch.left cfg) ?_
    ⟨hreach, hrun⟩).imp fun _ _ _ ht => ht.1
  rintro s ⟨hreach, hrun⟩ hpc
  refine ((reach_drained hreach hrun).imp fun as t hsteps ht => (⟨hreach.run hsteps, paces_run hsteps hrun, ht⟩ :
    Reached prim cfg t ∧ (Running t ∧ Turned s t) ∧ _)).mono (D := Sends) (fun _ _ => .inl) |>.trans ?_
  rintro as t - ⟨ht, ⟨htrun, hturned⟩, htop, -, hready⟩
  obtain ⟨u, hstep, hless⟩ := prefetch_next hcfg ht htrun htop hready (hturned.prefetch ▸ hpc)
  rw [hturned.prefetch] at hless
  have hone : Steps (step prim cfg) Sends t [.prefetch {}] u := .single (.inr rfl) hstep
  exact .next (.inr rfl) hstep (.here ⟨⟨ht.run hone, (sends_run hone htrun).1⟩, hless⟩)

/-- **A running sender can say that it has sent everything.** -/
theorem reach_fin (hcfg : Consistent cfg) (hreach : Reached prim cfg s) (hrun : Running s) :
    Reach (step prim cfg) Sends s fun t => finPdu cfg ∈ t.sh.wire.reverse.drop s.sh.wire.length := by
  refine (reach_exited hcfg hreach hrun).trans fun as t hsteps hexited => ?_
  have ht := hreach.run hsteps
  have htrun := sends_run hsteps hrun
  have hclosed := ht.supplied.closed hexited
  refine Reach.mono (C := Paces) ?_ fun _ _ => .inl
  refine (reach_drained ht htrun.1).trans fun bs u hsteps' ⟨htop, hrex, hready⟩ => ?_
  obtain ⟨hurun, hturned⟩ := paces_run hsteps' htrun.1
  refine (reach_turn_fin (ht.run hsteps') hurun htop hrex hready (hturned.closed.trans hclosed)).imp
    fun cs v hsteps'' ⟨_, hwire⟩ => ?_
  have hlen := (htrun.2.2.trans hturned.handed).length_le
  simp only [handed, htop, PacerPc.out, List.length_append, List.length_reverse, List.length_nil] at hlen
  rw [hwire, List.reverse_cons, List.drop_append_of_le_length (by rw [List.length_reverse]; omega)]
  exact List.mem_append_right _ (List.mem_singleton.mpr rfl)

/-! ## A retransmission -/

/-- A DATA PDU with the bytes that the source has for the block. -/
def OfBlock (prim : Primitives) (cfg : SendConfig) (seq : UInt64) (d : Bytes) : Prop :=
  ∃ payload, blockOf cfg seq = some payload ∧ payload.length ≤ cfg.blockSize ∧
    IsData prim cfg seq payload d

/-- The retransmission of the block is being built. -/
def OnItsWay (prim : Primitives) (cfg : SendConfig) (seq : UInt64) (p : Pacer) : PacerPc → Prop
  | .fillRex _ seq' => seq' = seq
  | .stampRex b size => ∀ buf, p.rexScratch[b.rexIdx]? = some buf → OfBlock prim cfg seq (buf.take size)
  | _ => False

/-- The block is queued, or being built, or has been handed over since the first `k` PDUs. -/
def Owed (prim : Primitives) (cfg : SendConfig) (seq : UInt64) (k : Nat) (s : State) : Prop :=
  seq ∈ s.sh.rex.heap ∨ OnItsWay prim cfg seq s.pacer s.pacerPc ∨
    ∃ d ∈ (handed s.sh s.pacerPc).drop k, OfBlock prim cfg seq d

theorem mem_heap_of_pop {q rex : RexQueue} {seq x : UInt64} (h : q.pop = some (seq, rex))
    (hx : x ∈ q.heap) : x = seq ∨ x ∈ rex.heap := by
  unfold RexQueue.pop at h
  split at h
  · cases h
  · rename_i hheap
    cases h
    rw [hheap] at hx
    exact List.mem_cons.mp hx

theorem fillRetransmit_built (prim : Primitives) {seq : UInt64} {buf : Bytes} (hcfg : Consistent cfg)
    (hseq : seq < cfg.totalBlocks) (hread : (blockOf cfg seq).isSome = true)
    (hbuf : buf.length = bufLen cfg) :
    ∃ item sealed, fillRetransmit prim cfg {} buf seq = .pdu item sealed ∧
      OfBlock prim cfg seq (item.buf.take item.size) := by
  have hin := (lt_totalBlocks_iff hcfg).mp hseq
  have hlen : plen cfg seq ≤ cfg.blockSize := by
    rw [plen_of_lt hin]
    omega
  rw [fillRetransmit_of_lt hcfg.blockSize_pos hin]
  obtain ⟨item, sealed, hbuild⟩ := (buildPdu_iff_block hbuf hlen).mpr hread
  obtain ⟨payload, hblock, hle, hdata, -⟩ := buildPdu_spec hbuf hbuild
  exact ⟨item, sealed, hbuild, payload, hblock, hle, hdata⟩

theorem owed_step {seq : UInt64} {k : Nat} {sh : Shared} {p : Pacer} {pc : PacerPc}
    (hcfg : Consistent cfg) (hreach : Reached prim cfg s) (hseq : seq < cfg.totalBlocks)
    (hread : (blockOf cfg seq).isSome = true) (hk : k ≤ (handed s.sh s.pacerPc).length)
    (howed : Owed prim cfg seq k s)
    (h : pacerStep prim cfg s.sh {} s.pacer s.pacerPc = some (sh, p, pc)) :
    Owed prim cfg seq k { s with sh := sh, pacer := p, pacerPc := pc } := by
  rcases howed with hqueued | hway | ⟨d, hd, hof⟩
  · have hmove := pacerStep_move h
    generalize s.pacerPc = pc₀ at hmove
    cases hmove with
    | quiet _ _ _ _ _ hrex => exact .inl (hrex ▸ hqueued)
    | pop _ hpop _ _ hrex =>
      rcases mem_heap_of_pop hpop hqueued with rfl | hrest
      · exact .inr (.inl rfl)
      · exact .inl (hrex ▸ hrest)
    | fill | stampRex | take | exhausted | stampNew | fin => exact .inl hqueued
  · have hinv := hreach.endInv
    have hcounts := hinv.counts
    have hscratch := hinv.sender.pacing.scratch
    generalize hpc : s.pacerPc = pc₀ at *
    cases pc₀ with
    | fillRex b seq' =>
      cases hway
      have hbuf := List.getElem?_eq_getElem hcounts.2
      obtain ⟨item, sealed, hfill, hof⟩ := fillRetransmit_built prim hcfg hseq hread
        (hscratch _ (List.getElem_mem hcounts.2))
      simp only [pacerStep, hbuf, hfill] at h
      cases h
      refine .inr (.inl fun buf hget => ?_)
      rw [List.getElem?_set_self hcounts.2] at hget
      cases hget
      exact hof
    | stampRex b size =>
      obtain ⟨payload, hblock, hle, hdata⟩ := hway _ (List.getElem?_eq_getElem hcounts.2)
      simp only [pacerStep, List.getElem?_eq_getElem hcounts.2] at h
      cases h
      refine .inr (.inr ⟨_, ?_, payload, hblock, hle, attachTick_isData s.sh.tick 0 hdata⟩)
      simp only [handed, PacerPc.out, ← List.append_assoc] at hk ⊢
      rw [List.drop_append_of_le_length hk]
      exact List.mem_append_right _ (List.mem_singleton.mpr rfl)
    | _ => cases hway
  · exact .inr (.inr ⟨d, ((pacerStep_turned h).handed.drop k).subset hd, hof⟩)

/-- **A queued block can be retransmitted.** -/
theorem reach_resent {seq : UInt64} (hcfg : Consistent cfg) (hreach : Reached prim cfg s)
    (hrun : Running s) (hqueued : seq ∈ s.sh.rex.heap) (hseq : seq < cfg.totalBlocks)
    (hread : (blockOf cfg seq).isSome = true) :
    Reach (step prim cfg) Paces s fun t =>
      ∃ d ∈ t.sh.wire.reverse.drop s.sh.wire.length, OfBlock prim cfg seq d := by
  refine (reach_drained hreach hrun).imp fun as t hsteps ⟨htop, hrex, _⟩ => ?_
  have howed : Owed prim cfg seq s.sh.wire.length t := by
    refine hsteps.invariant_of_run (I := Owed prim cfg seq s.sh.wire.length) ?_ (.inl hqueued)
    rintro bs u act v hbs howed rfl hstep
    have hlen := (paces_run hbs hrun).2.handed.length_le
    cases step_endMove hstep with
    | pacer hp =>
      refine owed_step hcfg (hreach.run hbs) hseq hread ?_ howed hp
      rw [handed, List.length_append, List.length_reverse] at hlen
      omega
  rcases howed with hin | hway | hsent
  · rw [hrex] at hin
    cases hin
  · rw [htop] at hway
    exact hway.elim
  · simpa only [handed, htop, PacerPc.out, List.append_nil] using hsent

/-! ## The feedback thread -/

/-- The steps of the feedback thread. -/
def Listens (_ : State) (act : Action) : Prop := act = .feedback {}

theorem Listens.calm {act : Action} (h : Listens s act) : Calm s act := by
  cases h
  simp [Calm]

/-- The thread is about to set `done`. -/
def FeedbackPc.heeds : FeedbackPc → Bool
  | .setTick fh _ _ | .pushNacks fh _ | .storeRate fh | .storeHi fh => fh.done
  | .storeDone => true
  | .top | .recv | .exited => false

/-- What steps of the feedback thread leave of a state. -/
structure Heard (s t : State) : Prop where
  running : Running t
  attentive : t.feedback ≠ .exited ∧ t.feedback.heeds = false
  wire : t.sh.wire = s.sh.wire
  pacerPc : t.pacerPc = s.pacerPc
  rex : ∀ seq ∈ s.sh.rex.heap, seq ∈ t.sh.rex.heap

theorem mem_heap_push {q : RexQueue} {seq x : UInt64} (hx : x ∈ q.heap) : x ∈ (q.push seq).heap := by
  unfold RexQueue.push
  split_ifs
  · exact hx
  · exact (List.mem_orderedInsert _).mpr (.inr hx)

theorem mem_heap_pushAll {q : RexQueue} (nacks : List NackEntry) {x : UInt64} (hx : x ∈ q.heap) :
    x ∈ (q.pushAll nacks).heap := by
  induction nacks generalizing q with
  | nil => exact hx
  | cons n nacks ih => exact ih (mem_heap_push hx)

theorem nacked_pushAll {q : RexQueue} {nacks : List NackEntry} (hq : ∀ x ∈ q.set, x ∈ q.heap)
    {n : NackEntry} (hn : n ∈ nacks) : n.blockSeq ∈ (q.pushAll nacks).heap := by
  induction nacks generalizing q with
  | nil => cases hn
  | cons m nacks ih =>
    have hpushed : m.blockSeq ∈ (q.push m.blockSeq).heap := by
      unfold RexQueue.push
      split_ifs with hin
      · exact hq _ hin
      · exact (List.mem_orderedInsert _).mpr (.inl rfl)
    rcases List.mem_cons.mp hn with rfl | hn
    · exact mem_heap_pushAll nacks hpushed
    · refine ih (fun x hx => ?_) hn
      by_cases hxm : x = m.blockSeq
      · exact hxm ▸ hpushed
      · refine mem_heap_push (hq x ?_)
        simp only [RexQueue.push] at hx
        split_ifs at hx
        · exact hx
        · exact (Finset.mem_insert.mp hx).resolve_left hxm

theorem Reached.queue (h : Reached prim cfg s) : ∀ x ∈ s.sh.rex.set, x ∈ s.sh.rex.heap := by
  obtain ⟨as, hrun⟩ := h
  obtain ⟨ops, r, hops, hq⟩ := rex_run hrun
  intro x hx
  rw [← hq] at hx ⊢
  exact ((RexRun.correct_run hops).mem x).mpr hx

theorem feedbackStep_heard {sh : Shared} {pc : FeedbackPc} (hrun : Running s)
    (hpc : s.feedback ≠ .exited ∧ s.feedback.heeds = false)
    (h : feedbackStep cfg s.sh {} s.feedback = some (sh, pc)) :
    Heard s { s with sh := sh, feedback := pc } := by
  obtain ⟨hne, hheeds⟩ := hpc
  have hstep := feedbackStep_cases h
  generalize s.feedback = pc₀ at *
  cases hstep with
  | leave hend => simp [hrun.done, hrun.stop] at hend
  | fatal hrecv => cases hrecv
  | arrive hrecv => cases hrecv
  | last hdone =>
    cases hheeds.symm.trans hdone
  | storeDone => cases hheeds
  | @pushNacks fh nacks =>
    exact ⟨⟨hrun.peer, hrun.done, hrun.stop, hrun.paused, hrun.pacer⟩, ⟨by simp, hheeds⟩, rfl, rfl,
      fun _ => mem_heap_pushAll nacks⟩
  | listen | storeHi =>
    exact ⟨⟨hrun.peer, hrun.done, hrun.stop, hrun.paused, hrun.pacer⟩, ⟨by simp, rfl⟩, rfl, rfl,
      fun _ => id⟩
  | ignore | setTick | noNacks | storeRate | noRate =>
    exact ⟨⟨hrun.peer, hrun.done, hrun.stop, hrun.paused, hrun.pacer⟩, ⟨by simp, hheeds⟩, rfl, rfl,
      fun _ => id⟩

theorem listens_run (h : Steps (step prim cfg) Listens s as t) (hrun : Running s)
    (hpc : s.feedback ≠ .exited ∧ s.feedback.heeds = false) : Heard s t := by
  refine h.invariant (I := Heard s) ?_ ⟨hrun, hpc, rfl, rfl, fun _ => id⟩
  rintro u act v hu rfl hstep
  cases step_endMove hstep with
  | feedback _ hp =>
    have hv := feedbackStep_heard hu.running hu.attentive hp
    exact ⟨hv.running, hv.attentive, hv.wire.trans hu.wire, hv.pacerPc.trans hu.pacerPc,
      fun seq hseq => hv.rex seq (hu.rex seq hseq)⟩

theorem feedback_next (prim : Primitives) (cfg : SendConfig) (hpeer : s.sh.peer.isSome = true) (hpc : s.feedback ≠ .exited) :
    ∃ sh pc, feedbackStep cfg s.sh {} s.feedback = some (sh, pc) ∧
      step prim cfg s (.feedback {}) = some { s with sh := sh, feedback := pc } := by
  obtain ⟨⟨sh, pc⟩, hp⟩ := Option.isSome_iff_exists.mp (feedback_enabled hpc s.sh {})
  exact ⟨sh, pc, hp, by simp [step, Option.isSome_iff_ne_none.mp hpeer, hp]⟩

/-- The steps to the next call of `recv_from`, or to `done`. -/
def FeedbackPc.left : FeedbackPc → Nat
  | .setTick .. => 5
  | .pushNacks .. => 4
  | .storeRate _ => 3
  | .storeHi _ => 2
  | .storeDone | .top => 1
  | .recv | .exited => 0

theorem feedbackStep_left {sh sh' : Shared} {pc pc' : FeedbackPc} (hpc : pc ≠ .recv)
    (h : feedbackStep cfg sh {} pc = some (sh', pc')) : pc'.left < pc.left := by
  cases feedbackStep_cases h with
  | ignore | fatal | arrive => exact absurd rfl hpc
  | _ => simp [FeedbackPc.left]

theorem reach_recv (hrun : Running s) (hpc : s.feedback ≠ .exited ∧ s.feedback.heeds = false) :
    Reach (step prim cfg) Listens s fun t => t.feedback = .recv := by
  refine (reach_of_descent (P := fun t => t.feedback = .recv) (I := Heard s) (fun t => t.feedback.left)
    ?_ ⟨hrun, hpc, rfl, rfl, fun _ => id⟩).imp fun _ _ _ ht => ht.1
  intro t ht hne
  obtain ⟨sh, pc, hp, hstep⟩ := feedback_next prim cfg ht.running.peer ht.attentive.1
  have hu := feedbackStep_heard ht.running ht.attentive hp
  refine .next rfl hstep (.here ⟨⟨hu.running, hu.attentive, hu.wire.trans ht.wire,
    hu.pacerPc.trans ht.pacerPc, fun seq hseq => hu.rex seq (ht.rex seq hseq)⟩, ?_⟩)
  exact feedbackStep_left hne hp

theorem reach_heard {fh : FeedbackHeader} {nacks : List NackEntry} {t2 : UInt64}
    (hreach : Reached prim cfg s) (hpeer : s.sh.peer.isSome = true)
    (hpc : s.feedback = .setTick fh nacks t2) :
    Reach (step prim cfg) Listens s fun t => ∀ n ∈ nacks, n.blockSeq ∈ t.sh.rex.heap := by
  have hknown : s.sh.peer ≠ none := Option.isSome_iff_ne_none.mp hpeer
  have hqueue := hreach.queue
  refine .next (t := { s with
      sh := { s.sh with tick := ⟨true, fh.tick, fh.tickIsNetwork, t2⟩ }, feedback := .pushNacks fh nacks })
    rfl ?_ ?_
  · simp [step, hknown, hpc, feedbackStep]
  · by_cases hempty : nacks = []
    · subst hempty
      exact .here fun n hn => (by cases hn)
    · obtain ⟨sh, pc, hp, hstep⟩ := feedback_next prim cfg (s := { s with
        sh := { s.sh with tick := ⟨true, fh.tick, fh.tickIsNetwork, t2⟩ },
        feedback := .pushNacks fh nacks }) hpeer (by simp)
      refine .next rfl hstep (.here fun n hn => ?_)
      simp only [feedbackStep, List.isEmpty_eq_false_iff.mpr hempty] at hp
      cases hp
      exact nacked_pushAll hqueue hn

theorem reach_done (hpeer : s.sh.peer.isSome = true) (hheeds : s.feedback.heeds = true) :
    Reach (step prim cfg) Listens s fun t => t.sh.done = true := by
  refine (reach_of_descent (P := fun t => t.sh.done = true)
    (I := fun t => t.sh.done = true ∨ t.sh.peer.isSome = true ∧ t.feedback.heeds = true)
    (fun t => t.feedback.left) ?_ (.inr ⟨hpeer, hheeds⟩)).imp fun _ _ _ ht => ht.1
  intro t ht hdone
  obtain ⟨hpeer, hheeds⟩ := ht.resolve_left hdone
  have hne : t.feedback ≠ .exited ∧ t.feedback ≠ .recv := by
    constructor <;> intro hpc <;> rw [hpc] at hheeds <;> cases hheeds
  obtain ⟨sh, pc, hp, hstep⟩ := feedback_next prim cfg hpeer hne.1
  refine .next rfl hstep (.here ⟨?_, feedbackStep_left hne.2 hp⟩)
  have hmove := feedbackStep_cases hp
  generalize t.feedback = pc₀ at *
  cases hmove with
  | leave | listen | ignore | fatal | arrive => cases hheeds
  | storeHi hset => cases hset.symm.trans hheeds
  | storeDone => exact .inl rfl
  | last => exact .inr ⟨hpeer, rfl⟩
  | _ => exact .inr ⟨hpeer, hheeds⟩

end Girth.Sender
