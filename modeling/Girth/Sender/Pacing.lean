import Girth.Lib.Deadline
import Girth.Sender.Wire

/-!
# Pacing

The pacing loop sends one batch per iteration and keeps to absolute deadlines, `ipd_us` microseconds
apart. `Paced` is the sender with the part of the loop that its machine leaves out: `ipd_us`,
`next_deadline`, and the step between two iterations that moves the deadline and sleeps. Every step of
the loop has its own clock reading, so sends may take any time and sleeps may be long; a sleep may end
one microsecond early, because `precise_sleep_us` cuts off the fraction (`preciseSleepUs_early`).

With a fixed rate the loop is one of those of `Lib.Deadline`, with a lag of 100 steps, and the bound
on its bursts is the one for these (`bursts_bounded`).
-/

namespace Girth.Sender

open Lib

/-! ## Batches -/

section batch

variable (cfg : SendConfig)

/-- `ipd_us` as `recompute` sets it: the microseconds per batch. -/
def ipdUs (rate : Nat) : ℚ :=
  let rate := max rate 1
  let blockBits : ℚ := ((cfg.blockSize + dataHeaderSize : Nat) : ℚ) * 8
  let ipd : ℚ := blockBits / rate * 1000000
  if ipd < 5000 then blockBits * batchSize cfg rate / rate * 1000000 else ipd

theorem batchSize_pos (rate : Nat) : 1 ≤ batchSize cfg rate := by
  unfold batchSize
  dsimp only
  split <;> omega

theorem batchSize_max (rate : Nat) : batchSize cfg (max rate 1) = batchSize cfg rate := by
  simp only [batchSize, max_self, max_assoc]

theorem ipdUs_max (rate : Nat) : ipdUs cfg (max rate 1) = ipdUs cfg rate := by
  simp only [ipdUs, max_self, max_assoc]

theorem ipdUs_eq (rate : Nat) : ipdUs cfg rate =
    ((batchSize cfg rate * (cfg.blockSize + dataHeaderSize) * 8 : Nat) : ℚ) / (max rate 1 : Nat) *
      1000000 := by
  have hbatch : ¬ ((cfg.blockSize + dataHeaderSize : Nat) : ℚ) * 8 / (max rate 1 : Nat) * 1000000 < 5000 →
      batchSize cfg rate = 1 := fun h => if_neg h
  unfold ipdUs
  dsimp only
  rw [batchSize_max]
  split
  · push_cast
    ring
  · rename_i h
    rw [hbatch h]
    push_cast
    ring

theorem ipdUs_pos (rate : Nat) : 0 < ipdUs cfg rate := by
  have hbatch : 0 < batchSize cfg rate := batchSize_pos cfg rate
  rw [ipdUs_eq]
  have hbits : 0 < batchSize cfg rate * (cfg.blockSize + dataHeaderSize) * 8 := by
    simp only [dataHeaderSize]
    positivity
  have hrate : 0 < max rate 1 := lt_max_of_lt_right one_pos
  positivity

theorem rate_of_batch {rate : Nat} (hrate : 1 ≤ rate) :
    ((batchSize cfg rate * (cfg.blockSize + dataHeaderSize) * 8 : Nat) : ℚ) / ipdUs cfg rate *
      1000000 = rate := by
  have hpos := ipdUs_pos cfg rate
  have heq := ipdUs_eq cfg rate
  rw [max_eq_left hrate] at heq
  have hrate : (0 : ℚ) < rate := by exact_mod_cast hrate
  rw [div_mul_eq_mul_div, div_eq_iff hpos.ne', heq]
  field_simp

end batch

variable {prim : Primitives} {cfg : SendConfig}

/-! ## The loop with its deadline -/

/-- Where the pacing loop is in an iteration. -/
inductive Phase
  | waiting
  | idle
  | pauseCheck
  | rate
  | building
  | flush
  | flushed
  | fin
  deriving DecidableEq

def PacerPc.phase : PacerPc → Phase
  | .waitForPeer => .waiting
  | .top | .stopCheck | .storeDone _ | .join _ | .returned _ => .idle
  | .pauseCheck => .pauseCheck
  | .rate => .rate
  | .build _ | .fillRex .. | .stampRex .. | .tryRecv _ | .stampNew .. => .building
  | .flush _ => .flush
  | .giveBack _ => .flushed
  | .fin => .fin

/-- A sender with the deadline of its pacing loop. -/
structure Paced where
  send : State
  ipdUs : ℚ
  nextDeadline : ℚ
  /-- The iteration is over but for its deadline. -/
  due : Bool := false
  /-- The last clock reading of the pacing loop. -/
  clock : Nat
  log : List (PaceEvent ℚ) := []

inductive PacedAct
  | sender (act : Action)
  /-- The end of an iteration at `now`; if it sleeps, until `wake`. -/
  | deadline (now wake : UInt64)

namespace Paced

variable (prim cfg)

/-- What a step of the pacing loop does to the deadline. -/
def afterPacer (s : Paced) (env : Env) (send : State) : Paced :=
  let now := env.now.toNat
  let s' := { s with send := send, clock := now }
  match s.send.pacerPc.phase with
  | .waiting => { s' with nextDeadline := now }
  | .pauseCheck =>
    if s.send.sh.isPaused then { s' with nextDeadline := now, log := .pause now :: s.log } else s'
  | .rate =>
    let r := effectiveRate s.send.sh.control s.send.sh.targetBps
    { s' with ipdUs := if r ≠ s.send.pacer.curRate then Sender.ipdUs cfg r else s.ipdUs }
  | .flush => { s' with log := .flush now :: s.log }
  | .fin => { s' with due := true }
  | .idle | .building | .flushed => s'

def step (s : Paced) : PacedAct → Option Paced
  | .sender (.pacer env) =>
    if s.due then none
    else (Sender.step prim cfg s.send (.pacer env)).map (s.afterPacer cfg env)
  | .sender act => (Sender.step prim cfg s.send act).map fun send => { s with send := send }
  | .deadline now wake =>
    if s.due then
      let nextDeadline := s.nextDeadline + s.ipdUs
      if (now.toNat : ℚ) < nextDeadline then
        some { s with nextDeadline := nextDeadline, clock := wake.toNat, due := false }
      else if (now.toNat : ℚ) - nextDeadline > 100 * s.ipdUs then
        some { s with nextDeadline := now.toNat, clock := now.toNat, due := false }
      else some { s with nextDeadline := nextDeadline, clock := now.toNat, due := false }
    else none

/-- The start of the sender, and of the pacing loop if the receiver's address is known. -/
def start (now : UInt64) : Paced where
  send := newSender cfg
  ipdUs := Sender.ipdUs cfg (initRate cfg)
  nextDeadline := now.toNat
  clock := now.toNat

end Paced

/-- The clock is monotone, the rate is fixed, and a sleep ends at most one microsecond early. -/
def Schedule (rate : Nat) (s : Paced) : PacedAct → Prop
  | .sender (.pacer env) => s.clock ≤ env.now.toNat ∧
      (s.send.pacerPc.phase = .rate → effectiveRate s.send.sh.control s.send.sh.targetBps = rate)
  | .sender _ => True
  | .deadline now wake => s.clock ≤ now.toNat ∧ now.toNat ≤ wake.toNat ∧
      ((now.toNat : ℚ) < s.nextDeadline + s.ipdUs → s.nextDeadline + s.ipdUs ≤ wake.toNat + 1)

instance (rate : Nat) (s : Paced) : (act : PacedAct) → Decidable (Schedule rate s act)
  | .sender (.pacer env) => inferInstanceAs (Decidable (s.clock ≤ env.now.toNat ∧
      (s.send.pacerPc.phase = .rate → effectiveRate s.send.sh.control s.send.sh.targetBps = rate)))
  | .sender (.prefetch _) | .sender (.feedback _) | .sender .join | .sender .stop
  | .sender (.control _) => .isTrue trivial
  | .deadline now wake => inferInstanceAs (Decidable (s.clock ≤ now.toNat ∧ now.toNat ≤ wake.toNat ∧
      ((now.toNat : ℚ) < s.nextDeadline + s.ipdUs → s.nextDeadline + s.ipdUs ≤ wake.toNat + 1)))

/-- `precise_sleep_us`, from the clock readings it gets: the first one sets its deadline, and it returns
at the first of the others that has reached it. -/
def preciseSleepUs (us : ℚ) (first : UInt64) (others : List UInt64) : Option UInt64 :=
  others.find? fun now => ¬ now < first + UInt64.ofNat (asU64 us)

theorem preciseSleepUs_early {deadline : ℚ} {now first wake : UInt64} {others : List UInt64}
    (hnow : now ≤ first) (hlt : first.toNat + deadline < 2 ^ 64 + now.toNat)
    (hsleep : (now.toNat : ℚ) < deadline)
    (h : preciseSleepUs (deadline - now.toNat) first others = some wake) :
    deadline ≤ wake.toNat + 1 := by
  have hreached := List.find?_some h
  rw [decide_eq_true_eq, UInt64.lt_iff_toNat_lt, UInt64.toNat_add, UInt64.toNat_ofNat'] at hreached
  have hfloor : deadline - now.toNat < (deadline - now.toNat).floor + 1 := Int.lt_floor_add_one _
  have hle : ((deadline - now.toNat).floor : ℚ) ≤ deadline - now.toNat := Int.floor_le _
  unfold asU64 at hreached
  generalize (deadline - now.toNat).floor = us at *
  have hnow : (now.toNat : ℚ) ≤ first.toNat := Nat.cast_le.mpr (UInt64.le_iff_toNat_le.mp hnow)
  -- the deadline is in the future, and the sum does not wrap
  have hneg : -1 < us := by
    have : ((-1 : ℤ) : ℚ) < us := by push_cast; linarith
    exact_mod_cast this
  have hsum : (first.toNat : ℤ) + us < 2 ^ 64 := by
    have : ((first.toNat + us : ℤ) : ℚ) < ((2 ^ 64 : ℤ) : ℚ) := by push_cast; linarith
    exact_mod_cast this
  have hwake : (first.toNat : ℤ) + us ≤ wake.toNat := by omega
  have hwake : (first.toNat : ℚ) + us ≤ wake.toNat := by exact_mod_cast hwake
  linarith

/-! ## One step -/

/-- How the pacing loop goes through an iteration, and what becomes of `cur_rate`. -/
inductive PhaseMove (r cur : Nat) : Phase → Phase → Nat → Prop
  | wait : PhaseMove r cur .waiting .waiting cur
  | meet : PhaseMove r cur .waiting .idle cur
  | idle : PhaseMove r cur .idle .idle cur
  | enter : PhaseMove r cur .idle .pauseCheck cur
  | pause : PhaseMove r cur .pauseCheck .idle cur
  | proceed : PhaseMove r cur .pauseCheck .rate cur
  | rate : PhaseMove r cur .rate .building (if r ≠ cur then max r 1 else cur)
  | build : PhaseMove r cur .building .building cur
  | full : PhaseMove r cur .building .flush cur
  | flush : PhaseMove r cur .flush .flushed cur
  | giveBack : PhaseMove r cur .flushed .flushed cur
  | given : PhaseMove r cur .flushed .fin cur
  | fin : PhaseMove r cur .fin .idle cur

theorem pacerStep_phase {sh sh' : Shared} {env : Env} {p p' : Pacer} {pc pc' : PacerPc}
    (h : pacerStep prim cfg sh env p pc = some (sh', p', pc')) :
    PhaseMove (effectiveRate sh.control sh.targetBps) p.curRate pc.phase pc'.phase p'.curRate := by
  cases pacerStep_cases h with
  | giveUp | meet => exact .meet
  | listen => exact .wait
  | finish | turn | stop | storeDone => exact .idle
  | goOn => exact .enter
  | pause => exact .pause
  | proceed => exact .proceed
  | rate hr hp' =>
    have hcur : p'.curRate = if effectiveRate sh.control sh.targetBps ≠ p.curRate then
        max (effectiveRate sh.control sh.targetBps) 1 else p.curRate := by
      rw [hp', hr]
      split_ifs <;> rfl
    rw [hcur]
    exact .rate
  | close => exact .full
  | flush => exact .flush
  | giveBack => exact .giveBack
  | given => exact .given
  | fin | again => exact .fin
  | pop | seek | skip | fill | stampRex | take | exhausted | empty | stampNew => exact .build

/-- The batch of this iteration has been flushed. -/
def Phase.isFlushed : Phase → Bool
  | .flushed | .fin => true
  | .waiting | .idle | .pauseCheck | .rate | .building | .flush => false

/-- This iteration has looked at the rate. -/
def Phase.isRated : Phase → Bool
  | .building | .flush | .flushed | .fin => true
  | .waiting | .idle | .pauseCheck | .rate => false

/-- The invariant of a loop at a fixed rate. -/
structure PaceInv (cfg : SendConfig) (rate : Nat) (ph : Phase) (due : Bool) (cur : Nat) (ipd d : ℚ)
    (clock : Nat) (log : List (PaceEvent ℚ)) : Prop where
  ipd : ipd = ipdUs cfg cur
  rated : (due || ph.isRated) = true → cur = rate
  waiting : ph = .waiting → log = []
  idle : due = true → ph = .idle
  paces : Paces (ipdUs cfg rate) (100 * ipdUs cfg rate) 1 log d clock (due || ph.isFlushed)

def PacedInv (cfg : SendConfig) (rate : Nat) (s : Paced) : Prop :=
  PaceInv cfg rate s.send.pacerPc.phase s.due s.send.pacer.curRate s.ipdUs s.nextDeadline s.clock s.log

section inv

variable {rate cur clock now : Nat} {ph ph' : Phase} {ipd d : ℚ} {log : List (PaceEvent ℚ)}

theorem PaceInv.move (h : PaceInv cfg rate ph false cur ipd d clock log) (hnow : clock ≤ now)
    (hrated : ph'.isRated = true → ph.isRated = true) (hwaiting : ph' ≠ .waiting)
    (hflushed : ph'.isFlushed = ph.isFlushed) :
    PaceInv cfg rate ph' false cur ipd d now log := by
  refine ⟨h.ipd, fun hr => h.rated (hrated hr), fun hw => absurd hw hwaiting,
    fun hd => (by cases hd), ?_⟩
  have hpaces := h.paces.wait (Nat.cast_le.mpr hnow)
  rw [← hflushed] at hpaces
  exact hpaces

theorem PaceInv.pause (h : PaceInv cfg rate .pauseCheck false cur ipd d clock log)
    (hnow : clock ≤ now) (hrated : ph'.isRated = false) (hwaiting : ph' ≠ .waiting)
    (hflushed : ph'.isFlushed = false) :
    PaceInv cfg rate ph' false cur ipd now now (.pause now :: log) := by
  refine ⟨h.ipd, fun hr => ?_, fun hw => absurd hw hwaiting,
    fun hd => (by cases hd), ?_⟩
  · rw [hrated] at hr
    cases hr
  · rw [hflushed]
    exact h.paces.pause zero_le_one (Nat.cast_le.mpr hnow)

theorem PaceInv.start (hipd : ipd = ipdUs cfg cur) (hrated : ph'.isRated = false)
    (hflushed : ph'.isFlushed = false) : PaceInv cfg rate ph' false cur ipd now now [] := by
  refine ⟨hipd, fun hr => ?_, fun _ => rfl, fun hd => (by cases hd), ?_⟩
  · rw [hrated] at hr
    cases hr
  · rw [hflushed]
    exact .start zero_le_one _

theorem PaceInv.setRate {r : Nat} (h : PaceInv cfg rate .rate false cur ipd d clock log)
    (hnow : clock ≤ now) (hrate : 1 ≤ rate) (hr : r = rate) :
    PaceInv cfg rate .building false (if r ≠ cur then max r 1 else cur)
      (if r ≠ cur then ipdUs cfg r else ipd) d now log := by
  subst hr
  refine ⟨?_, fun _ => ?_, fun hw => (by cases hw), fun hd => (by cases hd),
    h.paces.wait (Nat.cast_le.mpr hnow)⟩
  · split_ifs
    · exact (ipdUs_max cfg r).symm
    · exact h.ipd
  · split_ifs with heq
    · exact max_eq_left hrate
    · exact (not_not.mp heq).symm

theorem PaceInv.flush (h : PaceInv cfg rate .flush false cur ipd d clock log) (hnow : clock ≤ now) :
    PaceInv cfg rate .flushed false cur ipd d now (.flush now :: log) :=
  ⟨h.ipd, fun _ => h.rated rfl, fun hw => (by cases hw), fun hd => (by cases hd),
    h.paces.flush (Nat.cast_le.mpr hnow)⟩

theorem PaceInv.fin (h : PaceInv cfg rate .fin false cur ipd d clock log) (hnow : clock ≤ now) :
    PaceInv cfg rate .idle true cur ipd d now log :=
  ⟨h.ipd, fun _ => h.rated rfl, fun hw => (by cases hw), fun _ => rfl,
    h.paces.wait (Nat.cast_le.mpr hnow)⟩

theorem PaceInv.deadline {due' : ℚ} {wake : Nat} (h : PaceInv cfg rate ph true cur ipd d clock log)
    (hnow : clock ≤ now) (hwake : now ≤ wake)
    (hdue : due' = nextDeadline ipd (100 * ipd) d now) (hsleep : due' ≤ wake + 1) :
    PaceInv cfg rate ph false cur ipd due' wake log := by
  have hipd : ipd = ipdUs cfg rate := by rw [h.ipd, h.rated rfl]
  rw [hipd] at hdue
  refine ⟨h.ipd, fun _ => h.rated rfl, h.waiting, fun hd => (by cases hd), ?_⟩
  rw [h.idle rfl, hdue]
  have hpos := ipdUs_pos cfg rate
  refine h.paces.next (by linarith) (Nat.cast_le.mpr hnow) (Nat.cast_le.mpr hwake) ?_
  rw [← hdue]
  exact hsleep

end inv

variable {rate : Nat} {s t : Paced}

theorem pacedInv_pacer {env : Env} {sh : Shared} {p : Pacer} {pc : PacerPc} (hrate : 1 ≤ rate)
    (hinv : PacedInv cfg rate s) (hdue : s.due = false)
    (hC : Schedule rate s (.sender (.pacer env)))
    (h : pacerStep prim cfg s.send.sh env s.send.pacer s.send.pacerPc = some (sh, p, pc)) :
    PacedInv cfg rate
      (s.afterPacer cfg env { s.send with sh := sh, pacer := p, pacerPc := pc }) := by
  obtain ⟨hclock, hfixed⟩ := hC
  have hmove := pacerStep_phase h
  unfold PacedInv at hinv
  rw [hdue] at hinv
  unfold Paced.afterPacer PacedInv
  generalize s.send.pacerPc.phase = ph at *
  generalize hph' : pc.phase = ph' at *
  generalize hcur : p.curRate = cur at *
  cases hmove with
  | wait | meet =>
    rw [hinv.waiting rfl]
    simp only [hph', hcur, hdue]
    exact .start hinv.ipd rfl rfl
  | idle | enter | build | full | giveBack | given =>
    simp only [hph', hcur, hdue]
    exact hinv.move hclock (fun h => h) (by decide) rfl
  | pause | proceed =>
    split_ifs
    · simp only [hph', hcur, hdue]
      exact hinv.pause hclock rfl (by decide) rfl
    · simp only [hph', hcur, hdue]
      exact hinv.move hclock (fun h => h) (by decide) rfl
  | rate =>
    simp only [hph', hcur, hdue]
    exact hinv.setRate hclock hrate (hfixed rfl)
  | flush =>
    simp only [hph', hcur, hdue]
    exact hinv.flush hclock
  | fin =>
    simp only [hph', hcur]
    exact hinv.fin hclock

theorem pacedInv_step {act : PacedAct} (hrate : 1 ≤ rate) (hinv : PacedInv cfg rate s)
    (hC : Schedule rate s act) (h : s.step prim cfg act = some t) : PacedInv cfg rate t := by
  cases act with
  | deadline now wake =>
    obtain ⟨hclock, hwake, hsleep⟩ := hC
    simp only [Paced.step] at h
    unfold PacedInv at hinv
    split_ifs at h with hdue hlt hbehind
    · cases h
      rw [hdue] at hinv
      exact hinv.deadline hclock hwake (if_pos hlt).symm (hsleep hlt)
    · cases h
      rw [hdue] at hinv
      refine hinv.deadline hclock le_rfl ?_ (by linarith)
      rw [nextDeadline, if_neg hlt, if_pos hbehind]
    · cases h
      rw [hdue] at hinv
      refine hinv.deadline hclock le_rfl ?_ (by linarith)
      rw [nextDeadline, if_neg hlt, if_neg hbehind]
  | sender act =>
    cases act with
    | pacer env =>
      simp only [Paced.step] at h
      split_ifs at h with hdue
      obtain ⟨send, hsend, rfl⟩ := Option.map_eq_some_iff.mp h
      obtain ⟨⟨sh, p, pc⟩, hstep, rfl⟩ := Option.map_eq_some_iff.mp hsend
      exact pacedInv_pacer hrate hinv (Bool.eq_false_of_not_eq_true hdue) hC hstep
    | join =>
      obtain ⟨send, hsend, rfl⟩ := Option.map_eq_some_iff.mp h
      unfold PacedInv at hinv ⊢
      cases step_move hsend with
      | join hpc =>
        rw [hpc] at hinv
        exact hinv
      | flags => exact hinv
    | prefetch env =>
      obtain ⟨send, hsend, rfl⟩ := Option.map_eq_some_iff.mp h
      cases step_move hsend <;> exact hinv
    | feedback env =>
      obtain ⟨send, hsend, rfl⟩ := Option.map_eq_some_iff.mp h
      cases step_move hsend <;> exact hinv
    | stop =>
      cases h
      exact hinv
    | control op =>
      obtain ⟨send, hsend, rfl⟩ := Option.map_eq_some_iff.mp h
      cases step_move hsend
      exact hinv

theorem pacedInv_start (now : UInt64) : PacedInv cfg rate (.start cfg now) := by
  refine PaceInv.start (ipdUs_max cfg (initRate cfg)).symm ?_ ?_
  all_goals
    simp only [Paced.start, newSender]
    split <;> rfl

theorem pacedInv_run {now : UInt64} {as : List PacedAct} (hrate : 1 ≤ rate)
    (h : Steps (Paced.step prim cfg) (Schedule rate) (.start cfg now) as t) : PacedInv cfg rate t :=
  h.invariant (fun _ _ _ hinv hC hstep => pacedInv_step hrate hinv hC hstep) (pacedInv_start now)

/-- **The pacer's bursts are bounded.** At a fixed rate of at least 1 bit/s, `recompute` sets a batch
of 1 to 64 blocks whose bits per `ipd_us` are the rate. And however long sends and sleeps take, in a
window of `T` microseconds without a pause there are at most `(T + 1) / ipd_us + 102` flushes. -/
theorem bursts_bounded (hrate : 1 ≤ rate) :
    (∀ p : Pacer, 1 ≤ (p.recompute cfg rate).batch ∧ (p.recompute cfg rate).batch ≤ 64 ∧
      (((p.recompute cfg rate).batch * (cfg.blockSize + dataHeaderSize) * 8 : Nat) : ℚ) /
        ipdUs cfg rate * 1000000 = rate) ∧
    ∀ now as t, Steps (Paced.step prim cfg) (Schedule rate) (.start cfg now) as t →
      ∀ w T : ℚ, 0 ≤ T → (∀ p, .pause p ∈ t.log → ¬ Within w T p) →
        (flushesIn w T t.log : ℚ) ≤ (T + 1) / ipdUs cfg rate + 102 := by
  refine ⟨fun p => ⟨batchSize_pos cfg rate, batchSize_le cfg rate, rate_of_batch cfg hrate⟩, ?_⟩
  intro now as t h w T hT hpause
  have hpos := ipdUs_pos cfg rate
  have hbound := (pacedInv_run hrate h).paces.flushes_le hpos (by linarith) zero_le_one hT hpause
  rw [mul_div_assoc, div_self hpos.ne'] at hbound
  linarith

/-- An iteration with nothing to send, at `now`. -/
def emptyIteration (now : UInt64) : List PacedAct :=
  List.replicate 10 (.sender (.pacer { now := now }))

/-- Two batches at 100 Mbit/s, 189.44 µs apart; the loop sleeps in between. -/
theorem bursts_bounded_two : ∃ t,
    Steps (Paced.step sealedBytePrims sealedByte) (Schedule 100000000) (.start sealedByte 1000)
      (emptyIteration 1005 ++ [.deadline 1010 1189] ++ emptyIteration 1190) t ∧
    flushesIn 1000 200 t.log = 2 ∧
    (flushesIn 1000 200 t.log : ℚ) ≤ (200 + 1) / ipdUs sealedByte 100000000 + 102 := by
  obtain ⟨t, hrun, ht⟩ := steps_of_exec_check (Paced.step sealedBytePrims sealedByte)
    (.start sealedByte 1000) (emptyIteration 1005 ++ [.deadline 1010 1189] ++ emptyIteration 1190)
    (Schedule 100000000)
    (fun t => flushesIn 1000 200 t.log == 2 && t.log.all (·.isFlush)) (by decide +kernel)
  simp only [Bool.and_eq_true, beq_iff_eq, List.all_eq_true] at ht
  refine ⟨t, hrun, ht.1, (bursts_bounded (by decide)).2 1000 _ t hrun 1000 200 (by norm_num) ?_⟩
  intro p hp
  cases ht.2 _ hp

end Girth.Sender
