import Girth.Client.Session
import Girth.Loop.Machine
import Girth.Receiver.Rtt
import Girth.Server.Ceiling

/-!
# Pausing and resuming a pull

A client pulls at a fixed rate and steers the transfer through its control handle: it pauses it,
resumes it, sets a live limit. None of this reaches the server but through the target rate in the
FEEDBACKs: each round of the receiver's feedback loop asks the rate controller, lets the control
handle cap the answer and sends the result, and the server's sender adopts it, at most its configured
rate, unless it is zero.

Zero means two things. In the request it means no rate of its own, and the sender starts at the
ceiling; in a FEEDBACK it means that there is nothing to adopt. So a request without a rate sends
FEEDBACKs that change nothing (`effectiveRate_zero`), except while it is paused: then the cap is at
least 1 bit/s. `target_restored_iff` says when the sender comes back to its configured rate.
-/

namespace Girth

open Lib

/-! ## The two ends -/

/-- What `recv_core_with_stream` knows besides its parameters when it starts the receiver. -/
structure RecvJob where
  peerIp : IpAddr
  size : Int
  session : UInt32
  crypto : Option AeadBox
  control : Option TransferControl
  stats : Stats
  warmStart : Option RateWarmStart
  size_lt : size < 2 ^ 63

/-- The configuration `recv_core_with_stream` starts a receiver with. -/
def recvConfig (p : ClientParams) (job : RecvJob) (hblock : 0 < p.blockSize) : RecvConfig where
  fileSize := job.size
  blockSize := p.blockSize
  totalBlocks := numBlocks job.size p.blockSize
  session := job.session
  expectedPeerIp := some job.peerIp
  rate := p.rateConfig p.rateBps
  crypto := job.crypto
  feedbackIntervalUs := p.feedbackIntervalUs
  netTickIntervalUs := p.netTickIntervalUs
  maxNacksPerPdu := 0
  control := job.control
  stats := job.stats
  warmStart := warmForParams p job.warmStart
  blockSize_pos := hblock
  fileSize_lt := job.size_lt
  total_eq := rfl

/-- A pull at a fixed rate: the client's parameters and the server's, and the Hello between them. -/
structure FixedPull where
  client : Client
  p : ClientParams
  name : String
  warm : RateWarmStart
  pubKey : Option Bytes
  authMac : Option Bytes
  recvJob : RecvJob
  params : TransferParams
  sendJob : SendJob
  fixed : p.adaptive = false
  /-- The rate is a `u64`. -/
  rate_lt : p.rateBps < 2 ^ 64
  blockSize_pos : 0 < p.blockSize
  blockSize_lt : p.blockSize + dataHeaderSize + aeadTagLen < 2 ^ 63

namespace FixedPull

variable (x : FixedPull)

def hello : Hello := clientHello x.client x.p modeRecv x.name 0 0 x.warm x.pubKey x.authMac

/-- The rate that a round asks for, if it is not capped: `rate_bps as f64 as u64`. -/
def asked : Nat := asU64 (f64 x.p.rateBps)

theorem asked_lt : x.asked < 2 ^ 64 := by
  unfold asked asU64
  omega

def rcfg : RecvConfig := (recvConfig x.p x.recvJob x.blockSize_pos).withDefaults

def scfg : SendConfig := sendConfig x.params x.hello x.sendJob (by
  rw [show (effectiveParams x.params x.hello).blockSize = x.p.blockSize from Int.toNat_natCast _]
  exact x.blockSize_lt)

theorem initRate_scfg : Sender.initRate x.scfg =
    if x.p.rateBps = 0 then ceiling x.params x.hello else x.p.rateBps := by
  have hadaptive : ¬ (x.hello.adaptive = true ∧ 0 < x.hello.warmRateBps) := by
    rw [show x.hello.adaptive = x.p.adaptive from rfl, x.fixed]
    exact fun h => absurd h.1 Bool.false_ne_true
  rw [scfg, initRate_sendConfig, if_neg hadaptive]
  rfl

theorem scfg_mode : x.scfg.rate.mode = .fixed := by
  show (if x.p.adaptive then RateMode.adaptive else .fixed) = .fixed
  rw [x.fixed]
  rfl

end FixedPull

/-! ## The target of a FEEDBACK -/

/-- The handle neither pauses nor limits. -/
def Unlimited (control : Option TransferControl) : Prop :=
  ∀ c ∈ control, c.paused = false ∧ c.rateLimit = none

def Paused (control : Option TransferControl) : Prop := ∃ c ∈ control, c.paused = true

theorem effectiveRate_unlimited {control : Option TransferControl} (h : Unlimited control)
    (rate : Nat) : effectiveRate control rate = rate := by
  cases control with
  | none => rfl
  | some c =>
    obtain ⟨hpaused, hlimit⟩ := h c rfl
    simp [effectiveRate, TransferControl.effectiveRateBps, hpaused, hlimit]

theorem effectiveRate_zero (control : Option TransferControl) :
    (Paused control → effectiveRate control 0 = 1) ∧
      (¬ Paused control → effectiveRate control 0 = 0) := by
  cases control with
  | none => exact ⟨fun ⟨c, hc, _⟩ => (by cases hc), fun _ => rfl⟩
  | some c =>
    have hiff : Paused (some c) ↔ c.paused = true :=
      ⟨fun ⟨c', hc', hp⟩ => (by cases hc'; exact hp), fun hp => ⟨c, rfl, hp⟩⟩
    rw [hiff]
    refine ⟨fun hp => ?_, fun hp => ?_⟩
    · simp [effectiveRate, TransferControl.effectiveRateBps, hp, pausedRateBps]
    · simp only [effectiveRate, Option.elim, TransferControl.effectiveRateBps, if_neg hp]
      split
      · exact Nat.zero_min _
      · rfl

theorem update_fixed {c : RateController} (hmode : c.cfg.mode = .fixed) (srtt base : ℚ) :
    c.update srtt base =
      some ({ c with rate := f64 c.cfg.targetBps }, asU64 (f64 c.cfg.targetBps)) := by
  simp only [RateController.update, hmode, if_true]

theorem le_asU64_iff {rate : Nat} {x : ℚ} (hrate : rate < 2 ^ 64) (hx : 0 ≤ x) :
    rate ≤ asU64 x ↔ (rate : ℚ) ≤ x := by
  have hpos : 0 ≤ x.floor := Rat.le_floor_iff.mpr hx
  have hfloor : (rate : Int) ≤ x.floor ↔ (rate : ℚ) ≤ x := by
    rw [Rat.le_floor_iff]
    rfl
  rw [← hfloor, asU64]
  omega

/-! ## The receiver's rounds -/

namespace Receiver

variable {prim : Primitives} {cfg : RecvConfig} {n : Nat}

/-- The target of the running round, once it has computed one. -/
def FeedbackPc.target : FeedbackPc → Option Nat
  | .advance l | .loadMaxSeen l | .loadAllSent l _ | .loadSeen l _ | .scanHoles l _ _ _ | .complete l
  | .storeHi l | .peer l | .collectDue l _ _ _ _ | .netTick l _ _ | .send l _ _ _ | .finish l =>
    some l.target
  | .top | .rtt | .exited => none

theorem feedbackStep_target {sh sh' : Shared cfg.totalBlocks} {env : Env} {fb fb' : Feedback}
    (h : feedbackStep cfg sh env fb = some (sh', fb')) :
    (fb.pc = .rtt ∧ ∃ rate target,
      sh.rtt.rate.update sh.rtt.net.srtt sh.rtt.net.minRtt = some (rate, target) ∧
      sh'.rtt.rate = rate ∧ fb'.pc.target = some (effectiveRate sh.control target)) ∨
    (fb.pc ≠ .rtt ∧ sh'.rtt.rate = sh.rtt.rate ∧
      (fb'.pc.target = fb.pc.target ∨ fb'.pc.target = none)) := by
  cases feedbackStep_cases h with
  | rtt hupdate => exact .inl ⟨rfl, _, _, hupdate, rfl, rfl⟩
  | leave | start | noPeer | again | announced | done => exact .inr ⟨by simp, rfl, .inr rfl⟩
  | _ => exact .inr ⟨by simp, rfl, .inl rfl⟩

end Receiver

/-! ## Every run -/

namespace Loop

variable {x : FixedPull} {prim : Primitives} {n : Nat} {s t : Loop x.rcfg n}

/-- What holds of the receiver, and of every FEEDBACK it has sent. -/
structure RoundsInv (s : Loop x.rcfg n) : Prop where
  mode : s.recv.sh.rtt.rate.cfg.mode = .fixed
  base : s.recv.sh.rtt.rate.cfg.targetBps = x.p.rateBps
  target : ∀ target ∈ s.recv.feedback.pc.target, target = effectiveRate s.round x.asked
  sent : ∀ rep ∈ s.sent, rep.header.targetRate = UInt64.ofNat (effectiveRate rep.control x.asked)

theorem roundAfter_eq (hpc : s.recv.feedback.pc ≠ .rtt) (act : Receiver.Action n) :
    s.roundAfter act = s.round := by
  cases act with
  | feedback env => simp only [roundAfter]
  | ingest | flusher | main | stop | control => rfl

theorem RoundsInv.move (hinv : s.RoundsInv) {recv : Receiver.State x.rcfg n}
    {round : Option TransferControl} {sent : List Report}
    (hcfg : recv.sh.rtt.rate.cfg = s.recv.sh.rtt.rate.cfg)
    (htarget : ∀ target ∈ recv.feedback.pc.target, target = effectiveRate round x.asked)
    (hsent : ∀ rep ∈ sent,
      rep.header.targetRate = UInt64.ofNat (effectiveRate rep.control x.asked)) :
    RoundsInv { s with recv := recv, round := round, sent := sent } where
  mode := by
    rw [hcfg]
    exact hinv.mode
  base := by
    rw [hcfg]
    exact hinv.base
  target := htarget
  sent := hsent

theorem roundsInv_recv {act : Receiver.Action n} {recv : Receiver.State x.rcfg n}
    (hinv : s.RoundsInv) (h : Receiver.step prim s.recv act = some recv) :
    RoundsInv { s with recv := recv, round := s.roundAfter act, sent := s.sentBy act ++ s.sent } := by
  have hsent : ∀ rep ∈ s.sentBy act ++ s.sent,
      rep.header.targetRate = UInt64.ofNat (effectiveRate rep.control x.asked) := by
    intro rep hrep
    rcases List.mem_append.mp hrep with hnew | hold
    · obtain ⟨env, l, p, due, isNet, _, hpc, rfl⟩ := mem_sentBy hnew
      have htarget := hinv.target l.target (by rw [hpc]; rfl)
      rw [← htarget]
      rfl
    · exact hinv.sent rep hold
  cases Receiver.step_move h with
  | ingest hi =>
    exact hinv.move (congrArg RateController.cfg (Receiver.ingestStep_rtt hi).rate) hinv.target hsent
  | flusher hf =>
    exact hinv.move (congrArg (·.rate.cfg) (Receiver.flusherStep_rtt hf)) hinv.target hsent
  | @feedback env sh fb hfb =>
    rcases Receiver.feedbackStep_target hfb with
      ⟨hpc, rate, target, hupdate, hrate, htarget⟩ | ⟨hpc, hrate, htarget⟩
    · -- the round reads the control handle
      rw [update_fixed hinv.mode, hinv.base] at hupdate
      cases hupdate
      refine hinv.move (by rw [hrate]) (fun tgt htgt => ?_) hsent
      rw [htarget] at htgt
      cases htgt
      simp only [roundAfter, hpc]
      rfl
    · refine hinv.move (congrArg RateController.cfg hrate) (fun tgt htgt => ?_) hsent
      rcases htarget with heq | hnone
      · rw [roundAfter_eq hpc]
        rw [heq] at htgt
        exact hinv.target tgt htgt
      · rw [hnone] at htgt
        cases htgt
  | quiet =>
    refine hinv.move rfl (fun tgt htgt => ?_) hsent
    rw [roundAfter_eq (fun hpc => by rw [hpc] at htgt; cases htgt)]
    exact hinv.target tgt htgt

/-- The rate the sender holds after it has adopted FEEDBACKs, newest first. -/
def held (configured : Nat) : List FeedbackHeader → Nat
  | [] => configured
  | fh :: older =>
    if 0 < fh.targetRate then min fh.targetRate.toNat configured else held configured older

theorem pending_of_adopting {pc : Sender.FeedbackPc} {fh : FeedbackHeader}
    (h : adopting pc = some fh) : pc.pending = some (fh, []) := by
  cases pc <;> cases h
  rfl

theorem feedbackStep_held {cfg : SendConfig} {sh sh' : Sender.Shared} {env : Sender.Env}
    {pc pc' : Sender.FeedbackPc} (h : Sender.feedbackStep cfg sh env pc = some (sh', pc')) :
    sh'.targetBps = (adopting pc).elim sh.targetBps (Sender.adoptRate cfg sh) := by
  cases Sender.feedbackStep_cases h with
  | noRate hzero => exact (if_neg hzero).symm
  | _ => rfl

/-- What holds of the sender. -/
structure TargetInv (s : Loop x.rcfg n) : Prop where
  configured : s.send.sh.configuredTargetBps = Sender.initRate x.scfg
  target : s.send.sh.targetBps = held (Sender.initRate x.scfg) s.adopted
  adopted : ∀ fh ∈ s.adopted, ∃ rep ∈ s.sent, rep.Reads fh

theorem TargetInv.adopt (hinv : s.TargetInv) (fh : FeedbackHeader) :
    Sender.adoptRate x.scfg s.send.sh fh = held (Sender.initRate x.scfg) (fh :: s.adopted) := by
  rw [Sender.adoptRate, held, x.scfg_mode, hinv.configured, hinv.target]

theorem targetInv_send {act : Sender.Action} {send : Sender.State} (hinv : s.TargetInv)
    (hp : s.Pending) (h : Sender.step prim x.scfg s.send act = some send) :
    TargetInv { s with
      send := send
      arrivals := s.arrivedBy send act ++ s.arrivals
      adopted := s.adoptedBy act ++ s.adopted
      stamps := s.stampedBy act ++ s.stamps } := by
  cases act with
  | feedback env =>
    obtain ⟨sh, pc, hstep, rfl⟩ := feedback_of_step h
    have hconf := (Sender.feedbackStep_frame hstep).configuredTargetBps.trans hinv.configured
    have htarget := feedbackStep_held hstep
    cases hadopt : adopting s.send.feedback with
    | none =>
      rw [hadopt] at htarget
      refine ⟨hconf, ?_, ?_⟩
      · simp only [adoptedBy, hadopt]
        exact htarget.trans hinv.target
      · simp only [adoptedBy, hadopt]
        exact hinv.adopted
    | some fh =>
      rw [hadopt] at htarget
      refine ⟨hconf, ?_, ?_⟩
      · simp only [adoptedBy, hadopt]
        exact htarget.trans (hinv.adopt fh)
      · simp only [adoptedBy, hadopt]
        intro fh' hfh'
        rcases List.mem_cons.mp hfh' with rfl | hold
        · exact hp (fh', []) (pending_of_adopting hadopt)
        · exact hinv.adopted fh' hold
  | prefetch env =>
    cases Sender.step_move h with
    | prefetch hstep =>
      have hframe := Sender.prefetchStep_frame hstep
      exact ⟨hframe.configuredTargetBps.trans hinv.configured, hframe.targetBps.trans hinv.target,
        hinv.adopted⟩
    | flags => exact ⟨hinv.configured, hinv.target, hinv.adopted⟩
  | pacer env =>
    cases Sender.step_move h with
    | pacer hstep =>
      have hframe := Sender.pacerStep_frame hstep
      exact ⟨hframe.configuredTargetBps.trans hinv.configured, hframe.targetBps.trans hinv.target,
        hinv.adopted⟩
    | flags => exact ⟨hinv.configured, hinv.target, hinv.adopted⟩
  | join | stop | control =>
    cases Sender.step_move h <;> exact ⟨hinv.configured, hinv.target, hinv.adopted⟩

/-- The invariant of the closed loop. -/
structure RateInv (s : Loop x.rcfg n) : Prop where
  rounds : s.RoundsInv
  pending : s.Pending
  target : s.TargetInv

theorem rateInv_step {act : LoopAct n} (hinv : s.RateInv) (hC : FromReceiver x.scfg s act)
    (h : Move prim x.scfg s act t) : t.RateInv := by
  have hpending := pending_step hinv.pending hC h
  cases h with
  | recv h =>
    refine ⟨roundsInv_recv hinv.rounds h, hpending, hinv.target.configured, hinv.target.target, ?_⟩
    intro fh hfh
    obtain ⟨rep, hrep, hhdr⟩ := hinv.target.adopted fh hfh
    exact ⟨rep, List.mem_append_right _ hrep, hhdr⟩
  | send h =>
    exact ⟨⟨hinv.rounds.mode, hinv.rounds.base, hinv.rounds.target, hinv.rounds.sent⟩, hpending,
      targetInv_send hinv.target hinv.pending h⟩
  | wait =>
    exact ⟨⟨hinv.rounds.mode, hinv.rounds.base, hinv.rounds.target, hinv.rounds.sent⟩, hpending,
      ⟨hinv.target.configured, hinv.target.target, hinv.target.adopted⟩⟩

theorem rateInv_start {recv : Receiver.State x.rcfg n} {sink : Sink}
    (hnew : Receiver.newReceiver x.rcfg n sink = some recv) : (start x.scfg recv).RateInv := by
  obtain ⟨rate, hrate, rfl⟩ := Option.map_eq_some_iff.mp hnew
  have hcfg : rate.cfg = RateController.defaults x.rcfg.rate := by
    unfold RateController.setRate at hrate
    split at hrate
    · cases hrate
      rfl
    · obtain ⟨_, _, rfl⟩ := Option.map_eq_some_iff.mp hrate
      rfl
  refine ⟨⟨?_, ?_, fun _ h => (by cases h), fun _ h => by cases h⟩, fun _ h => (by cases h),
    ⟨rfl, rfl, fun _ h => by cases h⟩⟩
  · show rate.cfg.mode = .fixed
    rw [hcfg]
    show (if x.p.adaptive then RateMode.adaptive else .fixed) = .fixed
    rw [x.fixed]
    rfl
  · show rate.cfg.targetBps = x.p.rateBps
    rw [hcfg]
    rfl

theorem rateInv_run {recv : Receiver.State x.rcfg n} {sink : Sink} {as : List (LoopAct n)}
    (hnew : Receiver.newReceiver x.rcfg n sink = some recv)
    (h : Steps (step prim x.scfg) (FromReceiver x.scfg) (start x.scfg recv) as s) : s.RateInv :=
  h.invariant (fun _ _ _ hinv hC hstep => rateInv_step hinv hC (step_move hstep))
    (rateInv_start hnew)

/-! ## Back to the configured rate -/

theorem held_of_le_one (configured : Nat) {adopted : List FeedbackHeader}
    (h : ∀ fh ∈ adopted, fh.targetRate = 0 ∨ fh.targetRate = 1) :
    held configured adopted =
      if ∃ fh ∈ adopted, fh.targetRate = 1 then min 1 configured else configured := by
  induction adopted with
  | nil => rfl
  | cons fh older ih =>
    rw [held, ih fun fh hfh => h fh (List.mem_cons_of_mem _ hfh)]
    rcases h fh List.mem_cons_self with hzero | hone
    · have hiff : (∃ fh' ∈ fh :: older, fh'.targetRate = 1) ↔ ∃ fh' ∈ older, fh'.targetRate = 1 := by
        simp [hzero]
      rw [if_neg (by rw [hzero]; decide)]
      simp only [hiff]
    · rw [if_pos (by rw [hone]; decide), if_pos ⟨fh, List.mem_cons_self, hone⟩, hone]
      rfl

/-- Without a rate in the request, a FEEDBACK asks for one bit per second if its round was paused and
for nothing otherwise. -/
theorem RoundsInv.targetRate_zero (hinv : s.RoundsInv) (hzero : x.p.rateBps = 0) {rep : Report}
    (hrep : rep ∈ s.sent) {fh : FeedbackHeader} (hfh : rep.Reads fh) :
    (Paused rep.control → fh.targetRate = 1) ∧ (¬ Paused rep.control → fh.targetRate = 0) := by
  have hrate : fh.targetRate = UInt64.ofNat (effectiveRate rep.control 0) := by
    have hasked : x.asked = 0 := by
      rw [FixedPull.asked, hzero]
      decide +kernel
    rw [hfh, ← hasked]
    exact hinv.sent rep hrep
  obtain ⟨hpaused, hnot⟩ := effectiveRate_zero rep.control
  constructor
  · intro h
    rw [hrate, hpaused h]
    rfl
  · intro h
    rw [hrate, hnot h]
    rfl

/-- No FEEDBACK of a paused round has been adopted. -/
def NoPauseAdopted (s : Loop x.rcfg n) : Prop :=
  ∀ rep ∈ s.sent, ∀ fh ∈ s.adopted, rep.Reads fh → ¬ Paused rep.control

theorem RateInv.held_zero (hinv : s.RateInv) (hzero : x.p.rateBps = 0) :
    held (ceiling x.params x.hello) s.adopted = ceiling x.params x.hello ↔
      ceiling x.params x.hello ≤ 1 ∨ s.NoPauseAdopted := by
  have hle : ∀ fh ∈ s.adopted, fh.targetRate = 0 ∨ fh.targetRate = 1 := by
    intro fh hfh
    obtain ⟨rep, hrep, hreads⟩ := hinv.target.adopted fh hfh
    obtain ⟨hpaused, hnot⟩ := hinv.rounds.targetRate_zero hzero hrep hreads
    by_cases h : Paused rep.control
    · exact .inr (hpaused h)
    · exact .inl (hnot h)
  have hone : (∃ fh ∈ s.adopted, fh.targetRate = 1) ↔ ¬ s.NoPauseAdopted := by
    constructor
    · rintro ⟨fh, hfh, hfh1⟩ hno
      obtain ⟨rep, hrep, hreads⟩ := hinv.target.adopted fh hfh
      have hzero' := (hinv.rounds.targetRate_zero hzero hrep hreads).2 (hno rep hrep fh hfh hreads)
      rw [hzero'] at hfh1
      cases hfh1
    · intro hno
      by_contra hall
      refine hno fun rep hrep fh hfh hreads hpaused => hall ⟨fh, hfh, ?_⟩
      exact (hinv.rounds.targetRate_zero hzero hrep hreads).1 hpaused
  rw [held_of_le_one _ hle]
  split_ifs with hpaused
  · have hno := hone.mp hpaused
    constructor
    · intro h
      exact .inl (by omega)
    · rintro (h | h)
      · omega
      · exact absurd h hno
  · exact iff_of_true rfl (.inr (not_not.mp fun hno => hpaused (hone.mpr hno)))

/-- **When a pull comes back to its rate.** Let the client pause, resume and limit the transfer in any
order, and the network deliver its FEEDBACKs in any order, any number of times or not at all. When
the sender has adopted a FEEDBACK of a round that was neither paused nor limited, its target is its
configured rate again exactly if the rate of the request is not rounded down when it becomes a float
and, should the request not name one, the ceiling is at most 1 bit/s or no FEEDBACK of a paused round
had been adopted. -/
theorem target_restored_iff {recv : Receiver.State x.rcfg n} {sink : Sink} {as : List (LoopAct n)}
    {rep : Report} {fh : FeedbackHeader} {env : Sender.Env}
    (hnew : Receiver.newReceiver x.rcfg n sink = some recv)
    (hrun : Steps (step prim x.scfg) (FromReceiver x.scfg) (start x.scfg recv) as s)
    (hpc : s.send.feedback = .storeRate fh) (hrep : rep ∈ s.sent) (hreads : rep.Reads fh)
    (hfree : Unlimited rep.control)
    (hstep : step prim x.scfg s (.send (.feedback env)) = some t) :
    t.send.sh.targetBps = t.send.sh.configuredTargetBps ↔
      (x.p.rateBps : ℚ) ≤ f64 x.p.rateBps ∧
        (x.p.rateBps = 0 → ceiling x.params x.hello ≤ 1 ∨ s.NoPauseAdopted) := by
  have hinv := rateInv_run hnew hrun
  obtain ⟨send, hsend, rfl⟩ := Option.map_eq_some_iff.mp hstep
  obtain ⟨hconf, htarget, -⟩ := targetInv_send hinv.target hinv.pending hsend
  have hadopted : s.adoptedBy (.feedback env) = [fh] := by simp only [adoptedBy, adopting, hpc]; rfl
  have hrate : fh.targetRate = UInt64.ofNat x.asked := by
    rw [hreads, ← effectiveRate_unlimited hfree x.asked]
    exact hinv.rounds.sent rep hrep
  rw [htarget, hconf, hadopted, x.initRate_scfg]
  show held _ (fh :: s.adopted) = _ ↔ _
  by_cases hzero : x.p.rateBps = 0
  · -- the FEEDBACK asks for nothing, and the sender keeps what it has
    have hignored : ¬ 0 < fh.targetRate := by
      rw [hrate, FixedPull.asked, hzero]
      decide +kernel
    rw [if_pos hzero, held, if_neg hignored, hinv.held_zero hzero, hzero]
    simp [f64_zero]
  · have hone : 1 ≤ x.asked := by
      refine (le_asU64_iff (by decide) (f64_nonneg (Nat.cast_nonneg _))).mpr ?_
      rw [← f64_natCast (by decide : 1 ≤ 2 ^ 53)]
      exact f64_mono (Nat.cast_nonneg _) (Nat.cast_le.mpr (Nat.pos_of_ne_zero hzero))
    have htoNat : fh.targetRate.toNat = x.asked := by
      rw [hrate, UInt64.toNat_ofNat', Nat.mod_eq_of_lt x.asked_lt]
    have hpos : 0 < fh.targetRate := by
      rw [UInt64.lt_iff_toNat_lt, htoNat]
      exact hone
    rw [if_neg hzero, held, if_pos hpos, htoNat, min_eq_right_iff, FixedPull.asked,
      le_asU64_iff x.rate_lt (f64_nonneg (Nat.cast_nonneg _))]
    exact (and_iff_left fun h => absurd h hzero).symm

/-! ### A pause and a resumption -/

def localhost : IpAddr := .v4 0x7f000001

/-- The pull of an empty object, in a request for `rate`. -/
def emptyPull (rate maxBps : Nat) (h : rate < 2 ^ 64) : FixedPull where
  client := ⟨⟨fun _ _ => []⟩, .unused, true⟩
  p := { defaultParams with rateBps := rate, maxBps := maxBps }
  name := "empty"
  warm := {}
  pubKey := none
  authMac := none
  recvJob := ⟨localhost, 0, 9, none, some {}, {}, none, by decide⟩
  params := defaultParams
  sendJob := ⟨localhost, memSource [], 0, 9, none, by decide, by decide⟩
  fixed := rfl
  rate_lt := h
  blockSize_pos := (by decide : 0 < defaultBlockSize)
  blockSize_lt := (by decide : defaultBlockSize + dataHeaderSize + aeadTagLen < 2 ^ 63)

/-- With a rate of its own, without one, and with one that is not exact as a float. -/
def ratedPull : FixedPull := emptyPull 2000000 10000000000 (by decide)
def ratelessPull : FixedPull := emptyPull 0 10000000000 (by decide)
def oddPull : FixedPull := emptyPull (2 ^ 53 + 1) (2 ^ 64 - 1) (by decide)

def noPrims : Primitives := ⟨fun _ => 0, .unused⟩

/-- What the receiver of an empty object reports. -/
def emptyReport (target : UInt64) : FeedbackHeader := { session := 9, targetRate := target }

/-- A round of the receiver, and the FEEDBACK on its way to the point where its rate is adopted. -/
def roundActs (target : UInt64) : List (LoopAct 1) :=
  List.replicate 13 (.recv (.feedback {})) ++
    [.send (.feedback {}),
      .send (.feedback { recv := .datagram ((emptyReport target).bytes 0) ⟨localhost, 5000⟩ }),
      .send (.feedback {}), .send (.feedback {})]

/-- The two ends meet; a paused round, and one after the resumption. -/
def pauseActs (paused resumed : UInt64) : List (LoopAct 1) :=
  [.send (.pacer { recv := .datagram (startBytes 9) ⟨localhost, 5000⟩ }), .recv Receiver.idle,
    .recv (Receiver.deliver [⟨finBytes 9 0, some ⟨localhost, 5001⟩⟩]),
    .recv Receiver.idle, .recv Receiver.idle, .recv (.control .pause)] ++
  roundActs paused ++ [.send (.feedback {}), .send (.feedback {}), .recv (.control .resume)] ++
  roundActs resumed

theorem storeRate_of_adopting {pc : Sender.FeedbackPc} {fh : FeedbackHeader}
    (h : adopting pc = some fh) : pc = .storeRate fh := by
  cases pc <;> cases h
  rfl

theorem exists_pause_run (x : FixedPull) (paused resumed : UInt64) (target configured : Nat)
    (h : ((Receiver.newReceiver x.rcfg 1 ⟨.mem, []⟩).any fun recv =>
      (exec (fun s act => if FromReceiver x.scfg s act then step noPrims x.scfg s act else none)
        (start x.scfg recv) (pauseActs paused resumed)).any fun s =>
          decide (adopting s.send.feedback = some (emptyReport resumed)) &&
          decide (⟨some {}, emptyReport resumed, [], 0⟩ ∈ s.sent) &&
          (step noPrims x.scfg s (.send (.feedback {}))).any fun t =>
            t.send.sh.targetBps == target && t.send.sh.configuredTargetBps == configured) = true) :
    ∃ recv s t, Receiver.newReceiver x.rcfg 1 ⟨.mem, []⟩ = some recv ∧
      Steps (step noPrims x.scfg) (FromReceiver x.scfg) (start x.scfg recv)
        (pauseActs paused resumed) s ∧
      s.send.feedback = .storeRate (emptyReport resumed) ∧
      ⟨some {}, emptyReport resumed, [], 0⟩ ∈ s.sent ∧
      step noPrims x.scfg s (.send (.feedback {})) = some t ∧
      t.send.sh.targetBps = target ∧ t.send.sh.configuredTargetBps = configured := by
  obtain ⟨recv, s, hnew, hrun, hs⟩ := exists_steps_of_exec_check _ _ _ _ _ _ h
  simp only [Bool.and_eq_true, decide_eq_true_eq] at hs
  obtain ⟨⟨hpc, hsent⟩, hstep⟩ := hs
  obtain ⟨t, hstep, ht⟩ := (Option.any_eq_true _ _).mp hstep
  simp only [Bool.and_eq_true, beq_iff_eq] at ht
  exact ⟨recv, s, t, hnew, hrun, storeRate_of_adopting hpc, hsent, hstep, ht.1, ht.2⟩

theorem unlimited_default : Unlimited (some {}) := by
  rintro c ⟨⟩
  exact ⟨rfl, rfl⟩

/-- A request for 2 Mbit/s: the pause takes the sender to 1 Mbit/s, the resumption back. -/
theorem target_restored_iff_rated : ∃ recv s t,
    Receiver.newReceiver ratedPull.rcfg 1 ⟨.mem, []⟩ = some recv ∧
    Steps (step noPrims ratedPull.scfg) (FromReceiver ratedPull.scfg) (start ratedPull.scfg recv)
      (pauseActs 1000000 2000000) s ∧
    step noPrims ratedPull.scfg s (.send (.feedback {})) = some t ∧
    t.send.sh.targetBps = t.send.sh.configuredTargetBps := by
  obtain ⟨recv, s, t, hnew, hrun, hpc, hsent, hstep, -⟩ :=
    exists_pause_run ratedPull 1000000 2000000 2000000 2000000 (by decide +kernel)
  exact ⟨recv, s, t, hnew, hrun, hstep,
    (target_restored_iff hnew hrun hpc hsent rfl unlimited_default hstep).mpr
      ⟨(f64_natCast (by decide)).ge, fun hzero => absurd hzero (by decide)⟩⟩

/-- The pull ends a pause at `target` although it is configured for `configured`. -/
def EndsAt (x : FixedPull) (paused resumed : UInt64) (target configured : Nat) : Prop :=
  ∃ recv s t, Receiver.newReceiver x.rcfg 1 ⟨.mem, []⟩ = some recv ∧
    Steps (step noPrims x.scfg) (FromReceiver x.scfg) (start x.scfg recv) (pauseActs paused resumed) s ∧
    s.send.feedback = .storeRate (emptyReport resumed) ∧
    ⟨some {}, emptyReport resumed, [], 0⟩ ∈ s.sent ∧ Unlimited (some {}) ∧
    step noPrims x.scfg s (.send (.feedback {})) = some t ∧
    t.send.sh.targetBps = target ∧ t.send.sh.configuredTargetBps = configured

/-- A request without a rate, which the server accepts: the sender starts at the ceiling of
10 Gbit/s, and after a pause it stays at 1 bit/s. And a request for `2 ^ 53 + 1` bit/s, which a server
without a limit accepts, comes back to `2 ^ 53`. -/
theorem target_not_restored :
    (validateHelloLimits ratelessPull.hello .default = .ok () ∧
      EndsAt ratelessPull 1 0 1 10000000000) ∧
    validateHelloLimits oddPull.hello { ServerLimits.default with maxRateBps := 2 ^ 64 - 1 } = .ok () ∧
      EndsAt oddPull 1000000 9007199254740992 (2 ^ 53) (2 ^ 53 + 1) := by
  refine ⟨⟨by decide, ?_⟩, by decide, ?_⟩
  · obtain ⟨recv, s, t, hnew, hrun, hpc, hsent, hstep, htarget, hconf⟩ :=
      exists_pause_run ratelessPull 1 0 1 10000000000 (by decide +kernel)
    exact ⟨recv, s, t, hnew, hrun, hpc, hsent, unlimited_default, hstep, htarget, hconf⟩
  · obtain ⟨recv, s, t, hnew, hrun, hpc, hsent, hstep, htarget, hconf⟩ :=
      exists_pause_run oddPull 1000000 9007199254740992 (2 ^ 53) (2 ^ 53 + 1) (by decide +kernel)
    exact ⟨recv, s, t, hnew, hrun, hpc, hsent, unlimited_default, hstep, htarget, hconf⟩

end Loop

end Girth
