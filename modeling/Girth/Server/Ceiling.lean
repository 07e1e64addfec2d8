import Girth.Sender.Steps
import Girth.Server.Limits

/-!
# The rate ceiling of a pull

`handle_conn` settles the ceiling of a transfer: the request's own, or the server's where the request
names none. `send_to_client` passes it on to the sender it starts (`sendConfig`), which uses it twice:
as the rate to start with when the request asks for none, and as the bound on a warm start. Two
values are taken over as they come: the rate the request asks for, and in adaptive mode the target
rate of every FEEDBACK.

`target_within_ceiling_iff` says when the sender stays below the ceiling against a peer that does:
exactly if the request does not start it above.
-/

namespace Girth

open Lib Sender

/-! ## The sender of a pull -/

/-- What `send_to_client` knows besides the request when it starts the sender. -/
structure SendJob where
  peerIp : IpAddr
  source : BlockSource
  size : Int
  session : UInt32
  crypto : Option AeadBox
  size_lt : size < 2 ^ 63
  neg_le_size : -2 ^ 63 ≤ size

/-- The configuration `send_to_client` starts a sender with. -/
def sendConfig (params : TransferParams) (h : Hello) (job : SendJob)
    (hblock : (effectiveParams params h).blockSize + dataHeaderSize + aeadTagLen < 2 ^ 63) :
    SendConfig where
  peer := none
  expectedPeerIp := some job.peerIp
  source := job.source
  fileSize := job.size
  blockSize := (effectiveParams params h).blockSize
  totalBlocks := UInt64.ofNat (numBlocks job.size (effectiveParams params h).blockSize)
  session := job.session
  rate := (effectiveParams params h).rateConfig h.rateBps
  crypto := job.crypto
  control := none
  warmStart := warmFromHello h
  fileSize_lt := job.size_lt
  neg_le_fileSize := job.neg_le_size
  blockSize_lt := hblock

/-- The ceiling of the transfer. -/
def ceiling (params : TransferParams) (h : Hello) : Nat := (effectiveParams params h).maxBps

theorem ceiling_eq (params : TransferParams) (h : Hello) :
    ceiling params h = if h.maxBps > 0 then h.maxBps else params.maxBps := rfl

theorem ceiling_pos {params : TransferParams} {h : Hello} (hmax : 0 < params.maxBps) :
    0 < ceiling params h := by
  rw [ceiling_eq]
  split_ifs with hpos
  · exact hpos
  · exact hmax

variable {params : TransferParams} {h : Hello} {job : SendJob}
  {hblock : (effectiveParams params h).blockSize + dataHeaderSize + aeadTagLen < 2 ^ 63}

theorem warm_filter (hadaptive : h.adaptive = true) :
    (warmFromHello h).filter (fun w => 0 < w.rateBps) =
      if 0 < h.warmRateBps then some ⟨h.warmRateBps, h.warmSrttNetUs, h.warmBaseRttUs⟩ else none := by
  simp only [warmFromHello, hadaptive, Bool.not_true, Bool.false_eq_true, if_false]
  by_cases hrate : 0 < h.warmRateBps
  · have hne : h.warmRateBps ≠ 0 := by omega
    simp [RateWarmStart.isEmpty, hne, hrate]
  · have hzero : h.warmRateBps = 0 := by omega
    split_ifs <;> simp [hzero]

theorem initRate_sendConfig : initRate (sendConfig params h job hblock) =
    if h.adaptive = true ∧ 0 < h.warmRateBps then
      min h.warmRateBps (if ceiling params h = 0 then 2 ^ 64 - 1 else ceiling params h)
    else if h.rateBps = 0 then ceiling params h else h.rateBps := by
  have hmode : (sendConfig params h job hblock).rate.mode =
      if h.adaptive then .adaptive else .fixed := rfl
  have hinit : (sendConfig params h job hblock).rate.targetBps = h.rateBps := rfl
  have hmax : (sendConfig params h job hblock).rate.maxBps = ceiling params h := rfl
  have hwarm : (sendConfig params h job hblock).warmStart = warmFromHello h := rfl
  unfold initRate
  rw [hmode, hinit, hmax, hwarm]
  cases hadaptive : h.adaptive with
  | false => simp
  | true =>
    simp only [if_true, true_and, warm_filter hadaptive]
    by_cases hrate : 0 < h.warmRateBps <;> simp [hrate]

theorem initRate_le_iff (hmax : 0 < params.maxBps) :
    initRate (sendConfig params h job hblock) ≤ ceiling params h ↔
      h.rateBps ≤ ceiling params h ∨ (h.adaptive = true ∧ 0 < h.warmRateBps) := by
  have hpos : 0 < ceiling params h := ceiling_pos hmax
  rw [initRate_sendConfig, if_neg (by omega : ¬ ceiling params h = 0)]
  split_ifs with hwarm hzero
  · exact ⟨fun _ => .inr hwarm, fun _ => min_le_right _ _⟩
  · exact ⟨fun _ => .inl (by omega), fun _ => le_rfl⟩
  · exact ⟨.inl, fun hor => hor.resolve_right hwarm⟩

/-! ## Every run -/

/-- In adaptive mode a FEEDBACK that arrives from the peer asks for at most the ceiling. -/
def PeerWithin (cfg : SendConfig) (c : Nat) (s : State) : Action → Prop
  | .feedback env => cfg.rate.mode = .adaptive → env.addr = s.sh.peer →
      ∀ msg ∈ env.feedback cfg, msg.1.targetRate.toNat ≤ c
  | .prefetch _ | .pacer _ | .join | .stop | .control _ => True

instance (cfg : SendConfig) (c : Nat) (s : State) : (act : Action) → Decidable (PeerWithin cfg c s act)
  | .feedback env => inferInstanceAs (Decidable (_ = _ → _ = _ → ∀ msg ∈ env.feedback cfg, _ ≤ c))
  | .prefetch _ | .pacer _ | .join | .stop | .control _ => inferInstanceAs (Decidable True)

/-- The rates a sender holds, and in adaptive mode the one it is about to take over. -/
structure RatesWithin (cfg : SendConfig) (c : Nat) (s : State) : Prop where
  target : s.sh.targetBps ≤ c
  configured : s.sh.configuredTargetBps ≤ c
  pending : cfg.rate.mode = .adaptive → ∀ msg ∈ s.feedback.pending, msg.1.targetRate.toNat ≤ c

variable {prim : Primitives} {cfg : SendConfig} {c : Nat} {s t : State}

theorem adoptRate_le {sh : Shared} {fh : FeedbackHeader} (htarget : sh.targetBps ≤ c)
    (hconfigured : sh.configuredTargetBps ≤ c)
    (hpeer : cfg.rate.mode = .adaptive → fh.targetRate.toNat ≤ c) : adoptRate cfg sh fh ≤ c := by
  unfold adoptRate
  split
  · split
    · rename_i hmode
      exact hpeer hmode
    · exact le_trans (min_le_right _ _) hconfigured
  · exact htarget

theorem feedbackStep_ratesWithin {env : Env} {sh : Shared} {pc : FeedbackPc}
    (hinv : RatesWithin cfg c s) (hC : PeerWithin cfg c s (.feedback env))
    (hstep : feedbackStep cfg s.sh env s.feedback = some (sh, pc)) :
    RatesWithin cfg c { s with sh := sh, feedback := pc } := by
  have hconf := (feedbackStep_frame hstep).configuredTargetBps ▸ hinv.configured
  have hmove := feedbackStep_move hstep
  have hpending := hinv.pending
  generalize s.feedback = pc₀ at hmove hpending
  cases hmove with
  | quiet _ hpc htarget =>
    exact ⟨htarget ▸ hinv.target, hconf, fun _ msg hmem => by rw [hpc] at hmem; cases hmem⟩
  | arrive hmsg haddr =>
    exact ⟨hinv.target, hconf, fun hmode msg hmem => hC hmode haddr msg (hmsg ▸ hmem)⟩
  | setTick => exact ⟨hinv.target, hconf, hpending⟩
  | @pushNacks fh nacks _ _ htarget =>
    refine ⟨htarget ▸ hinv.target, hconf, fun hmode msg hmem => ?_⟩
    cases hmem
    exact hpending hmode (fh, nacks) rfl
  | storeRate _ htarget =>
    refine ⟨?_, hconf, fun _ msg hmem => by cases hmem⟩
    show sh.targetBps ≤ c
    rw [htarget]
    exact adoptRate_le hinv.target hinv.configured fun hmode => hpending hmode _ rfl

theorem ratesWithin_step {act : Action} (hinv : RatesWithin cfg c s) (hC : PeerWithin cfg c s act)
    (hstep : Sender.step prim cfg s act = some t) : RatesWithin cfg c t := by
  cases step_move hstep with
  | prefetch hp =>
    have hframe := prefetchStep_frame hp
    exact ⟨hframe.targetBps ▸ hinv.target, hframe.configuredTargetBps ▸ hinv.configured,
      hinv.pending⟩
  | pacer hp =>
    have hframe := pacerStep_frame hp
    exact ⟨hframe.targetBps ▸ hinv.target, hframe.configuredTargetBps ▸ hinv.configured,
      hinv.pending⟩
  | feedback hp => exact feedbackStep_ratesWithin hinv hC hp
  | join | flags => exact ⟨hinv.target, hinv.configured, hinv.pending⟩

theorem rate_le_ceiling_iff {limits : ServerLimits} (hadmitted : validateHelloLimits h limits = .ok ()) :
    h.rateBps ≤ ceiling params h ↔ 0 < h.maxBps ∨ h.rateBps ≤ params.maxBps := by
  have hle := (withinLimits_of_valid hadmitted).rate_le_max
  rw [ceiling_eq]
  split_ifs with hpos
  · exact ⟨fun _ => .inl hpos, fun _ => hle hpos⟩
  · exact ⟨.inr, fun hor => hor.resolve_left hpos⟩

/-- **The ceiling.** For every admitted request and every server with a ceiling: in every run of the
sender in which, in adaptive mode, no FEEDBACK of its peer asks for more than the ceiling, the target
rate never exceeds it, if and only if the request names a ceiling of its own, or its rate is within the
server's, or an adaptive warm start replaces that rate. -/
theorem target_within_ceiling_iff (prim : Primitives) (params : TransferParams)
    (limits : ServerLimits) (h : Hello) (job : SendJob)
    (hblock : (effectiveParams params h).blockSize + dataHeaderSize + aeadTagLen < 2 ^ 63)
    (hadmitted : validateHelloLimits h limits = .ok ()) (hmax : 0 < params.maxBps) :
    (∀ as t, Steps (Sender.step prim (sendConfig params h job hblock))
        (PeerWithin (sendConfig params h job hblock) (ceiling params h))
        (newSender (sendConfig params h job hblock)) as t →
      t.sh.targetBps ≤ ceiling params h) ↔
      0 < h.maxBps ∨ h.rateBps ≤ params.maxBps ∨ (h.adaptive = true ∧ 0 < h.warmRateBps) := by
  have hinit : initRate (sendConfig params h job hblock) ≤ ceiling params h ↔ _ :=
    initRate_le_iff hmax
  rw [← or_assoc, ← rate_le_ceiling_iff hadmitted, ← hinit]
  constructor
  · intro hall
    exact hall [] _ (.nil _)
  · intro hle as t hrun
    have hinv : RatesWithin (sendConfig params h job hblock) (ceiling params h) t :=
      hrun.invariant (fun _ _ _ hinv hC hstep => ratesWithin_step hinv hC hstep)
        ⟨hle, hle, fun _ msg hmem => by cases hmem⟩
    exact hinv.target

/-! ### Pulls of one byte -/

/-- A pull at the given rate, without a ceiling of its own. -/
def pullAt (rateBps : Nat) (adaptive : Bool) : Hello where
  version := protocolVersion
  mode := modeRecv
  name := "a"
  blockSize := 1400
  rateBps := rateBps
  adaptive := adaptive

theorem pullAt_block (rateBps : Nat) (adaptive : Bool) :
    (effectiveParams defaultParams (pullAt rateBps adaptive)).blockSize + dataHeaderSize +
      aeadTagLen < 2 ^ 63 := by
  show 1400 + 36 + 16 < 2 ^ 63
  decide

def oneByteJob : SendJob where
  peerIp := .v4 0x7f000001
  source := memSource [7]
  size := 1
  session := 9
  crypto := none
  size_lt := one_lt_i64
  neg_le_size := neg_i64_le_one

/-- The sender of such a pull on a server with the default parameters. -/
def pullConfig (rateBps : Nat) (adaptive : Bool) : SendConfig :=
  sendConfig defaultParams (pullAt rateBps adaptive) oneByteJob (pullAt_block rateBps adaptive)

/-- The CRC32C of the byte. -/
def pullPrims : Primitives := ⟨fun _ => 0x86b737ba, .unused⟩

/-- The receiver's first contact, then a FEEDBACK with the given target rate. -/
def startAndReport (targetRate : UInt64) : List Action :=
  let addr : SocketAddr := ⟨.v4 0x7f000001, 5001⟩
  let report : FeedbackHeader := { session := 9, targetRate := targetRate }
  [.pacer { recv := .datagram (startBytes 9) addr }, .feedback {},
    .feedback { recv := .datagram (report.bytes 0) addr }, .feedback {}, .feedback {}, .feedback {}]

/-- In fixed mode a FEEDBACK that asks for more than the ceiling does not get it. -/
theorem target_within_ceiling_fixed : ∃ t,
    Steps (Sender.step pullPrims (pullConfig 100000000 false))
      (PeerWithin (pullConfig 100000000 false) 10000000000) (newSender (pullConfig 100000000 false))
      (startAndReport 20000000000) t ∧ t.sh.targetBps ≤ 10000000000 := by
  obtain ⟨t, hrun, -⟩ := steps_of_exec_check (Sender.step pullPrims (pullConfig 100000000 false))
    (newSender (pullConfig 100000000 false)) (startAndReport 20000000000)
    (PeerWithin (pullConfig 100000000 false) 10000000000) (fun t => t.feedback.pending.isNone)
    (by decide +kernel)
  exact ⟨t, hrun, (target_within_ceiling_iff pullPrims defaultParams .default (pullAt 100000000 false)
    oneByteJob (pullAt_block 100000000 false) (by decide +kernel) (by decide)).mpr
      (.inr (.inl (by decide))) _ _ hrun⟩

/-- Two admitted requests without a ceiling of their own, to a server with a ceiling of 10 Gbit/s:
one starts the sender at 20 Gbit/s, the other lets the peer set that rate. -/
theorem ceiling_exceeded :
    (validateHelloLimits (pullAt 20000000000 false) .default = .ok () ∧
      ceiling defaultParams (pullAt 20000000000 false) <
        (newSender (pullConfig 20000000000 false)).sh.targetBps) ∧
    (validateHelloLimits (pullAt 100000000 true) .default = .ok () ∧
      ∃ t, Steps (Sender.step pullPrims (pullConfig 100000000 true)) Any
          (newSender (pullConfig 100000000 true)) (startAndReport 20000000000) t ∧
        ceiling defaultParams (pullAt 100000000 true) < t.sh.targetBps) := by
  refine ⟨⟨by decide +kernel, by decide +kernel⟩, by decide +kernel, ?_⟩
  obtain ⟨t, hrun, hQ⟩ := steps_of_exec_check (Sender.step pullPrims (pullConfig 100000000 true))
    (newSender (pullConfig 100000000 true)) (startAndReport 20000000000) Any
    (fun t => ceiling defaultParams (pullAt 100000000 true) < t.sh.targetBps) (by decide +kernel)
  exact ⟨t, hrun, by simpa using hQ⟩

end Girth
