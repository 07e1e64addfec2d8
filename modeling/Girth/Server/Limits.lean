import Girth.Control

/-!
# What a server admits

The server checks a `Hello` against its limits before it does anything else, then overrides its own
parameters by those of the request. The rate controller of the transfer is built from these effective
parameters.

`rateController_safe_iff` says for which requests that controller is safe. The limits bound the
requested ceiling from above only, while `RateController::new` puts a floor of 64 kbit/s under the
rate: a ceiling between the two makes every clamp panic.
-/

namespace Girth

open Lib

structure ServerLimits where
  maxObjectSize : Nat
  minBlockSize : Nat
  maxBlockSize : Nat
  maxRateBps : Nat
  maxAlphaBps : Nat
  deriving DecidableEq

def ServerLimits.default : ServerLimits where
  maxObjectSize := 1 <<< 40
  minBlockSize := 256
  maxBlockSize := 65455
  maxRateBps := 100000000000
  maxAlphaBps := 100000000000

def maxWarmRttUs : Nat := 60000000

def validateHelloLimits (h : Hello) (limits : ServerLimits) : Except String Unit :=
  if h.mode ≠ modeSend ∧ h.mode ≠ modeRecv then .error "unknown mode"
  else if h.size < 0 then .error "negative size"
  else if h.mode = modeSend ∧ h.size.toNat > limits.maxObjectSize then
    .error s!"object too large: {h.size} > {limits.maxObjectSize}"
  else if h.blockSize ≤ 0 then .error "invalid block size"
  else
    let blockSize := h.blockSize.toNat
    if blockSize < limits.minBlockSize ∨ blockSize > limits.maxBlockSize then
      .error (s!"block size out of range: {blockSize} " ++
        s!"(allowed {limits.minBlockSize}..={limits.maxBlockSize})")
    else if h.rateBps > limits.maxRateBps then
      .error s!"rate too high: {h.rateBps} > {limits.maxRateBps}"
    else if h.maxBps > limits.maxRateBps then
      .error s!"max rate too high: {h.maxBps} > {limits.maxRateBps}"
    else if h.warmRateBps > limits.maxRateBps then
      .error s!"warm rate too high: {h.warmRateBps} > {limits.maxRateBps}"
    else if h.warmSrttNetUs > maxWarmRttUs ∨ h.warmBaseRttUs > maxWarmRttUs then
      .error s!"warm RTT too high: srtt={h.warmSrttNetUs} base={h.warmBaseRttUs} max={maxWarmRttUs}"
    else if h.warmSrttNetUs > 0 ∧ h.warmBaseRttUs > 0 ∧ h.warmBaseRttUs > h.warmSrttNetUs then
      .error "warm base RTT exceeds warm SRTT"
    else if h.alphaBps > limits.maxAlphaBps then
      .error s!"alpha too high: {h.alphaBps} > {limits.maxAlphaBps}"
    else if h.maxBps > 0 ∧ h.rateBps > h.maxBps then .error "rate exceeds max rate"
    else .ok ()

/-- The RTTs of a warm start that the limits admit. -/
def WarmRttOk (srttNetUs baseRttUs : Nat) : Prop :=
  (srttNetUs ≤ maxWarmRttUs ∧ baseRttUs ≤ maxWarmRttUs) ∧
    (0 < srttNetUs → 0 < baseRttUs → baseRttUs ≤ srttNetUs)

/-- What an admitted request satisfies. -/
structure WithinLimits (h : Hello) (limits : ServerLimits) : Prop where
  mode : h.mode = modeSend ∨ h.mode = modeRecv
  size : 0 ≤ h.size
  object : h.mode = modeSend → h.size.toNat ≤ limits.maxObjectSize
  blockSize_pos : 0 < h.blockSize
  blockSize : limits.minBlockSize ≤ h.blockSize.toNat ∧ h.blockSize.toNat ≤ limits.maxBlockSize
  rate : h.rateBps ≤ limits.maxRateBps
  maxRate : h.maxBps ≤ limits.maxRateBps
  warmRate : h.warmRateBps ≤ limits.maxRateBps
  warmRtt : WarmRttOk h.warmSrttNetUs h.warmBaseRttUs
  alpha : h.alphaBps ≤ limits.maxAlphaBps
  rate_le_max : 0 < h.maxBps → h.rateBps ≤ h.maxBps

theorem guard_ok {p : Prop} [Decidable p] {e : String} {next : Except String Unit}
    (h : (if p then .error e else next) = .ok ()) : ¬ p ∧ next = .ok () := by
  by_cases hp : p
  · rw [if_pos hp] at h
    cases h
  · rw [if_neg hp] at h
    exact ⟨hp, h⟩

theorem withinLimits_of_valid {h : Hello} {limits : ServerLimits}
    (hvalid : validateHelloLimits h limits = .ok ()) : WithinLimits h limits := by
  obtain ⟨hmode, hvalid⟩ := guard_ok hvalid
  obtain ⟨hsize, hvalid⟩ := guard_ok hvalid
  obtain ⟨hobject, hvalid⟩ := guard_ok hvalid
  obtain ⟨hpos, hvalid⟩ := guard_ok hvalid
  obtain ⟨hblock, hvalid⟩ := guard_ok hvalid
  obtain ⟨hrate, hvalid⟩ := guard_ok hvalid
  obtain ⟨hmax, hvalid⟩ := guard_ok hvalid
  obtain ⟨hwarm, hvalid⟩ := guard_ok hvalid
  obtain ⟨hrtt, hvalid⟩ := guard_ok hvalid
  obtain ⟨hbase, hvalid⟩ := guard_ok hvalid
  obtain ⟨halpha, hvalid⟩ := guard_ok hvalid
  obtain ⟨hle, -⟩ := guard_ok hvalid
  refine ⟨by tauto, by omega, fun hsend => ?_, by omega, by omega, by omega, by omega, by omega,
    ⟨by omega, fun hs hb => ?_⟩, by omega, fun hm => ?_⟩
  · exact not_lt.mp fun hlt => hobject ⟨hsend, hlt⟩
  · exact not_lt.mp fun hlt => hbase ⟨hs, hb, hlt⟩
  · exact not_lt.mp fun hlt => hle ⟨hm, hlt⟩

/-- The server's parameters with those of the request put in. -/
def effectiveParams (params : TransferParams) (h : Hello) : TransferParams :=
  { params with
    blockSize := h.blockSize.toNat
    adaptive := h.adaptive
    alphaBps := if h.alphaBps > 0 then h.alphaBps else params.alphaBps
    rateBps := if h.rateBps > 0 then h.rateBps else params.rateBps
    maxBps := if h.maxBps > 0 then h.maxBps else params.maxBps }

/-- The controller of the transfer a Hello asks for. -/
def serverController (params : TransferParams) (h : Hello) : RateController :=
  .new ((effectiveParams params h).rateConfig h.rateBps)

/-! ## The rate controller -/

theorem serverController_band (h : Hello) :
    (serverController defaultParams h).cfg.minBps = 64000 ∧
      (serverController defaultParams h).cfg.maxBps =
        if h.maxBps = 0 then 10000000000 else h.maxBps := by
  refine ⟨rfl, ?_⟩
  have hmax : ((effectiveParams defaultParams h).rateConfig h.rateBps).maxBps =
      if h.maxBps > 0 then h.maxBps else 10000000000 := rfl
  show (if _ = 0 then 10000000000 else _) = _
  rw [hmax]
  split_ifs <;> omega

/-- **When the handshake is safe for the rate controller.** No sequence of warm starts and updates
makes the controller of a Hello panic or leave its band, if and only if the Hello asks for no ceiling
or for one that is not below the controller's floor. -/
theorem rateController_safe_iff (h : Hello) :
    (∀ ks : List RateController.Call, ∃ c,
        exec RateController.call (serverController defaultParams h) ks = some c ∧ c.InBand) ↔
      h.maxBps = 0 ∨ 64000 ≤ h.maxBps := by
  obtain ⟨hmin, hmax⟩ := serverController_band h
  constructor
  · intro hsafe
    by_contra hlow
    rw [not_or, not_le] at hlow
    rw [if_neg hlow.1] at hmax
    -- a warm start at any rate clamps between an inverted pair of bounds
    obtain ⟨c, hc, -⟩ := hsafe [.setRate 1]
    have hband : ((serverController defaultParams h).cfg.maxBps : ℚ) <
        (serverController defaultParams h).cfg.minBps := by
      rw [hmin, hmax]
      exact_mod_cast hlow.2
    simp only [exec, RateController.call, RateController.setRate, one_ne_zero, if_false,
      RateController.clamp?_eq_none_iff.mpr hband, Option.map_none, Option.bind_none] at hc
    cases hc
  · intro hok ks
    have hle : (serverController defaultParams h).cfg.minBps ≤
        (serverController defaultParams h).cfg.maxBps := by
      rw [hmin, hmax]
      split_ifs <;> omega
    exact RateController.calls_inv ks _ hle (RateController.new_inBand _ hle)

/-- An admitted request for an adaptive transfer with a ceiling of 1 bit/s. -/
def lowCeiling : Hello where
  version := 1
  mode := modeSend
  name := "a"
  size := 1
  blockSize := 1400
  rateBps := 1
  maxBps := 1
  adaptive := true

/-- It passes the limits, and the first update panics. -/
theorem lowCeiling_panics : validateHelloLimits lowCeiling .default = .ok () ∧
    exec RateController.call (serverController defaultParams lowCeiling) [.update 1 1] = none := by
  constructor <;> decide +kernel

end Girth
