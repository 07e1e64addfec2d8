import Girth.Lib.Float
import Girth.Lib.Machine
import Mathlib.Tactic.NormNum

/-!
# RTT estimation and the injection-rate controller

The source computes in `f64`. The estimator and the adaptive rule are modelled by the same expressions
in exact rationals; a configured rate is rounded where it becomes a float (`f64`). A cast of a float to
`u64` truncates and saturates (`asU64`). A clamp whose lower bound is above its upper
bound panics in the source: `clamp?` returns nothing there, and so do the two controller operations
that clamp, `RateController.update` and `RateController.setRate`.

`RateController.calls_inv` is the run lemma: as long as `minBps ≤ maxBps`, no sequence of calls
panics and in adaptive mode the rate stays between the two.
-/

namespace Girth

open Lib

/-- `x as u64`: truncation, saturating at both ends. -/
def asU64 (x : ℚ) : Nat := min x.floor.toNat (2 ^ 64 - 1)

def rttGain : ℚ := 125 / 1000
def rttAttenK : ℚ := 4
def rttRtoK : ℚ := 4
/-- Measurement precision (1 ms) added to due times. -/
def rttPrecUs : ℚ := 1000
def defMinRtoUs : ℚ := 2000
def defMaxRtoUs : ℚ := 4000000

/-! ## The RTT estimator -/

structure RttEstimator where
  srtt : ℚ
  vrtt : ℚ
  minRtt : ℚ
  haveAny : Bool
  minRto : ℚ
  maxRto : ℚ
  deriving DecidableEq, Repr

namespace RttEstimator

def new : RttEstimator := ⟨0, 0, 0, false, defMinRtoUs, defMaxRtoUs⟩

def rto (e : RttEstimator) : ℚ := max e.minRto (min (e.srtt + rttRtoK * e.vrtt) e.maxRto)

/-- Feed a measurement in microseconds; returns the estimator and the updated RTO. -/
def sample (e : RttEstimator) (rtt : ℚ) : RttEstimator × ℚ :=
  let rtt := if rtt < 0 then 0 else rtt
  let e' : RttEstimator :=
    if !e.haveAny then { e with srtt := rtt, vrtt := rtt / 2, minRtt := rtt, haveAny := true }
    else
      let err := rtt - e.srtt
      { e with
        srtt := e.srtt + rttGain * err
        vrtt := e.vrtt + (|err| - e.vrtt) / rttAttenK
        minRtt := if rtt < e.minRtt then rtt else e.minRtt }
  (e', e'.rto)

def seed (e : RttEstimator) (srttUs minRttUs : Nat) : RttEstimator :=
  if srttUs = 0 then e
  else
    { e with
      srtt := srttUs
      vrtt := max ((srttUs : ℚ) / 4) 1
      minRtt := if minRttUs = 0 then (srttUs : ℚ) else (min minRttUs srttUs : Nat)
      haveAny := true }

end RttEstimator

/-! ## The rate controller -/

inductive RateMode
  | fixed
  | adaptive
  deriving DecidableEq, Repr

structure RateConfig where
  mode : RateMode
  targetBps : Nat
  minBps : Nat
  maxBps : Nat
  alpha : ℚ
  deriving DecidableEq, Repr

structure RateWarmStart where
  rateBps : Nat := 0
  srttNetUs : Nat := 0
  baseRttUs : Nat := 0
  deriving DecidableEq, Repr

def RateWarmStart.isEmpty (w : RateWarmStart) : Bool :=
  w.rateBps == 0 && w.srttNetUs == 0 && w.baseRttUs == 0

/-- `x.clamp(lo, hi)`, which panics when `lo > hi`. -/
def clamp? (x lo hi : ℚ) : Option ℚ := if lo > hi then none else some (max lo (min x hi))

structure RateController where
  cfg : RateConfig
  rate : ℚ
  deriving DecidableEq, Repr

namespace RateController

/-- The configuration with its defaults filled in. -/
def defaults (cfg : RateConfig) : RateConfig :=
  { cfg with
    minBps := if cfg.minBps = 0 then 64 * 1000 else cfg.minBps
    maxBps := if cfg.maxBps = 0 then 10000000000 else cfg.maxBps
    alpha := if cfg.alpha = 0 then 30000000 else cfg.alpha }

def new (cfg : RateConfig) : RateController :=
  let cfg := defaults cfg
  let start := f64 cfg.targetBps
  let start :=
    if cfg.mode = .adaptive then
      let start : ℚ := if start = 0 ∨ start > cfg.maxBps then (cfg.maxBps : ℚ) else start
      let start := start * (5 / 100)
      if start < cfg.minBps then (cfg.minBps : ℚ) else start
    else start
  ⟨cfg, start⟩

/-- `BaseAvg` of the adaptive rule. -/
def baseAvg (srttNetUs baseUs : ℚ) : ℚ :=
  if ¬ (baseUs < 5000 ∧ srttNetUs < 20000) then max 0 (min (baseUs / srttNetUs) 1) else 1

/-- Recompute the target from the smoothed and the base RTT; nothing if the clamp panics. -/
def update (c : RateController) (srttNetUs baseUs : ℚ) : Option (RateController × Nat) :=
  if c.cfg.mode = .fixed then
    let c := { c with rate := f64 c.cfg.targetBps }
    some (c, asU64 c.rate)
  else if srttNetUs ≤ 0 then some (c, asU64 c.rate)
  else
    let rate := 1 / 2 * (c.rate * baseAvg srttNetUs baseUs + c.rate + c.cfg.alpha)
    (clamp? rate c.cfg.minBps c.cfg.maxBps).map fun rate => ({ c with rate := rate }, asU64 rate)

/-- Warm start; nothing if the clamp panics. -/
def setRate (c : RateController) (rateBps : Nat) : Option RateController :=
  if rateBps = 0 then some c
  else (clamp? rateBps c.cfg.minBps c.cfg.maxBps).map fun rate => { c with rate := rate }

/-- The calls made on a controller after it is built. -/
inductive Call
  | setRate (rateBps : Nat)
  | update (srttNetUs baseUs : ℚ)

def call (c : RateController) : Call → Option RateController
  | .setRate rateBps => c.setRate rateBps
  | .update srttNetUs baseUs => (c.update srttNetUs baseUs).map (·.1)

/-! ## Every sequence of calls -/

/-- In adaptive mode the rate lies in the configured band. -/
def InBand (c : RateController) : Prop :=
  c.cfg.mode = .adaptive → (c.cfg.minBps : ℚ) ≤ c.rate ∧ c.rate ≤ c.cfg.maxBps

theorem clamp?_eq_none_iff {x lo hi : ℚ} : clamp? x lo hi = none ↔ hi < lo := by
  unfold clamp?
  split <;> simp_all

theorem clamp?_of_le {x lo hi : ℚ} (h : lo ≤ hi) : clamp? x lo hi = some (max lo (min x hi)) := by
  rw [clamp?, if_neg (not_lt.mpr h)]

theorem clamp_mem {x lo hi : ℚ} (h : lo ≤ hi) : lo ≤ max lo (min x hi) ∧ max lo (min x hi) ≤ hi :=
  ⟨le_max_left _ _, max_le h (min_le_right _ _)⟩

theorem start_mem {x lo hi : ℚ} (h0 : 0 ≤ x) (hx : x ≤ hi) (hle : lo ≤ hi) :
    lo ≤ (if x * (5 / 100) < lo then lo else x * (5 / 100)) ∧
      (if x * (5 / 100) < lo then lo else x * (5 / 100)) ≤ hi := by
  split_ifs with hlow
  · exact ⟨le_rfl, hle⟩
  · exact ⟨not_lt.mp hlow, by linarith⟩

theorem new_inBand (cfg : RateConfig) (h : (defaults cfg).minBps ≤ (defaults cfg).maxBps) :
    (new cfg).InBand := by
  intro hmode
  have hmode' : (defaults cfg).mode = .adaptive := hmode
  simp only [new, hmode', if_true]
  refine start_mem ?_ ?_ (by exact_mod_cast h)
  · split_ifs
    · exact Nat.cast_nonneg _
    · exact f64_nonneg (Nat.cast_nonneg _)
  · split_ifs with hx
    · exact le_rfl
    · exact not_lt.mp fun hlt => hx (Or.inr hlt)

theorem call_cfg {c c' : RateController} {k : Call} (h : c.call k = some c') : c'.cfg = c.cfg := by
  cases k with
  | setRate rateBps =>
    simp only [call, setRate] at h
    split at h
    · cases h; rfl
    · obtain ⟨rate, _, rfl⟩ := Option.map_eq_some_iff.mp h
      rfl
  | update srttNetUs baseUs =>
    simp only [call, update] at h
    split at h
    · cases h; rfl
    · split at h
      · cases h; rfl
      · simp only [Option.map_map] at h
        obtain ⟨rate, _, rfl⟩ := Option.map_eq_some_iff.mp h
        rfl

theorem call_inBand {c : RateController} (k : Call) (hle : c.cfg.minBps ≤ c.cfg.maxBps)
    (hin : c.InBand) : ∃ c', c.call k = some c' ∧ c'.InBand := by
  have hband : (c.cfg.minBps : ℚ) ≤ c.cfg.maxBps := by exact_mod_cast hle
  cases k with
  | setRate rateBps =>
    simp only [call, setRate]
    split
    · exact ⟨c, rfl, hin⟩
    · rw [clamp?_of_le hband]
      exact ⟨_, rfl, fun _ => clamp_mem hband⟩
  | update srttNetUs baseUs =>
    simp only [call, update]
    split
    · rename_i hmode
      exact ⟨_, rfl, fun hadaptive => by simp_all⟩
    · split
      · exact ⟨c, rfl, hin⟩
      · rw [clamp?_of_le hband]
        exact ⟨_, rfl, fun _ => clamp_mem hband⟩

/-- **Every sequence of calls.** With the bounds in order no clamp panics and the rate stays in
the band. -/
theorem calls_inv (ks : List Call) (c : RateController) (hle : c.cfg.minBps ≤ c.cfg.maxBps)
    (hin : c.InBand) : ∃ c', exec call c ks = some c' ∧ c'.InBand := by
  induction ks generalizing c with
  | nil => exact ⟨c, rfl, hin⟩
  | cons k ks ih =>
    obtain ⟨c', hk, hin'⟩ := call_inBand k hle hin
    obtain ⟨c'', hks, hin''⟩ := ih c' (by rw [call_cfg hk]; exact hle) hin'
    exact ⟨c'', by simp [exec, hk, hks], hin''⟩

end RateController

end Girth
