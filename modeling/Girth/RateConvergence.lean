import Girth.Lib.Contraction
import Girth.Rate

/-!
# Where the adaptive rate settles

With constant RTTs one call of `update` is an affine map followed by the clamp of the configured
band. Below `BaseAvg` one the affine map pulls the rate towards `alpha / (1 - BaseAvg)`, halving
`1 - BaseAvg` of the distance, and `Lib.Contraction` gives the limit, the speed and the side from
which it is reached. At `BaseAvg` one the map only adds `alpha / 2`.
-/

namespace Girth

open Lib

namespace RateController

/-- `n` calls of `update` with the same RTTs. -/
def updates (c : RateController) (srttNetUs baseUs : ℚ) (n : ℕ) : Option RateController :=
  exec call c (List.replicate n (.update srttNetUs baseUs))

/-- The rate after one adaptive call, before it is stored. -/
def nextRate (cfg : RateConfig) (srttNetUs baseUs : ℚ) : ℚ → ℚ :=
  clamped cfg.minBps cfg.maxBps fun rate =>
    1 / 2 * (rate * baseAvg srttNetUs baseUs + rate + cfg.alpha)

/-- The equilibrium rate, clamped to the band. -/
def equilibrium (cfg : RateConfig) (srttNetUs baseUs : ℚ) : ℚ :=
  max (cfg.minBps : ℚ) (min (cfg.alpha / (1 - baseAvg srttNetUs baseUs)) cfg.maxBps)

section adaptive

variable {c : RateController} {srttNetUs baseUs : ℚ}

theorem baseAvg_nonneg : 0 ≤ baseAvg srttNetUs baseUs := by
  unfold baseAvg
  split
  · exact le_max_left _ _
  · exact zero_le_one

theorem call_update (hmode : c.cfg.mode = .adaptive) (hle : c.cfg.minBps ≤ c.cfg.maxBps)
    (hsrtt : 0 < srttNetUs) :
    c.call (.update srttNetUs baseUs) =
      some { c with rate := nextRate c.cfg srttNetUs baseUs c.rate } := by
  have hband : (c.cfg.minBps : ℚ) ≤ c.cfg.maxBps := by exact_mod_cast hle
  rw [call, update, if_neg (by simp [hmode]), if_neg (not_le.mpr hsrtt)]
  simp only [clamp?_of_le hband]
  rfl

theorem updates_eq (hmode : c.cfg.mode = .adaptive) (hle : c.cfg.minBps ≤ c.cfg.maxBps)
    (hsrtt : 0 < srttNetUs) (n : ℕ) :
    c.updates srttNetUs baseUs n =
      some { c with rate := (nextRate c.cfg srttNetUs baseUs)^[n] c.rate } := by
  unfold updates
  induction n generalizing c with
  | zero => rfl
  | succ n ih =>
    have hcall : c.call (.update srttNetUs baseUs) = _ := call_update hmode hle hsrtt
    rw [List.replicate_succ, exec, hcall, Option.bind_some]
    exact ih hmode hle

theorem nextRate_eq_pull {cfg : RateConfig} (hb : baseAvg srttNetUs baseUs < 1) :
    nextRate cfg srttNetUs baseUs =
      clamped (cfg.minBps : ℚ) cfg.maxBps (pull ((1 + baseAvg srttNetUs baseUs) / 2)
        (cfg.alpha / (1 - baseAvg srttNetUs baseUs))) := by
  have hne : 1 - baseAvg srttNetUs baseUs ≠ 0 := (sub_pos.mpr hb).ne'
  unfold nextRate
  congr 1
  funext rate
  unfold pull
  field_simp
  ring

theorem nextRate_eq_add {cfg : RateConfig} (hb : baseAvg srttNetUs baseUs = 1) :
    nextRate cfg srttNetUs baseUs =
      clamped (cfg.minBps : ℚ) cfg.maxBps (· + cfg.alpha / 2) := by
  unfold nextRate
  congr 1
  funext rate
  rw [hb]
  ring

end adaptive

/-- **Geometric convergence.** With constant RTTs every call of `update` goes through. Below
`BaseAvg` one the rate approaches the clamped equilibrium at the factor `(1 + BaseAvg) / 2` from
the side it starts on; at `BaseAvg` one it climbs from the first clamped value on and stays at the
ceiling once there. -/
theorem updates_converge (c : RateController) (srttNetUs baseUs : ℚ)
    (hmode : c.cfg.mode = .adaptive) (hle : c.cfg.minBps ≤ c.cfg.maxBps)
    (halpha : 0 ≤ c.cfg.alpha) (hsrtt : 0 < srttNetUs) :
    ∃ rate : ℕ → ℚ, rate 0 = c.rate ∧
      (∀ n, c.updates srttNetUs baseUs n = some { c with rate := rate n }) ∧
      (baseAvg srttNetUs baseUs < 1 →
        Approaches ((1 + baseAvg srttNetUs baseUs) / 2) (equilibrium c.cfg srttNetUs baseUs) rate) ∧
      (baseAvg srttNetUs baseUs = 1 →
        (∀ m n, 1 ≤ m → m ≤ n → rate m ≤ rate n) ∧
          ∀ m n, m ≤ n → rate m = c.cfg.maxBps → rate n = c.cfg.maxBps) := by
  have hband : (c.cfg.minBps : ℚ) ≤ c.cfg.maxBps := by exact_mod_cast hle
  refine ⟨fun n => (nextRate c.cfg srttNetUs baseUs)^[n] c.rate, rfl,
    fun n => updates_eq hmode hle hsrtt n, fun hb => ?_, fun hb => ?_⟩
  · have hnonneg : 0 ≤ baseAvg srttNetUs baseUs := baseAvg_nonneg
    rw [nextRate_eq_pull hb]
    exact approaches_clamped_pull hband (by linarith) (by linarith)
  · have hhalf : 0 ≤ c.cfg.alpha / 2 := by linarith
    rw [nextRate_eq_add hb]
    refine ⟨fun m n hm hmn => monotone_iterate_clamped_add hband hhalf hm hmn, fun m n hmn hm => ?_⟩
    obtain ⟨k, rfl⟩ := Nat.exists_eq_add_of_le' hmn
    simp only [Function.iterate_add_apply] at hm ⊢
    rw [hm]
    exact Function.iterate_fixed (clamped_add_ceiling hband hhalf) k

/-- An adaptive controller of 1 Gbit/s whose equilibrium, 60 Mbit/s, lies inside its band. -/
def queueing : RateController := ⟨⟨.adaptive, 0, 64000, 1000000000, 30000000⟩, 1000000000⟩

/-- At an RTT of twice the base `BaseAvg` is one half. The first call takes the rate from 1000 to
765 Mbit/s, three quarters of the way to the equilibrium remaining. -/
theorem updates_converge_queueing :
    baseAvg 100000 50000 = 1 / 2 ∧ equilibrium queueing.cfg 100000 50000 = 60000000 ∧
      queueing.updates 100000 50000 1 = some { queueing with rate := 765000000 } ∧
      ∃ rate : ℕ → ℚ, rate 0 = 1000000000 ∧
        (∀ n, queueing.updates 100000 50000 n = some { queueing with rate := rate n }) ∧
        ∀ n, |rate n - 60000000| ≤ (3 / 4) ^ n * |rate 0 - 60000000| := by
  have hb : baseAvg 100000 50000 = 1 / 2 := by decide +kernel
  have he : equilibrium queueing.cfg 100000 50000 = 60000000 := by decide +kernel
  refine ⟨hb, he, by decide +kernel, ?_⟩
  obtain ⟨rate, h0, hrate, hbelow, _⟩ := updates_converge queueing 100000 50000 rfl (by decide)
    (by decide +kernel) (by decide +kernel)
  refine ⟨rate, h0, hrate, fun n => ?_⟩
  have happ := (hbelow (by rw [hb]; norm_num) n).1
  rw [hb, he] at happ
  norm_num at happ ⊢
  exact happ

end RateController

end Girth
