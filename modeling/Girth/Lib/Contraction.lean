import Mathlib.Algebra.Order.Field.Basic
import Mathlib.Algebra.Order.Group.MinMax
import Mathlib.Order.Iterate
import Mathlib.Tactic.Linarith
import Mathlib.Tactic.Ring

/-!
# Affine contractions with a clamp

`pull q e x` moves `x` towards `e` and leaves the fraction `q` of the distance; `clamped lo hi f`
clamps the result of `f` to a band. The target `e` may lie outside the band. The clamped map then
contracts to the point of the band nearest to `e`, by the same factor (`abs_clamped_pull_sub_le`),
and it is monotone, so an orbit stays on the side of that point on which it starts
(`approaches_clamped_pull`).
-/

namespace Lib

section clamped

variable {K : Type*} [LinearOrder K] {lo hi x : K} {f : K → K}

def clamped (lo hi : K) (f : K → K) (x : K) : K := max lo (min (f x) hi)

theorem clamped_le (hle : lo ≤ hi) : clamped lo hi f x ≤ hi := max_le hle (min_le_right _ _)

theorem le_clamped : lo ≤ clamped lo hi f x := le_max_left _ _

theorem monotone_clamped (hf : Monotone f) : Monotone (clamped lo hi f) := by
  intro x y hxy
  exact max_le_max_left lo (min_le_min_right hi (hf hxy))

theorem clamp_cases (hle : lo ≤ hi) (e : K) :
    (hi < e ∧ max lo (min e hi) = hi) ∨ (e < lo ∧ max lo (min e hi) = lo) ∨
      (lo ≤ e ∧ e ≤ hi ∧ max lo (min e hi) = e) := by
  rcases lt_or_ge hi e with h | h
  · left
    exact ⟨h, by rw [min_eq_right h.le, max_eq_right hle]⟩
  · right
    rw [min_eq_left h]
    rcases lt_or_ge e lo with h' | h'
    · exact Or.inl ⟨h', max_eq_left h'.le⟩
    · exact Or.inr ⟨h', h, max_eq_right h'⟩

end clamped

section pull

variable {K : Type*} [Field K] [LinearOrder K] [IsStrictOrderedRing K] {lo hi q e x c : K}
  {f : K → K}

def pull (q e x : K) : K := e + q * (x - e)

theorem monotone_pull (hq : 0 ≤ q) : Monotone (pull q e) := by
  intro x y hxy
  have hmul : q * (x - e) ≤ q * (y - e) := mul_le_mul_of_nonneg_left (by linarith) hq
  unfold pull
  linarith

theorem le_pull (hq : 0 ≤ q) (hq1 : q ≤ 1) (he : c ≤ e) (hx : c ≤ x) : c ≤ pull q e x := by
  have hmix : 0 ≤ (1 - q) * (e - c) + q * (x - c) :=
    add_nonneg (mul_nonneg (sub_nonneg.mpr hq1) (sub_nonneg.mpr he)) (mul_nonneg hq (sub_nonneg.mpr hx))
  unfold pull
  linarith

theorem pull_le (hq : 0 ≤ q) (hq1 : q ≤ 1) (he : e ≤ c) (hx : x ≤ c) : pull q e x ≤ c := by
  have hmix : 0 ≤ (1 - q) * (c - e) + q * (c - x) :=
    add_nonneg (mul_nonneg (sub_nonneg.mpr hq1) (sub_nonneg.mpr he)) (mul_nonneg hq (sub_nonneg.mpr hx))
  unfold pull
  linarith

theorem clamped_pull_nearest (hle : lo ≤ hi) (hq1 : q ≤ 1) :
    clamped lo hi (pull q e) (max lo (min e hi)) = max lo (min e hi) := by
  rcases clamp_cases hle e with ⟨he, hc⟩ | ⟨he, hc⟩ | ⟨_, hhi, hc⟩
  · have hge : hi ≤ pull q e hi := by
      unfold pull
      nlinarith
    rw [hc, clamped, min_eq_right hge, max_eq_right hle]
  · have hlo : pull q e lo ≤ lo := by
      unfold pull
      nlinarith
    rw [hc, clamped, max_eq_left ((min_le_left _ _).trans hlo)]
  · have heq : pull q e e = e := by simp [pull]
    rw [hc, clamped, heq, hc]

/-- One clamped step leaves at most the fraction `q` of the distance to the nearest point of the
band, from wherever it starts. -/
theorem abs_clamped_pull_sub_le (hle : lo ≤ hi) (hq : 0 ≤ q) (hq1 : q ≤ 1) :
    |clamped lo hi (pull q e) x - max lo (min e hi)| ≤ q * |x - max lo (min e hi)| := by
  have hmono : Monotone (clamped lo hi (pull q e)) := monotone_clamped (monotone_pull hq)
  have hfix := clamped_pull_nearest (e := e) hle hq1
  set c := max lo (min e hi) with hcdef
  -- the step keeps the side of the nearest point; on that side only one bound of the clamp acts
  rcases le_total x c with hx | hx
  · have hstep : clamped lo hi (pull q e) x ≤ c := hfix ▸ hmono hx
    rw [abs_of_nonpos (by linarith), abs_of_nonpos (by linarith)]
    have hlow : c - q * (c - x) ≤ clamped lo hi (pull q e) x := by
      rcases clamp_cases hle e with ⟨he, hc⟩ | ⟨he, hc⟩ | ⟨_, hhi, hc⟩
      · refine le_max_of_le_right (le_min ?_ ?_)
        · unfold pull
          nlinarith
        · nlinarith
      · have hge : lo ≤ clamped lo hi (pull q e) x := le_clamped
        nlinarith
      · refine le_max_of_le_right (le_min ?_ ?_)
        · unfold pull
          nlinarith
        · nlinarith
    linarith
  · have hstep : c ≤ clamped lo hi (pull q e) x := hfix ▸ hmono hx
    rw [abs_of_nonneg (by linarith), abs_of_nonneg (by linarith)]
    have hup : clamped lo hi (pull q e) x ≤ c + q * (x - c) := by
      rcases clamp_cases hle e with ⟨he, hc⟩ | ⟨he, hc⟩ | ⟨hlo, _, hc⟩
      · have hle' : clamped lo hi (pull q e) x ≤ hi := clamped_le hle
        nlinarith
      · refine max_le (by nlinarith) ((min_le_left _ _).trans ?_)
        unfold pull
        nlinarith
      · refine max_le (by nlinarith) ((min_le_left _ _).trans ?_)
        unfold pull
        nlinarith
    linarith

/-! ## Orbits -/

/-- The sequence approaches `c` at least as fast as the powers of `q`, from one side. -/
def Approaches (q c : K) (u : ℕ → K) : Prop :=
  ∀ n, |u n - c| ≤ q ^ n * |u 0 - c| ∧ ∀ m ≤ n, (u m ≤ c → u n ≤ c) ∧ (c ≤ u m → c ≤ u n)

theorem abs_iterate_sub_le (hq : 0 ≤ q) (hstep : ∀ x, |f x - c| ≤ q * |x - c|) (n : ℕ) :
    |f^[n] x - c| ≤ q ^ n * |x - c| := by
  induction n with
  | zero => simp
  | succ n ih =>
    rw [Function.iterate_succ_apply']
    calc |f (f^[n] x) - c| ≤ q * |f^[n] x - c| := hstep _
      _ ≤ q * (q ^ n * |x - c|) := mul_le_mul_of_nonneg_left ih hq
      _ = q ^ (n + 1) * |x - c| := by ring

/-- An orbit of a monotone map does not pass a fixed point; if one step contracts to it, the orbit
approaches it. -/
theorem approaches_iterate (hq : 0 ≤ q) (hf : Monotone f) (hc : f c = c)
    (hstep : ∀ x, |f x - c| ≤ q * |x - c|) : Approaches q c fun n => f^[n] x := by
  intro n
  refine ⟨abs_iterate_sub_le hq hstep n, fun m hmn => ?_⟩
  obtain ⟨k, rfl⟩ := Nat.exists_eq_add_of_le' hmn
  have hfix : f^[k] c = c := Function.iterate_fixed hc k
  have hmono : Monotone f^[k] := hf.iterate k
  simp only [Function.iterate_add_apply]
  exact ⟨fun h => hfix ▸ hmono h, fun h => hfix ▸ hmono h⟩

/-- The clamped pull approaches the point of its band nearest to the target. -/
theorem approaches_clamped_pull (hle : lo ≤ hi) (hq : 0 ≤ q) (hq1 : q ≤ 1) :
    Approaches q (max lo (min e hi)) fun n => (clamped lo hi (pull q e))^[n] x :=
  approaches_iterate hq (monotone_clamped (monotone_pull hq)) (clamped_pull_nearest hle hq1)
    fun _ => abs_clamped_pull_sub_le hle hq hq1

theorem monotone_iterate_clamped_add (hle : lo ≤ hi) {a : K} (ha : 0 ≤ a) {m n : ℕ} (hm : 1 ≤ m)
    (hmn : m ≤ n) : (clamped lo hi (· + a))^[m] x ≤ (clamped lo hi (· + a))^[n] x := by
  induction n, hmn using Nat.le_induction with
  | base => exact le_rfl
  | succ n hmn ih =>
    -- after at least one step the value is under the ceiling
    obtain ⟨k, rfl⟩ := Nat.exists_eq_add_of_le' (hm.trans hmn)
    have hle' : (clamped lo hi (· + a))^[k + 1] x ≤ hi := by
      rw [Function.iterate_succ_apply']
      exact clamped_le hle
    rw [Function.iterate_succ_apply']
    exact ih.trans (le_max_of_le_right (le_min (le_add_of_nonneg_right ha) hle'))

theorem clamped_add_ceiling (hle : lo ≤ hi) {a : K} (ha : 0 ≤ a) :
    clamped lo hi (· + a) hi = hi := by
  rw [clamped, min_eq_right (le_add_of_nonneg_right ha), max_eq_right hle]

end pull

end Lib
