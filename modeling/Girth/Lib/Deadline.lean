import Mathlib.Algebra.Order.Field.Basic
import Mathlib.Tactic.FieldSimp
import Mathlib.Tactic.Linarith
import Mathlib.Tactic.Ring

/-!
# Pacing by absolute deadlines

A loop sends something in every iteration and moves a deadline by a fixed step; it waits for the
deadline, and if it has fallen behind by more than some lag it gives up the difference and takes the
present as its deadline. Iterations may take any time.

Two facts about a deadline carry everything. It moves by at least one step per iteration, and after an
iteration it is behind the present by at most the lag (`add_le_nextDeadline`, `sub_le_nextDeadline`).
So a flush with `i` newer ones is at most `lag - i * step` ahead of the deadline (`Covers`), and since
no flush comes before its deadline, two flushes with `i` in between are that far apart (`Spaced`).
`Paces` says this of the log of a loop that may also pause, and `Paces.flushes_le` bounds the flushes
in any window of time without a pause.
-/

namespace Lib

variable {K : Type*} [Field K] [LinearOrder K]

/-- The deadline after an iteration that ends at `now`. -/
def nextDeadline (step lag d now : K) : K :=
  if now < d + step then d + step else if lag < now - (d + step) then now else d + step

section deadline

variable {step lag d now : K}

theorem add_le_nextDeadline : d + step ≤ nextDeadline step lag d now := by
  unfold nextDeadline
  split_ifs with h
  · exact le_rfl
  · exact not_lt.mp h
  · exact le_rfl

variable [IsStrictOrderedRing K]

theorem sub_le_nextDeadline (hlag : 0 ≤ lag) : now - lag ≤ nextDeadline step lag d now := by
  unfold nextDeadline
  split_ifs with h hbehind <;> linarith

end deadline

/-! ## Flushes and their deadline -/

/-- What the deadline says about flushes, newest first. -/
def Covers (step lag d : K) (fs : List K) : Prop :=
  ∀ (i : ℕ) f, fs[i]? = some f → f + i * step ≤ d + lag

/-- Two flushes with `i` in between are at least `i * step - lag - early` apart. -/
def Spaced (step lag early : K) : List K → Prop
  | [] => True
  | f :: fs => (∀ (i : ℕ) g, fs[i]? = some g → g + i * step ≤ f + lag + early) ∧
      Spaced step lag early fs

section spaced

variable [IsStrictOrderedRing K] {step lag early d : K} {fs : List K}

theorem Covers.spaced (h : Covers step lag d fs) (hfs : Spaced step lag early fs) {f : K}
    (hf : d ≤ f + early) : Spaced step lag early (f :: fs) := by
  refine ⟨fun i g hg => ?_, hfs⟩
  have := h i g hg
  linarith

theorem Covers.next (h : Covers step lag d fs) (hlag : 0 ≤ lag) {f now : K} (hf : f ≤ now) :
    Covers step lag (nextDeadline step lag d now) (f :: fs) := by
  have hadd : d + step ≤ nextDeadline step lag d now := add_le_nextDeadline
  have hsub : now - lag ≤ nextDeadline step lag d now := sub_le_nextDeadline hlag
  intro i g hg
  cases i with
  | zero =>
    cases hg
    rw [Nat.cast_zero, zero_mul]
    linarith
  | succ i =>
    have := h i g hg
    rw [Nat.cast_succ, add_mul, one_mul]
    linarith

theorem exists_getElem?_of_filter {α : Type*} (p : α → Bool) (l : List α)
    (h : 0 < (l.filter p).length) :
    ∃ (i : ℕ) (a : α), l[i]? = some a ∧ p a = true ∧ (l.filter p).length ≤ i + 1 := by
  induction l with
  | nil => cases h
  | cons a l ih =>
    have hcons : ((a :: l).filter p).length ≤ (l.filter p).length + 1 := by
      rw [List.filter_cons]
      split
      · exact le_rfl
      · exact Nat.le_succ _
    by_cases hl : 0 < (l.filter p).length
    · obtain ⟨i, b, hb, hpb, hle⟩ := ih hl
      exact ⟨i + 1, b, hb, hpb, by omega⟩
    · refine ⟨0, a, rfl, ?_, by omega⟩
      by_contra hpa
      rw [List.filter_cons_of_neg hpa] at h
      exact hl h

/-- A moment of the window that starts at `w` and lasts `T`. -/
def Within (w T t : K) : Prop := w ≤ t ∧ t ≤ w + T

instance (w T t : K) : Decidable (Within w T t) := inferInstanceAs (Decidable (_ ∧ _))

/-- **Spaced flushes in a window.** -/
theorem Spaced.filter_le (h : Spaced step lag early fs) (hstep : 0 ≤ step) (hlag : 0 ≤ lag)
    (hearly : 0 ≤ early) {w T : K} (hT : 0 ≤ T) :
    ((fs.filter fun t => Within w T t).length : K) * step ≤ T + early + lag + 2 * step := by
  induction fs with
  | nil =>
    rw [List.filter_nil, List.length_nil, Nat.cast_zero, zero_mul]
    linarith
  | cons f fs ih =>
    by_cases hf : Within w T f
    · rw [List.filter_cons_of_pos (by simpa using hf), List.length_cons]
      by_cases hpos : 0 < (fs.filter fun t => Within w T t).length
      · -- the oldest flush of the window is at least that many flushes old
        obtain ⟨i, g, hg, hwin, hle⟩ := exists_getElem?_of_filter _ fs hpos
        have hwin : Within w T g := by simpa using hwin
        have hgap := h.1 i g hg
        have hcount : (((fs.filter fun t => Within w T t).length + 1 : ℕ) : K) * step ≤
            (i + 2) * step := by
          refine mul_le_mul_of_nonneg_right ?_ hstep
          exact_mod_cast (by omega : (fs.filter fun t => Within w T t).length + 1 ≤ i + 2)
        have := hf.2
        have := hwin.1
        rw [add_mul] at hcount
        linarith
      · rw [Nat.eq_zero_of_not_pos hpos, zero_add, Nat.cast_one, one_mul]
        linarith
    · rw [List.filter_cons_of_neg (by simpa using hf)]
      exact ih h.2

end spaced

/-! ## A loop that may pause -/

/-- What the loop has done, and when. -/
inductive PaceEvent (K : Type*)
  | flush (time : K)
  | pause (time : K)

namespace PaceEvent

def time : PaceEvent K → K
  | flush t | pause t => t

def isFlush : PaceEvent K → Bool
  | flush _ => true
  | pause _ => false

end PaceEvent

/-- The flushes since the last pause; newest first, like the log. -/
def sincePause : List (PaceEvent K) → List K
  | .flush t :: log => t :: sincePause log
  | .pause _ :: _ | [] => []

/-- The number of flushes in a window. -/
def flushesIn (w T : K) (log : List (PaceEvent K)) : ℕ :=
  log.countP fun e => e.isFlush && Within w T e.time

/-- A paced loop with its log: the deadline, the last clock reading, and whether it has flushed in
this iteration and not moved the deadline yet. -/
structure Paces (step lag early : K) (log : List (PaceEvent K)) (d clock : K) (flushed : Bool) :
    Prop where
  sorted : log.Pairwise fun e e' => e'.time ≤ e.time
  le_clock : ∀ e ∈ log, e.time ≤ clock
  spaced : ∀ older, older <:+ log → Spaced step lag early (sincePause older)
  covers : Covers step lag d (if flushed then (sincePause log).tail else sincePause log)
  early : flushed = false → d ≤ clock + early

section paces

variable {step lag early d clock : K} {log : List (PaceEvent K)} {flushed : Bool}

theorem Paces.log_cons (h : Paces step lag early log d clock flushed) {e : PaceEvent K}
    (he : clock ≤ e.time) (hspaced : Spaced step lag early (sincePause (e :: log))) :
    (e :: log).Pairwise (fun e e' => e'.time ≤ e.time) ∧ (∀ e' ∈ e :: log, e'.time ≤ e.time) ∧
      ∀ older, older <:+ e :: log → Spaced step lag early (sincePause older) := by
  have hle : ∀ e' ∈ log, e'.time ≤ e.time := fun e' he' => (h.le_clock e' he').trans he
  refine ⟨List.pairwise_cons.mpr ⟨hle, h.sorted⟩, List.forall_mem_cons.mpr ⟨le_rfl, hle⟩, ?_⟩
  intro older holder
  rcases List.suffix_cons_iff.mp holder with rfl | hold
  · exact hspaced
  · exact h.spaced older hold

theorem flushesIn_flush (w T t : K) (log : List (PaceEvent K)) :
    flushesIn w T (.flush t :: log) = flushesIn w T log + if Within w T t then 1 else 0 := by
  have hhead : ((PaceEvent.flush t).isFlush && decide (Within w T (PaceEvent.flush t).time)) =
      decide (Within w T t) := Bool.true_and _
  rw [flushesIn, List.countP_cons, hhead]
  exact congrArg _ (if_congr decide_eq_true_iff rfl rfl)

/-- Once the log is older than the end of a window without a pause, the flushes in the window are
among those since the last pause. -/
theorem flushesIn_eq {w T : K} (hsorted : log.Pairwise fun e e' => e'.time ≤ e.time)
    (hle : ∀ e ∈ log, e.time ≤ w + T) (hpause : ∀ t, .pause t ∈ log → ¬ Within w T t) :
    flushesIn w T log = ((sincePause log).filter fun t => Within w T t).length := by
  induction log with
  | nil => rfl
  | cons e log ih =>
    obtain ⟨hnewest, hrest⟩ := List.pairwise_cons.mp hsorted
    cases e with
    | flush t =>
      have ih := ih hrest (fun e he => hle e (List.mem_cons_of_mem _ he))
        fun t ht => hpause t (List.mem_cons_of_mem _ ht)
      rw [flushesIn_flush, ih, sincePause]
      by_cases ht : Within w T t
      · rw [if_pos ht, List.filter_cons_of_pos (by simpa using ht), List.length_cons]
      · rw [if_neg ht, List.filter_cons_of_neg (by simpa using ht), add_zero]
    | pause t =>
      -- the pause is before the window, and with it everything older
      have ht : t < w := by
        by_contra hw
        exact hpause t List.mem_cons_self ⟨not_lt.mp hw, hle _ List.mem_cons_self⟩
      rw [flushesIn, sincePause, List.filter_nil, List.length_nil, List.countP_eq_zero]
      intro e he
      rcases List.mem_cons.mp he with rfl | hold
      · simp [PaceEvent.isFlush]
      · have hold := hnewest e hold
        have hout : ¬ Within w T e.time := fun hwin => absurd (hwin.1.trans hold) (not_le.mpr ht)
        simp [hout]

variable [IsStrictOrderedRing K]

theorem Paces.start (hearly : 0 ≤ early) (now : K) : Paces step lag early [] now now false := by
  refine ⟨.nil, fun e h => (by cases h), fun older h => ?_, fun i f h => (by cases h), fun _ => ?_⟩
  · rw [List.suffix_nil.mp h]
    trivial
  · linarith

theorem Paces.wait (h : Paces step lag early log d clock flushed) {now : K} (hnow : clock ≤ now) :
    Paces step lag early log d now flushed :=
  ⟨h.sorted, fun e he => (h.le_clock e he).trans hnow, h.spaced, h.covers,
    fun hf => by linarith [h.early hf]⟩

theorem Paces.flush (h : Paces step lag early log d clock false) {t : K} (ht : clock ≤ t) :
    Paces step lag early (.flush t :: log) d t true := by
  have hd : d ≤ t + early := by linarith [h.early rfl]
  obtain ⟨hsorted, hle, hspaced⟩ := h.log_cons (e := .flush t) ht
    (Covers.spaced h.covers (h.spaced log (List.suffix_refl log)) hd)
  exact ⟨hsorted, hle, hspaced, h.covers, fun hf => by cases hf⟩

theorem Paces.pause (h : Paces step lag early log d clock flushed) (hearly : 0 ≤ early) {t : K}
    (ht : clock ≤ t) : Paces step lag early (.pause t :: log) t t false := by
  obtain ⟨hsorted, hle, hspaced⟩ := h.log_cons (e := .pause t) ht trivial
  exact ⟨hsorted, hle, hspaced, fun i f hf => (by cases hf), fun _ => by linarith⟩

theorem Paces.next (h : Paces step lag early log d clock true) (hlag : 0 ≤ lag) {now wake : K}
    (hnow : clock ≤ now) (hwake : now ≤ wake)
    (hsleep : nextDeadline step lag d now ≤ wake + early) :
    Paces step lag early log (nextDeadline step lag d now) wake false := by
  refine ⟨h.sorted, fun e he => (h.le_clock e he).trans (hnow.trans hwake), h.spaced, ?_,
    fun _ => hsleep⟩
  cases hsince : sincePause log with
  | nil => exact fun i f hf => by cases hf
  | cons f fs =>
    have hcovers := h.covers
    rw [hsince] at hcovers
    refine Covers.next hcovers hlag ?_
    cases log with
    | nil => cases hsince
    | cons e log =>
      cases e with
      | flush t =>
        cases hsince
        exact (h.le_clock _ List.mem_cons_self).trans hnow
      | pause t => cases hsince

/-- **The window bound.** In a window of length `T` without a pause there are at most
`(T + early) / step + lag / step + 2` flushes. -/
theorem Paces.flushes_le (h : Paces step lag early log d clock flushed) (hstep : 0 < step)
    (hlag : 0 ≤ lag) (hearly : 0 ≤ early) {w T : K} (hT : 0 ≤ T)
    (hpause : ∀ t, .pause t ∈ log → ¬ Within w T t) :
    (flushesIn w T log : K) ≤ (T + early) / step + lag / step + 2 := by
  have hmul : (flushesIn w T log : K) * step ≤ T + early + lag + 2 * step := by
    obtain ⟨hsorted, -, hspaced, -, -⟩ := h
    induction log with
    | nil =>
      show ((0 : ℕ) : K) * step ≤ _
      rw [Nat.cast_zero, zero_mul]
      linarith
    | cons e log ih =>
      by_cases he : e.time ≤ w + T
      · have hle : ∀ e' ∈ e :: log, e'.time ≤ w + T := by
          refine List.forall_mem_cons.mpr ⟨he, fun e' he' => ?_⟩
          exact ((List.pairwise_cons.mp hsorted).1 e' he').trans he
        rw [flushesIn_eq hsorted hle hpause]
        exact (hspaced _ (List.suffix_refl _)).filter_le hstep.le hlag hearly hT
      · have hout : flushesIn w T (e :: log) = flushesIn w T log := by
          rw [flushesIn, flushesIn, List.countP_cons_of_neg]
          simp [Within, he]
        rw [hout]
        exact ih (fun t ht => hpause t (List.mem_cons_of_mem _ ht)) hsorted.of_cons
          fun older holder => hspaced older (holder.trans (List.suffix_cons e log))
  have hdiv : (T + early) / step + lag / step + 2 = (T + early + lag + 2 * step) / step := by
    field_simp
  rw [hdiv, le_div_iff₀ hstep]
  exact hmul

end paces

end Lib
