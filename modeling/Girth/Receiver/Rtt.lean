import Girth.Lib.Contraction
import Girth.Receiver.Outcome
import Mathlib.Order.Bounds.Basic

/-!
# What the RTT estimators can be

A sample pulls the smoothed RTT by an eighth of the way, the deviation by a quarter, and can only lower
the base RTT. So the base RTT is the least of all that the estimator was told, and the smoothed RTT lies
between it and the largest (`Tracks.after`).

In a receiver the estimators only change by samples (`RttMove`): the one for the network starts from
the warm start, the one for the path starts fresh, and `rtt_bounds` holds of both.
-/

namespace Girth

open Lib

namespace RttEstimator

variable {e : RttEstimator} {rtt : ℚ} {lows highs : Set ℚ}

/-- The estimator after a sequence of measurements. -/
def after (e : RttEstimator) (samples : List ℚ) : RttEstimator :=
  samples.foldl (fun e rtt => (e.sample rtt).1) e

/-! ## One sample -/

theorem clamped_sample (rtt : ℚ) : (if rtt < 0 then 0 else rtt) = max rtt 0 := by
  split_ifs with hneg
  · exact (max_eq_right hneg.le).symm
  · exact (max_eq_left (not_lt.mp hneg)).symm

theorem sample_first (h : e.haveAny = false) (rtt : ℚ) : (e.sample rtt).1 =
    { e with srtt := max rtt 0, vrtt := max rtt 0 / 2, minRtt := max rtt 0, haveAny := true } := by
  simp only [sample, clamped_sample, h, Bool.not_false, if_true]

theorem sample_next (h : e.haveAny = true) (rtt : ℚ) : (e.sample rtt).1 =
    { e with
      srtt := pull (7 / 8) (max rtt 0) e.srtt
      vrtt := pull (3 / 4) |max rtt 0 - e.srtt| e.vrtt
      minRtt := min (max rtt 0) e.minRtt } := by
  have hsrtt : e.srtt + rttGain * (max rtt 0 - e.srtt) = pull (7 / 8) (max rtt 0) e.srtt := by
    unfold rttGain pull
    ring
  have hvrtt : e.vrtt + (|max rtt 0 - e.srtt| - e.vrtt) / rttAttenK =
      pull (3 / 4) |max rtt 0 - e.srtt| e.vrtt := by
    unfold rttAttenK pull
    ring
  have hmin : (if max rtt 0 < e.minRtt then max rtt 0 else e.minRtt) = min (max rtt 0) e.minRtt := by
    split_ifs with hlt
    · exact (min_eq_left hlt.le).symm
    · exact (min_eq_right (not_lt.mp hlt)).symm
  simp only [sample, clamped_sample, h, Bool.not_true, hsrtt, hvrtt, hmin]
  rfl

theorem sample_rtoBounds (e : RttEstimator) (rtt : ℚ) :
    (e.sample rtt).1.minRto = e.minRto ∧ (e.sample rtt).1.maxRto = e.maxRto := by
  simp only [sample]
  split_ifs <;> exact ⟨rfl, rfl⟩

/-! ## A sequence of samples -/

/-- The estimator has been told `lows` for the base RTT and `highs` for the smoothed one. -/
structure Tracks (lows highs : Set ℚ) (e : RttEstimator) : Prop where
  heard : e.haveAny = true
  least : IsLeast lows e.minRtt
  nonneg : 0 ≤ e.minRtt
  le_srtt : e.minRtt ≤ e.srtt
  srtt_le : ∃ top, IsGreatest highs top ∧ e.srtt ≤ top
  vrtt_nonneg : 0 ≤ e.vrtt

theorem Tracks.sample (h : Tracks lows highs e) (rtt : ℚ) :
    Tracks (insert (max rtt 0) lows) (insert (max rtt 0) highs) (e.sample rtt).1 := by
  obtain ⟨top, htop, hle⟩ := h.srtt_le
  rw [sample_next h.heard]
  refine ⟨h.heard, h.least.insert _, le_min (le_max_right _ _) h.nonneg, ?_,
    ⟨_, htop.insert _, ?_⟩, ?_⟩
  · exact le_pull (by norm_num) (by norm_num) (min_le_left _ _) ((min_le_right _ _).trans h.le_srtt)
  · exact pull_le (by norm_num) (by norm_num) (le_max_left _ _) (hle.trans (le_max_right _ _))
  · exact le_pull (by norm_num) (by norm_num) (abs_nonneg _) h.vrtt_nonneg

theorem tracks_first (h : e.haveAny = false) (rtt : ℚ) :
    Tracks {max rtt 0} {max rtt 0} (e.sample rtt).1 := by
  have hnonneg : 0 ≤ max rtt 0 := le_max_right _ _
  rw [sample_first h]
  exact ⟨rfl, isLeast_singleton, hnonneg, le_rfl, ⟨_, isGreatest_singleton, le_rfl⟩, by positivity⟩

/-- The samples, as the estimator takes them. -/
def taken (samples : List ℚ) : Set ℚ := { x | ∃ rtt ∈ samples, x = max rtt 0 }

theorem taken_cons (rtt : ℚ) (samples : List ℚ) :
    taken (rtt :: samples) = insert (max rtt 0) (taken samples) := by
  ext x
  simp [taken]

theorem Tracks.after (h : Tracks lows highs e) (samples : List ℚ) :
    Tracks (lows ∪ taken samples) (highs ∪ taken samples) (e.after samples) := by
  induction samples generalizing e lows highs with
  | nil =>
    have hnone : taken [] = ∅ := by simp [taken]
    rw [hnone, Set.union_empty, Set.union_empty]
    exact h
  | cons rtt samples ih =>
    rw [taken_cons, Set.union_insert, Set.union_insert, ← Set.insert_union, ← Set.insert_union]
    exact ih (h.sample rtt)

theorem after_rtoBounds (e : RttEstimator) (samples : List ℚ) :
    (e.after samples).minRto = e.minRto ∧ (e.after samples).maxRto = e.maxRto := by
  induction samples generalizing e with
  | nil => exact ⟨rfl, rfl⟩
  | cons rtt samples ih =>
    obtain ⟨hmin, hmax⟩ := ih (e.sample rtt).1
    obtain ⟨hmin', hmax'⟩ := e.sample_rtoBounds rtt
    exact ⟨hmin.trans hmin', hmax.trans hmax'⟩

/-! ## A seed -/

/-- The minimum that a seed stands for: none given is the smoothed RTT itself, and it cannot lie above
that. -/
def seededMin (srttUs minRttUs : Nat) : ℚ := if minRttUs = 0 then srttUs else min minRttUs srttUs

/-- All that a seeded estimator has been told; a seed of 0 is no seed. -/
def told (srttUs : Nat) (seeded : ℚ) (samples : List ℚ) : Set ℚ :=
  { x | srttUs ≠ 0 ∧ x = seeded } ∪ taken samples

theorem tracks_seed {srttUs : Nat} (h : srttUs ≠ 0) (minRttUs : Nat) :
    Tracks {seededMin srttUs minRttUs} {(srttUs : ℚ)} (new.seed srttUs minRttUs) := by
  have hmin : (new.seed srttUs minRttUs).minRtt = seededMin srttUs minRttUs := by
    rw [seed, if_neg h, seededMin, Nat.cast_min]
  have hsrtt : (new.seed srttUs minRttUs).srtt = srttUs := by rw [seed, if_neg h]
  have hvrtt : (new.seed srttUs minRttUs).vrtt = max ((srttUs : ℚ) / 4) 1 := by rw [seed, if_neg h]
  refine ⟨by rw [seed, if_neg h], ?_, ?_, ?_, ⟨srttUs, isGreatest_singleton, hsrtt.le⟩, ?_⟩
  · rw [hmin]
    exact isLeast_singleton
  · rw [hmin, seededMin]
    split_ifs <;> positivity
  · rw [hmin, hsrtt, seededMin]
    split_ifs
    · exact le_rfl
    · exact min_le_right _ _
  · rw [hvrtt]
    positivity

theorem tracks_told {srttUs : Nat} {samples : List ℚ} (h : samples ≠ [] ∨ srttUs ≠ 0)
    (minRttUs : Nat) :
    Tracks (told srttUs (seededMin srttUs minRttUs) samples) (told srttUs srttUs samples)
      ((new.seed srttUs minRttUs).after samples) := by
  by_cases hseed : srttUs = 0
  · -- fresh: the first sample starts it
    cases samples with
    | nil => exact absurd hseed (h.resolve_left (not_not.mpr rfl))
    | cons rtt samples =>
      have htold : ∀ x, told srttUs x (rtt :: samples) = {max rtt 0} ∪ taken samples := by
        intro x
        simp [told, hseed, taken_cons]
      rw [htold, htold, hseed]
      exact (tracks_first rfl rtt).after samples
  · have htold : ∀ x, told srttUs x samples = {x} ∪ taken samples := by
      intro x
      simp [told, hseed]
    rw [htold, htold]
    exact (tracks_seed hseed minRttUs).after samples

theorem seed_rtoBounds (srttUs minRttUs : Nat) :
    (new.seed srttUs minRttUs).minRto = defMinRtoUs ∧ (new.seed srttUs minRttUs).maxRto = defMaxRtoUs := by
  unfold seed
  split_ifs <;> exact ⟨rfl, rfl⟩

theorem rto_bounds (srttUs minRttUs : Nat) (samples : List ℚ) :
    2000 ≤ ((new.seed srttUs minRttUs).after samples).rto ∧
      ((new.seed srttUs minRttUs).after samples).rto ≤ 4000000 := by
  obtain ⟨hmin, hmax⟩ := after_rtoBounds (new.seed srttUs minRttUs) samples
  obtain ⟨hmin', hmax'⟩ := seed_rtoBounds srttUs minRttUs
  rw [rto, hmin, hmax, hmin', hmax']
  exact ⟨le_max_left _ _, max_le (by norm_num [defMinRtoUs]) (min_le_right _ _)⟩

theorem minRtt_le_srtt (srttUs minRttUs : Nat) (samples : List ℚ) :
    0 ≤ ((new.seed srttUs minRttUs).after samples).minRtt ∧
      ((new.seed srttUs minRttUs).after samples).minRtt ≤
        ((new.seed srttUs minRttUs).after samples).srtt := by
  by_cases h : samples ≠ [] ∨ srttUs ≠ 0
  · have htracks := tracks_told h minRttUs
    exact ⟨htracks.nonneg, htracks.le_srtt⟩
  · push Not at h
    obtain ⟨rfl, rfl⟩ := h
    exact ⟨le_rfl, le_rfl⟩

end RttEstimator

/-! ## The estimators of a receiver -/

namespace Receiver

variable {prim : Primitives} {cfg : RecvConfig} {n : Nat}

/-- The gauges of the network estimator. -/
def Shared.netGauges {total : Nat} (sh : Shared total) : Nat × Nat :=
  (sh.stats.srttNetUs, sh.stats.baseRttUs)

/-- An ingest worker changes the estimators and the gauges by a sample for one estimator. -/
inductive RttMove {total : Nat} (sh sh' : Shared total) : Prop
  | none (hrtt : sh'.rtt = sh.rtt) (hgauges : sh'.netGauges = sh.netGauges)
  | net (rtt : ℚ) (hin : 0 ≤ rtt ∧ rtt ≤ 60000000)
      (hrtt : sh'.rtt = { sh.rtt with net := (sh.rtt.net.sample rtt).1 })
      (hgauges : sh'.netGauges =
        (asU64 (sh.rtt.net.sample rtt).1.srtt, asU64 (sh.rtt.net.sample rtt).1.minRtt))
  | path (rtt : ℚ) (hrtt : sh'.rtt = { sh.rtt with path := (sh.rtt.path.sample rtt).1 })
      (hgauges : sh'.netGauges = sh.netGauges)

theorem RttMove.rate {total : Nat} {sh sh' : Shared total} (h : RttMove sh sh') :
    sh'.rtt.rate = sh.rtt.rate := by
  cases h with
  | none hrtt | net _ _ hrtt | path _ hrtt => rw [hrtt]

theorem applyTick_rtt {total : Nat} (sh : Shared total) (h : DataHeader) (now : UInt64) :
    RttMove sh (sh.applyTick h now) := by
  unfold Shared.applyTick
  dsimp only
  split_ifs with hin
  · exact .net _ hin rfl rfl
  · exact .path _ rfl rfl
  · exact .none rfl rfl

theorem dataStep_rtt (sh : Shared cfg.totalBlocks) (pkt : DataPkt cfg.totalBlocks)
    (rest : List Datagram) (env : Env) (pc : DataPc) :
    RttMove sh (dataStep cfg sh pkt rest env pc).1 := by
  cases pc <;> simp only [dataStep]
  case tick => exact applyTick_rtt sh pkt.header env.now
  case learn => split_ifs <;> exact .none rfl rfl
  case setBm => split_ifs <;> exact .none rfl rfl
  case tryPool => split <;> exact .none rfl rfl
  case direct => split <;> exact .none rfl rfl
  all_goals exact .none rfl rfl

theorem ingestStep_rtt {sh sh' : Shared cfg.totalBlocks} {env : Env}
    {pc pc' : IngestPc cfg.totalBlocks} (h : ingestStep prim cfg sh env pc = some (sh', pc')) :
    RttMove sh sh' := by
  cases ingestStep_move h with
  | data => exact dataStep_rtt ..
  | quiet => exact .none rfl rfl

theorem flusherStep_rtt {sh sh' : Shared cfg.totalBlocks} {env : Env} {f f' : Flusher}
    (h : flusherStep cfg sh env f = some (sh', f')) : sh'.rtt = sh.rtt := by
  cases flusherStep_cases h <;> rfl

theorem feedbackStep_rtt {sh sh' : Shared cfg.totalBlocks} {env : Env} {fb fb' : Feedback}
    (h : feedbackStep cfg sh env fb = some (sh', fb')) :
    (∃ rate, sh'.rtt = { sh.rtt with rate := rate }) ∧ sh'.netGauges = sh.netGauges := by
  cases feedbackStep_cases h <;> exact ⟨⟨_, rfl⟩, rfl⟩

/-- Both estimators have come about by samples: the one for the network from the warm start, the one
for the path from nothing. -/
structure RttInv (cfg : RecvConfig) (r : RttState) : Prop where
  net : ∃ samples, r.net = (RttEstimator.new.seed (cfg.warmStart.getD {}).srttNetUs
    (cfg.warmStart.getD {}).baseRttUs).after samples
  path : ∃ samples, r.path = (RttEstimator.new.seed 0 0).after samples

theorem after_snoc (e : RttEstimator) (samples : List ℚ) (rtt : ℚ) :
    e.after (samples ++ [rtt]) = ((e.after samples).sample rtt).1 := by
  rw [RttEstimator.after, List.foldl_append]
  rfl

theorem RttInv.move {sh sh' : Shared cfg.totalBlocks} (h : RttInv cfg sh.rtt)
    (hmove : RttMove sh sh') : RttInv cfg sh'.rtt := by
  obtain ⟨nets, hnet⟩ := h.net
  obtain ⟨paths, hpath⟩ := h.path
  cases hmove with
  | none hrtt => exact hrtt ▸ h
  | net rtt _ hrtt =>
    rw [hrtt]
    exact ⟨⟨nets ++ [rtt], by rw [after_snoc, hnet]⟩, h.path⟩
  | path rtt hrtt =>
    rw [hrtt]
    exact ⟨h.net, ⟨paths ++ [rtt], by rw [after_snoc, hpath]⟩⟩

theorem rttInv_run {sink : Sink} {recv s : State cfg n} {as : List (Action n)}
    (hnew : newReceiver cfg n sink = some recv) (h : Steps (step prim) Any recv as s) :
    RttInv cfg s.sh.rtt := by
  refine h.invariant (I := fun s => RttInv cfg s.sh.rtt) ?_ ?_
  · intro s act t hinv _ hstep
    cases step_move hstep with
    | ingest hi => exact hinv.move (ingestStep_rtt hi)
    | flusher hf => exact (flusherStep_rtt hf).symm ▸ hinv
    | feedback hfb =>
      obtain ⟨⟨rate, hrtt⟩, -⟩ := feedbackStep_rtt hfb
      show RttInv cfg _
      rw [hrtt]
      exact ⟨hinv.net, hinv.path⟩
    | quiet => exact hinv
  · obtain ⟨rate, -, rfl⟩ := Option.map_eq_some_iff.mp hnew
    exact ⟨⟨[], rfl⟩, ⟨[], rfl⟩⟩

/-- **Bounds of the estimators.** Whatever the seed (0 for a fresh estimator) and the samples, the RTO
is within its bounds. Once there is a seed or a sample, the base RTT is the least of the seeded minimum
and the samples, and the smoothed RTT lies between it and the largest of the seeded one and the samples.
So in every state of a receiver the ratio that goes into the rate controller is at most 1, and the RTO
that goes into the loss scanner is within the bounds. -/
theorem rtt_bounds :
    (∀ (srttUs minRttUs : Nat) (samples : List ℚ) (e : RttEstimator),
      e = (RttEstimator.new.seed srttUs minRttUs).after samples →
      (2000 ≤ e.rto ∧ e.rto ≤ 4000000) ∧
      (samples ≠ [] ∨ srttUs ≠ 0 →
        IsLeast (RttEstimator.told srttUs (RttEstimator.seededMin srttUs minRttUs) samples) e.minRtt ∧
        0 ≤ e.minRtt ∧ e.minRtt ≤ e.srtt ∧
        (∃ top, IsGreatest (RttEstimator.told srttUs srttUs samples) top ∧ e.srtt ≤ top) ∧
        0 ≤ e.vrtt ∧ e.minRtt / e.srtt ≤ 1)) ∧
    ∀ (prim : Primitives) (cfg : RecvConfig) (n : Nat) (sink : Sink) (recv s : State cfg n)
      (as : List (Action n)), newReceiver cfg n sink = some recv → Steps (step prim) Any recv as s →
      s.sh.rtt.net.minRtt / s.sh.rtt.net.srtt ≤ 1 ∧
      2000 ≤ s.sh.rtt.path.rto ∧ s.sh.rtt.path.rto ≤ 4000000 := by
  constructor
  · rintro srttUs minRttUs samples e rfl
    refine ⟨RttEstimator.rto_bounds srttUs minRttUs samples, fun htold => ?_⟩
    have h := RttEstimator.tracks_told htold minRttUs
    exact ⟨h.least, h.nonneg, h.le_srtt, h.srtt_le, h.vrtt_nonneg,
      div_le_one_of_le₀ h.le_srtt (h.nonneg.trans h.le_srtt)⟩
  · intro prim cfg n sink recv s as hnew hrun
    have hinv := rttInv_run hnew hrun
    obtain ⟨nets, hnet⟩ := hinv.net
    obtain ⟨paths, hpath⟩ := hinv.path
    rw [hnet, hpath]
    obtain ⟨hnonneg, hle⟩ := RttEstimator.minRtt_le_srtt _ _ nets
    exact ⟨div_le_one_of_le₀ hle (hnonneg.trans hle), RttEstimator.rto_bounds 0 0 paths⟩

/-- A warm start with a smoothed RTT of 100 µs and a base RTT of 40. -/
def warmBlock : RecvConfig := { oneBlock with warmStart := some ⟨0, 100, 40⟩ }

/-- The receiver begins with what the estimator was seeded with; a sample from a clock that ran back
then counts as 0. -/
theorem rtt_bounds_warmBlock : ∃ recv s, newReceiver warmBlock 1 zeroByte = some recv ∧
    Steps (step oneBlockPrims) Any recv [.feedback {}] s ∧ s.sh.rtt.net = RttEstimator.new.seed 100 40 ∧
    s.sh.rtt.net.minRtt / s.sh.rtt.net.srtt ≤ 1 ∧
    IsLeast (RttEstimator.told 100 (RttEstimator.seededMin 100 40) [60, -3])
      ((RttEstimator.new.seed 100 40).after [60, -3]).minRtt ∧
    ((RttEstimator.new.seed 100 40).after [60, -3]).minRtt = 0 := by
  obtain ⟨recv, s, hnew, hrun, hQ⟩ := exists_run oneBlockPrims zeroByte [.feedback {}] Any
    (fun s : State warmBlock 1 => s.sh.rtt.net == RttEstimator.new.seed 100 40) (by decide +kernel)
  have hseed := rtt_bounds.1 100 40 [60, -3] _ rfl
  exact ⟨recv, s, hnew, hrun, beq_iff_eq.mp hQ, (rtt_bounds.2 _ _ _ _ _ _ _ hnew hrun).1,
    (hseed.2 (.inl (List.cons_ne_nil _ _))).1, by decide +kernel⟩

end Receiver

end Girth
