import Girth.Client.Session
import Girth.Receiver.Rtt
import Girth.Server.Limits

/-!
# What a session learns about the path

After a successful adaptive transfer a session takes over the gauges of its `Stats`, each one that is
not zero, and sends them as the warm start of the next `Hello`. A server refuses a warm start whose
base RTT is above the smoothed one (`WarmRttOk`).

The network estimator keeps its minimum below its average, and truncation keeps the order, so the two
gauges that a receiver leaves are in order. They are taken over one by one, however: a sample of 0 µs
makes the base gauge zero, and the smoothed RTT is then recorded without it, next to the base of an
earlier transfer. `RttPair` excludes that: both gauges are zero, or both are positive and in order. As
long as every sample is at least 1 µs it is an invariant of every session (`warmStart_acceptable`).

`rttView_run` connects the estimator here with the receiver: what any run of a receiver does to it and
its two gauges is a sequence of samples.
-/

namespace Girth

open Lib

/-! ## The estimator -/

/-- Both RTTs are unknown, or both are known and in order. -/
def RttPair (srttUs baseUs : Nat) : Prop :=
  (srttUs = 0 ∧ baseUs = 0) ∨ (1 ≤ baseUs ∧ baseUs ≤ srttUs ∧ srttUs ≤ maxWarmRttUs)

theorem RttPair.ok {srttUs baseUs : Nat} (h : RttPair srttUs baseUs) : WarmRttOk srttUs baseUs := by
  unfold WarmRttOk
  rcases h with ⟨rfl, rfl⟩ | ⟨hone, hle, hmax⟩
  · exact ⟨⟨by decide, by decide⟩, fun h => absurd h (by decide)⟩
  · exact ⟨⟨hmax, by omega⟩, fun _ _ => hle⟩

/-- The estimator has seen nothing, or its minimum is at least 1 µs and at most its average. -/
def EstimatorOk (e : RttEstimator) : Prop :=
  e.haveAny = true → 1 ≤ e.minRtt ∧ e.minRtt ≤ e.srtt ∧ e.srtt ≤ 60000000

theorem asU64_pair {x y : ℚ} (hx : 1 ≤ x) (hxy : x ≤ y) (hy : y ≤ 60000000) :
    RttPair (asU64 y) (asU64 x) := by
  have h1 : (1 : Int) ≤ x.floor := Rat.le_floor_iff.mpr (by exact_mod_cast hx)
  have h2 : x.floor ≤ y.floor := Rat.floor_monotone hxy
  have h3 : y.floor ≤ (60000000 : Int) := by
    have hmono := Rat.floor_monotone (show y ≤ ((60000000 : Int) : ℚ) by exact_mod_cast hy)
    rwa [Rat.floor_intCast] at hmono
  right
  unfold asU64 maxWarmRttUs
  omega

theorem sample_ok {e : RttEstimator} (he : EstimatorOk e) {r : ℚ} (hr : 1 ≤ r) (hmax : r ≤ 60000000) :
    let e' := (e.sample r).1
    e'.haveAny = true ∧ 1 ≤ e'.minRtt ∧ e'.minRtt ≤ e'.srtt ∧ e'.srtt ≤ 60000000 := by
  have hclamp : max r 0 = r := max_eq_left (by linarith)
  dsimp only
  cases hany : e.haveAny with
  | false =>
    rw [RttEstimator.sample_first hany, hclamp]
    exact ⟨rfl, hr, le_rfl, hmax⟩
  | true =>
    obtain ⟨hone, hle, htop⟩ := he hany
    rw [RttEstimator.sample_next hany, hclamp]
    refine ⟨hany, le_min hr hone, ?_, ?_⟩
    · exact le_pull (by norm_num) (by norm_num) (min_le_left _ _) ((min_le_right _ _).trans hle)
    · exact pull_le (by norm_num) (by norm_num) hmax htop

theorem seed_ok {srttUs baseUs : Nat} (h : RttPair srttUs baseUs) :
    EstimatorOk (RttEstimator.new.seed srttUs baseUs) := by
  unfold RttEstimator.seed
  rcases h with ⟨rfl, rfl⟩ | ⟨hone, hle, hmax⟩
  · exact nofun
  · intro _
    have hbase : ¬ baseUs = 0 := by omega
    have hsrtt : ¬ srttUs = 0 := by omega
    unfold maxWarmRttUs at hmax
    simp only [hsrtt, hbase, if_false, Nat.min_eq_left hle]
    exact ⟨by exact_mod_cast hone, by exact_mod_cast hle, by exact_mod_cast hmax⟩

/-! ## A receiver's gauges -/

/-- Gauges and estimator in order. -/
def NetOk (x : Gauges × RttEstimator) : Prop :=
  RttPair x.1.srttNetUs x.1.baseRttUs ∧ EstimatorOk x.2

/-- Every sample that `apply_tick` accepts is at least 1 µs. -/
def PositiveSamples (samples : List ℚ) : Prop := ∀ r ∈ samples, 0 ≤ r → r ≤ 60000000 → 1 ≤ r

theorem feedNet_ok {x : Gauges × RttEstimator} (hx : NetOk x) {r : ℚ}
    (hr : 0 ≤ r → r ≤ 60000000 → 1 ≤ r) : NetOk (feedNet x r) := by
  by_cases haccept : 0 ≤ r ∧ r ≤ 60000000
  · obtain ⟨-, hone, hle, hmax⟩ := sample_ok hx.2 (hr haccept.1 haccept.2) haccept.2
    rw [feedNet, if_neg (not_not.mpr haccept)]
    exact ⟨asU64_pair hone hle hmax, fun _ => ⟨hone, hle, hmax⟩⟩
  · rw [feedNet, if_pos haccept]
    exact hx

theorem feedNet_run {samples : List ℚ} (hs : PositiveSamples samples) {x : Gauges × RttEstimator}
    (hx : NetOk x) : NetOk (samples.foldl feedNet x) := by
  induction samples generalizing x with
  | nil => exact hx
  | cons r samples ih =>
    exact ih (fun r' hr' => hs r' (List.mem_cons_of_mem _ hr'))
      (feedNet_ok hx (hs r List.mem_cons_self))

theorem newReceiverGauges_ok {g : Gauges} (hg : RttPair g.srttNetUs g.baseRttUs)
    {warm : Option RateWarmStart} (hwarm : ∀ w ∈ warm, RttPair w.srttNetUs w.baseRttUs) :
    NetOk (newReceiverGauges g warm) := by
  cases warm with
  | none => exact ⟨hg, nofun⟩
  | some w => exact ⟨hwarm w rfl, seed_ok (hwarm w rfl)⟩

/-! ## The receiver does the same -/

/-- The two gauges and the estimator behind them. -/
def rttView (x : Gauges × RttEstimator) : Nat × Nat × RttEstimator :=
  (x.1.srttNetUs, x.1.baseRttUs, x.2)

def Receiver.Shared.rttView {total : Nat} (sh : Receiver.Shared total) : Nat × Nat × RttEstimator :=
  (sh.stats.srttNetUs, sh.stats.baseRttUs, sh.rtt.net)

/-- The gauges that a client keeps from one transfer to the next. -/
def Stats.gauges (x : Stats) : Gauges :=
  { targetRateBps := x.targetRateBps, srttNetUs := x.srttNetUs, baseRttUs := x.baseRttUs }

/-- The estimator and its gauges move by samples. -/
def BySamples (v v' : Nat × Nat × RttEstimator) : Prop :=
  ∃ samples : List ℚ, ∀ x, rttView x = v → rttView (samples.foldl feedNet x) = v'

theorem BySamples.refl (v : Nat × Nat × RttEstimator) : BySamples v v := ⟨[], fun _ hx => hx⟩

theorem BySamples.of_eq {v v' : Nat × Nat × RttEstimator} (h : v' = v) : BySamples v v' :=
  h ▸ .refl v

theorem BySamples.trans {u v w : Nat × Nat × RttEstimator} (h : BySamples u v) (h' : BySamples v w) :
    BySamples u w := by
  obtain ⟨l, hl⟩ := h
  obtain ⟨m, hm⟩ := h'
  refine ⟨l ++ m, fun x hx => ?_⟩
  rw [List.foldl_append]
  exact hm _ (hl x hx)

section receiver

open Receiver

variable {prim : Primitives} {cfg : RecvConfig} {n : Nat}

theorem rttView_of_eq {sh sh' : Receiver.Shared cfg.totalBlocks} (hnet : sh'.rtt.net = sh.rtt.net)
    (hgauges : sh'.netGauges = sh.netGauges) : sh'.rttView = sh.rttView := by
  obtain ⟨hsrtt, hbase⟩ := Prod.mk.inj hgauges
  rw [Receiver.Shared.rttView, hsrtt, hbase, hnet]
  rfl

theorem bySamples_of_move {sh sh' : Receiver.Shared cfg.totalBlocks} (h : RttMove sh sh') :
    BySamples sh.rttView sh'.rttView := by
  cases h with
  | none hrtt hgauges => exact .of_eq (rttView_of_eq (by rw [hrtt]) hgauges)
  | path rtt hrtt hgauges => exact .of_eq (rttView_of_eq (by rw [hrtt]) hgauges)
  | net rtt hin hrtt hgauges =>
    obtain ⟨hsrtt, hbase⟩ := Prod.mk.inj hgauges
    refine ⟨[rtt], fun x hx => ?_⟩
    rw [List.foldl_cons, List.foldl_nil, feedNet, if_neg (not_not.mpr hin)]
    simp only [rttView, Receiver.Shared.rttView, Prod.mk.injEq] at hx ⊢
    rw [hx.2.2, hsrtt, hbase, hrtt]
    exact ⟨rfl, rfl, rfl⟩

theorem step_bySamples {s t : Receiver.State cfg n} {act : Receiver.Action n}
    (h : Receiver.step prim s act = some t) : BySamples s.sh.rttView t.sh.rttView := by
  cases step_move h with
  | ingest hi => exact bySamples_of_move (ingestStep_rtt hi)
  | flusher hf =>
    have hstats := (flusherStep_frame hf).stats
    refine .of_eq (rttView_of_eq (by rw [flusherStep_rtt hf]) ?_)
    simp only [Receiver.Shared.netGauges, hstats]
  | feedback hfb =>
    obtain ⟨⟨rate, hrtt⟩, hgauges⟩ := feedbackStep_rtt hfb
    exact .of_eq (rttView_of_eq (by rw [hrtt]) hgauges)
  | quiet => exact .refl _

/-- **A receiver feeds samples.** After every run of a receiver its network estimator and the two
gauges are as after a sequence of samples on what `new_receiver` started with. -/
theorem rttView_run {sink : Sink} {s t : Receiver.State cfg n} {as : List (Receiver.Action n)}
    (hnew : newReceiver cfg n sink = some s) (h : Steps (Receiver.step prim) Any s as t) :
    ∃ samples : List ℚ,
      rttView (samples.foldl feedNet (newReceiverGauges cfg.stats.gauges cfg.warmStart)) =
        t.sh.rttView := by
  have hstart : rttView (newReceiverGauges cfg.stats.gauges cfg.warmStart) = s.sh.rttView := by
    obtain ⟨rate, -, rfl⟩ := Option.map_eq_some_iff.mp hnew
    cases hwarm : cfg.warmStart with
    | none =>
      simp [newReceiverGauges, rttView, Receiver.Shared.rttView, RttEstimator.seed, initStats, hwarm,
        Stats.gauges]
    | some w => simp [newReceiverGauges, rttView, Receiver.Shared.rttView, initStats, hwarm]
  obtain ⟨samples, hsamples⟩ := h.invariant (I := fun t => BySamples s.sh.rttView t.sh.rttView)
    (fun _ _ _ hinv _ hstep => hinv.trans (step_bySamples hstep)) (.refl _)
  exact ⟨samples, hsamples _ hstart⟩

end receiver

/-! ## One transfer -/

/-- What every call keeps. -/
structure WarmInv (w : World) : Prop where
  session : RttPair w.session.warmStart.srttNetUs w.session.warmStart.baseRttUs
  gauges : RttPair w.gauges.srttNetUs w.gauges.baseRttUs
  hellos : ∀ h ∈ w.hellos, WarmRttOk h.warmSrttNetUs h.warmBaseRttUs

section calls

variable {client : Client} {p : ClientParams} {job : Job} {env : TransferEnv}
  {warm : Option RateWarmStart}

theorem tryIo_keeps {α : Type} (r : Except IoError α) : Call.Keeps WarmInv (tryIo r) := .ofExcept _

theorem markPhase_keeps (tracked : Bool) (phase : TransferPhase) :
    Call.Keeps WarmInv (markPhase tracked phase) :=
  .modify fun w hw => by
    split
    · exact ⟨hw.session, hw.gauges, hw.hellos⟩
    · exact hw

theorem markResult_keeps {c : ClientCall} (hc : Call.Keeps WarmInv c) :
    Call.Keeps WarmInv (markResult c) :=
  hc.tryCatch fun e => .bind (.modify fun _ hw => ⟨hw.session, hw.gauges, hw.hellos⟩) fun _ => .throw e

theorem writeHello_keeps {hello : Hello}
    (hhello : WarmRttOk hello.warmSrttNetUs hello.warmBaseRttUs) :
    Call.Keeps WarmInv (writeHello hello env) := by
  refine .bind (.modify fun w hw => ⟨hw.session, hw.gauges, fun h hh => ?_⟩) fun _ => tryIo_keeps _
  rcases List.mem_append.mp hh with hold | hnew
  · exact hw.hellos h hold
  · rw [List.mem_singleton] at hnew
    exact hnew ▸ hhello

theorem runSender_keeps : Call.Keeps WarmInv (runSender env) :=
  .bind (.modify fun _ hw => ⟨hw.session, hw.gauges, hw.hellos⟩) fun _ => tryIo_keeps _

theorem runReceiver_keeps (hwarm : ∀ w ∈ warm, RttPair w.srttNetUs w.baseRttUs)
    (hs : PositiveSamples env.netSamples) : Call.Keeps WarmInv (runReceiver warm env) := by
  refine .bind (.modify fun w hw => ⟨hw.session, ?_, hw.hellos⟩) fun _ => tryIo_keeps _
  exact (feedNet_run hs (newReceiverGauges_ok hw.gauges hwarm)).1

theorem warmForParams_ok (p : ClientParams) (hwarm : ∀ w ∈ warm, RttPair w.srttNetUs w.baseRttUs) :
    ∀ w ∈ warmForParams p warm, RttPair w.srttNetUs w.baseRttUs := by
  intro w hw
  unfold warmForParams at hw
  split at hw
  · cases hw
  · exact hwarm w (Option.filter_eq_some_iff.mp hw).1

theorem warm_getD_ok (hwarm : ∀ w ∈ warm, RttPair w.srttNetUs w.baseRttUs) :
    WarmRttOk (warm.getD {}).srttNetUs (warm.getD {}).baseRttUs := by
  cases warm with
  | none => exact RttPair.ok (.inl ⟨rfl, rfl⟩)
  | some w => exact (hwarm w rfl).ok

theorem coreWithStream_keeps (dir : Direction) (tracked : Bool)
    (hwarm : ∀ w ∈ warm, RttPair w.srttNetUs w.baseRttUs) (hs : PositiveSamples env.netSamples) :
    Call.Keeps WarmInv (coreWithStream client p job env dir tracked warm) := by
  have hparams := warmForParams_ok p hwarm
  cases dir with
  | push =>
    exact .bind (tryIo_keeps _) fun _ => .bind (writeHello_keeps (warm_getD_ok hparams)) fun _ =>
      .bind (tryIo_keeps _) fun _ => .bind (.ofExcept _) fun _ => .bind (.ofExcept _) fun _ =>
      .bind (.ofExcept _) fun _ => .bind (tryIo_keeps _) fun _ => .bind (tryIo_keeps _) fun _ =>
      .bind (markPhase_keeps _ _) fun _ => .bind runSender_keeps fun _ => markPhase_keeps _ _
  | pull =>
    exact .bind (writeHello_keeps (warm_getD_ok hparams)) fun _ =>
      .bind (tryIo_keeps _) fun _ => .bind (.ofExcept _) fun _ => .bind (.ofExcept _) fun _ =>
      .bind (.ofExcept _) fun _ => .bind (tryIo_keeps _) fun _ => .bind (tryIo_keeps _) fun _ =>
      .bind (tryIo_keeps _) fun _ => .bind (markPhase_keeps _ _) fun _ =>
      .bind (runReceiver_keeps hparams hs) fun _ => .bind (markPhase_keeps _ _) fun _ =>
      .bind (tryIo_keeps _) fun _ => .bind (tryIo_keeps _) fun _ => .bind (.ofExcept _) fun _ =>
      markPhase_keeps _ _

theorem getOrConnect_keeps : Call.Keeps WarmInv (getOrConnect env) := by
  intro w hw
  rw [getOrConnect, Call.runOn_get_bind]
  split
  · exact ⟨hw.session, hw.gauges, hw.hellos⟩
  · exact hw

theorem record_ok {w : RateWarmStart} {g : Gauges} (hw : RttPair w.srttNetUs w.baseRttUs)
    (hg : RttPair g.srttNetUs g.baseRttUs) :
    RttPair (w.record g).srttNetUs (w.record g).baseRttUs := by
  rcases hg with ⟨hs, hb⟩ | ⟨hone, hle, hmax⟩
  · simpa [RateWarmStart.record, hs, hb] using hw
  · have hbase : 0 < g.baseRttUs := by omega
    have hsrtt : 0 < g.srttNetUs := by omega
    simp only [RateWarmStart.record, hbase, hsrtt, if_true]
    exact .inr ⟨hone, hle, hmax⟩

theorem recordWarmStart_keeps : Call.Keeps WarmInv (recordWarmStart p) :=
  .modify fun w hw => by
    split
    · exact hw
    · exact ⟨record_ok hw.session hw.gauges, hw.gauges, hw.hellos⟩

theorem putStream_keeps : Call.Keeps WarmInv putStream :=
  .modify fun _ hw => ⟨hw.session, hw.gauges, hw.hellos⟩

theorem warmFor_bind_keeps {f : Option RateWarmStart → ClientCall}
    (hf : ∀ warm : Option RateWarmStart, (∀ w ∈ warm, RttPair w.srttNetUs w.baseRttUs) →
      Call.Keeps WarmInv (f warm)) : Call.Keeps WarmInv (warmFor p >>= f) := by
  intro w hw
  refine hf (warmForParams p (some w.session.warmStart)) (warmForParams_ok p fun v hv => ?_) w hw
  cases hv
  exact hw.session

theorem sessionCall_keeps (dir : Direction) (hs : PositiveSamples env.netSamples) :
    Call.Keeps WarmInv (sessionCall client p job env dir) :=
  .bind getOrConnect_keeps fun _ => warmFor_bind_keeps fun _ hwarm =>
    .bind (coreWithStream_keeps dir false hwarm hs) fun _ =>
      .bind recordWarmStart_keeps fun _ => putStream_keeps

theorem sessionCallWithHandle_keeps (dir : Direction) (hs : PositiveSamples env.netSamples) :
    Call.Keeps WarmInv (sessionCallWithHandle client p job env dir) :=
  .bind (markPhase_keeps _ _) fun _ => .bind getOrConnect_keeps fun _ =>
    warmFor_bind_keeps fun _ hwarm =>
      .bind (markResult_keeps (coreWithStream_keeps dir true hwarm hs)) fun _ =>
        .bind recordWarmStart_keeps fun _ => putStream_keeps

end calls

/-! ## A session -/

/-- A transfer on a session; `stats` names its `Stats`, which the caller may have supplied before. -/
structure SessionTransfer where
  dir : Direction
  params : ClientParams
  job : Job
  env : TransferEnv
  withHandle : Bool := false
  stats : Nat

/-- A session and every `Stats` that its transfers use. -/
structure SessionWorld where
  session : ClientSession := {}
  gauges : Nat → Gauges
  hellos : List Hello := []

def SessionTransfer.call (client : Client) (t : SessionTransfer) : ClientCall :=
  if t.withHandle then sessionCallWithHandle client t.params t.job t.env t.dir
  else sessionCall client t.params t.job t.env t.dir

def runTransfer (client : Client) (w : SessionWorld) (t : SessionTransfer) : SessionWorld :=
  let r := (t.call client).runOn
    { session := w.session, gauges := w.gauges t.stats, hellos := w.hellos }
  { session := r.2.session
    gauges := Function.update w.gauges t.stats r.2.gauges
    hellos := r.2.hellos }

def runTransfers (client : Client) (w : SessionWorld) (ts : List SessionTransfer) : SessionWorld :=
  ts.foldl (runTransfer client) w

structure SessionInv (w : SessionWorld) : Prop where
  session : RttPair w.session.warmStart.srttNetUs w.session.warmStart.baseRttUs
  gauges : ∀ i, RttPair (w.gauges i).srttNetUs (w.gauges i).baseRttUs
  hellos : ∀ h ∈ w.hellos, WarmRttOk h.warmSrttNetUs h.warmBaseRttUs

theorem runTransfer_inv {client : Client} {w : SessionWorld} {t : SessionTransfer}
    (hw : SessionInv w) (hs : PositiveSamples t.env.netSamples) :
    SessionInv (runTransfer client w t) := by
  have hcall : Call.Keeps WarmInv (t.call client) := by
    unfold SessionTransfer.call
    split
    · exact sessionCallWithHandle_keeps t.dir hs
    · exact sessionCall_keeps t.dir hs
  obtain ⟨hsession, hgauges, hhellos⟩ := hcall
    { session := w.session, gauges := w.gauges t.stats, hellos := w.hellos }
    ⟨hw.session, hw.gauges t.stats, hw.hellos⟩
  refine ⟨hsession, fun i => ?_, hhellos⟩
  by_cases hi : i = t.stats
  · subst hi
    simpa only [runTransfer, Function.update_self] using hgauges
  · simpa only [runTransfer, Function.update_of_ne hi] using hw.gauges i

theorem runTransfers_inv {client : Client} {w : SessionWorld} (hw : SessionInv w)
    (ts : List SessionTransfer) (hs : ∀ t ∈ ts, PositiveSamples t.env.netSamples) :
    SessionInv (runTransfers client w ts) := by
  induction ts generalizing w with
  | nil => exact hw
  | cons t ts ih =>
    exact ih (runTransfer_inv hw (hs t List.mem_cons_self))
      fun t' ht' => hs t' (List.mem_cons_of_mem _ ht')

/-- **The warm start stays acceptable.** A session made by `new` or `connect`, with `Stats` that hold
what receivers leave in them: after every sequence of pushes and pulls, successful or not, in which
every network sample is at least 1 µs, the warm start kept for the next `Hello` passes the server's
checks, and so did every one sent before. -/
theorem warmStart_acceptable (client : Client) (connected : Bool) (gauges : Nat → Gauges)
    (hgauges : ∀ i, RttPair (gauges i).srttNetUs (gauges i).baseRttUs) (ts : List SessionTransfer)
    (hs : ∀ t ∈ ts, PositiveSamples t.env.netSamples) :
    let w := runTransfers client { session := { connected := connected }, gauges := gauges } ts
    WarmRttOk w.session.warmStart.srttNetUs w.session.warmStart.baseRttUs ∧
      ∀ h ∈ w.hellos, WarmRttOk h.warmSrttNetUs h.warmBaseRttUs := by
  intro w
  have hinv : SessionInv w :=
    runTransfers_inv ⟨.inl ⟨rfl, rfl⟩, hgauges, fun _ hh => (List.not_mem_nil hh).elim⟩ ts hs
  exact ⟨hinv.session.ok, hinv.hellos⟩

/-! ### Two pulls -/

/-- An adaptive pull with one sample, on a `Stats` of its own. -/
def adaptivePull (stats : Nat) (sampleUs : ℚ) : SessionTransfer where
  dir := .pull
  params := { plainParams with adaptive := true }
  job := { name := "a" }
  env := { ack := .ok { ok := true, size := 1 }, netSamples := [sampleUs] }
  stats := stats

theorem warmStart_acceptable_two :
    let w := runTransfers plainClient { gauges := fun _ => {} } [adaptivePull 0 100, adaptivePull 1 20]
    (w.session.warmStart.srttNetUs = 90 ∧ w.session.warmStart.baseRttUs = 20) ∧
      WarmRttOk w.session.warmStart.srttNetUs w.session.warmStart.baseRttUs := by
  have hpositive : ∀ t ∈ [adaptivePull 0 100, adaptivePull 1 20], PositiveSamples t.env.netSamples := by
    intro t ht r hr _ _
    simp only [List.mem_cons, List.not_mem_nil, or_false] at ht
    rcases ht with rfl | rfl <;> rw [List.mem_singleton.mp hr] <;> norm_num
  exact ⟨by decide +kernel, (warmStart_acceptable plainClient false (fun _ => {})
    (fun _ => .inl ⟨rfl, rfl⟩) _ hpositive).1⟩

/-- After a pull with a sample of 100 µs and one with a sample of 0, the session keeps a base RTT of
100 µs above a smoothed one of 87, and the server refuses the Hello of the third pull. -/
theorem warmStart_refused :
    let w := runTransfers plainClient { gauges := fun _ => {} }
      [adaptivePull 0 100, adaptivePull 1 0, adaptivePull 2 0]
    w.hellos.length = 3 ∧ ∀ h ∈ w.hellos.getLast?,
      h.warmSrttNetUs = 87 ∧ h.warmBaseRttUs = 100 ∧
        validateHelloLimits h .default = .error "warm base RTT exceeds warm SRTT" := by
  decide +kernel

end Girth
