import Girth.Loop.Completion
import Girth.Receiver.Unharmed
import Girth.Sender.Shutdown

/-!
# Stops that come too late

A sender looks at `done` before it looks at the stop flag. A stop that comes when `done` is set, and not
between the two looks, is never seen (`Sender.OnlyLate`). A receiver's `run` leaves its loop for either
flag and decides by the contiguous mark: a stop changes nothing once everything is flushed and the mark
that `run` will read is stored (`Receiver.Settled`), and with the eighth DONE both are so
(`settled_of_done`).
-/

namespace Girth

open Lib

/-! ## The sender -/

namespace Sender

variable {prim : Primitives} {cfg : SendConfig} {s t : State}

/-- A stop finds `done` set, and the pacing loop not on its way from `done` to the flag. -/
def LateStop (s : State) (act : Action) : Prop :=
  act.stops = true → s.sh.done = true ∧ s.pacerPc.looksAtStop = false

instance (s : State) (act : Action) : Decidable (LateStop s act) :=
  inferInstanceAs (Decidable (_ → _ ∧ _))

/-- If the sender has been stopped, then late, and the pacing loop returns nothing but `Ok`. -/
structure OnlyLate (s : State) : Prop where
  stop : s.sh.shouldStop = true → s.sh.done = true ∧ s.pacerPc.looksAtStop = false
  started : s.pacerPc ≠ .waitForPeer
  ok : ∀ res ∈ s.pacerPc.result, res = .ok ()

theorem pacerStep_looksAtStop {sh sh' : Shared} {env : Env} {p p' : Pacer} {pc pc' : PacerPc}
    (hdone : sh.done = true) (h : pacerStep prim cfg sh env p pc = some (sh', p', pc')) :
    pc'.looksAtStop = false := by
  cases pacerStep_cases h with
  | turn hundone => rw [hdone] at hundone; cases hundone
  | _ => rfl

theorem onlyLate_step {act : Action} (hinv : OnlyLate s) (hlate : LateStop s act)
    (h : step prim cfg s act = some t) : OnlyLate t := by
  have hbefore (hset : t.sh.shouldStop = true) :
      s.sh.done = true ∧ s.pacerPc.looksAtStop = false :=
    (stops_or_stopped h hset).elim hlate hinv.stop
  have hdone (hset : t.sh.shouldStop = true) : t.sh.done = true := step_done h (hbefore hset).1
  cases step_endMove h with
  | pacer hp =>
    refine ⟨fun hset => ⟨hdone hset, pacerStep_looksAtStop (hbefore hset).1 hp⟩,
      pacerStep_ne_waitForPeer hinv.started hp, fun res hres => ?_⟩
    have hunseen (hlooks : s.pacerPc.looksAtStop = true) : s.sh.shouldStop = false := by
      by_contra hset
      rw [(hinv.stop (by simpa using hset)).2] at hlooks
      cases hlooks
    rcases pacerStep_result hunseen hinv.started hp res hres with hold | ⟨hok, -⟩
    · exact hinv.ok res hold
    · exact hok
  | join hpc =>
    refine ⟨fun hset => ⟨hdone hset, rfl⟩, nofun, fun res hres => hinv.ok res ?_⟩
    rw [hpc]
    exact hres
  | prefetch | feedback | stop | control =>
    exact ⟨fun hset => ⟨hdone hset, (hbefore hset).2⟩, hinv.started, hinv.ok⟩

theorem onlyLate_new (hpeer : cfg.peer.isSome = true) (hstop : (newSender cfg).sh.shouldStop = false) :
    OnlyLate (newSender cfg) := by
  have hpc : (newSender cfg).pacerPc = .top := if_pos hpeer
  refine ⟨fun hset => ?_, ?_, ?_⟩
  · rw [hstop] at hset
    cases hset
  · rw [hpc]
    nofun
  · rw [hpc]
    exact fun res hres => by cases hres

end Sender

/-! ## The receiver -/

namespace Receiver

variable {prim : Primitives} {cfg : RecvConfig} {n : Nat} {sink : Sink} {recv s t : State cfg n}
  {as : List (Action n)} {C : State cfg n → Action n → Prop}

/-- Everything is flushed, and the mark that `run` decides by is at the end. -/
def Settled (s : State cfg n) : Prop :=
  s.sh.flushedBlocks = cfg.totalBlocks ∧ s.sh.stats.hiContig = cfg.totalBlocks

instance (s : State cfg n) : Decidable (Settled s) := inferInstanceAs (Decidable (_ ∧ _))

/-- A stop finds `done` set, or all that it takes to return `Ok`. -/
def LateStop (s : State cfg n) (act : Action n) : Prop :=
  act.stops = true → s.sh.done = true ∨ Settled s

instance (s : State cfg n) (act : Action n) : Decidable (LateStop s act) :=
  inferInstanceAs (Decidable (_ → _ ∨ _))

theorem settled_of_done (hnew : newReceiver cfg n sink = some recv)
    (h : Steps (step prim) C recv as s) (hdone : s.sh.done = true) : Settled s :=
  ⟨(doneInv_run hnew h hdone).2, (announcing_run hnew h).done hdone⟩

/-- A round that stores its mark stores the scanner's, which is at the end if the one before was and
the caller's is not taken for it. -/
theorem mark_of_settled (hnew : newReceiver cfg n sink = some recv)
    (hmark : 0 < cfg.totalBlocks → cfg.stats.hiContig ≠ cfg.totalBlocks)
    (h : Steps (step prim) Any recv as s) (hs : Settled s) :
    s.feedback.scanner.hiContig = cfg.totalBlocks := by
  have hscan := scanInv_receiver hnew h
  have hle : s.feedback.scanner.hiContig ≤ cfg.totalBlocks := hscan.total ▸ hscan.sched.hiContig_le
  rcases (hiContig_run hnew h).stat with hcaller | hown
  · have hzero : ¬ 0 < cfg.totalBlocks := fun hpos => hmark hpos (hcaller.symm.trans hs.2)
    omega
  · exact Nat.le_antisymm hle (hs.2 ▸ hown)

theorem settled_step {act : Action n} (hnew : newReceiver cfg n sink = some recv)
    (hmark : 0 < cfg.totalBlocks → cfg.stats.hiContig ≠ cfg.totalBlocks)
    (hrun : Steps (step prim) Any recv as s) (hs : Settled s) (h : step prim s act = some t) :
    Settled t := by
  refine ⟨flushed_total_step (frontier_run hnew hrun) h hs.1, ?_⟩
  cases step_move h with
  | ingest hi => exact (ingestStep_frame hi).1.hiContig.trans hs.2
  | flusher hf => exact (congrArg Stats.hiContig (flusherStep_frame hf).stats).trans hs.2
  | @feedback env sh fb hfb =>
    have hread := markRead_run hnew hrun
    have hend := mark_of_settled hnew hmark hrun hs
    have hstat : s.sh.stats.hiContig = cfg.totalBlocks := hs.2
    show sh.stats.hiContig = _
    generalize s.feedback = fb₀ at hfb hread hend
    cases feedbackStep_cases hfb with
    | storeHi => exact (hread _ rfl).trans hend
    | _ => exact hstat
  | quiet => exact hs.2

/-- If the receiver has been stopped, then late; `run` leaves its loop for nothing else, and returns
nothing but `Ok`. -/
structure OnlyLate (s : State cfg n) : Prop where
  stop : s.sh.shouldStop = true → Settled s
  left : s.main = .waiting ∨ Settled s
  ok : ∀ res, s.main = .returned res → res = .ok ()

theorem mainStep_left (h : mainStep s = some t) :
    (t.main = .waiting ∨ s.main ≠ .waiting ∨ s.sh.done = true ∨ s.sh.shouldStop = true) ∧
      ∀ res, t.main = .returned res → s.sh.stats.hiContig = cfg.totalBlocks → res = .ok () := by
  unfold mainStep at h
  cases hpc : s.main with
  | waiting =>
    simp only [hpc, Bool.or_eq_true] at h
    split_ifs at h with hflag <;> cases h
    · exact ⟨.inr (.inr hflag), nofun⟩
    · refine ⟨.inl hpc, fun res hres => ?_⟩
      rw [hpc] at hres
      cases hres
  | joinFlusher =>
    simp only [hpc] at h
    refine ⟨.inr (.inl nofun), fun res hres hhi => ?_⟩
    split_ifs at h with hexit hne <;> cases h
    · exact absurd hhi hne
    · cases hres
      rfl
  | joinFeedback | joinIngest =>
    simp only [hpc] at h
    split_ifs at h
    cases h
    exact ⟨.inr (.inl nofun), nofun⟩
  | signal =>
    simp only [hpc] at h
    cases h
    exact ⟨.inr (.inl nofun), nofun⟩
  | returned => simp only [hpc, reduceCtorEq] at h

theorem onlyLate_step {act : Action n} (hnew : newReceiver cfg n sink = some recv)
    (hmark : 0 < cfg.totalBlocks → cfg.stats.hiContig ≠ cfg.totalBlocks)
    (hrun : Steps (step prim) Any recv as s) (hinv : OnlyLate s) (hlate : LateStop s act)
    (h : step prim s act = some t) : OnlyLate t := by
  have hkeep (hs : Settled s) : Settled t := settled_step hnew hmark hrun hs h
  have hstop (hset : t.sh.shouldStop = true) : Settled t := by
    rcases stops_or_stopped h hset with hact | hold
    · exact hkeep ((hlate hact).elim (settled_of_done hnew hrun) id)
    · exact hkeep (hinv.stop hold)
  cases act with
  | main =>
    obtain ⟨hleft, hok⟩ := mainStep_left h
    have hsettled : t.main = .waiting ∨ Settled s := by
      rcases hleft with hwait | hgone | hdone | hset
      · exact .inl hwait
      · exact .inr (hinv.left.resolve_left hgone)
      · exact .inr (settled_of_done hnew hrun hdone)
      · exact .inr (hinv.stop hset)
    refine ⟨hstop, hsettled.imp_right hkeep, fun res hres => ?_⟩
    rcases hsettled with hwait | hs
    · rw [hwait] at hres
      cases hres
    · exact hok res hres hs.2
  | ingest | flusher | feedback | control =>
    obtain ⟨_, -, rfl⟩ := Option.map_eq_some_iff.mp h
    exact ⟨hstop, hinv.left.imp_right hkeep, hinv.ok⟩
  | stop =>
    cases h
    exact ⟨hstop, hinv.left.imp_right hkeep, hinv.ok⟩

theorem onlyLate_run (hnew : newReceiver cfg n sink = some recv)
    (hmark : 0 < cfg.totalBlocks → cfg.stats.hiContig ≠ cfg.totalBlocks)
    (hstop : recv.sh.shouldStop = false) (h : Steps (step prim) LateStop recv as s) : OnlyLate s := by
  refine h.invariant_of_run (fun bs u act v hrun hinv hlate hstep =>
    onlyLate_step hnew hmark (hrun.mono fun _ _ _ => trivial) hinv hlate hstep) ?_
  have hwait : recv.main = .waiting := by
    obtain ⟨rate, -, rfl⟩ := Option.map_eq_some_iff.mp hnew
    rfl
  refine ⟨fun hset => ?_, .inl hwait, fun res hres => ?_⟩
  · rw [hstop] at hset
    cases hset
  · rw [hwait] at hres
    cases hres

end Receiver

end Girth
