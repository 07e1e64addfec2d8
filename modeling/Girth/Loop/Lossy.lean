import Girth.Loop.Completion
import Girth.Receiver.Unharmed
import Girth.Sender.Drive

/-!
# Transfers in which nothing but loss goes wrong

The network may lose, reorder and repeat datagrams (`OnlyLoss`); nobody ends either end and no write
fails. Once the sender knows its receiver, none of its threads leaves before the end (`Attentive`), and a
receiver that has announced the end is at it (`Reached.announced`).

`GoesOn` is such a run from a given state in which all that was in flight there is lost as well.
-/

namespace Girth

open Lib

/-! ## The sender, undisturbed -/

namespace Sender

variable {prim : Primitives} {cfg : SendConfig} {s t : State}

/-- A fatal error of the socket, the stop flag or a cancellation. -/
def Action.isFatal : Action → Bool
  | .feedback env =>
    match env.recv with
    | .fatal _ => true
    | .datagram .. | .timeout => false
  | .stop | .control .cancel => true
  | .prefetch _ | .pacer _ | .join | .control _ => false

/-- Once the receiver is known, no thread leaves before the end. -/
structure Attentive (s : State) : Prop where
  stop : s.sh.shouldStop = false
  result : s.sh.peer.isSome = true → ∀ res ∈ s.pacerPc.result, res = .ok () ∧ s.sh.done = true
  feedback : s.feedback = .exited → s.sh.done = true

theorem feedbackStep_leaves {sh sh' : Shared} {env : Env} {pc : FeedbackPc} (hstop : sh.shouldStop = false)
    (hfatal : ∀ e, env.recv ≠ .fatal e) (h : feedbackStep cfg sh env pc = some (sh', .exited)) :
    sh'.done = true := by
  cases feedbackStep_cases h with
  | leave hend => simpa [hstop] using hend
  | fatal hrecv => exact absurd hrecv (hfatal _)
  | storeDone => rfl

theorem Action.stops_of_isFatal {act : Action} (h : act.isFatal = false) : act.stops = false := by
  cases act with
  | stop => cases h
  | control op => cases op <;> first | rfl | cases h
  | prefetch | pacer | feedback | join => rfl

theorem attentive_step {act : Action} (hinv : Attentive s) (hstarted : Started s)
    (hC : act.isFatal = false) (h : step prim cfg s act = some t) : Attentive t := by
  refine ⟨step_unstopped hinv.stop (Action.stops_of_isFatal hC) h, ?_, ?_⟩
  · cases step_endMove h with
    | prefetch _ hp =>
      have hmove := prefetchStep_move hp
      generalize s.prefetch = pc₀ at hmove
      cases hmove <;> exact hinv.result
    | @pacer env sh p pc hp =>
      intro hpeer res hres
      have hflags := pacerStep_flags hp
      by_cases hwait : s.pacerPc = .waitForPeer
      · -- it learns the peer with the step that begins the loop
        rw [hwait] at hp
        cases pacerStep_cases hp with
        | giveUp | listen =>
          rw [(hstarted.undone hwait).1] at hpeer
          cases hpeer
        | meet => cases hres
      · have hknown : s.sh.peer.isSome = true := by
          by_contra hnone
          rcases hstarted.waiting (by simpa using hnone) with hpc | ⟨res', hpc⟩
          · exact hwait hpc
          · rw [hpc] at hp
            cases hp
        rcases pacerStep_result (fun _ => hinv.stop) hwait hp res hres with hold | ⟨hok, hdone⟩
        · obtain ⟨hok, hdone⟩ := hinv.result hknown res hold
          exact ⟨hok, hflags.done hdone⟩
        · exact ⟨hok, hflags.done hdone⟩
    | feedback hpeer hp =>
      intro _ res hres
      obtain ⟨hok, hdone⟩ := hinv.result hpeer res hres
      exact ⟨hok, (feedbackStep_flags hp).done hdone⟩
    | join hpc =>
      intro hpeer res hres
      refine hinv.result hpeer res ?_
      rw [hpc]
      exact hres
    | stop | control => exact hinv.result
  · cases step_endMove h with
    | prefetch _ hp => exact fun hpc => (prefetchStep_flags hp).done (hinv.feedback hpc)
    | pacer hp => exact fun hpc => (pacerStep_flags hp).done (hinv.feedback hpc)
    | @feedback env sh pc _ hp =>
      rintro rfl
      refine feedbackStep_leaves hinv.stop (fun e he => ?_) hp
      simp only [Action.isFatal, he] at hC
      cases hC
    | join | stop | control => exact hinv.feedback

theorem step_known {act : Action} (hpeer : s.sh.peer.isSome = true) (h : step prim cfg s act = some t) :
    t.sh.peer.isSome = true := by
  have hkept {sh : Shared} (hflags : Flags s.sh sh) : sh.peer.isSome = true := by
    by_contra hnone
    rw [hflags.peer (by simpa using hnone)] at hpeer
    cases hpeer
  cases step_endMove h with
  | prefetch _ hp => exact hkept (prefetchStep_flags hp)
  | pacer hp => exact hkept (pacerStep_flags hp)
  | feedback _ hp => exact hkept (feedbackStep_flags hp)
  | join | stop | control => exact hpeer

theorem Attentive.running (hinv : Attentive s) (hstarted : Started s) (hpeer : s.sh.peer.isSome = true)
    (hdone : s.sh.done = false) (hpaused : s.sh.isPaused = false) : Running s := by
  refine ⟨hpeer, hdone, hinv.stop, hpaused, ?_⟩
  have hnone : s.pacerPc.result = none := by
    by_contra hsome
    obtain ⟨res, hres⟩ := Option.ne_none_iff_exists'.mp hsome
    rw [(hinv.result hpeer res hres).2] at hdone
    cases hdone
  have hwait : s.pacerPc ≠ .waitForPeer := by
    intro hwait
    rw [(hstarted.undone hwait).1] at hpeer
    cases hpeer
  cases hpc : s.pacerPc with
  | waitForPeer => exact absurd hpc hwait
  | storeDone res | join res | returned res =>
    rw [hpc] at hnone
    cases hnone
  | _ => rfl

theorem heeds_iff {pc : FeedbackPc} :
    pc.heeds = true ↔ pc = .storeDone ∨ ∃ fh ∈ pc.working, fh.done = true := by
  cases pc <;> simp [FeedbackPc.heeds, FeedbackPc.working]

end Sender

/-! ## Runs in which nothing but loss goes wrong -/

namespace Loop

variable {prim : Primitives} {rcfg : RecvConfig} {scfg : SendConfig} {n : Nat} {a : SocketAddr}
  {sink : Sink} {s₀ s t : Loop rcfg n} {as : List (LoopAct n)}

/-- Neither end is ended, no write fails, and all that the receiver gets is from `a`. -/
def Unharmed (a : SocketAddr) (s : Loop rcfg n) : LoopAct n → Prop
  | .recv act => Receiver.Unharmed a s.recv act
  | .send act => act.isFatal = false
  | .wait _ => True

instance (a : SocketAddr) (s : Loop rcfg n) : (act : LoopAct n) → Decidable (s.Unharmed a act)
  | .recv act => inferInstanceAs (Decidable (Receiver.Unharmed a s.recv act))
  | .send act => inferInstanceAs (Decidable (act.isFatal = false))
  | .wait _ => .isTrue trivial

/-- The network may lose, reorder and repeat datagrams, and nothing else goes wrong. -/
def OnlyLoss (scfg : SendConfig) (a : SocketAddr) (s : Loop rcfg n) (act : LoopAct n) : Prop :=
  Undisturbed scfg s act ∧ s.Unharmed a act

instance (scfg : SendConfig) (a : SocketAddr) (s : Loop rcfg n) (act : LoopAct n) :
    Decidable (OnlyLoss scfg a s act) :=
  inferInstanceAs (Decidable (_ ∧ _))

/-- What was in flight at `s₀` is lost: whatever arrives was sent after that. -/
def SentAfter (scfg : SendConfig) (s₀ s : Loop rcfg n) : LoopAct n → Prop
  | .recv act =>
    Receiver.Delivers (fun m => m.data ∈ s.send.sh.wire.reverse.drop s₀.send.sh.wire.length) s.recv act
  | .send (.feedback env) => (env.feedback scfg).isSome →
      ∃ rep ∈ s.sent.reverse.drop s₀.sent.length, received env = some rep.bytes
  | .send _ | .wait _ => True

/-- How the two ends go on from `s₀`. -/
def GoesOn (scfg : SendConfig) (a : SocketAddr) (s₀ s : Loop rcfg n) (act : LoopAct n) : Prop :=
  OnlyLoss scfg a s act ∧ SentAfter scfg s₀ s act

/-- A run in which nothing but loss goes wrong leads to `s`. -/
def Reached (prim : Primitives) (scfg : SendConfig) (a : SocketAddr) (sink : Sink) (s : Loop rcfg n) : Prop :=
  ∃ recv as, Receiver.newReceiver rcfg n sink = some recv ∧
    Steps (step prim scfg) (OnlyLoss scfg a) (start scfg recv) as s

theorem Reached.run (h : Reached prim scfg a sink s) (hrun : Steps (step prim scfg) (GoesOn scfg a s₀) s as t) :
    Reached prim scfg a sink t := by
  obtain ⟨recv, bs, hnew, hbs⟩ := h
  exact ⟨recv, bs ++ as, hnew, hbs.append (hrun.mono fun _ _ hC => hC.1)⟩

theorem Reached.recv (h : Reached prim scfg a sink s) : Receiver.Intact prim a s.recv := by
  obtain ⟨recv, as, hnew, hrun⟩ := h
  obtain ⟨bs, hbs⟩ := recv_run (D := Receiver.Unharmed a) (fun _ _ _ _ hC => hC.2) hrun
  exact ⟨sink, recv, bs, hnew, hbs⟩

theorem Reached.send (h : Reached prim scfg a sink s) : Sender.Reached prim scfg s.send := by
  obtain ⟨recv, as, -, hrun⟩ := h
  exact send_run hrun

theorem Reached.attentive (hcontrol : shouldStop false scfg.control = false)
    (h : Reached prim scfg a sink s) : Sender.Attentive s.send := by
  obtain ⟨recv, as, hnew, hrun⟩ := h
  have hstart : Sender.Attentive (Sender.newSender scfg) := by
    refine ⟨hcontrol, fun hpeer res hres => ?_, fun hpc => (by cases hpc)⟩
    have hknown : scfg.peer.isSome = true := hpeer
    simp only [Sender.newSender, hknown] at hres
    cases hres
  refine hrun.invariant_of_run (I := fun s => Sender.Attentive s.send) ?_ hstart
  intro bs u act v hbs hu hC hstep
  cases step_move hstep with
  | send hsend =>
    obtain ⟨cs, hcs⟩ := send_run hbs
    exact Sender.attentive_step hu (Sender.endInv_run hcs).started hC.2 hsend
  | recv | wait => exact hu

theorem Reached.doneInv (h : Reached prim scfg a sink s) : s.DoneInv := by
  obtain ⟨recv, as, hnew, hrun⟩ := h
  exact hrun.invariant (fun _ _ _ hinv hC hstep => doneInv_step hinv hC.1.1 (step_move hstep)) doneInv_start

theorem Reached.announced (h : Reached prim scfg a sink s) (hann : s.Announced) :
    s.recv.sh.flushedBlocks = rcfg.totalBlocks ∧ s.recv.sh.allSent = true ∧
      s.recv.sh.peer.isSome = true := by
  obtain ⟨recv, as, hnew, hrun⟩ := h
  refine ⟨flushed_of_announced hnew hrun hann, ?_⟩
  refine hrun.invariant_of_run (I := fun s => s.Announced → s.recv.sh.allSent = true ∧
    s.recv.sh.peer.isSome = true) ?_ ?_ hann
  · rintro bs u act v hbs hinv - hstep ⟨rep, hrep, hdone⟩
    have hu := Reached.recv ⟨recv, bs, hnew, hbs⟩
    cases step_move hstep with
    | recv hrecv =>
      have hkeeps := Receiver.keeps_step hrecv
      have hold : u.recv.sh.allSent = true ∧ u.recv.sh.peer.isSome = true := by
        rcases List.mem_append.mp hrep with hsent | hold
        · obtain ⟨env, l, p, due, isNet, -, hpc, rfl⟩ := mem_sentBy hsent
          refine ⟨hu.told.1 (by rw [hpc]; exact hdone), ?_⟩
          rw [hu.told.2 p (by rw [hpc]; rfl)]
          rfl
        · exact hinv ⟨rep, hold, hdone⟩
      obtain ⟨p, hp⟩ := Option.isSome_iff_exists.mp hold.2
      exact ⟨hkeeps.allSent hold.1, Option.isSome_iff_exists.mpr ⟨p, hkeeps.peer p hp⟩⟩
    | send | wait => exact hinv ⟨rep, hrep, hdone⟩
  · rintro ⟨rep, hrep, -⟩
    cases hrep

/-- Nothing that was sent is forgotten. -/
structure Later (s t : Loop rcfg n) : Prop where
  wire : s.send.sh.wire <:+ t.send.sh.wire
  sent : s.sent <:+ t.sent

theorem later_run {C : Loop rcfg n → LoopAct n → Prop} (h : Steps (step prim scfg) C s as t) : Later s t := by
  refine h.invariant (I := Later s) (fun u act v hu _ hstep => ?_) ⟨List.suffix_rfl, List.suffix_rfl⟩
  cases step_move hstep with
  | recv => exact ⟨hu.wire, hu.sent.trans (List.suffix_append _ _)⟩
  | send hsend => exact ⟨hu.wire.trans (Sender.step_wire hsend), hu.sent⟩
  | wait => exact ⟨hu.wire, hu.sent⟩

end Loop

end Girth
