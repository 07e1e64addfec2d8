import Girth.EndToEnd
import Girth.Loop.Progress

/-!
# What the sender's `Ok` means

The pacing loop returns `Ok` when it finds `done` set. The feedback thread sets it for a FEEDBACK with
`done`; the end of `run` sets it too, but then the pacing loop has left (`DoneInv`). The receiver sends
such a FEEDBACK only when its frontier is at the end of the object (`flushed_of_announced`).

So in a run of the two ends in which nothing is invented on the network and every sink write succeeds,
an `Ok` of the sender means that the receiver's sink holds the data (`contents_of_sender_ok`).
-/

namespace Girth

open Lib

/-! ## The sender's threads -/

namespace Sender

variable {prim : Primitives} {cfg : SendConfig} {sh sh' : Shared} {env : Env}

/-- What the pacing loop has returned, once it has. -/
def PacerPc.result : PacerPc → Option (Except String Unit)
  | .storeDone res | .join res | .returned res => some res
  | .waitForPeer | .top | .stopCheck | .pauseCheck | .rate | .build _ | .fillRex .. | .stampRex ..
  | .tryRecv _ | .stampNew .. | .flush _ | .giveBack _ | .fin => none

/-- `run` has set `done` itself. -/
def PacerPc.ended : PacerPc → Bool
  | .join _ | .returned _ => true
  | _ => false

theorem prefetchStep_done {pc pc' : PrefetchPc}
    (h : prefetchStep prim cfg sh env pc = some (sh', pc')) : sh'.done = sh.done := by
  cases prefetchStep_move h <;> rfl

theorem pacerStep_done {p p' : Pacer} {pc pc' : PacerPc}
    (h : pacerStep prim cfg sh env p pc = some (sh', p', pc')) :
    pc.ended = false ∧ (sh'.done = true → sh.done = true ∨ pc'.ended = true) ∧
      (pc'.result = some (.ok ()) → pc.result = some (.ok ()) ∨ sh.done = true) := by
  cases pacerStep_cases h with
  | finish hdone => exact ⟨rfl, .inl, fun _ => .inr hdone⟩
  | storeDone => exact ⟨rfl, fun _ => .inr rfl, .inl⟩
  | _ => exact ⟨rfl, .inl, fun hres => by cases hres⟩

/-- Its next step is to look at the stop flag. -/
def PacerPc.looksAtStop : PacerPc → Bool
  | .stopCheck => true
  | _ => false

theorem pacerStep_result {p p' : Pacer} {pc pc' : PacerPc}
    (hstop : pc.looksAtStop = true → sh.shouldStop = false) (hpc : pc ≠ .waitForPeer)
    (h : pacerStep prim cfg sh env p pc = some (sh', p', pc')) :
    ∀ res ∈ pc'.result, res ∈ pc.result ∨ res = .ok () ∧ sh.done = true := by
  intro res hres
  cases pacerStep_cases h with
  | giveUp => exact absurd rfl hpc
  | finish hdone =>
    cases hres
    exact .inr ⟨rfl, hdone⟩
  | stop hset => simp [hstop rfl] at hset
  | storeDone => exact .inl hres
  | _ => cases hres

theorem feedbackStep_done {pc pc' : FeedbackPc} (h : feedbackStep cfg sh env pc = some (sh', pc')) :
    (sh'.done = true → sh.done = true ∨ pc = .storeDone) ∧
      (pc' = .storeDone → ∃ fh ∈ pc.working, fh.done = true) ∧
      ∀ fh ∈ pc'.working, fh ∈ pc.working ∨ ∃ nacks, env.feedback cfg = some (fh, nacks) := by
  cases feedbackStep_cases h with
  | @arrive _ _ fh nacks hrecv _ hmsg =>
    refine ⟨.inl, fun hpc => (by cases hpc), fun fh' hfh => .inr ⟨nacks, ?_⟩⟩
    cases hfh
    rw [Env.feedback, hrecv]
    exact hmsg
  | setTick | noNacks | pushNacks | storeRate | noRate =>
    exact ⟨.inl, fun hpc => (by cases hpc), fun _ => .inl⟩
  | @last fh hdone => exact ⟨.inl, fun _ => ⟨fh, rfl, hdone⟩, fun _ hfh => by cases hfh⟩
  | storeDone => exact ⟨fun _ => .inr rfl, fun hpc => (by cases hpc), fun _ hfh => by cases hfh⟩
  | leave | listen | ignore | fatal | storeHi =>
    exact ⟨.inl, fun hpc => (by cases hpc), fun _ hfh => by cases hfh⟩

end Sender

/-! ## Both ends -/

namespace Loop

variable {prim : Primitives} {rcfg : RecvConfig} {scfg : SendConfig} {n : Nat} {s t : Loop rcfg n}
  {recv : Receiver.State rcfg n} {as : List (LoopAct n)} {C : Loop rcfg n → LoopAct n → Prop}

theorem send_run (h : Steps (step prim scfg) C (start scfg recv) as s) :
    ∃ bs, Steps (Sender.step prim scfg) Any (Sender.newSender scfg) bs s.send := by
  refine h.invariant
    (I := fun s => ∃ bs, Steps (Sender.step prim scfg) Any (Sender.newSender scfg) bs s.send) ?_
    ⟨[], .nil _⟩
  rintro s act t ⟨bs, hbs⟩ - hstep
  cases step_move hstep with
  | @send act send hsend => exact ⟨bs ++ [act], hbs.append (.single trivial hsend)⟩
  | recv | wait => exact ⟨bs, hbs⟩

theorem recv_run {D : Receiver.State rcfg n → Receiver.Action n → Prop}
    (hD : ∀ bs u act, Steps (step prim scfg) C (start scfg recv) bs u → C u (.recv act) →
      D u.recv act)
    (h : Steps (step prim scfg) C (start scfg recv) as s) :
    ∃ bs, Steps (Receiver.step prim) D recv bs s.recv := by
  refine h.invariant_of_run (I := fun s => ∃ bs, Steps (Receiver.step prim) D recv bs s.recv) ?_
    ⟨[], .nil _⟩
  rintro bs u act v hrun ⟨cs, hcs⟩ hC hstep
  cases step_move hstep with
  | @recv act recv hrecv => exact ⟨cs ++ [act], hcs.append (.single (hD bs u act hrun hC) hrecv)⟩
  | send | wait => exact ⟨cs, hcs⟩

/-! ### DONE -/

/-- A FEEDBACK with `done` has been sent. -/
def Announced (s : Loop rcfg n) : Prop := ∃ rep ∈ s.sent, rep.header.done = true

/-- What the sender knows of the end has been announced. -/
structure DoneInv (s : Loop rcfg n) : Prop where
  working : ∀ fh ∈ s.send.feedback.working, ∃ rep ∈ s.sent, rep.Reads fh
  storing : s.send.feedback = .storeDone → s.Announced
  flag : s.send.sh.done = true → s.send.pacerPc.ended = true ∨ s.Announced
  ok : s.send.pacerPc.result = some (.ok ()) → s.Announced

theorem announced_of_reads {fh : FeedbackHeader} (h : ∃ rep ∈ s.sent, rep.Reads fh)
    (hdone : fh.done = true) : s.Announced := by
  obtain ⟨rep, hrep, hreads⟩ := h
  refine ⟨rep, hrep, ?_⟩
  rw [hreads] at hdone
  exact hdone

theorem doneInv_send {act : Sender.Action} {send : Sender.State} (hinv : s.DoneInv)
    (hC : FromReceiver scfg s (.send act)) (h : Sender.step prim scfg s.send act = some send) :
    DoneInv { s with send := send } := by
  cases Sender.step_move h with
  | prefetch hp =>
    refine ⟨hinv.working, hinv.storing, fun hdone => ?_, hinv.ok⟩
    exact hinv.flag ((Sender.prefetchStep_done hp).symm.trans hdone)
  | pacer hp =>
    obtain ⟨hrunning, hdone, hok⟩ := Sender.pacerStep_done hp
    have hflag (hset : s.send.sh.done = true) : s.Announced := by
      refine (hinv.flag hset).resolve_left ?_
      rw [hrunning]
      exact Bool.false_ne_true
    exact ⟨hinv.working, hinv.storing, fun hset => (hdone hset).symm.imp_right hflag,
      fun hres => (hok hres).elim hinv.ok hflag⟩
  | @feedback env sh pc hp =>
    obtain ⟨hdone, hstoring, hworking⟩ := Sender.feedbackStep_done hp
    refine ⟨fun fh hfh => ?_, fun hpc => ?_, fun hset => ?_, hinv.ok⟩
    · rcases hworking fh hfh with hold | ⟨nacks, hmsg⟩
      · exact hinv.working fh hold
      · obtain ⟨rep, hrep, hbytes⟩ := hC (Option.isSome_iff_exists.mpr ⟨_, hmsg⟩)
        exact ⟨rep, hrep, reads_of_feedback hbytes hmsg⟩
    · obtain ⟨fh, hfh, hfhdone⟩ := hstoring hpc
      exact announced_of_reads (hinv.working fh hfh) hfhdone
    · rcases hdone hset with hold | hpc
      · exact hinv.flag hold
      · exact .inr (hinv.storing hpc)
  | join hpc =>
    refine ⟨hinv.working, hinv.storing, fun _ => .inl rfl, fun hres => hinv.ok ?_⟩
    rw [hpc]
    exact hres
  | flags => exact ⟨hinv.working, hinv.storing, hinv.flag, hinv.ok⟩

theorem doneInv_step {act : LoopAct n} (hinv : s.DoneInv) (hC : FromReceiver scfg s act)
    (h : Move prim scfg s act t) : t.DoneInv := by
  cases h with
  | send hsend =>
    have hnext := doneInv_send hinv hC hsend
    exact ⟨hnext.working, hnext.storing, hnext.flag, hnext.ok⟩
  | @recv act recv =>
    have hann (hold : s.Announced) : Announced
        { s with recv := recv, round := s.roundAfter act, sent := s.sentBy act ++ s.sent } := by
      obtain ⟨rep, hrep, hdone⟩ := hold
      exact ⟨rep, List.mem_append_right _ hrep, hdone⟩
    refine ⟨fun fh hfh => ?_, fun hpc => hann (hinv.storing hpc),
      fun hset => (hinv.flag hset).imp_right hann, fun hres => hann (hinv.ok hres)⟩
    obtain ⟨rep, hrep, hreads⟩ := hinv.working fh hfh
    exact ⟨rep, List.mem_append_right _ hrep, hreads⟩
  | wait => exact ⟨hinv.working, hinv.storing, hinv.flag, hinv.ok⟩

theorem doneInv_start : (start scfg recv).DoneInv := by
  have hpc : (start scfg recv).send.pacerPc.result = none := by
    show (if scfg.peer.isSome then Sender.PacerPc.top else .waitForPeer).result = none
    split_ifs <;> rfl
  refine ⟨fun fh hfh => (by cases hfh), fun hstore => (by cases hstore), fun hset => (by cases hset),
    fun hres => ?_⟩
  rw [hpc] at hres
  cases hres

theorem flushed_of_announced {sink : Sink} (hnew : Receiver.newReceiver rcfg n sink = some recv)
    (h : Steps (step prim scfg) C (start scfg recv) as s) (hann : s.Announced) :
    s.recv.sh.flushedBlocks = rcfg.totalBlocks := by
  refine h.invariant_of_run
    (I := fun s => s.Announced → s.recv.sh.flushedBlocks = rcfg.totalBlocks) ?_ ?_ hann
  · rintro bs u act v hrun hinv - hstep ⟨rep, hrep, hdone⟩
    obtain ⟨cs, hcs⟩ := recv_run (D := Any) (fun _ _ _ _ _ => trivial) hrun
    cases step_move hstep with
    | recv hrecv =>
      refine Receiver.flushed_total_step (Receiver.frontier_run hnew hcs) hrecv ?_
      rcases List.mem_append.mp hrep with hsent | hold
      · obtain ⟨env, l, p, due, isNet, -, hpc, rfl⟩ := mem_sentBy hsent
        refine Receiver.claimInv_run hnew hcs ?_
        rw [hpc]
        exact hdone
      · exact hinv ⟨rep, hold, hdone⟩
    | send | wait => exact hinv ⟨rep, hrep, hdone⟩
  · rintro ⟨rep, hrep, -⟩
    cases hrep

/-! ### Undisturbed runs -/

/-- Every sink write succeeds. -/
def WritesOk (s : Loop rcfg n) : LoopAct n → Prop
  | .recv act => Receiver.AllWritesOk s.recv act
  | .send _ | .wait _ => True

instance (s : Loop rcfg n) : (act : LoopAct n) → Decidable (s.WritesOk act)
  | .recv act => inferInstanceAs (Decidable (Receiver.AllWritesOk s.recv act))
  | .send _ | .wait _ => .isTrue trivial

/-- The network may lose, reorder and repeat datagrams, but invents none, and every sink write
succeeds. The stop flags and the control handles may be used at any moment. -/
def Undisturbed (scfg : SendConfig) (s : Loop rcfg n) (act : LoopAct n) : Prop :=
  FromReceiver scfg s act ∧ s.FromSender act ∧ s.WritesOk act

instance (scfg : SendConfig) (s : Loop rcfg n) (act : LoopAct n) :
    Decidable (Undisturbed scfg s act) :=
  inferInstanceAs (Decidable (_ ∧ _ ∧ _))

theorem recv_run_undisturbed (h : Steps (step prim scfg) (Undisturbed scfg) (start scfg recv) as s) :
    ∃ bs, Steps (Receiver.step prim) (fun r act => Receiver.Delivers
      (fun m => Sender.FromSource prim scfg m.data ∨ m.data = Sender.finPdu scfg) r act ∧
        Receiver.AllWritesOk r act) recv bs s.recv := by
  refine recv_run (fun bs u act hrun hC => ⟨fun m hm => ?_, hC.2.2⟩) h
  obtain ⟨cs, hcs⟩ := send_run hrun
  exact Sender.wire_run hcs (hC.2.1 m hm)

/-- **The sender's `Ok`.** In an undisturbed run the sender returns `Ok` only when the receiver's sink
holds the data. -/
theorem contents_of_sender_ok {data : Bytes} (ha : prim.aead.Inverts) (htr : Transfer scfg rcfg data)
    {sink₀ sink : Sink} {os : AllocOs}
    (halloc : sink₀.allocate os rcfg.fileSize.toNat = (.ok (), sink))
    (hnew : Receiver.newReceiver rcfg n sink = some recv)
    (h : Steps (step prim scfg) (Undisturbed scfg) (start scfg recv) as s)
    (hok : s.send.pacerPc.result = some (.ok ())) : s.recv.sh.sink.contents = data := by
  have hdone : s.DoneInv := h.invariant
    (fun s act t hinv hC hstep => doneInv_step hinv hC.1 (step_move hstep)) doneInv_start
  obtain ⟨bs, hbs⟩ := recv_run_undisturbed h
  exact contents_of_flushed ha htr halloc hnew hbs (flushed_of_announced hnew h (hdone.ok hok))

end Loop

end Girth
