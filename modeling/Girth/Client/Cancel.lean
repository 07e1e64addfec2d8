import Girth.Client.Outcome
import Girth.Loop.LateStop

/-!
# What a cancelled call returns

`GirthError::Stopped` stands for cancellation, but no code constructs it. A data plane that sees the
stop flag or a cancelled handle returns an `io::Error` with a text of its own, and `?` makes it
`GirthError::Io`; a receiver whose flusher gives up on a block that has been received returns `Ok`, and
the CRC check that follows reports it as `Integrity`, if the sink has a CRC at all.

`core_diverts` compares a call with what it would be if its data plane returned `Ok`, and gives the
result. `cancel_reported_of_late` puts this together with the two ends of the transfer: if every stop of
the client's end comes too late to matter, the call completes the transfer and returns `Ok`.
-/

namespace Girth

open Lib

/-- A cancelled call either completes the transfer or says that it was stopped. -/
def Reported (complete : Prop) : Except GirthError Unit → Prop
  | .ok _ => complete
  | .error e => e = .stopped

/-! ## Callers -/

/-- Whether the transfer is a method of a session, and whether its caller passes a handle. -/
structure Caller where
  session : Bool
  handle : Bool

section calls

variable (client : Client) (p : ClientParams) (job : Job) (env : TransferEnv)

def Caller.call : Direction → Caller → ClientCall
  | .push, ⟨false, false⟩ => clientSendFrom client p job env
  | .push, ⟨false, true⟩ => clientSendFromWithHandle client p job env
  | .push, ⟨true, false⟩ => ClientSession.sendFrom client p job env
  | .push, ⟨true, true⟩ => ClientSession.sendFromWithHandle client p job env
  | .pull, ⟨false, false⟩ => clientRecvInto client p job env
  | .pull, ⟨false, true⟩ => clientRecvIntoWithHandle client p job env
  | .pull, ⟨true, false⟩ => ClientSession.recvInto client p job env
  | .pull, ⟨true, true⟩ => ClientSession.recvIntoWithHandle client p job env

theorem Caller.call_eq (dir : Direction) (caller : Caller) : caller.call client p job env dir =
    match caller with
    | ⟨false, false⟩ => core client p job env false dir
    | ⟨false, true⟩ => markResult (core client p job env true dir)
    | ⟨true, false⟩ => sessionCall client p job env dir
    | ⟨true, true⟩ => sessionCallWithHandle client p job env dir := by
  obtain ⟨session, handle⟩ := caller
  cases dir <;> cases session <;> cases handle <;> rfl

/-- The environment, but with a data plane that returns `Ok` and a CRC that is not looked at. -/
def TransferEnv.completing (env : TransferEnv) : TransferEnv :=
  { env with run := .ok (), sinkCrc := .ok none }

/-- What becomes of the result of the data plane. A pull still compares the CRCs. -/
def reportedResult (a : Ack) (got : Option UInt32) (run : Except IoError Unit) :
    Direction → Except GirthError Unit
  | .push => run.mapError .ofIo
  | .pull =>
    match run with
    | .error e => .error (.ofIo e)
    | .ok _ => if got.any (· ≠ a.crc32c) then .error .integrity else .ok ()

variable {env} {a : Ack} {got : Option UInt32}

theorem diverts_answer {f f' : Ack → ClientCall} {R : Except GirthError Unit}
    (h : Call.Diverts (f a) R (f' a)) :
    Call.Diverts (tryIo (.ok a) >>= f) R (tryIo (.ok a) >>= f') := h

theorem core_diverts (hack : env.ack = .ok a) (hcrc : env.sinkCrc = .ok got) (dir : Direction)
    (tracked : Bool) (warm : Option RateWarmStart) :
    Call.Diverts (coreWithStream client p job env.completing dir tracked warm)
      (reportedResult a got env.run dir) (coreWithStream client p job env dir tracked warm) := by
  have hack' : env.completing.ack = .ok a := hack
  cases dir with
  | push =>
    unfold coreWithStream sendCoreWithStream
    rw [hack, hack']
    refine .bind fun _ => .bind fun _ => diverts_answer ?_
    refine .bind fun _ => .bind fun _ => .bind fun _ => .bind fun _ => .bind fun _ => .bind fun _ => ?_
    intro t _
    unfold runSender
    cases env.run <;> rfl
  | pull =>
    unfold coreWithStream recvCoreWithStream
    rw [hack, hack']
    refine .bind fun _ => diverts_answer ?_
    refine .bind fun _ => .bind fun _ => .bind fun _ => .bind fun _ => .bind fun _ => .bind fun _ =>
      .bind fun _ => ?_
    intro t hok
    unfold runReceiver at hok ⊢
    rw [hcrc]
    cases hfin : env.finalize with
    | error e =>
      rw [show env.completing.finalize = .error e from hfin] at hok
      cases hok
    | ok u =>
      cases env.run with
      | error e => rfl
      | ok u =>
        simp only [Call.runOn_bind, Call.runOn_modify, Call.runOn_ofExcept, tryIo, markPhase,
          Except.mapError, reportedResult]
        split_ifs <;> rfl

theorem markResult_diverts {c c' : ClientCall} {R : Except GirthError Unit} (h : Call.Diverts c R c') :
    Call.Diverts (markResult c) R (markResult c') := by
  have hres : ∀ (c : ClientCall) w, ((markResult c).runOn w).1 = (c.runOn w).1 := by
    intro c w
    rw [runOn_markResult]
    generalize c.runOn w = r
    obtain ⟨res, t⟩ := r
    cases res <;> rfl
  intro w hok
  rw [hres] at hok ⊢
  exact h w hok

theorem caller_diverts (hack : env.ack = .ok a) (hcrc : env.sinkCrc = .ok got) (dir : Direction)
    (caller : Caller) :
    Call.Diverts (caller.call client p job env.completing dir) (reportedResult a got env.run dir)
      (caller.call client p job env dir) := by
  have hcore := core_diverts client p job hack hcrc dir
  rw [Caller.call_eq, Caller.call_eq]
  obtain ⟨session, handle⟩ := caller
  cases session with
  | false =>
    cases handle with
    | false => exact .bind fun _ => .bind fun _ => hcore false none
    | true => exact markResult_diverts (.bind fun _ => .bind fun _ => hcore true none)
  | true =>
    cases handle with
    | false => exact .bind fun _ => .bind fun warm => (hcore false warm).andThen fun _ => rfl
    | true =>
      exact .bind fun _ => .bind fun _ => .bind fun warm =>
        (markResult_diverts (hcore true warm)).andThen fun _ => rfl

end calls

/-! ## Cancelled transfers -/

def Sender.PacerPc.returned? : Sender.PacerPc → Option (Except String Unit)
  | .returned res => some res
  | _ => none

def Receiver.MainPc.returned? : Receiver.MainPc → Option (Except String Unit)
  | .returned res => some res
  | _ => none

/-- What the data plane of the client has returned: the sender in a push, the receiver in a pull. -/
def Loop.returned? {rcfg : RecvConfig} {n : Nat} (s : Loop rcfg n) :
    Direction → Option (Except String Unit)
  | .push => s.send.pacerPc.returned?
  | .pull => s.recv.main.returned?

theorem Receiver.MainPc.eq_of_returned {pc : Receiver.MainPc} {res : Except String Unit}
    (h : pc.returned? = some res) : pc = .returned res := by
  cases pc with
  | returned _ =>
    cases h
    rfl
  | _ => cases h

theorem Sender.PacerPc.result_of_returned {pc : Sender.PacerPc} {res : Except String Unit}
    (h : pc.returned? = some res) : pc.result = some res := by
  cases pc with
  | returned _ => exact h
  | _ => cases h

namespace Loop

variable {prim : Primitives} {scfg : SendConfig} {rcfg : RecvConfig} {n : Nat} {s : Loop rcfg n}
  {recv : Receiver.State rcfg n} {as : List (LoopAct n)}

/-- Stops of the client's end come late. The server's end may be stopped at any moment. -/
def LateStop (dir : Direction) (s : Loop rcfg n) : LoopAct n → Prop
  | .send act => dir = .push → Sender.LateStop s.send act
  | .recv act => dir = .pull → Receiver.LateStop s.recv act
  | .wait _ => True

instance (dir : Direction) (s : Loop rcfg n) : (act : LoopAct n) → Decidable (s.LateStop dir act)
  | .send act => inferInstanceAs (Decidable (dir = .push → Sender.LateStop s.send act))
  | .recv act => inferInstanceAs (Decidable (dir = .pull → Receiver.LateStop s.recv act))
  | .wait _ => .isTrue trivial

/-- How the client's end starts: not cancelled; a sender with its peer, a receiver with `Stats` that do
not have the mark of a finished transfer. -/
def Fresh (scfg : SendConfig) (rcfg : RecvConfig) : Direction → Prop
  | .push => shouldStop false scfg.control = false ∧ scfg.peer.isSome = true
  | .pull => shouldStop false rcfg.control = false ∧
      (0 < rcfg.totalBlocks → rcfg.stats.hiContig ≠ rcfg.totalBlocks)

theorem sender_ok_of_late (hfresh : Fresh scfg rcfg .push)
    (h : Steps (step prim scfg) (LateStop .push) (start scfg recv) as s) {res : Except String Unit}
    (hres : s.send.pacerPc.result = some res) : res = .ok () := by
  have hlate : Sender.OnlyLate s.send := by
    refine h.invariant (I := fun s => Sender.OnlyLate s.send) (fun s act t hinv hC hstep => ?_)
      (Sender.onlyLate_new hfresh.2 hfresh.1)
    cases step_move hstep with
    | send hsend => exact Sender.onlyLate_step hinv (hC rfl) hsend
    | recv | wait => exact hinv
  exact hlate.ok res hres

theorem receiver_ok_of_late {sink : Sink} (hfresh : Fresh scfg rcfg .pull)
    (hnew : Receiver.newReceiver rcfg n sink = some recv)
    (h : Steps (step prim scfg) (LateStop .pull) (start scfg recv) as s) {res : Except String Unit}
    (hres : s.recv.main = .returned res) :
    res = .ok () ∧ s.recv.sh.flushedBlocks = rcfg.totalBlocks := by
  obtain ⟨bs, hbs⟩ := recv_run (D := Receiver.LateStop) (fun _ _ _ _ hC => hC rfl) h
  have hstart : recv.sh.shouldStop = false := by
    obtain ⟨rate, -, rfl⟩ := Option.map_eq_some_iff.mp hnew
    exact hfresh.1
  have hlate := Receiver.onlyLate_run hnew hfresh.2 hstart hbs
  refine ⟨hlate.ok res hres, (hlate.left.resolve_left ?_).1⟩
  rw [hres]
  nofun

theorem ok_of_late {data : Bytes} {sink₀ sink : Sink} {os : AllocOs} {res : Except String Unit}
    {dir : Direction} (ha : prim.aead.Inverts) (htr : Transfer scfg rcfg data)
    (halloc : sink₀.allocate os rcfg.fileSize.toNat = (.ok (), sink))
    (hnew : Receiver.newReceiver rcfg n sink = some recv) (hfresh : Fresh scfg rcfg dir)
    (hrun : Steps (step prim scfg) (fun s act => Undisturbed scfg s act ∧ s.LateStop dir act)
      (start scfg recv) as s) (hres : s.returned? dir = some res) :
    res = .ok () ∧ s.recv.sh.sink.contents = data := by
  have hundisturbed := hrun.mono fun _ _ hC => hC.1
  have hlate := hrun.mono fun _ _ hC => hC.2
  cases dir with
  | push =>
    have hresult := Sender.PacerPc.result_of_returned hres
    cases sender_ok_of_late hfresh hlate hresult
    exact ⟨rfl, contents_of_sender_ok ha htr halloc hnew hundisturbed hresult⟩
  | pull =>
    obtain ⟨hok, hflushed⟩ :=
      receiver_ok_of_late hfresh hnew hlate (Receiver.MainPc.eq_of_returned hres)
    obtain ⟨bs, hbs⟩ := recv_run_undisturbed hundisturbed
    exact ⟨hok, contents_of_flushed ha htr halloc hnew hbs hflushed⟩

end Loop

/-- **Cancellation that comes too late.** Let the two ends of a transfer make any run in which nothing
goes wrong but that the client is stopped or cancelled, and let its data plane return. If each stop comes
late, for a push when the sender has `done` set and is not about to look at the flag, for a pull when
the receiver has `done` set or has everything flushed and counted, and all else in the call goes well,
the call returns `Ok` and the transfer is complete. -/
theorem cancel_reported_of_late {prim : Primitives} {scfg : SendConfig} {rcfg : RecvConfig}
    {data : Bytes} {n : Nat} {sink₀ sink : Sink} {os : AllocOs} {recv : Receiver.State rcfg n}
    {s : Loop rcfg n} {as : List (LoopAct n)} {res : Except String Unit} (dir : Direction)
    (caller : Caller) (client : Client) (p : ClientParams) (job : Job) (env : TransferEnv) (w : World)
    (a : Ack) (got : Option UInt32) (ha : prim.aead.Inverts) (htr : Transfer scfg rcfg data)
    (halloc : sink₀.allocate os rcfg.fileSize.toNat = (.ok (), sink))
    (hnew : Receiver.newReceiver rcfg n sink = some recv) (hfresh : Loop.Fresh scfg rcfg dir)
    (hrun : Steps (Loop.step prim scfg) (fun s act => Loop.Undisturbed scfg s act ∧ s.LateStop dir act)
      (.start scfg recv) as s)
    (hres : s.returned? dir = some res) (hend : env.run = res.mapError (IoError.mk .other))
    (hack : env.ack = .ok a) (hcrc : env.sinkCrc = .ok got)
    (hgot : s.recv.sh.sink.contents = data → ∀ crc ∈ got, crc = a.crc32c)
    (hfine : ((caller.call client p job env.completing dir).runOn w).1 = .ok ()) :
    ((caller.call client p job env dir).runOn w).1 = .ok () ∧
      Reported (s.recv.sh.sink.contents = data) ((caller.call client p job env dir).runOn w).1 := by
  obtain ⟨rfl, hcontents⟩ := Loop.ok_of_late ha htr halloc hnew hfresh hrun hres
  have hresult : reportedResult a got env.run dir = .ok () := by
    rw [hend]
    cases dir with
    | push => rfl
    | pull =>
      refine if_neg fun hbad => ?_
      obtain ⟨crc, rfl, hne⟩ := (Option.any_eq_true _ _).mp hbad
      exact of_decide_eq_true hne (hgot hcontents crc rfl)
  rw [caller_diverts client p job hack hcrc dir caller w hfine, hresult]
  exact ⟨rfl, hcontents⟩

/-! ### One byte, cancelled -/

/-- The server's answer, with the CRC of the byte. -/
def oneByteAck : Ack := { ok := true, session := 9, size := 1, crc32c := 0x86b737ba }

/-- A call that goes well but for its data plane, and the CRC of what the sink then holds. -/
def oneByteEnv (res : Except String Unit) (contents : Bytes) : TransferEnv where
  ack := .ok oneByteAck
  run := res.mapError (IoError.mk .other)
  sinkCrc := .ok (some (Receiver.oneBlockPrims.crc32c contents))

def oneByteResult (dir : Direction) (res : Except String Unit) (contents : Bytes) (caller : Caller) :
    Except GirthError Unit :=
  ((caller.call plainClient plainParams { name := "a", size := 1 } (oneByteEnv res contents) dir).runOn
    {}).1

/-- First the sender runs, then the receiver. -/
def inTurn (send : List Sender.Action) (recv : List (Receiver.Action 1)) : List (LoopAct 1) :=
  send.map .send ++ recv.map .recv

theorem exists_oneByte (C : Loop Receiver.oneBlock 1 → LoopAct 1 → Prop) [∀ s act, Decidable (C s act)]
    (as : List (LoopAct 1)) (Q : Loop Receiver.oneBlock 1 → Bool)
    (h : ((Receiver.newReceiver Receiver.oneBlock 1 Receiver.zeroByte).any fun recv =>
      (exec (fun s act => if C s act then Loop.step Receiver.oneBlockPrims oneBlockSend s act else none)
        (.start oneBlockSend recv) as).any Q) = true) :
    ∃ recv s, Receiver.newReceiver Receiver.oneBlock 1 Receiver.zeroByte = some recv ∧
      Steps (Loop.step Receiver.oneBlockPrims oneBlockSend) C (.start oneBlockSend recv) as s ∧
      Q s = true :=
  exists_steps_of_exec_check _ (Loop.start oneBlockSend) _ as C Q h

/-- The FEEDBACK of the first round that finds the transfer complete. -/
def doneReport : FeedbackHeader :=
  { session := 9, targetRate := 100000000, hiContig := 1, done := true }

/-- The byte is sent, received and flushed. A push is then stopped when its sender has handled the first
DONE, and a pull when the round of its first DONE has stored the mark. -/
def lateStop : Direction → List (LoopAct 1)
  | .push =>
    inTurn oneBlockSendActs (Receiver.oneBlockActs .ok ++ List.replicate 16 (.feedback {})) ++
    inTurn ([.feedback {}, .feedback { recv := .datagram (doneReport.bytes 0) ⟨.v4 0x7f000001, 5001⟩ }] ++
      List.replicate 5 (.feedback {}) ++ [.stop, .pacer {}, .pacer {}, .join]) []
  | .pull =>
    inTurn oneBlockSendActs (Receiver.oneBlockActs .ok ++ List.replicate 12 (.feedback {}) ++ [.stop] ++
      List.replicate 5 (.feedback {}) ++ [Receiver.idle, Receiver.idle] ++ List.replicate 5 .main)

/-- The run with the late stop ends well, whoever calls. -/
def EndsWell (dir : Direction) : Prop :=
  ∃ recv s, Receiver.newReceiver Receiver.oneBlock 1 Receiver.zeroByte = some recv ∧
    Steps (Loop.step Receiver.oneBlockPrims oneBlockSend)
      (fun s act => Loop.Undisturbed oneBlockSend s act ∧ s.LateStop dir act)
      (.start oneBlockSend recv) (lateStop dir) s ∧
    s.returned? dir = some (.ok ()) ∧ s.recv.sh.sink.contents = [7] ∧
    ∀ caller, oneByteResult dir (.ok ()) [7] caller = .ok () ∧
      Reported (s.recv.sh.sink.contents = [7]) (oneByteResult dir (.ok ()) [7] caller)

theorem cancel_reported_of_late_oneByte : EndsWell .push ∧ EndsWell .pull := by
  have hends (dir : Direction) : EndsWell dir := by
    obtain ⟨recv, s, hnew, hrun, hQ⟩ := exists_oneByte
      (fun s act => Loop.Undisturbed oneBlockSend s act ∧ s.LateStop dir act) (lateStop dir)
      (fun s => decide (s.returned? dir = some (.ok ())) && decide (s.recv.sh.sink.contents = [7]))
      (by cases dir <;> decide +kernel)
    simp only [Bool.and_eq_true, decide_eq_true_eq] at hQ
    obtain ⟨hres, hcontents⟩ := hQ
    refine ⟨recv, s, hnew, hrun, hres, hcontents, fun caller => ?_⟩
    have halloc : (⟨.mem, []⟩ : Sink).allocate {} Receiver.oneBlock.fileSize.toNat =
        (.ok (), Receiver.zeroByte) := rfl
    have hfresh : Loop.Fresh oneBlockSend Receiver.oneBlock dir := by
      cases dir with
      | push => exact ⟨rfl, rfl⟩
      | pull => exact ⟨rfl, fun _ => by decide⟩
    have hfine : ((caller.call plainClient plainParams { name := "a", size := 1 }
        (oneByteEnv (.ok ()) [7]).completing dir).runOn {}).1 = .ok () := by
      obtain ⟨session, handle⟩ := caller
      cases dir <;> cases session <;> cases handle <;> rfl
    refine cancel_reported_of_late dir caller plainClient plainParams _ (oneByteEnv (.ok ()) [7]) {}
      oneByteAck _ (fun _ _ _ => rfl) oneBlock_transfer halloc hnew hfresh hrun hres rfl rfl rfl ?_ hfine
    intro _ crc hcrc
    cases hcrc
    rfl
  exact ⟨hends .push, hends .pull⟩

/-- Some undisturbed run of the transfer by these actions ends with `res`, and every caller gets the
error `e`. -/
def EndsWith (dir : Direction) (as : List (LoopAct 1)) (res : Except String Unit) (e : GirthError) :
    Prop :=
  ∃ recv s, Receiver.newReceiver Receiver.oneBlock 1 Receiver.zeroByte = some recv ∧
    Steps (Loop.step Receiver.oneBlockPrims oneBlockSend) (Loop.Undisturbed oneBlockSend)
      (.start oneBlockSend recv) as s ∧ s.returned? dir = some res ∧
    ∀ caller, oneByteResult dir res s.recv.sh.sink.contents caller = .error e ∧
      ¬ Reported (s.recv.sh.sink.contents = [7])
        (oneByteResult dir res s.recv.sh.sink.contents caller)

/-- The push is stopped before its first packet. -/
def stopPush : List (LoopAct 1) :=
  inTurn ([.stop] ++ List.replicate 3 (.pacer {}) ++ [.prefetch {}, .feedback {}, .join]) []

/-- The pull is stopped before its first packet. -/
def stopPull : List (LoopAct 1) :=
  inTurn oneBlockSendActs ([.stop, Receiver.idle, .feedback {}, .flusher {}, .flusher {}] ++
    List.replicate 5 .main)

/-- The pull is stopped while its block is on the way from the worker to the flusher. -/
def cutOffPull : List (LoopAct 1) := inTurn oneBlockSendActs Receiver.cutOffRun

theorem endsWith_of_check {dir : Direction} {as : List (LoopAct 1)} {res : Except String Unit}
    {e : GirthError} (hne : e ≠ .stopped)
    (hresult : ∀ caller, oneByteResult dir res [0] caller = .error e)
    (h : ((Receiver.newReceiver Receiver.oneBlock 1 Receiver.zeroByte).any fun recv =>
      (exec (fun s act => if Loop.Undisturbed oneBlockSend s act then
        Loop.step Receiver.oneBlockPrims oneBlockSend s act else none)
        (.start oneBlockSend recv) as).any fun s => decide (s.returned? dir = some res) &&
          decide (s.recv.sh.sink.contents = [0])) = true) : EndsWith dir as res e := by
  obtain ⟨recv, s, hnew, hrun, hQ⟩ := exists_oneByte (Loop.Undisturbed oneBlockSend) as _ h
  simp only [Bool.and_eq_true, decide_eq_true_eq] at hQ
  obtain ⟨hres, hcontents⟩ := hQ
  refine ⟨recv, s, hnew, hrun, hres, fun caller => ?_⟩
  rw [hcontents, hresult caller]
  exact ⟨rfl, hne⟩

/-- A cancelled push and a cancelled pull return `Io` with the text of their data plane; a pull that
is cancelled at the wrong moment returns `Integrity`. -/
theorem cancel_not_reported :
    EndsWith .push stopPush (.error "sender stopped") (.io ⟨.other, "sender stopped"⟩) ∧
    EndsWith .pull stopPull (.error "receiver stopped before completion (0/1 blocks)")
      (.io ⟨.other, "receiver stopped before completion (0/1 blocks)"⟩) ∧
    EndsWith .pull cutOffPull (.ok ()) .integrity := by
  refine ⟨endsWith_of_check nofun (fun caller => ?_) (by decide +kernel),
    endsWith_of_check nofun (fun caller => ?_) (by decide +kernel),
    endsWith_of_check nofun (fun caller => ?_) (by decide +kernel)⟩ <;>
  · obtain ⟨session, handle⟩ := caller
    cases session <;> cases handle <;> rfl

end Girth
