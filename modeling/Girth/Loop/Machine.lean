import Girth.Receiver.Steps
import Girth.Sender.Steps

/-!
# The two ends of a transfer, together

The receiver steers the sender: its FEEDBACK PDUs carry a target rate and a timing tick, the sender
adopts the one and echoes the other in its DATA PDUs. `Loop` runs the two machines side by side. The
network between them is a condition on the run: what arrives has been sent, in any order and any
number of times (`FromReceiver`, for FEEDBACKs).

Five history variables say where a value comes from. `round` and `sent` keep with each FEEDBACK the
control handle its rate was computed under; `arrivals`, `adopted` and `stamps` are the FEEDBACKs that
have reached the sender, those whose rate it has adopted, and the DATA PDUs it has built, each with
the FEEDBACK that it echoes. `time` is the same for both ends, and no thread sees it: what they see is
their own clock, in the environment of each step.
-/

namespace Girth

open Lib

/-- A FEEDBACK that was sent, with the control handle as its round of the feedback loop read it. -/
structure Report where
  control : Option TransferControl
  header : FeedbackHeader
  nacks : List NackEntry
  time : Nat
  deriving DecidableEq

/-- The PDU. -/
def Report.bytes (rep : Report) : Bytes :=
  rep.header.bytes (UInt16.ofNat rep.nacks.length) ++ rep.nacks.flatMap NackEntry.bytes

/-- A decoded header is that of the report, with the number of its NACKs filled in. -/
def Report.Reads (rep : Report) (fh : FeedbackHeader) : Prop :=
  fh = { rep.header with nackCount := fh.nackCount }

instance (rep : Report) (fh : FeedbackHeader) : Decidable (rep.Reads fh) :=
  inferInstanceAs (Decidable (_ = _))

/-- A FEEDBACK that reached the sender, when its clock was at `t2`. -/
structure Arrival where
  header : FeedbackHeader
  t2 : UInt64
  time : Nat

/-- A DATA PDU as it joins a batch, when the sender's clock was at `now`, with the FEEDBACK whose tick
it echoes. -/
structure Stamp where
  pdu : Bytes
  echoes : Option Arrival
  now : UInt64
  time : Nat

/-- A receiver with `n` ingest workers, and its sender. -/
structure Loop (rcfg : RecvConfig) (n : Nat) where
  recv : Receiver.State rcfg n
  send : Sender.State
  time : Nat := 0
  /-- The control handle, as the running round of the feedback loop read it. -/
  round : Option TransferControl := none
  sent : List Report := []
  arrivals : List Arrival := []
  adopted : List FeedbackHeader := []
  stamps : List Stamp := []

inductive LoopAct (n : Nat)
  | recv (act : Receiver.Action n)
  | send (act : Sender.Action)
  | wait (us : Nat)

namespace Loop

variable {rcfg : RecvConfig} {n : Nat}

/-- The PDU that a step of the pacing loop adds to the batch. -/
def built (s : Sender.State) (env : Sender.Env) : Option Bytes :=
  match s.pacerPc with
  | .stampRex b size => s.pacer.rexScratch[b.rexIdx]?.map fun buf =>
      (Sender.attachTick s.sh.tick env.now buf).2.take size
  | .stampNew _ item => some ((Sender.attachTick s.sh.tick env.now item.buf).2.take item.size)
  | _ => none

/-- The round of the feedback loop reads the control handle when it computes its target. -/
def roundAfter (s : Loop rcfg n) : Receiver.Action n → Option TransferControl
  | .feedback _ =>
    match s.recv.feedback.pc with
    | .rtt => s.recv.sh.control
    | _ => s.round
  | _ => s.round

def sentBy (s : Loop rcfg n) (act : Receiver.Action n) : List Report :=
  match Receiver.emitted s.recv act with
  | some (.feedback _ fh nacks) => [⟨s.round, fh, nacks, s.time⟩]
  | _ => []

/-- The FEEDBACK whose rate the feedback thread is about to adopt. -/
def adopting : Sender.FeedbackPc → Option FeedbackHeader
  | .storeRate fh => some fh
  | _ => none

/-- A step of the feedback thread has received a FEEDBACK if it goes on to record its tick. -/
def arrived (now : UInt64) (time : Nat) : Sender.FeedbackPc → Sender.FeedbackPc → List Arrival
  | .recv, .setTick fh _ _ => [⟨fh, now, time⟩]
  | _, _ => []

def arrivedBy (s : Loop rcfg n) (send : Sender.State) : Sender.Action → List Arrival
  | .feedback env => arrived env.now s.time s.send.feedback send.feedback
  | _ => []

def adoptedBy (s : Loop rcfg n) : Sender.Action → List FeedbackHeader
  | .feedback _ => (adopting s.send.feedback).toList
  | _ => []

/-- The FEEDBACKs whose tick has been recorded: all but the one whose tick is about to be. -/
def recorded (arrivals : List Arrival) : Sender.FeedbackPc → List Arrival
  | .setTick .. => arrivals.tail
  | _ => arrivals

/-- A PDU echoes the last FEEDBACK recorded, if its tick is still pending. -/
def stampedBy (s : Loop rcfg n) : Sender.Action → List Stamp
  | .pacer env => (built s.send env).toList.map fun pdu =>
      ⟨pdu, if s.send.sh.tick.pending then (recorded s.arrivals s.send.feedback).head? else none,
        env.now, s.time⟩
  | _ => []

def step (prim : Primitives) (scfg : SendConfig) (s : Loop rcfg n) :
    LoopAct n → Option (Loop rcfg n)
  | .recv act => (Receiver.step prim s.recv act).map fun recv =>
      { s with recv := recv, round := s.roundAfter act, sent := s.sentBy act ++ s.sent }
  | .send act => (Sender.step prim scfg s.send act).map fun send =>
      { s with
        send := send
        arrivals := s.arrivedBy send act ++ s.arrivals
        adopted := s.adoptedBy act ++ s.adopted
        stamps := s.stampedBy act ++ s.stamps }
  | .wait us => some { s with time := s.time + us }

/-- The start of both ends. -/
def start (scfg : SendConfig) (recv : Receiver.State rcfg n) : Loop rcfg n where
  recv := recv
  send := Sender.newSender scfg

/-- The datagram that the sender's feedback thread receives, if any. -/
def received (env : Sender.Env) : Option Bytes :=
  match env.recv with
  | .datagram data _ => some data
  | .timeout | .fatal _ => none

/-- A FEEDBACK that arrives has been sent. -/
def FromReceiver (scfg : SendConfig) (s : Loop rcfg n) : LoopAct n → Prop
  | .send (.feedback env) => (env.feedback scfg).isSome → ∃ rep ∈ s.sent, received env = some rep.bytes
  | _ => True

instance (scfg : SendConfig) (s : Loop rcfg n) : (act : LoopAct n) → Decidable (FromReceiver scfg s act)
  | .send (.feedback env) =>
    inferInstanceAs (Decidable ((env.feedback scfg).isSome → ∃ rep ∈ s.sent, received env = some rep.bytes))
  | .recv _ | .wait _ | .send (.prefetch _) | .send (.pacer _) | .send .join | .send .stop
  | .send (.control _) => isTrue trivial

variable {prim : Primitives} {scfg : SendConfig} {s t : Loop rcfg n}

/-- What a step of the loop is: a step of one end, or time passes. -/
inductive Move (prim : Primitives) (scfg : SendConfig) (s : Loop rcfg n) :
    LoopAct n → Loop rcfg n → Prop
  | recv {act : Receiver.Action n} {recv : Receiver.State rcfg n}
      (h : Receiver.step prim s.recv act = some recv) :
      Move prim scfg s (.recv act)
        { s with recv := recv, round := s.roundAfter act, sent := s.sentBy act ++ s.sent }
  | send {act : Sender.Action} {send : Sender.State}
      (h : Sender.step prim scfg s.send act = some send) :
      Move prim scfg s (.send act)
        { s with
          send := send
          arrivals := s.arrivedBy send act ++ s.arrivals
          adopted := s.adoptedBy act ++ s.adopted
          stamps := s.stampedBy act ++ s.stamps }
  | wait {us : Nat} : Move prim scfg s (.wait us) { s with time := s.time + us }

theorem step_move {act : LoopAct n} (h : step prim scfg s act = some t) : Move prim scfg s act t := by
  cases act with
  | recv act =>
    obtain ⟨recv, hrecv, rfl⟩ := Option.map_eq_some_iff.mp h
    exact .recv hrecv
  | send act =>
    obtain ⟨send, hsend, rfl⟩ := Option.map_eq_some_iff.mp h
    exact .send hsend
  | wait us =>
    cases h
    exact .wait

theorem mem_sentBy {act : Receiver.Action n} {rep : Report} (h : rep ∈ s.sentBy act) :
    ∃ env l p due isNet, act = .feedback env ∧ s.recv.feedback.pc = .send l p due isNet ∧
      rep = ⟨s.round, Receiver.feedbackHeader rcfg l isNet env.now, Receiver.nackEntries due, s.time⟩ := by
  unfold sentBy at h
  split at h
  · rename_i hemitted
    obtain ⟨env, l, due, isNet, rfl, hpc, rfl, rfl⟩ := Receiver.emitted_feedback hemitted
    cases List.mem_singleton.mp h
    exact ⟨env, l, _, due, isNet, rfl, hpc, rfl⟩
  · cases h

theorem feedback_of_step {s t : Sender.State} {env : Sender.Env}
    (h : Sender.step prim scfg s (.feedback env) = some t) :
    ∃ sh pc, Sender.feedbackStep scfg s.sh env s.feedback = some (sh, pc) ∧
      t = { s with sh := sh, feedback := pc } := by
  simp only [Sender.step] at h
  split at h
  · cases h
  · obtain ⟨⟨sh, pc⟩, hstep, rfl⟩ := Option.map_eq_some_iff.mp h
    exact ⟨sh, pc, hstep, rfl⟩

theorem reads_of_feedback {env : Sender.Env} {rep : Report} {msg : FeedbackHeader × List NackEntry}
    (hrep : received env = some rep.bytes) (hmsg : env.feedback scfg = some msg) :
    rep.Reads msg.1 := by
  unfold received at hrep
  unfold Sender.Env.feedback at hmsg
  split at hrep
  · rename_i data addr hrecv
    cases hrep
    rw [hrecv] at hmsg
    simp only [Sender.feedbackOf] at hmsg
    split at hmsg
    · cases hmsg
    · have hdecode := (Option.filter_eq_some_iff.mp hmsg).1
      have hlen : (rep.header.bytes (UInt16.ofNat rep.nacks.length)).length ≤ 2048 := by
        rw [FeedbackHeader.bytes_length]
        decide
      rw [Report.bytes, List.take_append, List.take_of_length_le hlen] at hdecode
      exact decodeFeedback_header hdecode
  · cases hrep
  · cases hrep

/-- The FEEDBACK the sender is working on has been sent. -/
def Pending (s : Loop rcfg n) : Prop :=
  ∀ msg ∈ s.send.feedback.pending, ∃ rep ∈ s.sent, rep.Reads msg.1

theorem pending_step {act : LoopAct n} (hp : s.Pending) (hC : FromReceiver scfg s act)
    (h : Move prim scfg s act t) : t.Pending := by
  cases h with
  | recv =>
    intro msg hmsg
    obtain ⟨rep, hrep, hhdr⟩ := hp msg hmsg
    exact ⟨rep, List.mem_append_right _ hrep, hhdr⟩
  | wait => exact hp
  | @send act send hsend =>
    cases Sender.step_move hsend with
    | @feedback env sh pc hstep =>
      have hmove := Sender.feedbackStep_move hstep
      intro msg hmsg
      have hold := hp
      unfold Pending at hold
      generalize s.send.feedback = pc₀ at hmove hold
      cases hmove with
      | quiet _ hpc =>
        rw [hpc] at hmsg
        cases hmsg
      | arrive hfeedback =>
        cases hmsg
        obtain ⟨rep, hrep, hbytes⟩ := hC (Option.isSome_iff_exists.mpr ⟨_, hfeedback⟩)
        exact ⟨rep, hrep, reads_of_feedback hbytes hfeedback⟩
      | setTick =>
        cases hmsg
        exact hold _ rfl
      | @pushNacks fh nacks =>
        cases hmsg
        exact hold (fh, nacks) rfl
      | storeRate => cases hmsg
    | prefetch => exact hp
    | pacer => exact hp
    | join => exact hp
    | flags => exact hp

end Loop

end Girth
