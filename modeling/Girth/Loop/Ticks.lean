import Girth.Loop.Machine
import Girth.Receiver.Payload
import Girth.Sender.Nacks

/-!
# Timing ticks

A FEEDBACK carries a tick, the receiver's clock when it was sent. The sender remembers the last tick
with its type and the time it arrived, and stamps it into the next DATA PDU it builds; when that PDU
arrives, the receiver takes the tick off its clock and has a sample of the round trip. For a network
tick the sender adds the time it held the tick.

Three arguments make this right. A PDU is stamped once, into a header that was just built, so that
nothing in a recycled buffer survives (`FreshInv`). The tick that is pending is that of the last
FEEDBACK recorded, and no PDU has echoed it yet (`TickInv`). And each clock is read at both ends of an
interval or not at all, so that the offset between them cancels (`TimesInv`, `sample_eq`).
-/

namespace Girth

open Lib

/-! ## A PDU before it is stamped -/

namespace Sender

variable {prim : Primitives} {cfg : SendConfig}

/-- The header echoes nothing. -/
def NoTick (h : DataHeader) : Prop :=
  h.flags &&& flagHasTick = 0 ∧ h.flags &&& flagTickN = 0 ∧ h.echoTick = 0

def Fresh (d : Bytes) : Prop := ∃ h, decodeDataHeader d = some h ∧ NoTick h

theorem fresh_buildPdu {renv : ReadEnv} {buf : Bytes} {seq : UInt64} {flags : UInt8}
    {rexIndex : Int64} {item : Prefetched} {sealed : Option Seal}
    (hflags : flags = 0 ∨ flags = flagRetransmit)
    (h : buildPdu prim cfg renv buf seq flags rexIndex = .pdu item sealed) : Fresh item.pdu := by
  obtain ⟨hdr, hdec, -, hset, hecho⟩ := buildPdu_header h
  refine ⟨hdr, hdec, ?_, ?_, hecho⟩
  all_goals
    rcases hflags with rfl | rfl <;> rcases hset with h | h <;> rw [h] <;> decide

theorem fresh_fillRetransmit {renv : ReadEnv} {buf : Bytes} {seq : UInt64} {item : Prefetched}
    {sealed : Option Seal} (h : fillRetransmit prim cfg renv buf seq = .pdu item sealed) :
    Fresh item.pdu := by
  unfold fillRetransmit at h
  split at h
  · cases h
  · exact fresh_buildPdu (.inr rfl) h

/-- A retransmission waits for its tick in a scratch buffer. -/
def RexFresh (p : Pacer) : PacerPc → Prop
  | .stampRex b size => ∀ buf, p.rexScratch[b.rexIdx]? = some buf → Fresh (buf.take size)
  | _ => True

/-- Every PDU on its way to the batch is fresh. -/
structure FreshInv (s : State) : Prop where
  built : ∀ item ∈ s.prefetch.item, Fresh item.pdu
  ready : ∀ item ∈ s.sh.ready, Fresh item.pdu
  taken : ∀ item ∈ s.pacerPc.item, Fresh item.pdu
  rex : RexFresh s.pacer s.pacerPc

variable {s t : State} {env : Env} {sh : Shared}

theorem freshInv_prefetch {pc : PrefetchPc} (hinv : FreshInv s)
    (h : prefetchStep prim cfg s.sh env s.prefetch = some (sh, pc)) :
    FreshInv { s with sh := sh, prefetch := pc } := by
  obtain ⟨hbuilt, hready, htaken, hrex⟩ := hinv
  have hmove := prefetchStep_move h
  generalize s.prefetch = pc₀ at hmove hbuilt
  cases hmove with
  | fill hbuild =>
    refine ⟨?_, hready, htaken, hrex⟩
    rintro item ⟨⟩
    exact fresh_buildPdu (.inl rfl) hbuild
  | publish =>
    refine ⟨fun item hitem => ?_, forall_mem_snoc hready (hbuilt _ rfl), htaken, hrex⟩
    cases hitem
  | leave | borrow | retry | take | fail =>
    exact ⟨fun item hitem => (by cases hitem), hready, htaken, hrex⟩

theorem RexFresh.of_not_busy {p : Pacer} {pc : PacerPc} (h : pc.busy = false) : RexFresh p pc := by
  cases pc with
  | stampRex => cases h
  | _ => trivial

theorem freshInv_pacer {p : Pacer} {pc : PacerPc} (hinv : FreshInv s)
    (h : pacerStep prim cfg s.sh env s.pacer s.pacerPc = some (sh, p, pc)) :
    FreshInv { s with sh := sh, pacer := p, pacerPc := pc } := by
  obtain ⟨hbuilt, hready, htaken, hrex⟩ := hinv
  have hmove := pacerStep_move h
  have hnone : ∀ {pc : PacerPc}, pc.item = none → ∀ item ∈ pc.item, Fresh item.pdu := by
    intro pc hpc item hitem
    rw [hpc] at hitem
    cases hitem
  generalize s.pacerPc = pc₀ at hmove
  cases hmove with
  | quiet _ _ _ hbusy hready' =>
    exact ⟨hbuilt, hready' ▸ hready, hnone (PacerPc.item_of_not_busy hbusy), .of_not_busy hbusy⟩
  | pop _ _ _ hready' => exact ⟨hbuilt, hready' ▸ hready, hnone rfl, trivial⟩
  | fill hbuf hfill =>
    refine ⟨hbuilt, hready, hnone rfl, fun buf hget => ?_⟩
    obtain ⟨hlt, -⟩ := List.getElem?_eq_some_iff.mp hbuf
    rw [List.getElem?_set_self hlt] at hget
    cases hget
    exact fresh_fillRetransmit hfill
  | take hcons =>
    rw [hcons] at hready
    refine ⟨hbuilt, fun item hitem => hready item (List.mem_cons_of_mem _ hitem), ?_, trivial⟩
    rintro _ ⟨⟩
    exact hready _ List.mem_cons_self
  | stampRex | exhausted | stampNew | fin => exact ⟨hbuilt, hready, hnone rfl, trivial⟩

theorem freshInv_step {act : Action} (hinv : FreshInv s) (h : step prim cfg s act = some t) :
    FreshInv t := by
  cases step_move h with
  | prefetch hp => exact freshInv_prefetch hinv hp
  | pacer hp => exact freshInv_pacer hinv hp
  | feedback hf =>
    exact ⟨hinv.built, (feedbackStep_frame hf).ready ▸ hinv.ready, hinv.taken, hinv.rex⟩
  | join => exact ⟨hinv.built, hinv.ready, fun item hitem => (by cases hitem), trivial⟩
  | flags => exact ⟨hinv.built, hinv.ready, hinv.taken, hinv.rex⟩

theorem freshInv_new : FreshInv (newSender cfg) := by
  refine ⟨fun item h => (by cases h), fun item h => (by cases h), fun item h => ?_, ?_⟩
  · simp only [newSender] at h
    split at h <;> cases h
  · simp only [newSender]
    split <;> trivial

end Sender

variable {rcfg : RecvConfig} {n : Nat} {prim : Primitives} {scfg : SendConfig} {s t : Loop rcfg n}

/-! ## Which FEEDBACK a PDU echoes -/

/-- The tick of a PDU that is stamped at `now` and echoes the FEEDBACK. -/
def Arrival.echoAt (arr : Arrival) (now : UInt64) : UInt64 :=
  if arr.header.tickIsNetwork then arr.header.tick + (now - arr.t2) else arr.header.tick

/-- The header echoes the FEEDBACK, with its type. -/
structure Arrival.EchoedIn (arr : Arrival) (now : UInt64) (h : DataHeader) : Prop where
  hasTick : h.flags &&& flagHasTick ≠ 0
  network : (h.flags &&& flagTickN != 0) = arr.header.tickIsNetwork
  echoTick : h.echoTick = arr.echoAt now

/-- The header of the PDU says what the stamp does. -/
def Stamp.Faithful (st : Stamp) : Prop :=
  ∃ h, decodeDataHeader st.pdu = some h ∧ (∀ arr ∈ st.echoes, arr.EchoedIn st.now h) ∧
    (st.echoes = none → Sender.NoTick h)

theorem or_and_self_right (f g : UInt8) : (f ||| g) &&& g = g := by
  apply UInt8.eq_of_toBitVec_eq
  ext i
  simp only [UInt8.toBitVec_and, UInt8.toBitVec_or, BitVec.getElem_and, BitVec.getElem_or]
  cases g.toBitVec[i] <;> simp

theorem echoedIn_stamp (arr : Arrival) (now : UInt64) (h : DataHeader) :
    arr.EchoedIn now ((Sender.tickOf arr.header arr.t2).stamp now h) := by
  have hstamp : (Sender.tickOf arr.header arr.t2).stamp now h =
      if arr.header.tickIsNetwork then
        { h with
          flags := h.flags ||| flagHasTick ||| flagTickN
          echoTick := arr.header.tick + (now - arr.t2) }
      else { h with flags := (h.flags ||| flagHasTick) &&& ~~~flagTickN, echoTick := arr.header.tick } :=
    rfl
  rw [hstamp]
  cases hnet : arr.header.tickIsNetwork with
  | true =>
    rw [if_pos rfl]
    refine ⟨?_, ?_, by rw [Arrival.echoAt, if_pos hnet]⟩
    · show (h.flags ||| flagHasTick ||| flagTickN) &&& flagHasTick ≠ 0
      rw [UInt8.or_assoc, UInt8.or_comm flagHasTick, ← UInt8.or_assoc, or_and_self_right]
      decide
    · show ((h.flags ||| flagHasTick ||| flagTickN) &&& flagTickN != 0) = _
      rw [or_and_self_right, hnet]
      decide
  | false =>
    rw [if_neg Bool.false_ne_true]
    refine ⟨?_, ?_, by rw [Arrival.echoAt, hnet, if_neg Bool.false_ne_true]⟩
    · show (h.flags ||| flagHasTick) &&& ~~~flagTickN &&& flagHasTick ≠ 0
      rw [UInt8.and_assoc, show ~~~flagTickN &&& flagHasTick = flagHasTick from by decide,
        or_and_self_right]
      decide
    · show ((h.flags ||| flagHasTick) &&& ~~~flagTickN &&& flagTickN != 0) = _
      rw [UInt8.and_assoc, show ~~~flagTickN &&& flagTickN = 0 from by decide, UInt8.and_zero, hnet]
      rfl

namespace Loop

/-- What the sender has recorded and what it has echoed, both newest first. -/
structure TickInv (arrivals : List Arrival) (pc : Sender.FeedbackPc) (tick : Sender.TickState)
    (echoed : List Arrival) : Prop where
  recording : ∀ fh nacks t2, pc = .setTick fh nacks t2 →
    ∃ time older, arrivals = ⟨fh, t2, time⟩ :: older
  pending : tick.pending = true → ∃ arr older, recorded arrivals pc = arr :: older ∧
    tick = Sender.tickOf arr.header arr.t2 ∧ echoed.Sublist older
  echoed : echoed.Sublist (recorded arrivals pc)

section tick

variable {arrivals echoed : List Arrival} {pc pc' : Sender.FeedbackPc} {tick : Sender.TickState}

theorem TickInv.move (hinv : TickInv arrivals pc tick echoed)
    (hpc' : ∀ fh nacks t2, pc' ≠ .setTick fh nacks t2) (hpc : recorded arrivals pc = arrivals) :
    TickInv arrivals pc' tick echoed := by
  have hrec : recorded arrivals pc' = recorded arrivals pc := by
    rw [hpc]
    cases pc' with
    | setTick fh nacks t2 => exact absurd rfl (hpc' fh nacks t2)
    | _ => rfl
  refine ⟨fun fh nacks t2 h => absurd h (hpc' fh nacks t2), ?_, ?_⟩
  · rw [hrec]
    exact hinv.pending
  · rw [hrec]
    exact hinv.echoed

theorem TickInv.arrive (hinv : TickInv arrivals .recv tick echoed) (fh : FeedbackHeader)
    (nacks : List NackEntry) (t2 : UInt64) (time : Nat) :
    TickInv (⟨fh, t2, time⟩ :: arrivals) (.setTick fh nacks t2) tick echoed := by
  refine ⟨?_, hinv.pending, hinv.echoed⟩
  rintro _ _ _ ⟨⟩
  exact ⟨time, arrivals, rfl⟩

theorem TickInv.setTick {fh : FeedbackHeader} {nacks : List NackEntry} {t2 : UInt64}
    (hinv : TickInv arrivals (.setTick fh nacks t2) tick echoed) :
    TickInv arrivals (.pushNacks fh nacks) (Sender.tickOf fh t2) echoed := by
  obtain ⟨time, older, rfl⟩ := hinv.recording fh nacks t2 rfl
  exact ⟨fun _ _ _ h => (by cases h), fun _ => ⟨_, older, rfl, rfl, hinv.echoed⟩,
    hinv.echoed.cons _⟩

/-- The FEEDBACK that the next PDU echoes. -/
def next (arrivals : List Arrival) (pc : Sender.FeedbackPc) (tick : Sender.TickState) :
    Option Arrival :=
  if tick.pending then (recorded arrivals pc).head? else none

theorem TickInv.stamp (hinv : TickInv arrivals pc tick echoed) :
    TickInv arrivals pc { tick with pending := false }
      ((next arrivals pc tick).toList ++ echoed) := by
  refine ⟨hinv.recording, fun h => (by cases h), ?_⟩
  unfold next
  split
  · rename_i hpending
    obtain ⟨arr, older, hrec, -, hsub⟩ := hinv.pending hpending
    rw [hrec]
    exact hsub.cons_cons arr
  · exact hinv.echoed

theorem TickInv.feedback {cfg : SendConfig} {sh sh' : Sender.Shared} {env : Sender.Env} {time : Nat}
    (hinv : TickInv arrivals pc sh.tick echoed)
    (h : Sender.feedbackStep cfg sh env pc = some (sh', pc')) :
    TickInv (arrived env.now time pc pc' ++ arrivals) pc' sh'.tick echoed := by
  cases Sender.feedbackStep_cases h with
  | arrive => exact hinv.arrive ..
  | setTick => exact hinv.setTick
  | _ => exact hinv.move (fun _ _ _ heq => by cases heq) rfl

end tick

/-! ## Every PDU -/

/-- A DATA PDU, and not a FIN. -/
def isData (d : Bytes) : Bool := (decodeDataHeader d).isSome

/-- The FEEDBACKs echoed so far. -/
def echoed (s : Loop rcfg n) : List Arrival := s.stamps.filterMap Stamp.echoes

structure EchoInv (s : Loop rcfg n) : Prop where
  fresh : Sender.FreshInv s.send
  handed : (Sender.handed s.send.sh s.send.pacerPc).filter isData = (s.stamps.map Stamp.pdu).reverse
  faithful : ∀ st ∈ s.stamps, st.Faithful
  tick : TickInv s.arrivals s.send.feedback s.send.sh.tick s.echoed

theorem unstamped_of_move {sh sh' : Sender.Shared} {env : Sender.Env} {p p' : Sender.Pacer}
    {pc pc' : Sender.PacerPc} (h : Sender.PacerMove prim scfg sh env p pc sh' p' pc')
    (hrex : ∀ b size, pc ≠ .stampRex b size) (hnew : ∀ b item, pc ≠ .stampNew b item) :
    sh'.tick = sh.tick ∧
      (Sender.handed sh' pc').filter isData = (Sender.handed sh pc).filter isData := by
  cases h with
  | quiet _ hhanded _ _ _ _ htick => exact ⟨htick, by rw [hhanded]⟩
  | pop _ _ hwire _ _ htick =>
    refine ⟨htick, ?_⟩
    simp only [Sender.handed, hwire]
    rfl
  | fill | take | exhausted => exact ⟨rfl, rfl⟩
  | stampRex => exact absurd rfl (hrex _ _)
  | stampNew => exact absurd rfl (hnew _ _)
  | fin =>
    refine ⟨rfl, ?_⟩
    rw [Sender.handed_fin, List.filter_append]
    simp [isData, Sender.decodeDataHeader_finPdu]

theorem pacerStep_built {s : Sender.State} {sh : Sender.Shared} {env : Sender.Env}
    {p : Sender.Pacer} {pc : Sender.PacerPc}
    (h : Sender.pacerStep prim scfg s.sh env s.pacer s.pacerPc = some (sh, p, pc)) :
    (∃ pdu, built s env = some pdu ∧ sh.tick = { s.sh.tick with pending := false } ∧
      Sender.handed sh pc = Sender.handed s.sh s.pacerPc ++ [pdu]) ∨
    (built s env = none ∧ sh.tick = s.sh.tick ∧
      (Sender.handed sh pc).filter isData = (Sender.handed s.sh s.pacerPc).filter isData) := by
  have hmove := Sender.pacerStep_move h
  cases hpc : s.pacerPc with
  | stampRex b size =>
    rw [hpc] at h
    simp only [Sender.pacerStep] at h
    split at h
    · cases h
    · rename_i buf hbuf
      cases h
      refine .inl ⟨(Sender.attachTick s.sh.tick env.now buf).2.take size, ?_,
        Sender.attachTick_tick .., Sender.handed_snoc s.sh rfl⟩
      simp only [built, hpc, hbuf, Option.map_some]
  | stampNew b item =>
    rw [hpc] at h
    simp only [Sender.pacerStep, Option.some.injEq, Prod.mk.injEq] at h
    obtain ⟨rfl, -, rfl⟩ := h
    refine .inl ⟨(Sender.attachTick s.sh.tick env.now item.buf).2.take item.size, ?_,
      Sender.attachTick_tick .., Sender.handed_snoc s.sh rfl⟩
    simp only [built, hpc]
  | _ =>
    rw [hpc] at hmove
    exact .inr ⟨by simp only [built, hpc],
      unstamped_of_move hmove (fun _ _ heq => by cases heq) fun _ _ heq => by cases heq⟩

theorem header_of_built {s : Sender.State} {env : Sender.Env} {pdu : Bytes}
    (hinv : Sender.FreshInv s) (h : built s env = some pdu) :
    ∃ hdr, Sender.NoTick hdr ∧ decodeDataHeader pdu = some (s.sh.tick.stamp env.now hdr) := by
  unfold built at h
  split at h
  · rename_i b size hpc
    obtain ⟨buf, hbuf, rfl⟩ := Option.map_eq_some_iff.mp h
    have hrex := hinv.rex
    rw [hpc] at hrex
    obtain ⟨hdr, hdec, hno⟩ := hrex buf hbuf
    exact ⟨hdr, hno, Sender.attachTick_header _ _ hdec⟩
  · rename_i b item hpc
    cases h
    obtain ⟨hdr, hdec, hno⟩ := hinv.taken item (by rw [hpc]; rfl)
    exact ⟨hdr, hno, Sender.attachTick_header _ _ hdec⟩
  · cases h

theorem EchoInv.faithful_built (hinv : s.EchoInv) {env : Sender.Env} {pdu : Bytes}
    (h : built s.send env = some pdu) :
    Stamp.Faithful ⟨pdu, next s.arrivals s.send.feedback s.send.sh.tick, env.now, s.time⟩ := by
  obtain ⟨hdr, hno, hdec⟩ := header_of_built hinv.fresh h
  refine ⟨_, hdec, ?_⟩
  unfold next
  split
  · rename_i hpending
    obtain ⟨arr, older, hrec, htick, -⟩ := hinv.tick.pending hpending
    rw [hrec, htick]
    refine ⟨?_, fun h => by cases h⟩
    rintro _ ⟨⟩
    exact echoedIn_stamp arr env.now hdr
  · rename_i hpending
    refine ⟨fun arr h => (by cases h), fun _ => ?_⟩
    rw [Sender.TickState.stamp, if_pos (by simp [hpending])]
    exact hno

theorem filterMap_echoes_singleton (st : Stamp) : [st].filterMap Stamp.echoes = st.echoes.toList := by
  cases h : st.echoes <;> simp [h]

theorem echoInv_send {act : Sender.Action} {send : Sender.State} (hinv : s.EchoInv)
    (h : Sender.step prim scfg s.send act = some send) :
    EchoInv { s with
      send := send
      arrivals := s.arrivedBy send act ++ s.arrivals
      adopted := s.adoptedBy act ++ s.adopted
      stamps := s.stampedBy act ++ s.stamps } := by
  have hfresh := Sender.freshInv_step hinv.fresh h
  cases act with
  | feedback env =>
    obtain ⟨sh, pc, hstep, rfl⟩ := feedback_of_step h
    have hframe := Sender.feedbackStep_frame hstep
    refine ⟨hfresh, ?_, hinv.faithful, hinv.tick.feedback hstep⟩
    simp only [Sender.handed, hframe.wire]
    exact hinv.handed
  | pacer env =>
    obtain ⟨⟨sh, p, pc⟩, hstep, rfl⟩ := Option.map_eq_some_iff.mp h
    rcases pacerStep_built hstep with ⟨pdu, hbuilt, htick, hhanded⟩ | ⟨hbuilt, htick, hhanded⟩
    · have hstamps : s.stampedBy (.pacer env) =
          [⟨pdu, next s.arrivals s.send.feedback s.send.sh.tick, env.now, s.time⟩] := by
        simp only [stampedBy, hbuilt]
        rfl
      have hfaithful := hinv.faithful_built hbuilt
      refine ⟨hfresh, ?_, ?_, ?_⟩
      · obtain ⟨hdr, hdec, -⟩ := hfaithful
        have hdata : isData pdu = true := by rw [isData, hdec]; rfl
        simp only [hstamps, hhanded, List.filter_append, hinv.handed]
        simp [hdata]
      · rw [hstamps]
        exact List.forall_mem_cons.mpr ⟨hfaithful, hinv.faithful⟩
      · show TickInv s.arrivals s.send.feedback sh.tick
          ((s.stampedBy (.pacer env) ++ s.stamps).filterMap Stamp.echoes)
        rw [hstamps, htick, List.filterMap_append, filterMap_echoes_singleton]
        exact hinv.tick.stamp
    · have hstamps : s.stampedBy (.pacer env) = [] := by
        simp only [stampedBy, hbuilt]
        rfl
      rw [hstamps]
      exact ⟨hfresh, hhanded.trans hinv.handed, hinv.faithful, htick ▸ hinv.tick⟩
  | prefetch env =>
    cases Sender.step_move h with
    | prefetch hstep =>
      have hframe := Sender.prefetchStep_frame hstep
      refine ⟨hfresh, ?_, hinv.faithful, hframe.tick ▸ hinv.tick⟩
      simp only [Sender.handed, hframe.wire]
      exact hinv.handed
    | flags => exact ⟨hfresh, hinv.handed, hinv.faithful, hinv.tick⟩
  | join =>
    cases Sender.step_move h with
    | join hpc =>
      refine ⟨hfresh, ?_, hinv.faithful, hinv.tick⟩
      have hhanded := hinv.handed
      rw [hpc] at hhanded
      exact hhanded
    | flags => exact ⟨hfresh, hinv.handed, hinv.faithful, hinv.tick⟩
  | stop | control =>
    cases Sender.step_move h
    exact ⟨hfresh, hinv.handed, hinv.faithful, hinv.tick⟩

theorem echoInv_step {act : LoopAct n} (hinv : s.EchoInv) (h : Move prim scfg s act t) :
    t.EchoInv := by
  cases h with
  | recv | wait => exact ⟨hinv.fresh, hinv.handed, hinv.faithful, hinv.tick⟩
  | send h => exact echoInv_send hinv h

theorem echoInv_start (recv : Receiver.State rcfg n) : (start scfg recv).EchoInv := by
  refine ⟨Sender.freshInv_new, ?_, fun st h => (by cases h), ?_⟩
  · simp only [start, Sender.newSender]
    split <;> rfl
  · exact ⟨fun _ _ _ h => (by cases h), fun h => (by cases h), .refl _⟩

end Loop

/-! ## Two clocks -/

/-- The clock that a step of a thread may read. -/
def Receiver.Action.now {n : Nat} : Receiver.Action n → Option UInt64
  | .ingest _ env | .flusher env | .feedback env => some env.now
  | .main | .stop | .control _ => none

def Sender.Action.now : Sender.Action → Option UInt64
  | .prefetch env | .pacer env | .feedback env => some env.now
  | .join | .stop | .control _ => none

/-- The receiver's clock is ahead of the time by `a`, the sender's by `b`. -/
def LoopAct.OnClocks {n : Nat} (a b : ℤ) (time : Nat) : LoopAct n → Prop
  | .recv act => ∀ now ∈ act.now, (now.toNat : ℤ) = time + a
  | .send act => ∀ now ∈ act.now, (now.toNat : ℤ) = time + b
  | .wait _ => True

namespace Loop

/-- A datagram that reaches the receiver has been sent. -/
def FromSender (s : Loop rcfg n) : LoopAct n → Prop
  | .recv act => Receiver.Delivers (fun m => m.data ∈ s.send.sh.wire) s.recv act
  | .send _ | .wait _ => True

/-- Both ends go by their clocks, and the network invents nothing. -/
def Timed (scfg : SendConfig) (a b : ℤ) (s : Loop rcfg n) (act : LoopAct n) : Prop :=
  act.OnClocks a b s.time ∧ FromReceiver scfg s act ∧ s.FromSender act

instance {a b : ℤ} {time : Nat} : (act : LoopAct n) → Decidable (act.OnClocks a b time)
  -- by the one reading: `UInt64` is finite too, and its own instance would try all of it
  | .recv act => Option.decidableForallMem act.now
  | .send act => Option.decidableForallMem act.now
  | .wait _ => .isTrue trivial

instance (s : Loop rcfg n) : (act : LoopAct n) → Decidable (s.FromSender act)
  | .recv act =>
    inferInstanceAs (Decidable (Receiver.Delivers (fun m => m.data ∈ s.send.sh.wire) s.recv act))
  | .send _ | .wait _ => .isTrue trivial

instance (scfg : SendConfig) (a b : ℤ) (s : Loop rcfg n) (act : LoopAct n) :
    Decidable (Timed scfg a b s act) :=
  inferInstanceAs (Decidable (_ ∧ _ ∧ _))

variable {a b : ℤ}

/-- What the clocks showed when something was sent, arrived and was stamped. -/
structure TimesInv (a b : ℤ) (s : Loop rcfg n) : Prop where
  sent : ∀ rep ∈ s.sent, (rep.header.tick.toNat : ℤ) = rep.time + a ∧ rep.time ≤ s.time
  arrivals : ∀ arr ∈ s.arrivals, (arr.t2.toNat : ℤ) = arr.time + b ∧ arr.time ≤ s.time ∧
    ∃ rep ∈ s.sent, rep.Reads arr.header ∧ rep.time ≤ arr.time
  stamps : ∀ st ∈ s.stamps, (st.now.toNat : ℤ) = st.time + b ∧ st.time ≤ s.time ∧
    ∀ arr ∈ st.echoes, arr ∈ s.arrivals ∧ arr.time ≤ st.time

theorem timesInv_wait (hinv : s.TimesInv a b) (us : Nat) :
    TimesInv a b { s with time := s.time + us } := by
  refine ⟨fun rep hrep => ?_, fun arr harr => ?_, fun st hst => ?_⟩
  · obtain ⟨htick, hle⟩ := hinv.sent rep hrep
    exact ⟨htick, hle.trans (Nat.le_add_right _ _)⟩
  · obtain ⟨ht2, hle, hsent⟩ := hinv.arrivals arr harr
    exact ⟨ht2, hle.trans (Nat.le_add_right _ _), hsent⟩
  · obtain ⟨hnow, hle, hechoes⟩ := hinv.stamps st hst
    exact ⟨hnow, hle.trans (Nat.le_add_right _ _), hechoes⟩

theorem timesInv_recv {act : Receiver.Action n} {recv : Receiver.State rcfg n}
    {round : Option TransferControl} (hinv : s.TimesInv a b)
    (hclock : (LoopAct.recv act).OnClocks a b s.time) :
    TimesInv a b { s with recv := recv, round := round, sent := s.sentBy act ++ s.sent } := by
  refine ⟨fun rep hrep => ?_, fun arr harr => ?_, hinv.stamps⟩
  · rcases List.mem_append.mp hrep with hnew | hold
    · obtain ⟨env, l, p, due, isNet, rfl, -, rfl⟩ := mem_sentBy hnew
      exact ⟨hclock env.now rfl, le_rfl⟩
    · exact hinv.sent rep hold
  · obtain ⟨ht2, hle, rep, hrep, hreads⟩ := hinv.arrivals arr harr
    exact ⟨ht2, hle, rep, List.mem_append_right _ hrep, hreads⟩

theorem mem_arrivals_of_next {arrivals : List Arrival} {pc : Sender.FeedbackPc}
    {tick : Sender.TickState} {arr : Arrival} (h : arr ∈ next arrivals pc tick) : arr ∈ arrivals := by
  unfold next at h
  split at h
  · have hmem : arr ∈ recorded arrivals pc := List.mem_of_mem_head? h
    cases pc with
    | setTick => exact List.mem_of_mem_tail hmem
    | _ => exact hmem
  · cases h

theorem mem_arrivedBy {act : Sender.Action} {send : Sender.State} {arr : Arrival}
    (hfrom : FromReceiver scfg s (.send act)) (h : Sender.step prim scfg s.send act = some send)
    (harr : arr ∈ s.arrivedBy send act) :
    ∃ env rep, act = .feedback env ∧ rep ∈ s.sent ∧ rep.Reads arr.header ∧
      arr.t2 = env.now ∧ arr.time = s.time := by
  cases act with
  | feedback env =>
    obtain ⟨sh, pc, hstep, rfl⟩ := feedback_of_step h
    have hmove := Sender.feedbackStep_move hstep
    simp only [arrivedBy] at harr
    generalize s.send.feedback = pc₀ at hmove harr
    unfold arrived at harr
    split at harr
    · cases List.mem_singleton.mp harr
      cases hmove with
      | quiet _ hpc => cases hpc
      | arrive hmsg =>
        obtain ⟨rep, hrep, hbytes⟩ := hfrom (Option.isSome_iff_exists.mpr ⟨_, hmsg⟩)
        exact ⟨env, rep, rfl, hrep, reads_of_feedback hbytes hmsg, rfl, rfl⟩
    · cases harr
  | _ => cases harr

theorem timesInv_send {act : Sender.Action} {send : Sender.State} (hinv : s.TimesInv a b)
    (hclock : (LoopAct.send (n := n) act).OnClocks a b s.time)
    (hfrom : FromReceiver scfg s (.send act)) (h : Sender.step prim scfg s.send act = some send) :
    TimesInv a b { s with
      send := send
      arrivals := s.arrivedBy send act ++ s.arrivals
      adopted := s.adoptedBy act ++ s.adopted
      stamps := s.stampedBy act ++ s.stamps } := by
  refine ⟨hinv.sent, fun arr harr => ?_, fun st hst => ?_⟩
  · rcases List.mem_append.mp harr with hnew | hold
    · obtain ⟨env, rep, rfl, hrep, hreads, ht2, htime⟩ := mem_arrivedBy hfrom h hnew
      rw [ht2, htime]
      exact ⟨hclock env.now rfl, le_rfl, rep, hrep, hreads, (hinv.sent rep hrep).2⟩
    · exact hinv.arrivals arr hold
  · rcases List.mem_append.mp hst with hnew | hold
    · cases act with
      | pacer env =>
        obtain ⟨pdu, hpdu, rfl⟩ := List.mem_map.mp hnew
        refine ⟨hclock env.now rfl, le_rfl, fun arr harr => ?_⟩
        have hmem := mem_arrivals_of_next harr
        exact ⟨List.mem_append_right _ hmem, (hinv.arrivals arr hmem).2.1⟩
      | _ => cases hnew
    · obtain ⟨hnow, hle, hechoes⟩ := hinv.stamps st hold
      exact ⟨hnow, hle, fun arr harr =>
        ⟨List.mem_append_right _ (hechoes arr harr).1, (hechoes arr harr).2⟩⟩

end Loop

/-! ## The sample -/

namespace Receiver

variable {cfg : RecvConfig}

/-- Hand a sample to the estimator of its type, if it is between zero and a minute. -/
def Shared.takeSample {total : Nat} (sh : Shared total) (isNet : Bool) (sample : ℚ) : Shared total :=
  if ¬ (0 ≤ sample ∧ sample ≤ 60000000) then sh
  else if isNet then
    let net := (sh.rtt.net.sample sample).1
    { sh with
      rtt := { sh.rtt with net := net }
      stats := { sh.stats with srttNetUs := asU64 net.srtt, baseRttUs := asU64 net.minRtt } }
  else
    let (path, rto) := sh.rtt.path.sample sample
    { sh with
      rtt := { sh.rtt with path := path }
      stats := { sh.stats with srttPathUs := asU64 path.srtt, rtoUs := asU64 rto } }

theorem applyTick_eq {total : Nat} (sh : Shared total) (h : DataHeader) (now : UInt64) :
    sh.applyTick h now =
      sh.takeSample (h.flags &&& flagTickN != 0) ((now.toNat : ℚ) - h.echoTick.toNat) := rfl

/-- Only a PDU with a tick gets to `apply_tick`. -/
def IngestPc.Ticked {total : Nat} : IngestPc total → Prop
  | .data .tick pkt _ => pkt.header.flags &&& flagHasTick ≠ 0
  | _ => True

theorem ticked_dataStep (sh : Shared cfg.totalBlocks) (pkt : DataPkt cfg.totalBlocks)
    (rest : List Datagram) (env : Env) (pc : DataPc) :
    (dataStep cfg sh pkt rest env pc).2.Ticked := by
  cases pc <;> simp only [dataStep]
  case learn =>
    split_ifs with hpeer htick
    · trivial
    · exact bne_iff_ne.mp htick
    · trivial
  case setBm => split_ifs <;> trivial
  case tryPool => split <;> trivial
  case direct => split <;> trivial
  all_goals trivial

theorem ticked_ingestStep {sh sh' : Shared cfg.totalBlocks} {env : Env}
    {pc pc' : IngestPc cfg.totalBlocks} (h : ingestStep prim cfg sh env pc = some (sh', pc')) :
    pc'.Ticked := by
  cases ingestStep_move h with
  | data => exact ticked_dataStep ..
  | quiet _ _ hidle =>
    cases pc' with
    | data dpc pkt rest =>
      cases dpc with
      | tick => exact hidle.elim
      | _ => trivial
    | _ => trivial

end Receiver

namespace Loop

/-- A PDU with this header has been stamped. -/
def HasStamp (stamps : List Stamp) (h : DataHeader) : Prop :=
  ∃ st ∈ stamps, decodeDataHeader st.pdu = some h

/-- What the ingest workers hold comes from the sender. -/
structure PacketsInv (s : Loop rcfg n) : Prop where
  messages : ∀ i, ∀ m ∈ (s.recv.workers i).pending, ∀ h ∈ decodeDataHeader m.data,
    HasStamp s.stamps h
  packets : ∀ i, ∀ pkt ∈ (s.recv.workers i).pkt, HasStamp s.stamps pkt.header
  ticked : ∀ i, (s.recv.workers i).Ticked

theorem EchoInv.hasStamp (hinv : s.EchoInv) {d : Bytes} {h : DataHeader}
    (hd : d ∈ s.send.sh.wire) (hdec : decodeDataHeader d = some h) : HasStamp s.stamps h := by
  have hhanded : d ∈ Sender.handed s.send.sh s.send.pacerPc :=
    List.mem_append_left _ (List.mem_reverse.mpr hd)
  have hmem : d ∈ (s.stamps.map Stamp.pdu).reverse := by
    rw [← hinv.handed, List.mem_filter]
    exact ⟨hhanded, by rw [isData, hdec]; rfl⟩
  obtain ⟨st, hst, rfl⟩ := List.mem_map.mp (List.mem_reverse.mp hmem)
  exact ⟨st, hst, hdec⟩

theorem packetsInv_recv {act : Receiver.Action n} {recv : Receiver.State rcfg n}
    {round : Option TransferControl} {sent : List Report} (hecho : s.EchoInv) (hinv : s.PacketsInv)
    (hfrom : s.FromSender (.recv act)) (h : Receiver.step prim s.recv act = some recv) :
    PacketsInv { s with recv := recv, round := round, sent := sent } := by
  obtain ⟨hmessages, hpackets⟩ := Receiver.carries_workers
    (P := fun m => ∀ h ∈ decodeDataHeader m.data, HasStamp s.stamps h)
    (Q := fun pkt => HasStamp s.stamps pkt.header)
    (fun m pkt hm hclass => hm _ (RecvConfig.classify_data hclass).1) hinv.messages hinv.packets
    (fun m hm hdr hdec => hecho.hasStamp (hfrom m hm) (Receiver.decodeDataHeader_cut m ▸ hdec)) h
  refine ⟨hmessages, hpackets, ?_⟩
  cases Receiver.step_move h with
  | ingest hi =>
    exact (Function.forall_update_iff s.recv.workers fun _ pc => pc.Ticked).mpr
      ⟨Receiver.ticked_ingestStep hi, fun j _ => hinv.ticked j⟩
  | flusher | feedback | quiet => exact hinv.ticked

theorem PacketsInv.mono (hinv : s.PacketsInv) (hrecv : t.recv = s.recv)
    (hsub : ∀ st ∈ s.stamps, st ∈ t.stamps) : t.PacketsInv := by
  have hmono : ∀ h, HasStamp s.stamps h → HasStamp t.stamps h := by
    rintro h ⟨st, hst, hdec⟩
    exact ⟨st, hsub st hst, hdec⟩
  refine ⟨?_, ?_, ?_⟩
  · rw [hrecv]
    exact fun i m hm h hdec => hmono h (hinv.messages i m hm h hdec)
  · rw [hrecv]
    exact fun i pkt hpkt => hmono _ (hinv.packets i pkt hpkt)
  · rw [hrecv]
    exact hinv.ticked

structure ClockInv (a b : ℤ) (s : Loop rcfg n) : Prop where
  echo : s.EchoInv
  times : s.TimesInv a b
  packets : s.PacketsInv

theorem clockInv_step {act : LoopAct n} (hinv : s.ClockInv a b) (hC : Timed scfg a b s act)
    (h : Move prim scfg s act t) : t.ClockInv a b := by
  obtain ⟨hclock, hreceiver, hsender⟩ := hC
  refine ⟨echoInv_step hinv.echo h, ?_, ?_⟩
  · cases h with
    | recv => exact timesInv_recv hinv.times hclock
    | send h => exact timesInv_send hinv.times hclock hreceiver h
    | wait => exact timesInv_wait hinv.times _
  · cases h with
    | recv h => exact packetsInv_recv hinv.echo hinv.packets hsender h
    | send => exact hinv.packets.mono rfl fun st hst => List.mem_append_right _ hst
    | wait => exact hinv.packets.mono rfl fun st hst => hst

theorem clockInv_start {recv : Receiver.State rcfg n} {sink : Sink}
    (hnew : Receiver.newReceiver rcfg n sink = some recv) : (start scfg recv).ClockInv a b := by
  obtain ⟨rate, -, rfl⟩ := Option.map_eq_some_iff.mp hnew
  exact ⟨echoInv_start _, ⟨fun _ h => (by cases h), fun _ h => (by cases h), fun _ h => by cases h⟩,
    ⟨fun _ _ h => (by cases h), fun _ _ h => (by cases h), fun _ => trivial⟩⟩

/-- **The offsets cancel.** Each clock is read at both ends of an interval, and nothing wraps. -/
theorem sample_eq {now : UInt64} {time : Nat} {rep : Report} {arr : Arrival} {st : Stamp}
    (hnow : (now.toNat : ℤ) = time + a) (htick : (arr.header.tick.toNat : ℤ) = rep.time + a)
    (ht2 : (arr.t2.toNat : ℤ) = arr.time + b) (hstamp : (st.now.toNat : ℤ) = st.time + b)
    (harr : rep.time ≤ arr.time) (hst : arr.time ≤ st.time) (htime : st.time ≤ time) :
    (now.toNat : ℚ) - (arr.echoAt st.now).toNat =
      ((arr.time : ℚ) - rep.time) + ((time : ℚ) - st.time) +
        if arr.header.tickIsNetwork then 0 else (st.time : ℚ) - arr.time := by
  have hlt := now.toNat_lt
  unfold Arrival.echoAt
  split
  · have hle : arr.t2 ≤ st.now := by
      rw [UInt64.le_iff_toNat_le]
      omega
    have hecho : ((arr.header.tick + (st.now - arr.t2)).toNat : ℤ) =
        rep.time + a + (st.time - arr.time) := by
      rw [UInt64.toNat_add, UInt64.toNat_sub_of_le _ _ hle, Nat.mod_eq_of_lt (by omega)]
      omega
    have hint : (now.toNat : ℤ) - (arr.header.tick + (st.now - arr.t2)).toNat =
        (arr.time - rep.time) + (time - st.time) := by omega
    rw [add_zero]
    exact_mod_cast hint
  · have hint : (now.toNat : ℤ) - arr.header.tick.toNat =
        (arr.time - rep.time) + (time - st.time) + (st.time - arr.time) := by omega
    exact_mod_cast hint

/-- **Ticks measure the round trip**, for every interleaving of the threads of both ends.

The DATA PDUs handed over are the stamped ones, in order. Each echoes the FEEDBACK that its stamp
names, with the tick, the type and the arrival time of that FEEDBACK, or nothing at all, whatever the
buffer held before; and every FEEDBACK that arrived is echoed by at most one of them.

If the two clocks are ahead of the time by any fixed `a` and `b`, then the sample that `apply_tick`
takes from a PDU is the delay of a FEEDBACK from the moment it was sent, and the delay of the PDU from
the moment it was stamped; for a path tick, the time in between as well. -/
theorem ticks_measure_rtt {C : Loop rcfg n → LoopAct n → Prop} {recv : Receiver.State rcfg n}
    {sink : Sink} {as : List (LoopAct n)} (hnew : Receiver.newReceiver rcfg n sink = some recv)
    (h : Steps (step prim scfg) C (start scfg recv) as t) :
    (Sender.handed t.send.sh t.send.pacerPc).filter isData = (t.stamps.map Stamp.pdu).reverse ∧
    (∀ st ∈ t.stamps, st.Faithful) ∧ t.echoed.Sublist t.arrivals ∧
    ∀ a b, (∀ s act, C s act → Timed scfg a b s act) → ∀ i pkt rest now,
      t.recv.workers i = .data .tick pkt rest → (now.toNat : ℤ) = t.time + a →
        ∃ st ∈ t.stamps, ∃ arr ∈ st.echoes, ∃ rep ∈ t.sent,
          decodeDataHeader st.pdu = some pkt.header ∧ arr ∈ t.arrivals ∧ rep.Reads arr.header ∧
          t.recv.sh.applyTick pkt.header now =
            t.recv.sh.takeSample arr.header.tickIsNetwork
              (((arr.time : ℚ) - rep.time) + ((t.time : ℚ) - st.time) +
                if arr.header.tickIsNetwork then 0 else (st.time : ℚ) - arr.time) := by
  have hecho : t.EchoInv :=
    h.invariant (fun s act t hinv _ hstep => echoInv_step hinv (step_move hstep)) (echoInv_start recv)
  have hsub : t.echoed.Sublist t.arrivals := by
    refine hecho.tick.echoed.trans ?_
    cases t.send.feedback with
    | setTick => exact List.tail_sublist _
    | _ => exact .refl _
  refine ⟨hecho.handed, hecho.faithful, hsub, ?_⟩
  intro a b hC i pkt rest now hpc hnow
  have hinv : t.ClockInv a b := h.invariant
    (fun s act t hinv hc hstep => clockInv_step hinv (hC s act hc) (step_move hstep))
    (clockInv_start hnew)
  obtain ⟨st, hst, hdec⟩ := hinv.packets.packets i pkt (by rw [hpc]; rfl)
  obtain ⟨hdr, hdec', hechoes, hnone⟩ := hecho.faithful st hst
  obtain rfl : hdr = pkt.header := Option.some.inj (hdec'.symm.trans hdec)
  have hflag : pkt.header.flags &&& flagHasTick ≠ 0 := by
    have hticked := hinv.packets.ticked i
    rw [hpc] at hticked
    exact hticked
  cases harr : st.echoes with
  | none => exact absurd (hnone harr).1 hflag
  | some arr =>
    obtain ⟨-, hnet, hecho⟩ := hechoes arr harr
    obtain ⟨hstamp, hle, hmem⟩ := hinv.times.stamps st hst
    obtain ⟨hmem, hle'⟩ := hmem arr harr
    obtain ⟨ht2, -, rep, hrep, hreads, hle''⟩ := hinv.times.arrivals arr hmem
    refine ⟨st, hst, arr, harr, rep, hrep, hdec, hmem, hreads, ?_⟩
    have htick : (arr.header.tick.toNat : ℤ) = rep.time + a := by
      rw [hreads]
      exact (hinv.times.sent rep hrep).1
    rw [Receiver.applyTick_eq, hnet, hecho, sample_eq hnow htick ht2 hstamp hle'' hle' hle]

/-! ### Two blocks, the second with an echo -/

theorem two_lt_i64 : (2 : Int) < 2 ^ 63 := by decide

theorem neg_i64_le_two : (-2 ^ 63 : Int) ≤ 2 := by decide

def twoBytesSend : SendConfig :=
  { Sender.sealedByte with
    source := memSource [7, 7]
    fileSize := 2
    totalBlocks := 2
    crypto := none
    fileSize_lt := two_lt_i64
    neg_le_fileSize := neg_i64_le_two }

def twoBytesRecv : RecvConfig :=
  { Receiver.oneBlock with
    fileSize := 2
    blockSize := 1
    totalBlocks := 2
    blockSize_pos := one_pos
    fileSize_lt := two_lt_i64
    total_eq := by decide }

def twoBytesReport : FeedbackHeader :=
  { tickIsNetwork := true, session := 9, tick := 20100, targetRate := 100000000 }

/-- A DATA PDU reaches a worker. -/
def deliverAt (i : Fin 2) (now : UInt64) (h : DataHeader) : LoopAct 2 :=
  .recv (.ingest i { recv := .batch [Receiver.fromPeer (h.bytes ++ [7])], now := now })

/-- The receiver's clock is 20 ms ahead, the sender's 50 ms. The PDU of block 0 takes 100 µs. The
FEEDBACK that follows takes 30 µs and waits 200 µs for the PDU of block 1, which takes 70 µs. -/
def twoBytesActs : List (LoopAct 2) := List.flatten
  [List.replicate 4 (.send (.prefetch { now := 50000 })),
    List.replicate 14 (.send (.pacer { now := 50000 })),
    [.wait 100, .recv (.ingest 0 { now := 20100 }),
      deliverAt 0 20100 { Receiver.oneBlockHeader with flags := 0 }],
    List.replicate 2 (.recv (.ingest 0 { now := 20100 })),
    List.replicate 12 (.recv (.feedback { now := 20100 })),
    [.wait 30, .send (.feedback { now := 50130 }),
      .send (.feedback
        { recv := .datagram (twoBytesReport.bytes 0) ⟨.v4 0x7f000001, 5001⟩, now := 50130 }),
      .send (.feedback { now := 50130 }), .wait 200],
    List.replicate 4 (.send (.prefetch { now := 50330 })),
    List.replicate 12 (.send (.pacer { now := 50330 })),
    [.wait 70, .recv (.ingest 1 { now := 20400 }),
      deliverAt 1 20400 { Receiver.oneBlockHeader with
        flags := flagLastBlock ||| flagHasTick ||| flagTickN
        blockSeq := 1
        echoTick := 20300 }],
    List.replicate 2 (.recv (.ingest 1 { now := 20400 }))]

/-- The packet whose tick a worker is about to apply. -/
def tickPkt {total : Nat} : Receiver.IngestPc total → Option (DataPkt total × List Receiver.Datagram)
  | .data .tick pkt rest => some (pkt, rest)
  | _ => none

theorem eq_tick_of_tickPkt {total : Nat} {pc : Receiver.IngestPc total}
    {x : DataPkt total × List Receiver.Datagram} (h : tickPkt pc = some x) :
    pc = .data .tick x.1 x.2 := by
  unfold tickPkt at h
  split at h <;> cases h
  rfl

/-- The sample is the 100 µs of the FEEDBACK and the DATA PDU. -/
theorem ticks_measure_rtt_twoBytes : ∃ recv t pkt rest,
    Receiver.newReceiver twoBytesRecv 2 ⟨.mem, []⟩ = some recv ∧
    Steps (step Receiver.oneBlockPrims twoBytesSend) (Timed twoBytesSend 20000 50000)
      (start twoBytesSend recv) twoBytesActs t ∧
    t.recv.workers 1 = .data .tick pkt rest ∧
    t.recv.sh.applyTick pkt.header 20400 = t.recv.sh.takeSample true 100 := by
  obtain ⟨recv, t, hnew, hrun, ht⟩ := exists_steps_of_exec_check
    (Receiver.newReceiver twoBytesRecv 2 ⟨.mem, []⟩) (start twoBytesSend)
    (step Receiver.oneBlockPrims twoBytesSend) twoBytesActs (Timed twoBytesSend 20000 50000)
    (fun t => (tickPkt (t.recv.workers 1)).isSome && t.time == 400 && t.sent.all (·.time == 100) &&
      t.arrivals.all (fun arr => arr.time == 130 && arr.header.tickIsNetwork) &&
      t.stamps.all (fun st => st.echoes.isNone || st.time == 330)) (by decide +kernel)
  simp only [Bool.and_eq_true, beq_iff_eq, List.all_eq_true, Bool.or_eq_true] at ht
  obtain ⟨⟨⟨⟨hpkt, htime⟩, hsent⟩, harrivals⟩, hstamps⟩ := ht
  obtain ⟨⟨pkt, rest⟩, hpkt⟩ := Option.isSome_iff_exists.mp hpkt
  have hpc := eq_tick_of_tickPkt hpkt
  obtain ⟨-, -, -, hsample⟩ := ticks_measure_rtt hnew hrun
  obtain ⟨st, hst, arr, harr, rep, hrep, -, hmem, -, happly⟩ :=
    hsample 20000 50000 (fun _ _ h => h) 1 pkt rest 20400 hpc (by rw [htime]; decide)
  refine ⟨recv, t, pkt, rest, hnew, hrun, hpc, happly.trans ?_⟩
  obtain ⟨harrTime, hnet⟩ := harrivals arr hmem
  have hstTime : st.time = 330 := by
    refine (hstamps st hst).resolve_left fun hnone => ?_
    rw [harr] at hnone
    cases hnone
  rw [hnet, if_pos rfl, harrTime, hstTime, htime, hsent rep hrep]
  norm_num

end Loop

end Girth
