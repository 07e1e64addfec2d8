import Girth.Loop.Lossy
import Girth.Receiver.Drive

/-!
# When a transfer can still be completed

The network may lose anything, and for any time. `recoverable_iff` says when the two ends get over that:
from every state that they can be in, if nothing but loss has gone wrong, both can still return `Ok` with
the data in the sink, even if everything that is in flight is lost as well. There is one exception: the
receiver has sent its last DONE, and the sender has not heard of any. Then no continuation ends well.

The proof goes through the protocol as it was meant. The sender sends FIN until the receiver has it; each
report then asks for blocks that are missing, the sender queues them, sends them again and the receiver
takes them in, so there are fewer of them after each exchange; when there are none the flusher comes to
the end, DONE gets across, and both ends leave. What each end does in between is in `Sender.Drive` and
`Receiver.Drive`; here the datagrams go from one to the other.
-/

namespace Girth.Loop

open Lib

variable {prim : Primitives} {rcfg : RecvConfig} {scfg : SendConfig} {n : Nat} {a : SocketAddr}
  {sink : Sink} {s₀ s t : Loop rcfg n} {as : List (LoopAct n)}

/-! ## One end moves -/

theorem send_next {act : Sender.Action} {send : Sender.State}
    (h : Sender.step prim scfg s.send act = some send) :
    step prim scfg s (.send act) = some { s with
      send := send
      arrivals := s.arrivedBy send act ++ s.arrivals
      adopted := s.adoptedBy act ++ s.adopted
      stamps := s.stampedBy act ++ s.stamps } := by
  rw [step, h]
  rfl

theorem recv_next {act : Receiver.Action n} {recv : Receiver.State rcfg n}
    (h : Receiver.step prim s.recv act = some recv) :
    step prim scfg s (.recv act) =
      some { s with recv := recv, round := s.roundAfter act, sent := s.sentBy act ++ s.sent } := by
  rw [step, h]
  rfl

theorem lift_send {C : Sender.State → Sender.Action → Prop} {P : Sender.State → Prop}
    (hC : ∀ u act, C u act → Sender.Calm u act) (h : Reach (Sender.step prim scfg) C s.send P) :
    Reach (step prim scfg) (GoesOn scfg a s₀) s fun t => P t.send ∧ t.recv = s.recv ∧ t.sent = s.sent := by
  refine (h.lift (R := fun send (x : Loop rcfg n) => x.send = send ∧ x.recv = s.recv ∧ x.sent = s.sent)
    (fun u act v x hx hact hstep => ?_) ⟨rfl, rfl, rfl⟩).imp fun _ t _ ⟨u, hu, hP⟩ => ⟨hu.1 ▸ hP, hu.2⟩
  obtain ⟨rfl, hrecv, hsent⟩ := hx
  refine ⟨.send act, _, ⟨⟨⟨?_, trivial, trivial⟩, ?_⟩, ?_⟩, send_next hstep, rfl, hrecv, hsent⟩
  all_goals
    have hcalm := hC x.send act hact
    simp only [Sender.Calm, List.mem_cons, List.not_mem_nil, or_false] at hcalm
    rcases hcalm with rfl | rfl | rfl | rfl
  all_goals first | rfl | trivial | exact fun hmsg => (by cases hmsg)

theorem lift_recv {C : Receiver.State rcfg n → Receiver.Action n → Prop} {P : Receiver.State rcfg n → Prop}
    (hC : ∀ u act, C u act → Receiver.Unharmed a u act ∧
      ∀ m ∈ act.delivered, m.data ∈ s.send.sh.wire.reverse.drop s₀.send.sh.wire.length)
    (h : Reach (Receiver.step prim) C s.recv P) :
    Reach (step prim scfg) (GoesOn scfg a s₀) s fun t => P t.recv ∧ t.send = s.send := by
  refine (h.lift (R := fun recv (x : Loop rcfg n) => x.recv = recv ∧ x.send = s.send)
    (fun u act v x hx hact hstep => ?_) ⟨rfl, rfl⟩).imp fun _ t _ ⟨u, hu, hP⟩ => ⟨hu.1 ▸ hP, hu.2⟩
  obtain ⟨rfl, hsend⟩ := hx
  obtain ⟨hharm, hnew⟩ := hC x.recv act hact
  refine ⟨.recv act, _, ⟨⟨⟨trivial, fun m hm => ?_, hharm.1⟩, hharm⟩, fun m hm => ?_⟩,
    recv_next hstep, rfl, hsend⟩
  · rw [hsend]
    exact List.mem_reverse.mp ((List.drop_subset _ _) (hnew m hm))
  · rw [hsend]
    exact hnew m hm

theorem lift_calm {C : Receiver.State rcfg n → Receiver.Action n → Prop} {P : Receiver.State rcfg n → Prop}
    (hC : ∀ u act, C u act → Receiver.Calm u act) (h : Reach (Receiver.step prim) C s.recv P) :
    Reach (step prim scfg) (GoesOn scfg a s₀) s fun t => P t.recv ∧ t.send = s.send := by
  refine lift_recv (fun u act hact => ⟨(hC u act hact).unharmed, fun m hm => ?_⟩) h
  rw [(hC u act hact).delivered] at hm
  cases hm

/-! ## What the datagrams are -/

theorem classify_finPdu {data : Bytes} (htr : Transfer scfg rcfg data) (addr : Option SocketAddr) :
    rcfg.classify prim (Sender.finPdu scfg) addr = .fin := by
  have htype : pduType (finBytes scfg.session scfg.totalBlocks) = pduFin := rfl
  have hdecode := decodeFin_bytes scfg.session scfg.totalBlocks []
  rw [List.append_nil] at hdecode
  rw [Sender.finPdu_eq, RecvConfig.classify, if_pos htype, hdecode]
  simp [htr.session, htr.total]

theorem classify_ofBlock {data d : Bytes} {seq : UInt64} (ha : prim.aead.Inverts)
    (htr : Transfer scfg rcfg data) (hip : ∀ ip ∈ rcfg.expectedPeerIp, a.ip = ip)
    (hseq : seq.toNat < rcfg.totalBlocks) (hd : Sender.OfBlock prim scfg seq d) :
    ∃ pkt : DataPkt rcfg.totalBlocks, rcfg.classify prim d (some a) = .data pkt ∧ pkt.seq = seq.toNat := by
  obtain ⟨payload, -, hle, hdr, hsession, rfl, hplen, hcrc, rfl⟩ := hd
  have hforeign : rcfg.foreign (some a) = false := by
    unfold RecvConfig.foreign
    cases hcfg : rcfg.expectedPeerIp with
    | none => rfl
    | some ip => simp [hip ip hcfg]
  have hbound := htr.blockSize_le
  rw [htr.blockSize] at hle
  have hplen' : hdr.payloadLen.toNat = payload.length := by
    rw [hplen, UInt16.toNat_ofNat', Nat.mod_eq_of_lt (show payload.length < 2 ^ 16 by omega)]
  rw [htr.session] at hsession
  have hcrypto := htr.crypto
  rw [Sender.body]
  cases hbox : scfg.crypto with
  | none =>
    rw [hbox] at hcrypto
    have hclass := RecvConfig.classify_cleartext hcrypto.symm hsession hseq hplen' hle (hcrc hbox) hforeign []
    rw [List.append_nil] at hclass
    exact ⟨_, hclass, rfl⟩
  | some box =>
    rw [hbox] at hcrypto
    have hclass := RecvConfig.classify_sealed ha hcrypto.symm hsession hseq hplen' hle hforeign []
    rw [List.append_nil] at hclass
    exact ⟨_, hclass, rfl⟩

theorem feedbackOf_bytes {rep : Report} (hsession : rep.header.session = scfg.session)
    (hlen : rep.nacks.length ≤ 125) : Sender.feedbackOf scfg rep.bytes =
      some ({ rep.header with nackCount := UInt16.ofNat rep.nacks.length }, rep.nacks) := by
  have hbytes : rep.bytes.length ≤ 2048 := by
    rw [Report.bytes, List.length_append, FeedbackHeader.bytes_length, nackBytes_length, feedbackHeaderSize,
      nackEntrySize]
    omega
  have hdecode := decodeFeedback_bytes rep.header (show rep.nacks.length ≤ 65535 by omega) []
  rw [List.append_nil] at hdecode
  have htype : pduType rep.bytes = pduFeedback := rfl
  unfold Sender.feedbackOf
  dsimp only
  rw [List.take_of_length_le hbytes, if_neg (not_not.mpr htype), Report.bytes, hdecode]
  simp [hsession]

/-! ## The exchanges -/

/-- The two ends can do their work: the source can be read, a report fits the sender's buffer, and the
receiver accepts datagrams from `a`. -/
structure Capable (scfg : SendConfig) (rcfg : RecvConfig) (a : SocketAddr) : Prop where
  sender : Sender.Consistent scfg
  control : shouldStop false scfg.control = false
  blocks : ∀ seq < scfg.totalBlocks, (Sender.blockOf scfg seq).isSome = true
  receiver : Receiver.Ready rcfg
  nacks : rcfg.maxNacksPerPdu ≤ 125
  ip : ∀ ip ∈ rcfg.expectedPeerIp, a.ip = ip

/-- On the way from `s₀`, with the receiver's address known to the sender. -/
structure OnTheWay (prim : Primitives) (scfg : SendConfig) (a : SocketAddr) (sink : Sink)
    (s₀ s : Loop rcfg n) : Prop where
  reached : Reached prim scfg a sink s
  later : Later s₀ s
  known : s.send.sh.peer.isSome = true

theorem OnTheWay.run (h : OnTheWay prim scfg a sink s₀ s)
    (hrun : Steps (step prim scfg) (GoesOn scfg a s₀) s as t) : OnTheWay prim scfg a sink s₀ t := by
  have hlater := later_run hrun
  refine ⟨h.reached.run hrun, ⟨h.later.wire.trans hlater.wire, h.later.sent.trans hlater.sent⟩, ?_⟩
  refine hrun.invariant (I := fun t => t.send.sh.peer.isSome = true) (fun u act v hu _ hstep => ?_) h.known
  cases step_move hstep with
  | send hsend => exact Sender.step_known hu hsend
  | recv | wait => exact hu

theorem OnTheWay.new_wire (h : OnTheWay prim scfg a sink s₀ s) {d : Bytes} {wire : List Bytes}
    (hd : d ∈ wire.reverse.drop s.send.sh.wire.length) : d ∈ wire.reverse.drop s₀.send.sh.wire.length :=
  (List.drop_subset_drop_left _ h.later.wire.length_le) hd

theorem OnTheWay.announced (hcap : Capable scfg rcfg a) (h : OnTheWay prim scfg a sink s₀ s)
    (hend : s.send.sh.done = true ∨ s.send.feedback.heeds = true) : s.Announced := by
  have hinv := h.reached.doneInv
  rcases hend with hdone | hheeds
  · rcases hinv.flag hdone with hended | hann
    · obtain ⟨res, hres⟩ : ∃ res, s.send.pacerPc.result = some res := by
        cases hpc : s.send.pacerPc <;> rw [hpc] at hended <;> first | exact ⟨_, rfl⟩ | cases hended
      obtain ⟨rfl, -⟩ := (h.reached.attentive hcap.control).result h.known res hres
      exact hinv.ok hres
    · exact hann
  · rcases Sender.heeds_iff.mp hheeds with hpc | ⟨fh, hfh, hset⟩
    · exact hinv.storing hpc
    · exact announced_of_reads (hinv.working fh hfh) hset

theorem OnTheWay.unheard (hcap : Capable scfg rcfg a) (h : OnTheWay prim scfg a sink s₀ s) {seq : Nat}
    (hmiss : Receiver.Missing s.recv seq) : s.send.sh.done = false ∧ s.send.feedback.heeds = false := by
  by_contra hnot
  have hend : s.send.sh.done = true ∨ s.send.feedback.heeds = true := by
    rw [not_and_or, Bool.not_eq_false, Bool.not_eq_false] at hnot
    exact hnot
  have hflushed := (h.reached.announced (h.announced hcap hend)).1
  have hset := h.reached.recv.isSet_of_flushed hflushed hmiss.1
  rw [hmiss.2] at hset
  cases hset

theorem reach_running (hcap : Capable scfg rcfg a) (h : OnTheWay prim scfg a sink s₀ s)
    (hdone : s.send.sh.done = false) :
    Reach (step prim scfg) (GoesOn scfg a s₀) s fun t =>
      Sender.Running t.send ∧ t.send.feedback = s.send.feedback ∧ t.recv = s.recv := by
  have hatt := h.reached.attentive hcap.control
  cases hpaused : s.send.sh.isPaused with
  | false => exact .here ⟨hatt.running h.reached.send.endInv.started h.known hdone hpaused, rfl, rfl⟩
  | true =>
    obtain ⟨c, hc, -⟩ := (Option.any_eq_true _ _).mp hpaused
    have hstep : Sender.step prim scfg s.send (.control .resume) =
        some { s.send with sh := { s.send.sh with control := some (c.apply .resume) } } := by
      simp [Sender.step, hc]
    have hC : GoesOn scfg a s₀ s (.send (.control .resume)) := ⟨⟨⟨trivial, trivial, trivial⟩, rfl⟩, trivial⟩
    have ht := h.run (.single hC (send_next hstep))
    refine .next hC (send_next hstep) (.here ⟨?_, rfl, rfl⟩)
    exact (ht.reached.attentive hcap.control).running ht.reached.send.endInv.started h.known hdone rfl

theorem wire_nonempty {d : Bytes} (hd : Sender.FromSource prim scfg d ∨ d = Sender.finPdu scfg) :
    d.isEmpty = false := by
  have hpos : 0 < d.length := by
    rcases hd with ⟨seq, payload, -, -, hdata⟩ | rfl
    · obtain ⟨hdr, -, -, -, -, rfl⟩ := hdata
      rw [List.length_append, hdr.bytes_length, dataHeaderSize]
      omega
    · rw [Sender.finPdu_eq, finBytes_length]
      decide
  exact List.isEmpty_eq_false_iff.mpr (List.ne_nil_of_length_pos hpos)

theorem reach_taken {data d : Bytes} (hcap : Capable scfg rcfg a) (htr : Transfer scfg rcfg data) (hn : 0 < n)
    (h : OnTheWay prim scfg a sink s₀ s) (hdone : s.recv.sh.done = false)
    (hd : d ∈ s.send.sh.wire.reverse.drop s₀.send.sh.wire.length) :
    Reach (step prim scfg) (GoesOn scfg a s₀) s fun t => t.recv.feedback = s.recv.feedback ∧
      ∃ sh, (∀ p ∈ sh.peer, p = a) ∧ d.isEmpty = false ∧
        t.recv.sh = Receiver.receive prim rcfg sh { Receiver.Datagram.mk d (some a) with } := by
  have hready := hcap.receiver
  have hsource : Sender.FromSource prim scfg d ∨ d = Sender.finPdu scfg := by
    obtain ⟨cs, hcs⟩ := h.reached.send
    exact Sender.wire_run hcs (List.mem_reverse.mp (List.drop_subset _ _ hd))
  have hidle := (Receiver.reach_idle hready h.reached.recv hdone).imp fun _ _ hrun ht =>
    And.intro (Receiver.ingests_run hrun) ht
  refine (lift_calm (fun _ _ => Receiver.Ingests.calm) hidle).trans fun as t hrun ⟨⟨honly, htop⟩, hsend⟩ => ?_
  have ht := h.run hrun
  have hawake := ht.reached.recv.awake hready
  have hdel : Reach (Receiver.step prim) _ t.recv _ :=
    (Receiver.reach_delivered ⟨d, some a⟩ ⟨0, hn⟩ (htop _) hawake.stop (honly.done.trans hdone)).imp
      fun _ _ hrun ht => And.intro (Receiver.delivering_run hrun) ht
  rw [cut_wire htr (m := ⟨d, some a⟩) hsource] at hdel
  refine (lift_recv ?_ hdel).imp fun _ u _ ⟨⟨honly', hsh⟩, _⟩ =>
    ⟨honly'.feedback.trans honly.feedback, t.recv.sh, hawake.peer, wire_nonempty hsource, hsh⟩
  intro v act hact
  obtain ⟨hharm, honly⟩ := hact.unharmed (a := a) rfl
  refine ⟨hharm, fun m hm => ?_⟩
  rw [honly m hm, hsend]
  exact hd

/-- **FIN gets across.** -/
theorem reach_met {data : Bytes} (hcap : Capable scfg rcfg a) (htr : Transfer scfg rcfg data) (hn : 0 < n)
    (h : OnTheWay prim scfg a sink s₀ s) (hann : s.recv.feedback.announces = true)
    (hdone : s.send.sh.done = false) :
    Reach (step prim scfg) (GoesOn scfg a s₀) s fun t => t.recv.feedback.announces = true ∧
      t.recv.sh.allSent = true ∧ t.recv.sh.peer = some a := by
  refine (reach_running hcap h hdone).trans fun as t hrun ⟨hgoes, _, hrecv⟩ => ?_
  have ht := h.run hrun
  refine (lift_send (fun _ _ => Sender.Sends.calm)
    (Sender.reach_fin hcap.sender ht.reached.send hgoes)).trans fun bs u hrun' ⟨hfin, hrecv', _⟩ => ?_
  have hu := ht.run hrun'
  have hsame : u.recv = s.recv := hrecv'.trans hrecv
  have hlive : u.recv.sh.done = false := by
    rw [hsame]
    exact h.reached.recv.not_done hann
  refine (reach_taken hcap htr hn hu hlive (ht.new_wire hfin)).imp fun cs v _ ⟨hfb, sh, hpeer, hne, hsh⟩ => ?_
  have hclass : rcfg.classify prim (Sender.finPdu scfg) (some a) = .fin := classify_finPdu htr _
  rw [hfb, hsame, hsh]
  exact ⟨hann, Receiver.receive_fin hcap.ip hpeer rfl hne hclass⟩

theorem mem_drop_new {α : Type*} {x : α} {old xs : List α} (h : old <:+ xs) :
    x ∈ (x :: xs).reverse.drop old.length := by
  have hle : old.length ≤ xs.reverse.length := h.length_le.trans_eq List.length_reverse.symm
  rw [List.reverse_cons, List.drop_append_of_le_length hle]
  exact List.mem_append_right _ (List.mem_singleton_self x)

/-- **A report gets across.** -/
theorem reach_reported {data : Bytes} {l : Receiver.Locals} {p : SocketAddr} {due : List Nat} {isNet : Bool}
    (hcap : Capable scfg rcfg a) (htr : Transfer scfg rcfg data) (h : OnTheWay prim scfg a sink s₀ s)
    (hgoes : Sender.Running s.send) (hheeds : s.send.feedback.heeds = false)
    (hpc : s.recv.feedback.pc = .send l p due isNet) :
    Reach (step prim scfg) (GoesOn scfg a s₀) s fun t => Sender.Running t.send ∧
      (∃ fh t2, t.send.feedback = .setTick fh (Receiver.nackEntries due) t2 ∧ fh.done = l.complete) ∧
      t.recv.feedback = { s.recv.feedback with pc := .finish l } := by
  let rep : Report := ⟨s.round, Receiver.feedbackHeader rcfg l isNet Receiver.late.now,
    Receiver.nackEntries due, s.time⟩
  have hlen : rep.nacks.length ≤ 125 := by
    have hfits := h.reached.recv.timely.fits
    simp only [hpc] at hfits
    exact (List.length_map _).trans_le (hfits.trans hcap.nacks)
  -- the receiver sends it
  obtain ⟨sh, fb, hfb, hstep⟩ := Receiver.feedback_next hcap.receiver h.reached.recv (by rw [hpc]; rfl)
  have hC : GoesOn scfg a s₀ s (.recv (.feedback Receiver.late)) := by
    have hharm : Receiver.Unharmed a s.recv (.feedback Receiver.late) := (Receiver.Rounds.calm rfl).unharmed
    exact ⟨⟨⟨trivial, fun m hm => (by cases hm), hharm.1⟩, hharm⟩, fun m hm => (by cases hm)⟩
  have hsent : s.sentBy (.feedback Receiver.late) = [rep] := by
    simp [sentBy, Receiver.emitted, hpc, Receiver.FeedbackPc.emits, Receiver.late, rep]
  have hfinish : fb = { s.recv.feedback with pc := .finish l } := by
    simp only [Receiver.feedbackStep, hpc, Receiver.late] at hfb
    cases hfb
    rfl
  have ht := h.run (.single hC (recv_next hstep))
  refine .next hC (recv_next hstep) ?_
  -- the sender's feedback thread comes to its `recv_from`
  have hexited : s.send.feedback ≠ .exited := fun hexit => by
    have hset := (h.reached.attentive hcap.control).feedback hexit
    rw [hgoes.done] at hset
    cases hset
  have hlistens : Reach (Sender.step prim scfg) _ s.send _ :=
    (Sender.reach_recv hgoes ⟨hexited, hheeds⟩).imp fun _ _ hrun ht =>
      And.intro (Sender.listens_run hrun hgoes ⟨hexited, hheeds⟩).running ht
  refine (lift_send (s := { s with
      recv := { s.recv with sh := sh, feedback := fb }, round := s.roundAfter (.feedback Receiver.late),
      sent := s.sentBy (.feedback Receiver.late) ++ s.sent }) (fun _ _ => Sender.Listens.calm)
    hlistens).trans fun as u hrun hlistening => ?_
  obtain ⟨⟨hugoes, hrecv⟩, hsame, hkept⟩ := hlistening
  -- and gets it
  obtain ⟨addr, haddr⟩ := Option.isSome_iff_exists.mp hugoes.peer
  obtain ⟨fh, hfh, hmsg⟩ : ∃ fh : FeedbackHeader, fh.done = l.complete ∧
      Sender.feedbackOf scfg rep.bytes = some (fh, Receiver.nackEntries due) :=
    ⟨_, rfl, feedbackOf_bytes htr.session.symm hlen⟩
  have hgot : Sender.step prim scfg u.send (.feedback { recv := .datagram rep.bytes addr }) =
      some { u.send with feedback := .setTick fh (Receiver.nackEntries due) 0 } := by
    simp [Sender.step, hrecv, Sender.feedbackStep, haddr, hmsg]
  rw [hsent] at hkept
  have hkept : u.sent = rep :: s.sent := hkept
  refine .next (a := .send (.feedback { recv := .datagram rep.bytes addr })) ⟨⟨⟨fun _ => ⟨rep, ?_, rfl⟩,
    trivial, trivial⟩, rfl⟩, fun _ => ⟨rep, ?_, rfl⟩⟩ (send_next hgot) (.here ⟨?_, ⟨fh, 0, rfl, hfh⟩, ?_⟩)
  · rw [hkept]
    exact List.mem_cons_self
  · rw [hkept]
    exact mem_drop_new h.later.sent
  · exact ⟨hugoes.peer, hugoes.done, hugoes.stop, hugoes.paused, hugoes.pacer⟩
  · show u.recv.feedback = _
    rw [hsame]
    exact hfinish

/-- **What is missing gets across.** A report asks for a block, and the block comes. -/
theorem reach_exchange {data : Bytes} (ha : prim.aead.Inverts) (hcap : Capable scfg rcfg a)
    (htr : Transfer scfg rcfg data) (hn : 0 < n) (h : OnTheWay prim scfg a sink s₀ s)
    (hann : s.recv.feedback.announces = true) (hallSent : s.recv.sh.allSent = true)
    (hpeer : s.recv.sh.peer = some a) (hmiss : ∃ seq, Receiver.Missing s.recv seq) :
    Reach (step prim scfg) (GoesOn scfg a s₀) s fun t => t.recv.feedback.announces = true ∧
      ∃ seq, Receiver.Missing s.recv seq ∧ t.recv.sh.bm.isSet seq = true := by
  obtain ⟨seq₀, hseq₀⟩ := hmiss
  have hready := hcap.receiver
  refine (reach_running hcap h (h.unheard hcap hseq₀).1).trans fun as t hrun hgoing => ?_
  obtain ⟨htgoes, -, hrecv⟩ := hgoing
  have ht := h.run hrun
  -- the receiver comes to a report that asks for a block
  have hasks := (Receiver.reach_nack hready h.reached.recv hann hallSent hpeer ⟨seq₀, hseq₀⟩).imp
    fun _ _ hrun hu => And.intro (Receiver.rounds_run hrun).bm hu
  rw [← hrecv] at hasks
  refine (lift_calm (fun _ _ => Receiver.Rounds.calm) hasks).trans fun bs u hrun' hasking => ?_
  obtain ⟨⟨hbm, l, due, isNet, hpc, hcomplete, hsome, hdue⟩, hsend⟩ := hasking
  have hu := ht.run hrun'
  obtain ⟨seq, hseq⟩ := List.exists_mem_of_ne_nil due hsome
  have hmiss := hdue seq hseq
  rw [← hsend] at htgoes
  refine (reach_reported hcap htr hu htgoes (hu.unheard hcap hmiss).2 hpc).trans fun cs v hrun'' hreported => ?_
  obtain ⟨hvgoes, ⟨fh, t2, hgot, hnot⟩, hfinish⟩ := hreported
  have hv := hu.run hrun''
  -- the sender queues the block, and sends it again
  have hattentive : v.send.feedback ≠ .exited ∧ v.send.feedback.heeds = false := by
    rw [hgot]
    exact ⟨by simp, hnot.trans hcomplete⟩
  have hheard := (Sender.reach_heard hv.reached.send hvgoes.peer hgot).imp fun _ _ hrun hw =>
    And.intro (Sender.listens_run hrun hvgoes hattentive).running hw
  refine (lift_send (fun _ _ => Sender.Listens.calm) hheard).trans fun ds w hruw hqueue => ?_
  obtain ⟨⟨hwgoes, hqueued⟩, hwrecv, -⟩ := hqueue
  have hw := hv.run hruw
  have hlt : seq < scfg.totalBlocks.toNat := hmiss.1.trans_eq htr.total.symm
  have htoNat : (UInt64.ofNat seq).toNat = seq := by
    rw [UInt64.toNat_ofNat', Nat.mod_eq_of_lt (hlt.trans scfg.totalBlocks.toNat_lt)]
  have hbelow : UInt64.ofNat seq < scfg.totalBlocks := by
    rw [UInt64.lt_iff_toNat_lt, htoNat]
    exact hlt
  refine (lift_send (fun _ _ => Sender.Paces.calm) (Sender.reach_resent hcap.sender hw.reached.send hwgoes
    (hqueued _ (List.mem_map.mpr ⟨seq, hseq, rfl⟩)) hbelow (hcap.blocks _ hbelow))).trans
    fun es x hrux hresent => ?_
  obtain ⟨⟨d, hd, hof⟩, hxrecv, -⟩ := hresent
  have hx := hw.run hrux
  -- the receiver takes it in
  have hfb : x.recv.feedback = { u.recv.feedback with pc := .finish l } := by
    rw [hxrecv, hwrecv, hfinish]
  have hstays : x.recv.feedback.announces = true := by
    rw [hfb]
    simp [Receiver.Feedback.announces, hcomplete]
  refine (reach_taken hcap htr hn hx (hx.reached.recv.not_done hstays) (hw.new_wire hd)).imp
    fun fs y _ htaken => ?_
  obtain ⟨hyfb, sh, hypeer, hne, hsh⟩ := htaken
  refine ⟨hyfb ▸ hstays, seq, ⟨hmiss.1, ?_⟩, ?_⟩
  · have hsame : u.recv.sh.bm = s.recv.sh.bm := hbm.trans (by rw [hrecv])
    rw [← hsame]
    exact hmiss.2
  · obtain ⟨pkt, hclass, hpkt⟩ := classify_ofBlock ha htr hcap.ip (by rw [htoNat]; exact hmiss.1) hof
    rw [hsh, ← htoNat, ← hpkt]
    exact Receiver.receive_data hcap.ip hypeer rfl hne hclass

/-- The number of blocks that have not arrived. -/
def missing (s : Loop rcfg n) : Nat :=
  ((Finset.range rcfg.totalBlocks).filter fun seq => s.recv.sh.bm.isSet seq = false).card

theorem missing_lt {C : Loop rcfg n → LoopAct n → Prop} {seq : Nat} (hrun : Steps (step prim scfg) C s as t)
    (hmiss : Receiver.Missing s.recv seq) (hset : t.recv.sh.bm.isSet seq = true) : t.missing < s.missing := by
  have hkept : ∀ seq, s.recv.sh.bm.isSet seq = true → t.recv.sh.bm.isSet seq = true := by
    refine hrun.invariant (I := fun t => ∀ seq, s.recv.sh.bm.isSet seq = true → t.recv.sh.bm.isSet seq = true)
      (fun u act v hu _ hstep => ?_) fun _ => id
    cases step_move hstep with
    | recv hrecv => exact fun seq hseq => (Receiver.keeps_step hrecv).bm seq (hu seq hseq)
    | send | wait => exact hu
  refine Finset.card_lt_card (Finset.ssubset_iff_of_subset ?_ |>.mpr ⟨seq, ?_, ?_⟩)
  · intro x hx
    obtain ⟨hlt, hunset⟩ := Finset.mem_filter.mp hx
    refine Finset.mem_filter.mpr ⟨hlt, ?_⟩
    by_contra hold
    rw [hkept x (Bool.not_eq_false _ ▸ hold)] at hunset
    cases hunset
  · exact Finset.mem_filter.mpr ⟨Finset.mem_range.mpr hmiss.1, hmiss.2⟩
  · intro hmem
    rw [(Finset.mem_filter.mp hmem).2] at hset
    cases hset

/-- The receiver has met its sender, and will report to it again. -/
structure Met (a : SocketAddr) (s : Loop rcfg n) : Prop where
  announces : s.recv.feedback.announces = true
  allSent : s.recv.sh.allSent = true
  peer : s.recv.sh.peer = some a

theorem Met.run {C : Loop rcfg n → LoopAct n → Prop} (h : s.Met a) (hrun : Steps (step prim scfg) C s as t)
    (hann : t.recv.feedback.announces = true) : t.Met a := by
  have hkept : t.recv.sh.allSent = true ∧ t.recv.sh.peer = some a := by
    refine hrun.invariant (I := fun t => t.recv.sh.allSent = true ∧ t.recv.sh.peer = some a)
      (fun u act v hu _ hstep => ?_) ⟨h.allSent, h.peer⟩
    cases step_move hstep with
    | recv hrecv =>
      have hkeeps := Receiver.keeps_step hrecv
      exact ⟨hkeeps.allSent hu.1, hkeeps.peer a hu.2⟩
    | send | wait => exact hu
  exact ⟨hann, hkept.1, hkept.2⟩

/-- **Every block gets across**, in as many exchanges as blocks are missing. -/
theorem reach_received {data : Bytes} (ha : prim.aead.Inverts) (hcap : Capable scfg rcfg a)
    (htr : Transfer scfg rcfg data) (hn : 0 < n) (h : OnTheWay prim scfg a sink s₀ s) (hmet : s.Met a) :
    Reach (step prim scfg) (GoesOn scfg a s₀) s fun t => t.Met a ∧
      ∀ seq < rcfg.totalBlocks, t.recv.sh.bm.isSet seq = true := by
  refine (reach_of_descent (P := fun t => ∀ seq < rcfg.totalBlocks, t.recv.sh.bm.isSet seq = true)
    (I := fun t => OnTheWay prim scfg a sink s₀ t ∧ t.Met a) missing ?_ ⟨h, hmet⟩).imp
    fun _ _ _ ht => ⟨ht.2.2, ht.1⟩
  rintro t ⟨ht, hmet⟩ hnot
  have hmiss : ∃ seq, Receiver.Missing t.recv seq := by
    obtain ⟨seq, hseq⟩ := not_forall.mp hnot
    obtain ⟨hlt, hunset⟩ := Classical.not_imp.mp hseq
    exact ⟨seq, hlt, Bool.not_eq_true _ ▸ hunset⟩
  refine (reach_exchange ha hcap htr hn ht hmet.announces hmet.allSent hmet.peer hmiss).imp
    fun as u hrun ⟨hann, seq, hseq, hset⟩ => ?_
  exact ⟨⟨ht.run hrun, hmet.run hrun hann⟩, missing_lt hrun hseq hset⟩

/-- **Every block gets into the sink.** -/
theorem reach_stored (hcap : Capable scfg rcfg a) (h : OnTheWay prim scfg a sink s₀ s) (hmet : s.Met a)
    (hall : ∀ seq < rcfg.totalBlocks, s.recv.sh.bm.isSet seq = true) :
    Reach (step prim scfg) (GoesOn scfg a s₀) s fun t => t.Met a ∧
      t.recv.sh.flushedBlocks = rcfg.totalBlocks := by
  have hready := hcap.receiver
  have hidle := (Receiver.reach_idle hready h.reached.recv (h.reached.recv.not_done hmet.announces)).imp
    fun _ _ hrun ht => And.intro (Receiver.ingests_run hrun).feedback
      (And.intro (Receiver.keeps_run hrun).bm ht)
  refine (lift_calm (fun _ _ => Receiver.Ingests.calm) hidle).trans
    fun as t hrun ⟨⟨hfb, hkept, htop⟩, _⟩ => ?_
  have ht := h.run hrun
  have htmet := hmet.run hrun (hfb ▸ hmet.announces)
  have hflushed := (Receiver.reach_flushed hready ht.reached.recv fun seq hseq =>
    ht.reached.recv.ready htop (hkept seq (hall seq hseq))).imp
      fun _ _ hrun hu => And.intro (Receiver.flushes_run hrun) hu
  refine (lift_calm (fun _ _ => Receiver.Flushes.calm) hflushed).imp fun bs u hrun' ⟨⟨hfb', hu⟩, _⟩ =>
    ⟨htmet.run hrun' (hfb' ▸ htmet.announces), hu⟩

/-- **DONE gets across.** -/
theorem reach_told {data : Bytes} (hcap : Capable scfg rcfg a) (htr : Transfer scfg rcfg data)
    (h : OnTheWay prim scfg a sink s₀ s) (hmet : s.Met a)
    (hflushed : s.recv.sh.flushedBlocks = rcfg.totalBlocks) :
    Reach (step prim scfg) (GoesOn scfg a s₀) s fun t => t.send.sh.done = true := by
  have hheed {u : Loop rcfg n} (hu : OnTheWay prim scfg a sink s₀ u) (hheeds : u.send.feedback.heeds = true) :
      Reach (step prim scfg) (GoesOn scfg a s₀) u fun t => t.send.sh.done = true :=
    (lift_send (fun _ _ => Sender.Listens.calm) (Sender.reach_done hu.known hheeds)).imp fun _ _ _ ht => ht.1
  cases hdone : s.send.sh.done with
  | true => exact .here hdone
  | false =>
    cases hheeds : s.send.feedback.heeds with
    | true => exact hheed h hheeds
    | false =>
      refine (reach_running hcap h hdone).trans fun as t hrun ⟨hgoes, hsame, hrecv⟩ => ?_
      have ht := h.run hrun
      have hsends := Receiver.reach_done hcap.receiver h.reached.recv hmet.announces hmet.allSent hmet.peer
        hflushed
      rw [← hrecv] at hsends
      refine (lift_calm (fun _ _ => Receiver.Rounds.calm) hsends).trans fun bs u hrun' ⟨hsends, hsend⟩ => ?_
      have hu := ht.run hrun'
      obtain ⟨l, p, due, isNet, hpc, hcomplete⟩ : ∃ l p due isNet, u.recv.feedback.pc = .send l p due isNet ∧
          l.complete = true := by
        cases hpc : u.recv.feedback.pc <;> rw [hpc] at hsends <;> try cases hsends
        exact ⟨_, _, _, _, rfl, hsends⟩
      refine (reach_reported hcap htr hu (hsend ▸ hgoes) (by rw [hsend, hsame]; exact hheeds) hpc).trans
        fun cs v hrun'' ⟨_, ⟨fh, t2, hgot, hset⟩, _⟩ => ?_
      refine hheed (hu.run hrun'') ?_
      rw [hgot]
      exact hset.trans hcomplete

/-- **Both ends leave**, with `Ok`. -/
theorem reach_left (hcap : Capable scfg rcfg a) (h : OnTheWay prim scfg a sink s₀ s)
    (hdone : s.send.sh.done = true) :
    Reach (step prim scfg) (GoesOn scfg a s₀) s fun t => t.send.pacerPc = .returned (.ok ()) ∧
      t.recv.main = .returned (.ok ()) := by
  obtain ⟨hflushed, hallSent, hpeer⟩ := h.reached.announced (h.announced hcap (.inl hdone))
  obtain ⟨p, hp⟩ := Option.isSome_iff_exists.mp hpeer
  obtain rfl := (h.reached.recv.awake hcap.receiver).peer p hp
  refine (lift_calm (fun _ _ => Receiver.Rounds.calm)
    (Receiver.reach_last hcap.receiver h.reached.recv hallSent hp hflushed)).trans fun as t hrun ⟨hend, hsend⟩ => ?_
  have ht := h.run hrun
  refine (lift_calm (fun _ _ => id) (Receiver.reach_ok hcap.receiver ht.reached.recv hend)).trans
    fun bs u hrun' ⟨hok, hsend'⟩ => ?_
  have hu := ht.run hrun'
  have hset : u.send.sh.done = true := by
    rw [hsend', hsend]
    exact hdone
  refine (lift_send (fun _ _ => id) (Sender.reach_returned hcap.sender hu.reached.send.endInv (.inr hset))).imp
    fun cs v hrun'' ⟨⟨res, hres⟩, hrecv, _⟩ => ?_
  have hv := hu.run hrun''
  obtain ⟨rfl, -⟩ := (hv.reached.attentive hcap.control).result hv.known res (by rw [hres]; rfl)
  exact ⟨hres, hrecv ▸ hok⟩

/-! ## The last DONE -/

/-- The receiver has sent its last DONE, nothing of it arrives, and the sender does not know. -/
structure Deaf (s₀ s : Loop rcfg n) : Prop where
  announces : s.recv.feedback.announces = false
  sent : s.sent = s₀.sent
  done : s.send.sh.done = false
  heeds : s.send.feedback.heeds = false

theorem deaf_recv {act : Receiver.Action n} {recv : Receiver.State rcfg n} (h : s.recv.feedback.announces = false)
    (hstep : Receiver.step prim s.recv act = some recv) :
    recv.feedback.announces = false ∧ s.sentBy act = [] := by
  constructor
  · cases Receiver.step_move hstep with
    | feedback hfb => exact Receiver.feedbackStep_silent h hfb
    | ingest | flusher | quiet => exact h
  · refine List.eq_nil_iff_forall_not_mem.mpr fun rep hrep => ?_
    obtain ⟨env, l, p, due, isNet, -, hpc, -⟩ := mem_sentBy hrep
    rw [Receiver.Feedback.announces, hpc] at h
    cases h

theorem deaf_send {act : Sender.Action} {send : Sender.State} (hatt : Sender.Attentive s.send)
    (hstarted : Sender.Started s.send) (hknown : s.send.sh.peer.isSome = true) (hdeaf : Deaf s₀ s) (hC : GoesOn scfg a s₀ s (.send act))
    (hstep : Sender.step prim scfg s.send act = some send) :
    send.sh.done = false ∧ send.feedback.heeds = false := by
  have hdone := hdeaf.done
  cases Sender.step_endMove hstep with
  | prefetch _ hp => exact ⟨(Sender.prefetchStep_done hp).trans hdone, hdeaf.heeds⟩
  | @pacer env sh p pc hp =>
    refine ⟨?_, hdeaf.heeds⟩
    have hnone : pc.result = none := by
      refine Option.eq_none_iff_forall_ne_some.mpr fun res hres => ?_
      have hwait : s.send.pacerPc ≠ .waitForPeer := fun hwait => by
        rw [(hstarted.undone hwait).1] at hknown
        cases hknown
      have hset : s.send.sh.done = true := by
        rcases Sender.pacerStep_result (fun _ => hatt.stop) hwait hp res hres with hold | ⟨-, hset⟩
        · exact (hatt.result hknown res hold).2
        · exact hset
      rw [hdone] at hset
      cases hset
    by_contra hset
    rcases (Sender.pacerStep_done hp).2.1 (Bool.not_eq_false _ ▸ hset) with hold | hended
    · rw [hdone] at hold
      cases hold
    · cases pc with
      | join | returned => cases hnone
      | _ => cases hended
  | @feedback env sh pc _ hp =>
    obtain ⟨hdone', hstoring, hworking⟩ := Sender.feedbackStep_done hp
    have hquiet : env.feedback scfg = none := by
      by_contra hmsg
      obtain ⟨rep, hrep, -⟩ := hC.2 (Option.isSome_iff_ne_none.mpr hmsg)
      rw [hdeaf.sent, List.drop_eq_nil_of_le List.length_reverse.le] at hrep
      cases hrep
    have hheeds : ¬ (s.send.feedback = .storeDone ∨ ∃ fh ∈ s.send.feedback.working, fh.done = true) := by
      rw [← Sender.heeds_iff, hdeaf.heeds]
      exact Bool.false_ne_true
    rw [not_or] at hheeds
    constructor
    · by_contra hset
      rcases hdone' (Bool.not_eq_false _ ▸ hset) with hold | hpc
      · rw [hdone] at hold
        cases hold
      · exact hheeds.1 hpc
    · by_contra hset
      rcases Sender.heeds_iff.mp (Bool.not_eq_false _ ▸ hset) with hpc | ⟨fh, hfh, hend⟩
      · exact hheeds.2 (hstoring hpc)
      · rcases hworking fh hfh with hold | ⟨nacks, hmsg⟩
        · exact hheeds.2 ⟨fh, hold, hend⟩
        · rw [hquiet] at hmsg
          cases hmsg
  | join | stop | control => exact ⟨hdone, hdeaf.heeds⟩

theorem deaf_run (hcap : Capable scfg rcfg a) (h : OnTheWay prim scfg a sink s₀ s) (hdeaf : Deaf s₀ s)
    (hrun : Steps (step prim scfg) (GoesOn scfg a s₀) s as t) : Deaf s₀ t := by
  refine hrun.invariant_of_run (I := Deaf s₀) (fun bs u act v hbs hu hC hstep => ?_) hdeaf
  have hway := h.run hbs
  cases step_move hstep with
  | recv hrecv =>
    obtain ⟨hann, hsent⟩ := deaf_recv hu.announces hrecv
    exact ⟨hann, by simp [hsent, hu.sent], hu.done, hu.heeds⟩
  | send hsend =>
    obtain ⟨hdone, hheeds⟩ := deaf_send (hway.reached.attentive hcap.control)
      hway.reached.send.endInv.started hway.known hu hC hsend
    exact ⟨hu.announces, hu.sent, hdone, hheeds⟩
  | wait => exact ⟨hu.announces, hu.sent, hu.done, hu.heeds⟩

theorem ne_ok_of_deaf (hcap : Capable scfg rcfg a) (h : OnTheWay prim scfg a sink s₀ s) (hdeaf : Deaf s₀ s)
    (hrun : Steps (step prim scfg) (GoesOn scfg a s₀) s as t) : t.send.pacerPc ≠ .returned (.ok ()) := by
  intro hok
  have ht := h.run hrun
  have hset := ((ht.reached.attentive hcap.control).result ht.known (.ok ()) (by rw [hok]; rfl)).2
  rw [(deaf_run hcap h hdeaf hrun).done] at hset
  cases hset

/-- **A transfer can be completed from every state** that loss can lead to, whatever else is lost, unless
the receiver has sent its last DONE and the sender has not heard of any. Then the sender cannot return
`Ok` any more, whatever the receiver does. -/
theorem recoverable_iff {data : Bytes} {sink₀ : Sink} {os : AllocOs} {recv : Receiver.State rcfg n}
    (ha : prim.aead.Inverts) (hcap : Capable scfg rcfg a) (htr : Transfer scfg rcfg data) (hn : 0 < n)
    (halloc : sink₀.allocate os rcfg.fileSize.toNat = (.ok (), sink))
    (hnew : Receiver.newReceiver rcfg n sink = some recv)
    (h : Steps (step prim scfg) (OnlyLoss scfg a) (start scfg recv) as s)
    (hknown : s.send.sh.peer.isSome = true) :
    ((∃ bs t, Steps (step prim scfg) (GoesOn scfg a s) s bs t ∧ t.send.pacerPc = .returned (.ok ()) ∧
      t.recv.main = .returned (.ok ()) ∧ t.recv.sh.sink.contents = data) ↔
    s.recv.feedback.announces = true ∨ s.send.sh.done = true ∨ s.send.feedback.heeds = true) ∧
    (¬ (s.recv.feedback.announces = true ∨ s.send.sh.done = true ∨ s.send.feedback.heeds = true) →
      ∀ bs t, Steps (step prim scfg) (GoesOn scfg a s) s bs t →
        t.send.pacerPc ≠ .returned (.ok ())) := by
  have hway : OnTheWay prim scfg a sink s s := ⟨⟨recv, as, hnew, h⟩, ⟨List.suffix_rfl, List.suffix_rfl⟩, hknown⟩
  have hgap (hnot : ¬ (s.recv.feedback.announces = true ∨ s.send.sh.done = true ∨
      s.send.feedback.heeds = true)) (bs : List (LoopAct n)) (t : Loop rcfg n)
      (hrun : Steps (step prim scfg) (GoesOn scfg a s) s bs t) : t.send.pacerPc ≠ .returned (.ok ()) := by
    simp only [not_or, Bool.not_eq_true] at hnot
    exact ne_ok_of_deaf hcap hway ⟨hnot.1, rfl, hnot.2.1, hnot.2.2⟩ hrun
  refine ⟨⟨?_, ?_⟩, hgap⟩
  · rintro ⟨bs, t, hrun, hok, -, -⟩
    by_contra hnot
    exact hgap hnot bs t hrun hok
  · intro hcan
    have htold : Reach (step prim scfg) (GoesOn scfg a s) s fun t => t.send.sh.done = true := by
      rcases hcan with hann | hdone | hheeds
      · cases hdone : s.send.sh.done with
        | true => exact .here hdone
        | false =>
          refine (reach_met hcap htr hn hway hann hdone).trans fun _ t hrun ⟨hann, hall, hpeer⟩ => ?_
          have ht := hway.run hrun
          refine (reach_received ha hcap htr hn ht ⟨hann, hall, hpeer⟩).trans fun _ u hrun' ⟨hmet, hset⟩ => ?_
          have hu := ht.run hrun'
          refine (reach_stored hcap hu hmet hset).trans fun _ v hrun'' ⟨hmet, hflushed⟩ => ?_
          exact reach_told hcap htr (hu.run hrun'') hmet hflushed
      · exact .here hdone
      · exact (lift_send (fun _ _ => Sender.Listens.calm) (Sender.reach_done hknown hheeds)).imp
          fun _ _ _ ht => ht.1
    obtain ⟨bs, t, hrun, hok, hmain⟩ := htold.trans fun _ t hrun hdone => reach_left hcap (hway.run hrun) hdone
    have ht := hway.run hrun
    have hflushed := (ht.reached.announced (ht.reached.doneInv.ok (by rw [hok]; rfl))).1
    have hall := (h.append (hrun.mono fun _ _ hC => hC.1)).mono (D := Undisturbed scfg) fun _ _ hC => hC.1
    obtain ⟨cs, hcs⟩ := recv_run_undisturbed hall
    exact ⟨bs, t, hrun, hok, hmain, contents_of_flushed ha htr halloc hnew hcs hflushed⟩

/-- Where the sender's datagrams come from. -/
def sendAddr : SocketAddr := ⟨.v4 0x7f000001, 5000⟩

theorem oneBlock_capable : Capable oneBlockSend Receiver.oneBlock sendAddr where
  sender :=
    { size_nonneg := by decide
      blockSize_pos := by decide
      total := by decide
      far := by
        intro off n hoff hn
        show (if off + n > 1 then none else _) = none
        exact if_pos (by omega) }
  control := rfl
  blocks := by
    intro seq hseq
    obtain rfl : seq = 0 := by
      rw [UInt64.lt_iff_toNat_lt] at hseq
      exact UInt64.toNat_inj.mp (Nat.lt_one_iff.mp hseq)
    decide
  receiver := ⟨rfl, by decide, by decide⟩
  nacks := by decide
  ip := fun ip hip => by cases hip

/-- All that the sender sends at first is lost: the transfer can be completed. The receiver gets it and
returns `Ok`, but its eight DONEs are lost: the sender never returns `Ok`. -/
theorem recoverable_iff_oneBlock :
    (∃ recv s bs t, Receiver.newReceiver Receiver.oneBlock 1 Receiver.zeroByte = some recv ∧
      Steps (step Receiver.oneBlockPrims oneBlockSend) (OnlyLoss oneBlockSend sendAddr)
        (start oneBlockSend recv) (oneBlockSendActs.map .send) s ∧
      Steps (step Receiver.oneBlockPrims oneBlockSend) (GoesOn oneBlockSend sendAddr s) s bs t ∧
      t.send.pacerPc = .returned (.ok ()) ∧ t.recv.main = .returned (.ok ()) ∧
      t.recv.sh.sink.contents = [7]) ∧
    ∃ recv s, Receiver.newReceiver Receiver.oneBlock 1 Receiver.zeroByte = some recv ∧
      Steps (step Receiver.oneBlockPrims oneBlockSend) (OnlyLoss oneBlockSend sendAddr)
        (start oneBlockSend recv) (oneBlockSendActs.map .send ++ Receiver.oneBlockRun.map .recv) s ∧
      s.recv.main = .returned (.ok ()) ∧
      ∀ bs t, Steps (step Receiver.oneBlockPrims oneBlockSend)
          (GoesOn oneBlockSend sendAddr s) s bs t → t.send.pacerPc ≠ .returned (.ok ()) := by
  have hinv : Receiver.oneBlockPrims.aead.Inverts := fun _ _ _ => rfl
  have halloc : (⟨.mem, []⟩ : Sink).allocate {} Receiver.oneBlock.fileSize.toNat =
      (.ok (), Receiver.zeroByte) := rfl
  constructor
  · obtain ⟨recv, s, hnew, hrun, hQ⟩ := exists_steps_of_exec_check
      (Receiver.newReceiver Receiver.oneBlock 1 Receiver.zeroByte) (start oneBlockSend)
      (step Receiver.oneBlockPrims oneBlockSend) (oneBlockSendActs.map .send)
      (OnlyLoss oneBlockSend sendAddr)
      (fun s => s.send.sh.peer.isSome && s.recv.feedback.announces) (by decide +kernel)
    rw [Bool.and_eq_true] at hQ
    obtain ⟨bs, t, hrest, hok⟩ := (recoverable_iff hinv oneBlock_capable oneBlock_transfer Nat.one_pos
      halloc hnew hrun hQ.1).1.mpr (.inl hQ.2)
    exact ⟨recv, s, bs, t, hnew, hrun, hrest, hok⟩
  · obtain ⟨recv, s, hnew, hrun, hQ⟩ := exists_steps_of_exec_check
      (Receiver.newReceiver Receiver.oneBlock 1 Receiver.zeroByte) (start oneBlockSend)
      (step Receiver.oneBlockPrims oneBlockSend)
      (oneBlockSendActs.map .send ++ Receiver.oneBlockRun.map .recv)
      (OnlyLoss oneBlockSend sendAddr)
      (fun s => s.send.sh.peer.isSome && s.recv.main.isOk && !s.recv.feedback.announces &&
        !s.send.sh.done && !s.send.feedback.heeds) (by decide +kernel)
    simp only [Bool.and_eq_true, Bool.not_eq_true'] at hQ
    obtain ⟨⟨⟨⟨hknown, hok⟩, hann⟩, hdone⟩, hheeds⟩ := hQ
    refine ⟨recv, s, hnew, hrun, Receiver.MainPc.eq_ok hok, (recoverable_iff hinv oneBlock_capable
      oneBlock_transfer Nat.one_pos halloc hnew hrun hknown).2 ?_⟩
    rw [hann, hdone, hheeds]
    decide

end Girth.Loop
