import Girth.Sender.Wire
import Girth.Sys.Batch

/-!
# The buffer pool of a sender

A pooled buffer is in the free channel, with the prefetch thread that reads a block into it, in the
ready channel, or in the batch of the pacing loop until the loop has sent it back. Every step moves at
most one buffer from one of these places to the next, so their number does not change; the one step
that loses a buffer is a failed read, with which the prefetch thread leaves (`pool_step`). Both
channels have room for the whole pool, so no thread ever waits to send into one.

A batch has at most 64 packets (`batch_run`), fewer than the batch sender has slots, and that number
never changes.
-/

namespace Girth

open Lib

namespace Sender

variable {prim : Primitives} {cfg : SendConfig} {sh sh' : Shared} {env : Env} {s t : State}

/-! ## Where the buffers are -/

/-- The buffers that the prefetch thread holds. -/
def PrefetchPc.buffers : PrefetchPc → Nat
  | .fill .. | .publish .. => 1
  | .borrow _ | .recvFree _ | .exited => 0

/-- The buffers in the batch of the pacing loop, and those it is about to send back. -/
def PacerPc.buffers : PacerPc → Nat
  | .build b | .fillRex b _ | .stampRex b _ | .tryRecv b | .flush b => b.newBufs.length
  | .stampNew b _ => b.newBufs.length + 1
  | .giveBack bufs => bufs.length
  | .waitForPeer | .top | .stopCheck | .pauseCheck | .rate | .fin | .storeDone _ | .join _
  | .returned _ => 0

/-- In one of the two channels. -/
def Shared.buffers (sh : Shared) : Nat := sh.free.length + sh.ready.length

/-- All the buffers of the pool, in whatever place. -/
def State.buffers (s : State) : Nat := s.sh.buffers + s.prefetch.buffers + s.pacerPc.buffers

/-- The prefetch thread takes a buffer from one channel and puts it into the other. If it leaves, it
may take the buffer with it. -/
theorem prefetchStep_buffers {pc pc' : PrefetchPc}
    (h : prefetchStep prim cfg sh env pc = some (sh', pc')) :
    sh'.buffers + pc'.buffers ≤ sh.buffers + pc.buffers ∧
      (pc' ≠ .exited → sh'.buffers + pc'.buffers = sh.buffers + pc.buffers) := by
  cases prefetchStep_move h with
  | leave | borrow | retry | fill => exact ⟨le_rfl, fun _ => rfl⟩
  | take hfree =>
    simp only [Shared.buffers, PrefetchPc.buffers, hfree, List.length_cons]
    omega
  | fail => exact ⟨Nat.le_succ _, fun hne => absurd rfl hne⟩
  | publish =>
    simp only [Shared.buffers, PrefetchPc.buffers, List.length_append, List.length_singleton]
    omega

theorem pacerStep_buffers {p p' : Pacer} {pc pc' : PacerPc}
    (h : pacerStep prim cfg sh env p pc = some (sh', p', pc')) :
    sh'.buffers + pc'.buffers = sh.buffers + pc.buffers := by
  cases pacerStep_cases h with
  | take hready =>
    simp only [Shared.buffers, PacerPc.buffers, hready, List.length_cons]
    omega
  | stampNew => simp only [Shared.buffers, PacerPc.buffers, List.length_append, List.length_singleton]
  | giveBack =>
    simp only [Shared.buffers, PacerPc.buffers, List.length_append, List.length_cons, List.length_nil]
    omega
  | _ => rfl

/-- The pool is whole as long as the prefetch thread runs, and never more than that. -/
structure PoolInv (s : State) : Prop where
  le : s.buffers ≤ poolCap
  whole : s.prefetch ≠ .exited → s.buffers = poolCap

theorem pool_step {act : Action} (hinv : PoolInv s) (h : step prim cfg s act = some t) :
    PoolInv t := by
  have hle := hinv.le
  have hwhole := hinv.whole
  unfold State.buffers at hle hwhole
  cases step_move h with
  | @prefetch env sh pc hp =>
    obtain ⟨hless, hsame⟩ := prefetchStep_buffers hp
    have hrunning : s.prefetch ≠ .exited := by
      intro hexited
      rw [hexited] at hp
      cases hp
    have hpool := hwhole hrunning
    refine ⟨?_, fun hne => ?_⟩
    · show sh.buffers + pc.buffers + s.pacerPc.buffers ≤ poolCap
      omega
    · have hmove := hsame hne
      show sh.buffers + pc.buffers + s.pacerPc.buffers = poolCap
      omega
  | @pacer env sh p pc hp =>
    have hmove := pacerStep_buffers hp
    refine ⟨?_, fun hne => ?_⟩
    · show sh.buffers + s.prefetch.buffers + pc.buffers ≤ poolCap
      omega
    · have hpool := hwhole hne
      show sh.buffers + s.prefetch.buffers + pc.buffers = poolCap
      omega
  | @feedback env sh pc hp =>
    have hframe := feedbackStep_frame hp
    have hsame : sh.buffers = s.sh.buffers := by
      rw [Shared.buffers, hframe.free, hframe.ready, Shared.buffers]
    refine ⟨?_, fun hne => ?_⟩
    · show sh.buffers + _ + _ ≤ _
      rw [hsame]
      exact hle
    · show sh.buffers + _ + _ = _
      rw [hsame]
      exact hwhole hne
  | join hpc =>
    rw [hpc] at hle hwhole
    exact ⟨hle, hwhole⟩
  | flags => exact ⟨hle, hwhole⟩

theorem pool_new : PoolInv (newSender cfg) := by
  have hpacer : (newSender cfg).pacerPc.buffers = 0 := by
    show (if cfg.peer.isSome then PacerPc.top else .waitForPeer).buffers = 0
    split <;> rfl
  have hfree : (newSender cfg).sh.free.length = poolCap := List.length_replicate
  have hwhole : (newSender cfg).buffers = poolCap := by
    rw [State.buffers, Shared.buffers, hpacer, hfree]
    rfl
  exact ⟨hwhole.le, fun _ => hwhole⟩

/-! ## The size of a batch -/

/-- The slots of the batch sender that the pacing loop asks for. -/
def pacerSlots : Nat := 1024

/-- The batch has one packet for each that was counted, and stays within its size; a packet that is
being built fits in. -/
def PacerPc.Fits : PacerPc → Prop
  | .build b | .flush b => b.out.length ≤ b.built ∧ b.built ≤ b.toSend ∧ b.toSend ≤ 64
  | .fillRex b _ | .stampRex b _ | .tryRecv b | .stampNew b _ =>
    b.out.length ≤ b.built ∧ b.built < b.toSend ∧ b.toSend ≤ 64
  | .waitForPeer | .top | .stopCheck | .pauseCheck | .rate | .giveBack _ | .fin | .storeDone _
  | .join _ | .returned _ => True

structure BatchInv (p : Pacer) (pc : PacerPc) : Prop where
  batch_le : p.batch ≤ 64
  fits : pc.Fits

theorem fits_added {b b' : Batch} {pdu : Bytes} (h : b.out.length ≤ b.built ∧ b.built < b.toSend ∧
    b.toSend ≤ 64) (hout : b'.out = b.out ++ [pdu]) (hbuilt : b'.built = b.built + 1)
    (hsend : b'.toSend = b.toSend) : (PacerPc.build b').Fits := by
  obtain ⟨hlen, hlt, hle⟩ := h
  refine ⟨?_, ?_, ?_⟩
  · rw [hout, List.length_append, List.length_singleton]
    omega
  · omega
  · omega

theorem batch_step {p p' : Pacer} {pc pc' : PacerPc} (hinv : BatchInv p pc)
    (h : pacerStep prim cfg sh env p pc = some (sh', p', pc')) : BatchInv p' pc' := by
  have hle := hinv.batch_le
  have hfits := hinv.fits
  cases pacerStep_cases h with
  | rate _ hp' =>
    have hsize : p'.batch ≤ 64 := by
      rw [hp']
      split_ifs
      · exact batchSize_le cfg _
      · exact hle
    exact ⟨hsize, Nat.zero_le _, Nat.zero_le _, hsize⟩
  | pop hroom | seek hroom => exact ⟨hle, hfits.1, hroom, hfits.2.2⟩
  | close | fill | take => exact ⟨hle, hfits⟩
  | skip | exhausted => exact ⟨hle, hfits.1, hfits.2.1.le, hfits.2.2⟩
  | stampRex | stampNew => exact ⟨hle, fits_added hfits rfl rfl rfl⟩
  | empty => exact ⟨hle, hfits.1.trans hfits.2.1.le, le_rfl, hfits.2.2⟩
  | _ => exact ⟨hle, trivial⟩

theorem batch_run {as : List Action} (h : Steps (step prim cfg) Any (newSender cfg) as s) :
    BatchInv s.pacer s.pacerPc := by
  refine h.invariant (I := fun s => BatchInv s.pacer s.pacerPc) ?_ ?_
  · intro s act t hinv _ hstep
    cases step_move hstep with
    | pacer hp => exact batch_step hinv hp
    | join => exact ⟨hinv.batch_le, trivial⟩
    | prefetch | feedback | flags => exact hinv
  · refine ⟨batchSize_le cfg _, ?_⟩
    show (if cfg.peer.isSome then PacerPc.top else .waitForPeer).Fits
    split_ifs <;> trivial

theorem out_length_le {pc : PacerPc} (h : pc.Fits) : pc.out.length ≤ 64 := by
  cases pc with
  | build b | flush b => exact h.1.trans (h.2.1.trans h.2.2)
  | fillRex b _ | stampRex b _ | tryRecv b | stampNew b _ => exact h.1.trans (h.2.1.le.trans h.2.2)
  | _ => exact Nat.zero_le _

/-! ## Every run -/

/-- **The pool is conserved.** In every state of every run, whatever reads fail, the buffers in the two
channels, with the prefetch thread and with the pacing loop are at most the whole pool, and are the
whole pool until the prefetch thread leaves. So neither thread ever has to wait to send a buffer on,
and the batch sender, whatever it has done before, takes in every packet of the batch. -/
theorem pool_conserved {as : List Action} (h : Steps (step prim cfg) Any (newSender cfg) as s) :
    (s.sh.free.length + s.sh.ready.length + s.prefetch.buffers + s.pacerPc.buffers ≤ poolCap ∧
      (s.prefetch ≠ .exited →
        s.sh.free.length + s.sh.ready.length + s.prefetch.buffers + s.pacerPc.buffers = poolCap)) ∧
    (∀ seq item env, s.prefetch = .publish seq item →
      (prefetchStep prim cfg s.sh env s.prefetch).isSome = true) ∧
    (∀ bufs env, s.pacerPc = .giveBack bufs →
      (pacerStep prim cfg s.sh env s.pacer s.pacerPc).isSome = true) ∧
    (∀ os fuel noBatch ops l,
      exec (Sys.linuxStep os fuel) ⟨.new pacerSlots noBatch, {}, []⟩ ops = some l →
        (s.pacerPc.out.foldl .add l.sender.reset).queue = s.pacerPc.out) ∧
    ∀ os ops l, exec (Sys.portableStep os) ⟨.new pacerSlots, {}, []⟩ ops = some l →
      (s.pacerPc.out.foldl .add l.sender.reset).pkts = s.pacerPc.out := by
  have hpool : PoolInv s := h.invariant (fun _ _ _ hinv _ hstep => pool_step hinv hstep) pool_new
  have hle := hpool.le
  have hwhole := hpool.whole
  unfold State.buffers Shared.buffers at hle hwhole
  have hout := out_length_le (batch_run h).fits
  have hslots : s.pacerPc.out.length ≤ pacerSlots := hout.trans (by decide)
  refine ⟨⟨hle, hwhole⟩, fun seq item env hpc => ?_, fun bufs env hpc => ?_, ?_, ?_⟩
  · have hpool := hwhole (by rw [hpc]; exact PrefetchPc.noConfusion)
    rw [hpc, PrefetchPc.buffers] at hpool
    rw [hpc, prefetchStep, if_pos (by omega)]
    rfl
  · cases bufs with
    | nil =>
      rw [hpc]
      rfl
    | cons buf bufs =>
      rw [hpc, PacerPc.buffers, List.length_cons] at hle
      rw [hpc, pacerStep, if_pos (by omega)]
      rfl
  · intro os fuel noBatch ops l hl
    have hcap : l.sender.cap = pacerSlots := Sys.Linux.cap_run hl
    exact Sys.Linux.queue_adds l.sender.queue_reset (hcap ▸ hslots)
  · intro os ops l hl
    have hcap : l.sender.cap = pacerSlots := Sys.Portable.cap_run hl
    exact Sys.Portable.pkts_adds (show l.sender.reset.pkts = [] from rfl) (hcap ▸ hslots)

/-- The only block is read, handed over and taken into a batch; the prefetch thread looks for the
next one. -/
def batchedByteActs : List Action := List.replicate 4 (.prefetch {}) ++ List.replicate 7 (.pacer {})

theorem pool_conserved_sealedByte : ∃ t,
    Steps (step sealedBytePrims sealedByte) Any (newSender sealedByte) batchedByteActs t ∧
      t.pacerPc.buffers = 1 ∧ t.pacerPc.out.length = 1 ∧
      t.sh.free.length + t.sh.ready.length + t.prefetch.buffers + 1 = poolCap ∧
      (t.pacerPc.out.foldl .add (Sys.Portable.BatchSender.new pacerSlots)).pkts = t.pacerPc.out := by
  obtain ⟨t, hrun, hQ⟩ := steps_of_exec_check (step sealedBytePrims sealedByte)
    (newSender sealedByte) batchedByteActs Any
    (fun t => t.pacerPc.buffers == 1 && t.pacerPc.out.length == 1 &&
      (prefetchStep sealedBytePrims sealedByte t.sh {} t.prefetch).isSome) (by decide +kernel)
  simp only [Bool.and_eq_true, beq_iff_eq] at hQ
  obtain ⟨⟨hbufs, hout⟩, hgoes⟩ := hQ
  have hrunning : t.prefetch ≠ .exited := by
    intro hexited
    rw [hexited] at hgoes
    cases hgoes
  have hall := pool_conserved hrun
  have hwhole := hall.1.2 hrunning
  rw [hbufs] at hwhole
  exact ⟨t, hrun, hbufs, hout, hwhole, hall.2.2.2.2 ⟨fun _ => 0, fun _ _ => .error, fun _ => true⟩ []
    ⟨.new pacerSlots, {}, []⟩ rfl⟩

end Sender

end Girth
