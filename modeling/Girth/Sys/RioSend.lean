import Girth.Lib.Bytes
import Girth.Lib.Machine
import Girth.Receiver.Packet

/-!
# The send ring of the Windows backend

Feedback leaves through a ring of registered buffers. `send_to` takes the slot at the cursor, moves
the cursor on, copies payload and address into the slot and submits it; the kernel reads the slot when
it transmits and completes the sends in any order. Completions are counted and not matched to slots,
and the copy comes before the submit that the request queue may refuse.

The slot of a call is the number of the call modulo the size of the ring. So a copy hits no send in
flight exactly if no send stays outstanding while a whole ring of later calls goes by
(`copies_free_iff`): the bound on outstanding sends does not give that, because the call that it
refuses has copied already (`copy_over_outstanding`).
-/

namespace Girth.Sys.Rio

open Lib

/-- Slots of the send ring, and the sends the request queue lets be outstanding. -/
def sendRing : Nat := 16

/-- A submitted send: its slot, and for the proofs the call that submitted it and with what. -/
structure Send where
  slot : Nat
  call : Nat
  buf : Bytes
  peer : SocketAddr
  deriving DecidableEq, Repr

structure SendState where
  bufLen : Nat
  /-- What `rq_mu` protects. -/
  cursor : Nat
  /-- The registered data region. -/
  data : Bytes
  /-- The address in each slot of the address region; nothing where it is zero. -/
  addr : Nat → Option SocketAddr
  outstanding : List Send
  /-- Completions in the send completion queue. -/
  sendCq : Nat
  /-- Calls of `send_to` so far. -/
  calls : Nat
  /-- Completed sends with what went out for them. -/
  wire : List (Send × Bytes × Option SocketAddr)
  /-- What the last call returned. -/
  ret : Option (Except String Nat)

def SendState.new (bufLen : Nat) : SendState where
  bufLen := bufLen
  cursor := 0
  data := List.replicate (sendRing * bufLen) 0
  addr _ := none
  outstanding := []
  sendCq := 0
  calls := 0
  wire := []
  ret := none

/-- A call of `send_to` comes with the completions it drains before the queue is empty or reports
itself corrupt, and the error code if `RIOSendEx` fails. -/
inductive SendAction
  | complete (k : Nat)
  | sendTo (buf : Bytes) (peer : SocketAddr) (drained : Nat) (wsa : Option Int)

namespace SendState

/-- `WSAENOBUFS`, if the request queue is full. -/
def submitError (s : SendState) (wsa : Option Int) : Option Int :=
  if s.outstanding.length < sendRing then wsa else some (wsa.getD 10055)

/-- The copy of payload and address into the slot at the cursor, which moves on. -/
def copyIn (s : SendState) (buf : Bytes) (peer : SocketAddr) (drained : Nat) : SendState :=
  { s with
    sendCq := s.sendCq - drained
    cursor := (s.cursor + 1) % sendRing
    data := overwrite s.data (s.cursor * s.bufLen) (buf.take s.bufLen)
    addr := fun i => if i = s.cursor then some peer else s.addr i
    calls := s.calls + 1 }

def sendTo (s : SendState) (buf : Bytes) (peer : SocketAddr) (drained : Nat) (wsa : Option Int) :
    SendState :=
  let t := s.copyIn buf peer drained
  match s.submitError wsa with
  | none =>
    { t with
      outstanding := s.outstanding ++ [⟨s.cursor, s.calls, buf.take s.bufLen, peer⟩]
      ret := some (.ok (min buf.length s.bufLen)) }
  | some code => { t with ret := some (.error s!"RIOSendEx failed: wsa {code}") }

/-- What the slot of a send holds: the bytes its descriptor spans and the address. -/
def held (s : SendState) (o : Send) : Bytes × Option SocketAddr :=
  (slice s.data (o.slot * s.bufLen) o.buf.length, s.addr o.slot)

def step (s : SendState) : SendAction → Option SendState
  | .complete k => (s.outstanding[k]?).map fun o =>
      { s with
        outstanding := s.outstanding.eraseIdx k
        sendCq := s.sendCq + 1
        wire := s.wire ++ [(o, s.held o)] }
  | .sendTo buf peer drained wsa => some (s.sendTo buf peer drained wsa)

/-- A copy goes to a slot that no outstanding send uses. -/
def Free (s : SendState) : SendAction → Prop
  | .complete _ => True
  | .sendTo _ _ _ _ => ∀ o ∈ s.outstanding, o.slot ≠ s.cursor

/-- At a call of `send_to` every outstanding send is one of the last `sendRing - 1` calls. -/
def Recent (s : SendState) : SendAction → Prop
  | .complete _ => True
  | .sendTo _ _ _ _ => ∀ o ∈ s.outstanding, s.calls < o.call + sendRing

instance (s : SendState) : (act : SendAction) → Decidable (s.Recent act)
  | .complete _ => .isTrue trivial
  | .sendTo _ _ _ _ =>
    inferInstanceAs (Decidable (∀ o ∈ s.outstanding, s.calls < o.call + sendRing))

/-! ## One step -/

section step

variable {s t : SendState} {act : SendAction}

/-- What a call submits. -/
def submission (s : SendState) (buf : Bytes) (peer : SocketAddr) : Send :=
  ⟨s.cursor, s.calls, buf.take s.bufLen, peer⟩

theorem sendTo_eq (s : SendState) (buf : Bytes) (peer : SocketAddr) (drained : Nat)
    (wsa : Option Int) (hlen : s.outstanding.length ≤ sendRing) :
    ∃ sent ret, s.sendTo buf peer drained wsa =
        { s.copyIn buf peer drained with outstanding := s.outstanding ++ sent, ret := ret } ∧
      (∀ o ∈ sent, o = s.submission buf peer) ∧ (s.outstanding ++ sent).length ≤ sendRing := by
  unfold sendTo submitError
  by_cases hfull : s.outstanding.length < sendRing
  · rw [if_pos hfull]
    cases wsa with
    | none =>
      refine ⟨[s.submission buf peer], _, rfl, fun o ho => List.mem_singleton.mp ho, ?_⟩
      rw [List.length_append]
      exact hfull
    | some code => exact ⟨[], _, by rw [List.append_nil]; rfl, by simp, by simpa using hlen⟩
  · rw [if_neg hfull]
    exact ⟨[], _, by rw [List.append_nil]; rfl, by simp, by simpa using hlen⟩

/-- An outstanding send was submitted by an earlier call, from the slot of that call. -/
structure OfCall (s : SendState) (o : Send) : Prop where
  slot_eq : o.slot = o.call % sendRing
  call_lt : o.call < s.calls
  buf_le : o.buf.length ≤ s.bufLen

structure Ring (s : SendState) : Prop where
  data_length : s.data.length = sendRing * s.bufLen
  cursor_eq : s.cursor = s.calls % sendRing
  sends : ∀ o ∈ s.outstanding, s.OfCall o
  length_le : s.outstanding.length ≤ sendRing

theorem ring_new (bufLen : Nat) : (new bufLen).Ring :=
  ⟨List.length_replicate, rfl, fun _ ho => absurd ho List.not_mem_nil, Nat.zero_le _⟩

theorem Ring.slot_inside (hs : s.Ring) (call : Nat) :
    call % sendRing * s.bufLen + s.bufLen ≤ s.data.length := by
  have hslot : call % sendRing < sendRing := Nat.mod_lt _ (by decide)
  rw [hs.data_length, ← Nat.succ_mul]
  exact Nat.mul_le_mul_right _ hslot

theorem Ring.step (hs : s.Ring) (h : s.step act = some t) : t.Ring := by
  cases act with
  | complete k =>
    obtain ⟨o, -, rfl⟩ := Option.map_eq_some_iff.mp h
    refine ⟨hs.data_length, hs.cursor_eq, fun o' ho' => ?_, ?_⟩
    · have hold := hs.sends o' (List.mem_of_mem_eraseIdx ho')
      exact ⟨hold.slot_eq, hold.call_lt, hold.buf_le⟩
    · exact le_trans (List.length_eraseIdx_le _ _) hs.length_le
  | sendTo buf peer drained wsa =>
    obtain ⟨sent, ret, heq, hsent, hlen⟩ := sendTo_eq s buf peer drained wsa hs.length_le
    rw [SendState.step, heq] at h
    cases h
    have hbuf : (buf.take s.bufLen).length ≤ s.bufLen := List.length_take_le _ _
    refine ⟨?_, ?_, fun o ho => ?_, hlen⟩
    · have hinside := hs.slot_inside s.calls
      rw [← hs.cursor_eq] at hinside
      exact (overwrite_length (by omega)).trans hs.data_length
    · show (s.cursor + 1) % sendRing = (s.calls + 1) % sendRing
      rw [hs.cursor_eq, Nat.mod_add_mod]
    · rcases List.mem_append.mp ho with ho | ho
      · have hold := hs.sends o ho
        exact ⟨hold.slot_eq, Nat.lt_succ_of_lt hold.call_lt, hold.buf_le⟩
      · rw [hsent o ho]
        exact ⟨hs.cursor_eq, Nat.lt_succ_self _, hbuf⟩

theorem Ring.free_of_recent (hs : s.Ring) (h : s.Recent act) : s.Free act := by
  cases act with
  | complete k => trivial
  | sendTo buf peer drained wsa =>
    intro o ho hslot
    have hold := hs.sends o ho
    have hlt : s.calls < o.call + sendRing := h o ho
    have hcall := hold.call_lt
    rw [hold.slot_eq, hs.cursor_eq] at hslot
    unfold sendRing at hslot hlt
    omega

/-- No outstanding send has seen more than a whole ring of later calls. -/
def Lap (s : SendState) : Prop := ∀ o ∈ s.outstanding, s.calls ≤ o.call + sendRing

theorem Ring.recent_of_free (hs : s.Ring) (hlap : s.Lap) (h : s.Free act) : s.Recent act := by
  cases act with
  | complete k => trivial
  | sendTo buf peer drained wsa =>
    intro o ho
    have hold := hs.sends o ho
    have hne : o.slot ≠ s.cursor := h o ho
    have hle := hlap o ho
    have hlt := hold.call_lt
    rw [hold.slot_eq, hs.cursor_eq] at hne
    unfold sendRing at hne hle ⊢
    omega

theorem Lap.step (hs : s.Ring) (hlap : s.Lap) (hfree : s.Free act) (h : s.step act = some t) :
    t.Lap := by
  cases act with
  | complete k =>
    obtain ⟨o, -, rfl⟩ := Option.map_eq_some_iff.mp h
    exact fun o' ho' => hlap o' (List.mem_of_mem_eraseIdx ho')
  | sendTo buf peer drained wsa =>
    obtain ⟨sent, ret, heq, hsent, -⟩ := sendTo_eq s buf peer drained wsa hs.length_le
    rw [SendState.step, heq] at h
    cases h
    intro o ho
    rcases List.mem_append.mp ho with ho | ho
    · exact hs.recent_of_free hlap hfree o ho
    · rw [hsent o ho]
      exact Nat.add_le_add_left (by decide) s.calls

/-! ## What goes out -/

/-- The slots of outstanding sends hold what was submitted, and so did those of completed ones. -/
structure Intact (s : SendState) : Prop where
  outstanding : ∀ o ∈ s.outstanding, s.held o = (o.buf, some o.peer)
  wire : ∀ w ∈ s.wire, w.2 = (w.1.buf, some w.1.peer)

theorem Ring.held_copyIn (hs : s.Ring) {o : Send} (ho : s.OfCall o) (hne : o.slot ≠ s.cursor)
    (buf : Bytes) (peer : SocketAddr) (drained : Nat) :
    (s.copyIn buf peer drained).held o = s.held o := by
  have hinside := hs.slot_inside s.calls
  rw [← hs.cursor_eq] at hinside
  have hbuf : (buf.take s.bufLen).length ≤ s.bufLen := List.length_take_le _ _
  have hobuf := ho.buf_le
  have hdata : slice (overwrite s.data (s.cursor * s.bufLen) (buf.take s.bufLen))
      (o.slot * s.bufLen) o.buf.length = slice s.data (o.slot * s.bufLen) o.buf.length := by
    rcases Nat.lt_or_gt_of_ne hne with hlt | hgt
    · have hbefore := Nat.mul_le_mul_right s.bufLen (Nat.succ_le_of_lt hlt)
      rw [Nat.succ_mul] at hbefore
      exact slice_overwrite_before (by omega) (by omega)
    · have hafter := Nat.mul_le_mul_right s.bufLen (Nat.succ_le_of_lt hgt)
      rw [Nat.succ_mul] at hafter
      exact slice_overwrite_after (by omega) (by omega)
  exact Prod.ext hdata (if_neg hne)

theorem Ring.held_submission (hs : s.Ring) (buf : Bytes) (peer : SocketAddr) (drained : Nat) :
    (s.copyIn buf peer drained).held (s.submission buf peer) = (buf.take s.bufLen, some peer) := by
  have hinside := hs.slot_inside s.calls
  rw [← hs.cursor_eq] at hinside
  exact Prod.ext (slice_overwrite_self (le_of_add_le_left hinside)) (if_pos rfl)

theorem Intact.step (hs : s.Ring) (hintact : s.Intact) (hfree : s.Free act)
    (h : s.step act = some t) : t.Intact := by
  cases act with
  | complete k =>
    obtain ⟨o, ho, rfl⟩ := Option.map_eq_some_iff.mp h
    refine ⟨fun o' ho' => hintact.outstanding o' (List.mem_of_mem_eraseIdx ho'), fun w hw => ?_⟩
    rcases List.mem_append.mp hw with hw | hw
    · exact hintact.wire w hw
    · rw [List.mem_singleton.mp hw]
      exact hintact.outstanding o (List.mem_of_getElem? ho)
  | sendTo buf peer drained wsa =>
    obtain ⟨sent, ret, heq, hsent, -⟩ := sendTo_eq s buf peer drained wsa hs.length_le
    rw [SendState.step, heq] at h
    cases h
    refine ⟨fun o ho => ?_, hintact.wire⟩
    rcases List.mem_append.mp ho with ho | ho
    · exact (hs.held_copyIn (hs.sends o ho) (hfree o ho) buf peer drained).trans
        (hintact.outstanding o ho)
    · rw [hsent o ho]
      exact hs.held_submission buf peer drained

end step

/-! ## Whole runs -/

theorem ring_run {bufLen : Nat} {s : SendState} {as : List SendAction}
    (h : Steps step Any (new bufLen) as s) : s.Ring :=
  h.invariant (fun _ _ _ hI _ ha => hI.step ha) (ring_new bufLen)

/-- **When the ring is safe.** In every run at most `sendRing` sends are outstanding, and every copy
goes to a slot that no outstanding send uses exactly if at each call every outstanding send is one of
the last `sendRing - 1` calls. Then what goes out for a send is what was submitted. -/
theorem copies_free_iff {bufLen : Nat} {s : SendState} {as : List SendAction}
    (hrun : Steps step Any (new bufLen) as s) :
    s.outstanding.length ≤ sendRing ∧
    (Steps step Free (new bufLen) as s ↔ Steps step Recent (new bufLen) as s) ∧
    (Steps step Free (new bufLen) as s → s.Intact) := by
  refine ⟨(ring_run hrun).length_le, ⟨fun hfree => ?_, fun hrecent => ?_⟩, fun hfree => ?_⟩
  · refine hfree.mono_of_invariant (I := fun u => u.Ring ∧ u.Lap)
      (fun u act v hu hC ha => ⟨hu.1.step ha, hu.2.step hu.1 hC ha⟩)
      (fun u act hu hC => hu.1.recent_of_free hu.2 hC) ⟨ring_new bufLen, ?_⟩
    exact fun _ ho => absurd ho List.not_mem_nil
  · exact hrecent.mono_of_invariant (I := Ring) (fun _ _ _ hu _ ha => hu.step ha)
      (fun _ _ hu hC => hu.free_of_recent hC) (ring_new bufLen)
  · refine (hfree.invariant (I := fun u => u.Ring ∧ u.Intact)
      (fun u act v hu hC ha => ⟨hu.1.step ha, hu.2.step hu.1 hC ha⟩) ⟨ring_new bufLen, ?_⟩).2
    exact ⟨fun _ ho => absurd ho List.not_mem_nil, fun _ hw => absurd hw List.not_mem_nil⟩

def peerA : SocketAddr := ⟨.v4 0x0a000001#32, 5001⟩

def peerB : SocketAddr := ⟨.v4 0x0a000002#32, 5002⟩

/-- Sixteen sends, of which only the first completes; the next one goes to its slot, and goes out. -/
def wrappingSends : List SendAction :=
  List.replicate 16 (.sendTo [1] peerA 0 none) ++ [.complete 0, .sendTo [2] peerB 1 none, .complete 15]

theorem copies_free_iff_wrapping : ∃ s, Steps step Recent (new 4) wrappingSends s ∧
    Steps step Free (new 4) wrappingSends s ∧ s.outstanding.length = 15 ∧
    s.wire = [(⟨0, 0, [1], peerA⟩, [1], some peerA), (⟨0, 16, [2], peerB⟩, [2], some peerB)] ∧
    s.Intact := by
  obtain ⟨s, hrecent, hQ⟩ := steps_of_exec_check step (new 4) wrappingSends Recent
    (fun s => decide (s.outstanding.length = 15) && decide (s.wire =
      [(⟨0, 0, [1], peerA⟩, [1], some peerA), (⟨0, 16, [2], peerB⟩, [2], some peerB)]))
    (by decide +kernel)
  simp only [Bool.and_eq_true, decide_eq_true_eq] at hQ
  obtain ⟨-, hiff, hintact⟩ := copies_free_iff (hrecent.mono fun _ _ _ => trivial)
  have hfree := hiff.mpr hrecent
  exact ⟨s, hrecent, hfree, hQ.1, hQ.2, hintact hfree⟩

/-- Sixteen feedback messages to one peer wait in the queue and nothing has completed. The next call
is refused, but it has put its payload and address into slot 0, and the first message goes out as the
refused one. -/
theorem copy_over_outstanding :
    let sends := List.replicate 16 (SendAction.sendTo [1] peerA 0 none)
    let last := SendAction.sendTo [2] peerB 0 none
    ∃ s t u, exec step (new 4) sends = some s ∧ s.outstanding.length = sendRing ∧
      ¬ s.Free last ∧ s.step last = some t ∧ t.outstanding = s.outstanding ∧
      t.ret = some (.error "RIOSendEx failed: wsa 10055") ∧ t.step (.complete 0) = some u ∧
      u.wire = [(⟨0, 0, [1], peerA⟩, [2], some peerB)] := by
  refine ⟨_, _, _, rfl, rfl, fun hfree => ?_, rfl, rfl, rfl, rfl, rfl⟩
  exact hfree ⟨0, 0, [1], peerA⟩ (List.mem_cons_self ..) rfl

end SendState

end Girth.Sys.Rio
