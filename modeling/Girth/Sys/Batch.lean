import Girth.Lib.Machine
import Girth.Protocol

/-!
# Batched sending

The sender's datagrams are queued in a `BatchSender` and handed to the socket by `flush`. The
portable backend calls `send_to` for each. The Linux backend offers the whole queue to `sendmmsg`,
goes on behind what was taken, retries when interrupted, and leaves the rest to `send_to` when the
call fails or takes nothing; after a failure it no longer tries `sendmmsg`.

`Os` is what the operating system answers, call by call. `Linux.flush_spec` is the specification of
one flush: it ends, and every queued datagram is handed over once, in order, whatever the answers
are. `sim_run` compares whole lives of the two backends.
-/

namespace Girth.Sys

open Lib

/-! ## The socket -/

/-- An answer of `sendmmsg` to `offered` messages that is not an interruption: an error, or how many
of them were sent. -/
inductive Answer (offered : Nat)
  | error
  | sent (r : Fin (offered + 1))

/-- The answers of the operating system: how often `sendmmsg` is interrupted before its `k`th answer,
these answers, and which calls of `send_to` succeed. -/
structure Os where
  interrupts : Nat → Nat
  answer : Nat → (offered : Nat) → Answer offered
  sendTo : Nat → Bool

/-- How far these answers have been used up. -/
structure Calls where
  answered : Nat := 0
  interrupted : Nat := 0
  sends : Nat := 0
  deriving DecidableEq, Repr

/-- One datagram handed over for transmission, and whether it was sent. -/
structure Offer where
  pkt : Bytes
  ok : Bool
  deriving DecidableEq, Repr

def Offer.sent (pkt : Bytes) : Offer := ⟨pkt, true⟩

/-- One call of `sendmmsg`; nothing if it was interrupted. -/
def Os.sendmmsg (os : Os) (st : Calls) (offered : Nat) : Option (Answer offered) × Calls :=
  if st.interrupted < os.interrupts st.answered then
    (none, { st with interrupted := st.interrupted + 1 })
  else
    (some (os.answer st.answered offered),
      { st with answered := st.answered + 1, interrupted := 0 })

/-- `send_to` for each datagram, counting on from `sent`. -/
def Os.sendEach (os : Os) : Calls → Nat → List Bytes → Calls × Nat × List Offer
  | st, sent, [] => (st, sent, [])
  | st, sent, p :: ps =>
    let ok := os.sendTo st.sends
    let (st, sent, offers) :=
      os.sendEach { st with sends := st.sends + 1 } (if ok then sent + 1 else sent) ps
    (st, sent, ⟨p, ok⟩ :: offers)

/-- What one `flush` did: its queue, what it handed over and what it returned. -/
structure Flushed where
  queue : List Bytes
  offers : List Offer
  ret : Nat
  deriving DecidableEq, Repr

/-! ## The portable backend -/

namespace Portable

structure BatchSender where
  cap : Nat
  pkts : List Bytes
  deriving DecidableEq, Repr

namespace BatchSender

def new (capHint : Nat) : BatchSender := ⟨max capHint 8, []⟩

def reset (bs : BatchSender) : BatchSender := { bs with pkts := [] }

def add (bs : BatchSender) (p : Bytes) : BatchSender :=
  if bs.pkts.length ≥ bs.cap then bs else { bs with pkts := bs.pkts ++ [p] }

def flush (os : Os) (bs : BatchSender) (st : Calls) : Calls × Flushed :=
  let (st, sent, offers) := os.sendEach st 0 bs.pkts
  (st, ⟨bs.pkts, offers, sent⟩)

end BatchSender

end Portable

/-! ## The Linux backend -/

namespace Linux

/-- The slots are allocated once; the first `n` hold the queue. -/
structure BatchSender where
  cap : Nat
  iovs : List Bytes
  n : Nat
  bad : Bool
  iovs_length : iovs.length = cap
  n_le : n ≤ cap

/-- Where the `sendmmsg` loop was left. -/
structure Mid where
  calls : Calls
  sent : Nat
  bad : Bool
  offers : List Offer

/-- The `sendmmsg` loop of `flush`, with `offers` handed over so far. -/
def mmsgLoop (os : Os) (queue : List Bytes) : Nat → Calls → Nat → List Offer → Option Mid
  | 0, _, _, _ => none
  | fuel + 1, st, sent, offers =>
    if sent < queue.length then
      match os.sendmmsg st (queue.length - sent) with
      | (none, st) => mmsgLoop os queue fuel st sent offers
      | (some .error, st) => some ⟨st, sent, true, offers⟩
      | (some (.sent r), st) =>
        if r.val = 0 then some ⟨st, sent, false, offers⟩
        else
          mmsgLoop os queue fuel st (sent + r) (offers ++ (slice queue sent r).map .sent)
    else some ⟨st, sent, false, offers⟩

namespace BatchSender

theorem new_iovs_length (capHint : Nat) :
    (List.replicate (max capHint 8) ([] : Bytes)).length = max capHint 8 := List.length_replicate

def new (capHint : Nat) (noBatch : Bool) : BatchSender where
  cap := max capHint 8
  iovs := List.replicate (max capHint 8) []
  n := 0
  bad := noBatch
  iovs_length := new_iovs_length capHint
  n_le := Nat.zero_le _

def reset (bs : BatchSender) : BatchSender := { bs with n := 0, n_le := Nat.zero_le _ }

theorem set_iovs_length (bs : BatchSender) (p : Bytes) : (bs.iovs.set bs.n p).length = bs.cap := by
  rw [List.length_set, bs.iovs_length]

def add (bs : BatchSender) (p : Bytes) : BatchSender :=
  if h : bs.n ≥ bs.cap then bs
  else
    { bs with
      iovs := bs.iovs.set bs.n p
      n := bs.n + 1
      iovs_length := bs.set_iovs_length p
      n_le := Nat.lt_of_not_le h }

def queue (bs : BatchSender) : List Bytes := bs.iovs.take bs.n

def flush (os : Os) (fuel : Nat) (bs : BatchSender) (st : Calls) :
    Option (BatchSender × Calls × Flushed) :=
  if bs.n = 0 then some (bs, st, ⟨bs.queue, [], 0⟩)
  else
    (if bs.bad then some ⟨st, 0, true, []⟩ else mmsgLoop os bs.queue fuel st 0 []).map fun mid =>
      let (st, sent, offers) := os.sendEach mid.calls mid.sent (bs.queue.drop mid.sent)
      ({ bs with bad := mid.bad }, st, ⟨bs.queue, mid.offers ++ offers, sent⟩)

end BatchSender

end Linux

/-! ## Sending one by one -/

theorem sendEach_spec (os : Os) (st : Calls) (sent : Nat) (ps : List Bytes) :
    (os.sendEach st sent ps).2.2.map (·.pkt) = ps ∧
      (os.sendEach st sent ps).2.1 = sent + (os.sendEach st sent ps).2.2.countP (·.ok) ∧
      ((∀ k, os.sendTo k = true) → (os.sendEach st sent ps).2.2 = ps.map .sent) := by
  induction ps generalizing st sent with
  | nil => exact ⟨rfl, rfl, fun _ => rfl⟩
  | cons p ps ih =>
    obtain ⟨hpkts, hsent, hok⟩ := ih { st with sends := st.sends + 1 }
      (if os.sendTo st.sends then sent + 1 else sent)
    refine ⟨?_, ?_, fun hall => ?_⟩
    · rw [Os.sendEach, List.map_cons]
      exact congrArg (p :: ·) hpkts
    · rw [Os.sendEach, List.countP_cons]
      refine hsent.trans ?_
      generalize List.countP _ _ = c
      split_ifs <;> omega
    · rw [Os.sendEach, List.map_cons, ← hok hall]
      simp only [hall st.sends]
      rfl

/-! ## The `sendmmsg` loop -/

namespace Linux

section loop

variable {os : Os} {queue : List Bytes} {fuel : Nat} {st : Calls} {sent : Nat} {offers : List Offer}
  {mid : Mid}

theorem mmsgLoop_mono (h : mmsgLoop os queue fuel st sent offers = some mid) :
    mmsgLoop os queue (fuel + 1) st sent offers = some mid := by
  induction fuel generalizing st sent offers with
  | zero => cases h
  | succ fuel ih =>
    rw [mmsgLoop] at h ⊢
    split
    · rename_i hlt
      rw [if_pos hlt] at h
      split at h
      · exact ih h
      · exact h
      · split
        · rename_i hr
          rwa [if_pos hr] at h
        · rename_i hr
          rw [if_neg hr] at h
          exact ih h
    · rename_i hge
      rwa [if_neg hge] at h

theorem mmsgLoop_spec (hsent : sent ≤ queue.length) (hoffers : offers = (queue.take sent).map .sent)
    (h : mmsgLoop os queue fuel st sent offers = some mid) :
    mid.sent ≤ queue.length ∧ mid.offers = (queue.take mid.sent).map .sent := by
  induction fuel generalizing st sent offers with
  | zero => cases h
  | succ fuel ih =>
    rw [mmsgLoop] at h
    split at h
    · rename_i hlt
      split at h
      · exact ih hsent hoffers h
      · cases h
        exact ⟨hsent, hoffers⟩
      · rename_i r _ _
        split at h
        · cases h
          exact ⟨hsent, hoffers⟩
        · have hr := r.isLt
          refine ih (by omega) ?_ h
          rw [hoffers, ← List.map_append, slice, ← List.take_add]
    · cases h
      exact ⟨hsent, hoffers⟩

/-- The loop ends: every answer takes at least one datagram or ends it, and between two answers there
are only so many interruptions. -/
theorem mmsgLoop_ends (os : Os) (queue : List Bytes) (st : Calls) (sent : Nat) (offers : List Offer) :
    ∃ fuel mid, mmsgLoop os queue fuel st sent offers = some mid := by
  induction hleft : queue.length - sent using Nat.strong_induction_on
    generalizing st sent offers with
  | _ left ih =>
    induction hint : os.interrupts st.answered - st.interrupted generalizing st with
    | zero =>
      by_cases hlt : sent < queue.length
      · have hcall : os.sendmmsg st (queue.length - sent) =
            (some (os.answer st.answered (queue.length - sent)),
              { st with answered := st.answered + 1, interrupted := 0 }) :=
          if_neg (by omega)
        cases hans : os.answer st.answered (queue.length - sent) with
        | error => exact ⟨1, _, by rw [mmsgLoop, if_pos hlt, hcall, hans]⟩
        | sent r =>
          by_cases hr : r.val = 0
          · exact ⟨1, _, by rw [mmsgLoop, if_pos hlt, hcall, hans]; exact if_pos hr⟩
          · obtain ⟨fuel, mid, hmid⟩ := ih (queue.length - (sent + r)) (by omega)
              { st with answered := st.answered + 1, interrupted := 0 } (sent + r)
              (offers ++ (slice queue sent r).map .sent) rfl
            exact ⟨fuel + 1, mid, by
              rw [mmsgLoop, if_pos hlt, hcall, hans]; exact (if_neg hr).trans hmid⟩
      · exact ⟨1, _, by rw [mmsgLoop, if_neg hlt]⟩
    | succ k ihint =>
      by_cases hlt : sent < queue.length
      · have hcall : os.sendmmsg st (queue.length - sent) =
            (none, { st with interrupted := st.interrupted + 1 }) := if_pos (by omega)
        obtain ⟨fuel, mid, hmid⟩ := ihint { st with interrupted := st.interrupted + 1 }
          (by show os.interrupts st.answered - (st.interrupted + 1) = k; omega)
        exact ⟨fuel + 1, mid, by rw [mmsgLoop, if_pos hlt, hcall]; exact hmid⟩
      · exact ⟨1, _, by rw [mmsgLoop, if_neg hlt]⟩

end loop

/-! ## One flush -/

/-- The batch of a flush: the queue, every datagram once and in its order, and the number that was
sent; if `send_to` succeeds, all of it was. -/
structure Exact (os : Os) (queue : List Bytes) (f : Flushed) : Prop where
  queue_eq : f.queue = queue
  order : f.offers.map (·.pkt) = queue
  ret : f.ret = f.offers.countP (·.ok)
  all : (∀ k, os.sendTo k = true) → f.offers = queue.map .sent

theorem exact_of_mid {os : Os} {queue : List Bytes} {mid : Mid} (hsent : mid.sent ≤ queue.length)
    (hoffers : mid.offers = (queue.take mid.sent).map .sent) :
    Exact os queue ⟨queue,
      mid.offers ++ (os.sendEach mid.calls mid.sent (queue.drop mid.sent)).2.2,
      (os.sendEach mid.calls mid.sent (queue.drop mid.sent)).2.1⟩ := by
  obtain ⟨hpkts, hret, hall⟩ := sendEach_spec os mid.calls mid.sent (queue.drop mid.sent)
  have hfront : (mid.offers.map (·.pkt)) = queue.take mid.sent := by
    rw [hoffers, List.map_map]
    exact List.map_id _
  have hcount : mid.offers.countP (·.ok) = mid.sent := by
    have hall : (queue.take mid.sent).countP ((·.ok) ∘ Offer.sent) = (queue.take mid.sent).length :=
      List.countP_eq_length.mpr fun _ _ => rfl
    rw [hoffers, List.countP_map, hall, List.length_take, Nat.min_eq_left hsent]
  refine ⟨rfl, ?_, ?_, fun hok => ?_⟩
  · rw [List.map_append, hfront, hpkts, List.take_append_drop]
  · rw [List.countP_append, hcount]
    exact hret
  · rw [hall hok, hoffers, ← List.map_append, List.take_append_drop]

theorem batch_ends (os : Os) (bs : BatchSender) (st : Calls) : ∃ fuel₀ mid,
    (∀ fuel ≥ fuel₀, (if bs.bad then some ⟨st, 0, true, []⟩ else mmsgLoop os bs.queue fuel st 0 []) =
      some mid) ∧
      mid.sent ≤ bs.queue.length ∧ mid.offers = (bs.queue.take mid.sent).map .sent := by
  cases bs.bad with
  | true => exact ⟨0, _, fun _ _ => rfl, Nat.zero_le _, rfl⟩
  | false =>
    obtain ⟨fuel₀, mid, hmid⟩ := mmsgLoop_ends os bs.queue st 0 []
    refine ⟨fuel₀, mid, fun fuel hfuel => ?_, mmsgLoop_spec (Nat.zero_le _) rfl hmid⟩
    induction fuel, hfuel using Nat.le_induction with
    | base => exact hmid
    | succ fuel _ ih => exact mmsgLoop_mono ih

/-- **One flush** of the Linux backend ends, keeps the queue and hands over all of it once. -/
theorem flush_spec (os : Os) (bs : BatchSender) (st : Calls) : ∃ fuel₀ bs' st' f,
    (∀ fuel ≥ fuel₀, bs.flush os fuel st = some (bs', st', f)) ∧
      bs'.cap = bs.cap ∧ bs'.queue = bs.queue ∧ Exact os bs.queue f := by
  by_cases hn : bs.n = 0
  · have hqueue : bs.queue = [] := by
      rw [BatchSender.queue, hn]
      rfl
    exact ⟨0, bs, st, ⟨bs.queue, [], 0⟩, fun fuel _ => if_pos hn, rfl, rfl,
      ⟨rfl, hqueue.symm, rfl, fun _ => by rw [hqueue]; rfl⟩⟩
  · obtain ⟨fuel₀, mid, hmid, hsent, hoffers⟩ := batch_ends os bs st
    refine ⟨fuel₀, { bs with bad := mid.bad },
      (os.sendEach mid.calls mid.sent (bs.queue.drop mid.sent)).1, _, fun fuel hfuel => ?_, rfl, rfl,
      exact_of_mid hsent hoffers⟩
    rw [BatchSender.flush, if_neg hn, hmid fuel hfuel]
    rfl

/-! ## The queue -/

namespace BatchSender

@[simp] theorem queue_reset (bs : BatchSender) : bs.reset.queue = [] := rfl

theorem queue_length (bs : BatchSender) : bs.queue.length = bs.n := by
  rw [queue, List.length_take, bs.iovs_length, Nat.min_eq_left bs.n_le]

theorem queue_add (bs : BatchSender) (p : Bytes) :
    (bs.add p).queue = if bs.queue.length ≥ bs.cap then bs.queue else bs.queue ++ [p] := by
  rw [queue_length]
  unfold add
  split
  · rfl
  · rename_i h
    have hslot : bs.n < bs.iovs.length := by
      rw [bs.iovs_length]
      omega
    show (bs.iovs.set bs.n p).take (bs.n + 1) = _
    rw [List.take_add_one, List.take_set_of_le le_rfl, List.getElem?_set_self hslot]
    rfl

theorem cap_add (bs : BatchSender) (p : Bytes) : (bs.add p).cap = bs.cap := by
  unfold add
  split <;> rfl

end BatchSender

end Linux

/-! ## Whole lives -/

inductive SendOp
  | reset
  | add (p : Bytes)
  | flush

/-- A sender with the answers used up and the flushes so far, newest first. -/
structure Life (σ : Type) where
  sender : σ
  calls : Calls := {}
  flushes : List Flushed := []

def portableStep (os : Os) (l : Life Portable.BatchSender) :
    SendOp → Option (Life Portable.BatchSender)
  | .reset => some { l with sender := l.sender.reset }
  | .add p => some { l with sender := l.sender.add p }
  | .flush =>
    let (calls, f) := l.sender.flush os l.calls
    some { l with calls := calls, flushes := f :: l.flushes }

def linuxStep (os : Os) (fuel : Nat) (l : Life Linux.BatchSender) :
    SendOp → Option (Life Linux.BatchSender)
  | .reset => some { l with sender := l.sender.reset }
  | .add p => some { l with sender := l.sender.add p }
  | .flush => (l.sender.flush os fuel l.calls).map fun (sender, calls, f) =>
      ⟨sender, calls, f :: l.flushes⟩

/-! ### Room in the queue -/

theorem queue_foldl_add {σ : Type*} {add : σ → Bytes → σ} {cap : σ → Nat} {queue : σ → List Bytes}
    (hcap : ∀ b p, cap (add b p) = cap b)
    (hadd : ∀ b p, (queue b).length < cap b → queue (add b p) = queue b ++ [p]) (b : σ)
    (ps : List Bytes) (h : (queue b).length + ps.length ≤ cap b) :
    queue (ps.foldl add b) = queue b ++ ps := by
  induction ps generalizing b with
  | nil => exact (List.append_nil _).symm
  | cons p ps ih =>
    rw [List.length_cons] at h
    have hp : queue (add b p) = queue b ++ [p] := hadd b p (by omega)
    have hroom : (queue (add b p)).length + ps.length ≤ cap (add b p) := by
      rw [hp, hcap, List.length_append, List.length_singleton]
      omega
    rw [List.foldl_cons, ih _ hroom, hp, List.append_assoc, List.singleton_append]

namespace Linux

theorem flush_cap {os : Os} {fuel : Nat} {bs bs' : BatchSender} {st st' : Calls} {f : Flushed}
    (h : bs.flush os fuel st = some (bs', st', f)) : bs'.cap = bs.cap := by
  unfold BatchSender.flush at h
  split at h
  · cases h
    rfl
  · obtain ⟨mid, -, hmid⟩ := Option.map_eq_some_iff.mp h
    cases hmid
    rfl

theorem cap_run {os : Os} {fuel : Nat} {l l' : Life BatchSender} {ops : List SendOp}
    (h : exec (linuxStep os fuel) l ops = some l') : l'.sender.cap = l.sender.cap := by
  refine (Steps.of_exec h).invariant (I := fun u => u.sender.cap = l.sender.cap) ?_ rfl
  intro u op v hcap _ hop
  cases op with
  | reset =>
    cases hop
    exact hcap
  | add p =>
    cases hop
    exact (u.sender.cap_add p).trans hcap
  | flush =>
    obtain ⟨⟨bs', st', f⟩, hflush, rfl⟩ := Option.map_eq_some_iff.mp hop
    exact (flush_cap hflush).trans hcap

theorem queue_adds {bs : BatchSender} {ps : List Bytes} (hempty : bs.queue = [])
    (h : ps.length ≤ bs.cap) : (ps.foldl BatchSender.add bs).queue = ps := by
  have hall := queue_foldl_add BatchSender.cap_add
    (fun b p hroom => (b.queue_add p).trans (if_neg (by omega))) bs ps (by rw [hempty]; simpa using h)
  rw [hall, hempty, List.nil_append]

end Linux

namespace Portable

theorem cap_add (bs : BatchSender) (p : Bytes) : (bs.add p).cap = bs.cap := by
  unfold BatchSender.add
  split <;> rfl

theorem cap_run {os : Os} {l l' : Life BatchSender} {ops : List SendOp}
    (h : exec (portableStep os) l ops = some l') : l'.sender.cap = l.sender.cap := by
  refine (Steps.of_exec h).invariant (I := fun u => u.sender.cap = l.sender.cap) ?_ rfl
  intro u op v hcap _ hop
  cases op with
  | reset | flush =>
    cases hop
    exact hcap
  | add p =>
    cases hop
    exact (cap_add u.sender p).trans hcap

theorem pkts_adds {bs : BatchSender} {ps : List Bytes} (hempty : bs.pkts = [])
    (h : ps.length ≤ bs.cap) : (ps.foldl BatchSender.add bs).pkts = ps := by
  have hadd (b : BatchSender) (p : Bytes) (hroom : b.pkts.length < b.cap) :
      (b.add p).pkts = b.pkts ++ [p] := by
    rw [BatchSender.add, if_neg (by omega)]
  have hall := queue_foldl_add cap_add hadd bs ps (by rw [hempty]; simpa using h)
  rw [hall, hempty, List.nil_append]

end Portable

/-! ### The two backends -/

/-- The two backends hold the same queue, flushed the same queues before, and every flush of the
Linux backend was exact; if `send_to` succeeds, the flushes are the same. -/
structure Sim (os : Os) (lin : Life Linux.BatchSender) (por : Life Portable.BatchSender) : Prop where
  cap : lin.sender.cap = por.sender.cap
  queue : lin.sender.queue = por.sender.pkts
  exact : ∀ f ∈ lin.flushes, Linux.Exact os f.queue f
  queues : lin.flushes.map (·.queue) = por.flushes.map (·.queue)
  same : (∀ k, os.sendTo k = true) → lin.flushes = por.flushes

theorem sim_step {os : Os} {lin : Life Linux.BatchSender} {por : Life Portable.BatchSender}
    (h : Sim os lin por) (op : SendOp) : ∃ fuel₀ lin' por',
      (∀ fuel ≥ fuel₀, linuxStep os fuel lin op = some lin') ∧
        portableStep os por op = some por' ∧ Sim os lin' por' := by
  cases op with
  | reset => exact ⟨0, _, _, fun _ _ => rfl, rfl, ⟨h.cap, rfl, h.exact, h.queues, h.same⟩⟩
  | add p =>
    refine ⟨0, _, _, fun _ _ => rfl, rfl, ⟨?_, ?_, h.exact, h.queues, h.same⟩⟩
    · show (lin.sender.add p).cap = (por.sender.add p).cap
      rw [lin.sender.cap_add, h.cap, Portable.BatchSender.add]
      split <;> rfl
    · show (lin.sender.add p).queue = (por.sender.add p).pkts
      rw [lin.sender.queue_add, h.queue, h.cap, Portable.BatchSender.add]
      split <;> rfl
  | flush =>
    obtain ⟨fuel₀, bs', st', f, hflush, hcap, hqueue, hexact⟩ :=
      Linux.flush_spec os lin.sender lin.calls
    obtain ⟨hpkts, hret, hall⟩ := sendEach_spec os por.calls 0 por.sender.pkts
    refine ⟨fuel₀, ⟨bs', st', f :: lin.flushes⟩, _, fun fuel hfuel => ?_, rfl, ?_⟩
    · rw [linuxStep, hflush fuel hfuel]
      rfl
    · refine ⟨hcap.trans h.cap, hqueue.trans h.queue, ?_, ?_, fun hok => ?_⟩
      · rw [List.forall_mem_cons, hexact.queue_eq]
        exact ⟨hexact, h.exact⟩
      · show f.queue :: _ = por.sender.pkts :: _
        rw [hexact.queue_eq, h.queue, h.queues]
      · -- both hand over the whole queue and count it
        have hf : f = (por.sender.flush os por.calls).2 := by
          obtain ⟨fqueue, foffers, fret⟩ := f
          have h₁ : fqueue = lin.sender.queue := hexact.queue_eq
          have h₂ : foffers = lin.sender.queue.map .sent := hexact.all hok
          have h₃ : fret = foffers.countP (·.ok) := hexact.ret
          show _ = Flushed.mk por.sender.pkts (os.sendEach por.calls 0 por.sender.pkts).2.2
            (os.sendEach por.calls 0 por.sender.pkts).2.1
          rw [hret, hall hok, h₁, h₃, h₂, h.queue, Nat.zero_add]
        show f :: _ = (por.sender.flush os por.calls).2 :: _
        rw [hf, h.same hok]

theorem sim_run {os : Os} (ops : List SendOp) {lin : Life Linux.BatchSender}
    {por : Life Portable.BatchSender} (h : Sim os lin por) : ∃ fuel₀ lin' por',
      (∀ fuel ≥ fuel₀, exec (linuxStep os fuel) lin ops = some lin') ∧
        exec (portableStep os) por ops = some por' ∧ Sim os lin' por' := by
  induction ops generalizing lin por with
  | nil => exact ⟨0, lin, por, fun _ _ => rfl, rfl, h⟩
  | cons op ops ih =>
    obtain ⟨fuel₁, lin₁, por₁, hlin₁, hpor₁, h₁⟩ := sim_step h op
    obtain ⟨fuel₂, lin₂, por₂, hlin₂, hpor₂, h₂⟩ := ih h₁
    refine ⟨max fuel₁ fuel₂, lin₂, por₂, fun fuel hfuel => ?_, ?_, h₂⟩
    · rw [exec, hlin₁ fuel (le_trans (le_max_left _ _) hfuel), Option.bind_some]
      exact hlin₂ fuel (le_trans (le_max_right _ _) hfuel)
    · rw [exec, hpor₁, Option.bind_some]
      exact hpor₂

/-- **Batched sending is per-packet sending.** Whatever is queued and flushed, and whatever the
operating system answers, each flush of the Linux backend returns: it has handed over each queued
datagram exactly once, in the order of the queue, and returns how many were sent. Its queues are those
of the portable backend; if `send_to` succeeds, both backends transmit the same. -/
theorem batched_eq_perPacket (os : Os) (capHint : Nat) (noBatch : Bool) (ops : List SendOp) :
    ∃ fuel₀ lin por,
      (∀ fuel ≥ fuel₀, exec (linuxStep os fuel) ⟨.new capHint noBatch, {}, []⟩ ops = some lin) ∧
      exec (portableStep os) ⟨.new capHint, {}, []⟩ ops = some por ∧
      (∀ f ∈ lin.flushes, f.offers.map (·.pkt) = f.queue ∧ f.ret = f.offers.countP (·.ok)) ∧
      lin.flushes.map (·.queue) = por.flushes.map (·.queue) ∧
      ((∀ k, os.sendTo k = true) → lin.flushes = por.flushes ∧
        ∀ f ∈ lin.flushes, f.offers = f.queue.map .sent) := by
  have hstart : Sim os ⟨.new capHint noBatch, {}, []⟩ ⟨.new capHint, {}, []⟩ :=
    ⟨rfl, rfl, by simp, rfl, fun _ => rfl⟩
  obtain ⟨fuel₀, lin, por, hlin, hpor, h⟩ := sim_run ops hstart
  exact ⟨fuel₀, lin, por, hlin, hpor, fun f hf => ⟨(h.exact f hf).order, (h.exact f hf).ret⟩,
    h.queues, fun hok => ⟨h.same hok, fun f hf => (h.exact f hf).all hok⟩⟩

theorem min_one_lt (offered : Nat) : min 1 offered < offered + 1 := by omega

/-- Each call is interrupted once; the first one then sends one message, the next one fails, and so
does the second `send_to`. -/
def roughOs : Os where
  interrupts _ := 1
  answer k offered := if k = 0 then .sent ⟨min 1 offered, min_one_lt offered⟩ else .error
  sendTo k := k != 1

/-- Three datagrams in these conditions: one by `sendmmsg`, two by `send_to`, the last of which is
lost. -/
theorem batched_eq_perPacket_rough :
    let ops : List SendOp := [.add [1], .add [2], .add [3], .flush]
    ∃ lin, exec (linuxStep roughOs 8) ⟨.new 4 false, {}, []⟩ ops = some lin ∧
      lin.flushes = [⟨[[1], [2], [3]], [⟨[1], true⟩, ⟨[2], true⟩, ⟨[3], false⟩], 2⟩] ∧
      ∃ fuel₀ lin', ∀ fuel ≥ fuel₀, exec (linuxStep roughOs fuel) ⟨.new 4 false, {}, []⟩ ops = some lin' := by
  obtain ⟨fuel₀, lin', -, hlin', -⟩ :=
    batched_eq_perPacket roughOs 4 false [.add [1], .add [2], .add [3], .flush]
  exact ⟨_, rfl, by decide, fuel₀, lin', hlin'⟩

end Girth.Sys
