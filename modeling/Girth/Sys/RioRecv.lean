import Girth.Lib.Machine
import Mathlib.Algebra.Order.Ring.Nat
import Mathlib.Data.List.Count

/-!
# The receive slots of the Windows backend

The engine keeps a fixed pool of receive slots. A slot is posted to the request queue; its completion
lands in the completion queue and is harvested by `recv`, which exposes the slot to the caller and
notes it in `pending`; the next call posts it again, and keeps it in `pending` if that fails. One step
of `recv` is one of its calls of the operating system, and the kernel completes posted receives in
between, in any order.

`places` counts where a slot is, over all of these lists. Each step moves slots between the lists and
neither drops nor copies one (`places_step`), so every slot is always in exactly one place
(`slots_conserved`).
-/

namespace Girth.Sys.Rio

open Lib

/-- Receives kept posted on the socket. -/
def nslots : Nat := 4096

/-- Completions harvested per call. -/
def deq : Nat := 512

/-- The request context of a send. -/
def sendCtx : Nat := 2 ^ 64 - 1

structure RioResult where
  status : Int
  bytesTransferred : Nat
  requestContext : Nat
  deriving DecidableEq, Repr

structure IoErr where
  wouldBlock : Bool
  text : String
  deriving DecidableEq, Repr

/-! ## The engine and its harvester -/

/-- Where the harvester is: between two calls of `recv`, or inside one. -/
inductive Pc
  | idle
  /-- Re-posting: the slots still to be posted; those whose posting failed are in `pending` again. -/
  | repost (todo : List Nat)
  | dequeue
  | arm
  | wait
  | dequeueAgain
  | harvest (results : List RioResult)
  deriving DecidableEq

structure State where
  /-- Receives in the request queue, by their slots. -/
  rq : List Nat
  /-- Completions that wait in the completion queue. -/
  cq : List RioResult
  pending : List Nat
  /-- Slot and bytes of the datagrams exposed to the caller. -/
  batch : List (Nat × Nat)
  armed : Bool
  pc : Pc
  /-- What the last call returned. -/
  ret : Option (Except IoErr Nat)

/-- What the operating system answers: whether a receive is posted, how many completions are dequeued
(nothing if the queue is corrupt), the result of arming the notification, and whether the event is
signaled in time. -/
structure Env where
  posted : Bool := true
  dequeued : Option Nat := some 0
  notify : Int := 0
  signaled : Bool := false

inductive Action
  /-- The kernel completes the `k`th posted receive. -/
  | complete (k : Nat) (status : Int) (bytes : Nat)
  | recv (env : Env)

/-- `post_recv` for each slot, up to the first that fails; `wsa` is the error code of a call that
does. -/
def postAll (wsa : Nat → Option Int) : List Nat → List Nat → Except String (List Nat)
  | rq, [] => .ok rq
  | rq, i :: rest =>
    match wsa i with
    | none => postAll wsa (rq ++ [i]) rest
    | some code => .error s!"RIOReceiveEx failed (slot {i}, wsa {code})"

/-- `RioCore::new` posts all slots and arms the notification; `worker` builds the harvester. -/
def new (wsa : Nat → Option Int) (notify : Int) : Except String State :=
  match postAll wsa [] (List.range nslots) with
  | .error e => .error e
  | .ok rq =>
    if notify ≠ 0 then .error s!"RIONotify failed: {notify}"
    else .ok ⟨rq, [], [], [], true, .idle, none⟩

/-- The call returns. -/
def State.leave (s : State) (ret : Except IoErr Nat) : State :=
  { s with pc := .idle, ret := some ret }

/-- What a dequeue takes: at most as many as asked for and as there are. -/
def State.taken (s : State) (n : Nat) : Nat := min n (min deq s.cq.length)

/-- A dequeue of `n` completions, and `empty` if there are none. -/
def State.takeCompletions (s : State) (n : Nat) (empty : State) : State :=
  if s.taken n = 0 then empty
  else { s with cq := s.cq.drop (s.taken n), pc := .harvest (s.cq.take (s.taken n)) }

/-- One step of `recv`. -/
def recvStep (s : State) (env : Env) : State :=
  match s.pc with
  | .idle => { s with pending := [], pc := .repost s.pending }
  | .repost [] => { s with batch := [], pc := .dequeue }
  | .repost (i :: todo) =>
    -- `retain`: a slot whose re-post fails stays queued
    if env.posted then { s with rq := s.rq ++ [i], pc := .repost todo }
    else { s with pending := s.pending ++ [i], pc := .repost todo }
  | .dequeue =>
    match env.dequeued with
    | none => s.leave (.error ⟨false, "RIO completion queue corrupt"⟩)
    | some n => s.takeCompletions n { s with pc := .arm }
  | .arm =>
    if s.armed then { s with pc := .wait }
    else if env.notify ≠ 0 then s.leave (.error ⟨false, s!"RIONotify failed: {env.notify}"⟩)
    else { s with armed := true, pc := .wait }
  | .wait =>
    if env.signaled then { s with armed := false, pc := .dequeueAgain }
    else s.leave (.error ⟨true, "rio idle"⟩)
  | .dequeueAgain =>
    match env.dequeued with
    | none => s.leave (.error ⟨false, "RIO completion queue corrupt"⟩)
    | some n => s.takeCompletions n (s.leave (.error ⟨true, "rio idle"⟩))
  | .harvest [] => s.leave (.ok s.batch.length)
  | .harvest (r :: rest) =>
    if r.requestContext = sendCtx then { s with pc := .harvest rest }
    else
      let idx := r.requestContext % 2 ^ 32
      let bytes := if r.status = 0 then r.bytesTransferred else 0
      { s with
        batch := s.batch ++ [(idx, bytes)]
        pending := s.pending ++ [idx]
        pc := .harvest rest }

def step (s : State) : Action → Option State
  | .complete k status bytes => (s.rq[k]?).map fun i =>
      { s with rq := s.rq.eraseIdx k, cq := s.cq ++ [⟨status, bytes, i⟩] }
  | .recv env => some (recvStep s env)

/-! ## Where a slot is -/

/-- The slots of completions. -/
def slots (rs : List RioResult) : List Nat := rs.map (·.requestContext)

/-- How often the running call holds the slot. -/
def Pc.held (i : Nat) : Pc → Nat
  | .repost todo => todo.count i
  | .harvest results => (slots results).count i
  | .idle | .dequeue | .arm | .wait | .dequeueAgain => 0

/-- How often the slot is posted: with the kernel, or completed and not harvested. -/
def State.posted (s : State) (i : Nat) : Nat := s.rq.count i + (slots s.cq).count i

def State.places (s : State) (i : Nat) : Nat :=
  s.posted i + s.pending.count i + s.pc.held i

/-- Every slot is in one place, and no other context is anywhere. -/
def Conserved (s : State) : Prop := ∀ i, s.places i = if i < nslots then 1 else 0

theorem postAll_ok {wsa : Nat → Option Int} {rq l rq' : List Nat}
    (h : postAll wsa rq l = .ok rq') : rq' = rq ++ l := by
  induction l generalizing rq with
  | nil =>
    cases h
    rw [List.append_nil]
  | cons i l ih =>
    rw [postAll] at h
    split at h
    · rw [ih h, List.append_assoc, List.singleton_append]
    · cases h

theorem conserved_new {wsa : Nat → Option Int} {notify : Int} {s : State}
    (h : new wsa notify = .ok s) : Conserved s ∧ s.pc = .idle ∧ s.batch = [] := by
  unfold new at h
  split at h
  · cases h
  · rename_i rq hrq
    split at h
    · cases h
    · cases h
      refine ⟨fun i => ?_, rfl, rfl⟩
      simp only [State.places, State.posted, slots, Pc.held, List.map_nil, List.count_nil,
        Nat.add_zero]
      rw [postAll_ok hrq, List.nil_append, List.nodup_range.count]
      simp only [List.mem_range]

theorem slots_take_drop (rs : List RioResult) (n i : Nat) :
    (slots (rs.take n)).count i + (slots (rs.drop n)).count i = (slots rs).count i := by
  rw [← List.count_append, slots, slots, ← List.map_append, List.take_append_drop, slots]

theorem count_cons_add (a : Nat) (l : List Nat) (i : Nat) :
    (a :: l).count i = [a].count i + l.count i := by
  rw [← List.singleton_append, List.count_append]

theorem count_eraseIdx_add {l : List Nat} {k i : Nat} (h : l[k]? = some i) (a : Nat) :
    (l.eraseIdx k).count a + [i].count a = l.count a := by
  obtain ⟨hk, rfl⟩ := List.getElem?_eq_some_iff.mp h
  conv_rhs => rw [← List.take_append_drop k l, List.drop_eq_getElem_cons hk]
  rw [List.eraseIdx_eq_take_drop_succ, List.count_append, List.count_append,
    count_cons_add l[k] (l.drop (k + 1))]
  omega

/-! ## One step -/

section step

variable {s t : State} {act : Action}

theorem places_takeCompletions {empty : State} (hheld : ∀ i, s.pc.held i = 0)
    (hempty : ∀ i, empty.places i = s.places i) (n i : Nat) :
    (s.takeCompletions n empty).places i = s.places i := by
  unfold State.takeCompletions
  split
  · exact hempty i
  · have hsplit := slots_take_drop s.cq (s.taken n) i
    rw [State.places, State.places, hheld i]
    simp only [State.posted, Pc.held]
    omega

theorem slot_of_harvest (hs : Conserved s) {r : RioResult} {rest : List RioResult}
    (hpc : s.pc = .harvest (r :: rest)) : r.requestContext < nslots := by
  have hplaces := hs r.requestContext
  simp only [State.places, hpc, Pc.held, slots, List.map_cons, List.count_cons_self] at hplaces
  by_contra hge
  rw [if_neg hge] at hplaces
  omega

theorem places_recvStep (hs : Conserved s) (env : Env) (i : Nat) :
    (recvStep s env).places i = s.places i := by
  unfold recvStep
  cases hpc : s.pc with
  | idle => simp [State.places, State.posted, Pc.held, hpc]
  | repost todo =>
    cases todo with
    | nil => simp [State.places, State.posted, Pc.held, hpc]
    | cons j todo =>
      dsimp only
      split <;> simp only [State.places, State.posted, Pc.held, hpc, List.count_append,
        count_cons_add j todo] <;> omega
  | dequeue =>
    have hheld : ∀ i, s.pc.held i = 0 := fun i => by rw [hpc]; rfl
    dsimp only
    split
    · simp [State.leave, State.places, State.posted, Pc.held, hpc]
    · refine places_takeCompletions hheld (fun i => ?_) _ i
      simp [State.places, State.posted, Pc.held, hpc]
  | arm =>
    dsimp only
    split_ifs <;> simp [State.leave, State.places, State.posted, Pc.held, hpc]
  | wait =>
    dsimp only
    split_ifs <;> simp [State.leave, State.places, State.posted, Pc.held, hpc]
  | dequeueAgain =>
    have hheld : ∀ i, s.pc.held i = 0 := fun i => by rw [hpc]; rfl
    dsimp only
    split
    · simp [State.leave, State.places, State.posted, Pc.held, hpc]
    · refine places_takeCompletions hheld (fun i => ?_) _ i
      simp [State.leave, State.places, State.posted, Pc.held, hpc]
  | harvest results =>
    cases results with
    | nil => simp [State.leave, State.places, State.posted, Pc.held, slots, hpc]
    | cons r rest =>
      -- the context of a receive is its slot
      have hlt := slot_of_harvest hs hpc
      have hslots : nslots = 4096 := rfl
      have hsend : sendCtx = 2 ^ 64 - 1 := rfl
      dsimp only
      rw [if_neg (by omega), Nat.mod_eq_of_lt (by omega)]
      have hcons : (slots (r :: rest)).count i = [r.requestContext].count i + (slots rest).count i :=
        count_cons_add r.requestContext (slots rest) i
      simp only [State.places, State.posted, Pc.held, hpc, List.count_append, hcons]
      omega

theorem places_step (hs : Conserved s) (h : step s act = some t) (i : Nat) :
    t.places i = s.places i := by
  cases act with
  | complete k status bytes =>
    obtain ⟨j, hj, rfl⟩ := Option.map_eq_some_iff.mp h
    have hcount := count_eraseIdx_add hj i
    simp only [State.places, State.posted, slots, List.map_append, List.map_cons, List.map_nil,
      List.count_append]
    omega
  | recv env =>
    cases h
    exact places_recvStep hs env i

/-- Outside of re-posting, what is exposed to the caller waits in `pending`. -/
def Exposed (s : State) : Prop :=
  (∀ todo, s.pc ≠ .repost todo) → ∀ d ∈ s.batch, d.1 ∈ s.pending

theorem exposed_recvStep (hs : Exposed s) (env : Env) : Exposed (recvStep s env) := by
  unfold Exposed at hs
  unfold recvStep
  cases hpc : s.pc with
  | idle => exact fun hne => absurd rfl (hne s.pending)
  | repost todo =>
    cases todo with
    | nil => exact fun _ d hd => absurd hd List.not_mem_nil
    | cons j todo =>
      dsimp only
      split <;> exact fun hne => absurd rfl (hne todo)
  | arm | wait =>
    simp only [hpc, ne_eq, reduceCtorEq, not_false_eq_true, implies_true, forall_const] at hs
    dsimp only
    split_ifs <;> exact fun _ => hs
  | dequeue | dequeueAgain =>
    simp only [hpc, ne_eq, reduceCtorEq, not_false_eq_true, implies_true, forall_const] at hs
    dsimp only
    split
    · exact fun _ => hs
    · unfold State.takeCompletions
      split <;> exact fun _ => hs
  | harvest results =>
    simp only [hpc, ne_eq, reduceCtorEq, not_false_eq_true, implies_true, forall_const] at hs
    cases results with
    | nil => exact fun _ => hs
    | cons r rest =>
      dsimp only
      split
      · exact fun _ => hs
      · intro _ d hd
        rw [List.mem_append] at hd ⊢
        rcases hd with hd | hd
        · exact .inl (hs d hd)
        · obtain rfl := List.mem_singleton.mp hd
          exact .inr (List.mem_singleton.mpr rfl)

theorem exposed_step (hs : Exposed s) (h : step s act = some t) : Exposed t := by
  cases act with
  | complete k status bytes =>
    obtain ⟨j, -, rfl⟩ := Option.map_eq_some_iff.mp h
    exact hs
  | recv env =>
    cases h
    exact exposed_recvStep hs env

end step

/-! ## Whole runs -/

theorem conserved_run {s t : State} {as : List Action} (hs : Conserved s)
    (h : Steps step Any s as t) : Conserved t :=
  h.invariant (fun _ _ _ hI _ ha i => (places_step hI ha i).trans (hI i)) hs

/-- The kernel alone moves: `recv` is not called. -/
def Kernel (_ : State) : Action → Prop
  | .complete _ _ _ => True
  | .recv _ => False

theorem kernel_run {s t : State} {as : List Action} (h : Steps step Kernel s as t) :
    t.batch = s.batch ∧ t.pending = s.pending ∧ t.pc = s.pc := by
  refine h.invariant (I := fun u => u.batch = s.batch ∧ u.pending = s.pending ∧ u.pc = s.pc)
    ?_ ⟨rfl, rfl, rfl⟩
  intro u act v hu hact hstep
  cases act with
  | complete k status bytes =>
    obtain ⟨j, -, rfl⟩ := Option.map_eq_some_iff.mp hstep
    exact hu
  | recv env => cases hact

theorem Conserved.posted_eq_zero {s : State} (hs : Conserved s) {i : Nat} (hi : i ∈ s.pending) :
    s.posted i = 0 := by
  have hplaces := hs i
  have hpending := List.count_pos_iff.mpr hi
  unfold State.places at hplaces
  split at hplaces <;> omega

/-- **No slot is leaked or posted twice.** After every run of the engine, whatever posts fail and
whatever the kernel completes, each slot is in exactly one place: posted, in `pending` or with the
running call. Between two calls it is posted or in `pending`, once and never both, and what is exposed
to the caller is not posted before the next call. -/
theorem slots_conserved {wsa : Nat → Option Int} {notify : Int} {s₀ s : State} {as : List Action}
    (hnew : new wsa notify = .ok s₀) (hrun : Steps step Any s₀ as s) :
    (∀ i < nslots, s.posted i + s.pending.count i + s.pc.held i = 1) ∧
    (s.pc = .idle →
      (∀ i < nslots, (s.posted i = 1 ∧ i ∉ s.pending) ∨ (s.posted i = 0 ∧ s.pending.count i = 1)) ∧
      ∀ d ∈ s.batch, d.1 < nslots ∧ ∀ bs t, Steps step Kernel s bs t →
        t.batch = s.batch ∧ t.posted d.1 = 0) := by
  obtain ⟨hconserved₀, hidle₀, hbatch₀⟩ := conserved_new hnew
  have hconserved := conserved_run hconserved₀ hrun
  have hexposed : Exposed s := by
    refine hrun.invariant (fun _ _ _ hI _ ha => exposed_step hI ha) fun _ d hd => ?_
    rw [hbatch₀] at hd
    cases hd
  have hone : ∀ i < nslots, s.posted i + s.pending.count i + s.pc.held i = 1 :=
    fun i hi => (hconserved i).trans (if_pos hi)
  refine ⟨hone, fun hidle => ⟨fun i hi => ?_, fun d hd => ?_⟩⟩
  · have hplaces := hone i hi
    rw [hidle] at hplaces
    rw [← List.count_eq_zero]
    simp only [Pc.held] at hplaces
    omega
  · have hpending : d.1 ∈ s.pending := hexposed (fun todo => by rw [hidle]; simp) d hd
    refine ⟨?_, fun bs t hkernel => ?_⟩
    · by_contra hge
      have hplaces := hconserved d.1
      rw [if_neg hge] at hplaces
      have hcount := List.count_pos_iff.mpr hpending
      unfold State.places at hplaces
      omega
    · obtain ⟨hbatch, hpend, -⟩ := kernel_run hkernel
      have hconserved' := conserved_run hconserved (hkernel.mono fun _ _ _ => trivial)
      refine ⟨hbatch, hconserved'.posted_eq_zero ?_⟩
      rw [hpend]
      exact hpending

theorem postAll_none (rq l : List Nat) : postAll (fun _ => none) rq l = .ok (rq ++ l) := by
  induction l generalizing rq with
  | nil => rw [postAll, List.append_nil]
  | cons i l ih => rw [postAll, ih, List.append_assoc, List.singleton_append]

theorem new_none {rq : List Nat} (hrq : List.range nslots = rq) :
    new (fun _ => none) 0 = .ok ⟨rq, [], [], [], true, .idle, none⟩ := by
  unfold new
  rw [postAll_none]
  dsimp only
  rw [if_neg (by decide), List.nil_append, hrq]

/-- The kernel completes slot 0 and a call of `recv` harvests it. -/
def harvestOne : List Action :=
  [.complete 0 0 1200, .recv {}, .recv {}, .recv { dequeued := some deq }, .recv {}, .recv {}]

theorem exec_harvestOne (rest : List Nat) :
    exec step ⟨0 :: rest, [], [], [], true, .idle, none⟩ harvestOne =
      some ⟨rest, [], [0], [(0, 1200)], true, .idle, some (.ok 1)⟩ := rfl

theorem slots_conserved_harvest : ∃ s₀ s, new (fun _ => none) 0 = .ok s₀ ∧
    Steps step Any s₀ harvestOne s ∧ s.batch = [(0, 1200)] ∧ s.posted 0 = 0 ∧ s.posted 1 = 1 := by
  obtain ⟨rest, hrest⟩ : ∃ rest, List.range nslots = 0 :: rest :=
    ⟨_, List.range_succ_eq_map (n := 4095)⟩
  have hnew := new_none hrest
  have hrun := Steps.of_exec (exec_harvestOne rest)
  obtain ⟨hslots, hexposed⟩ := (slots_conserved hnew hrun).2 rfl
  refine ⟨_, _, hnew, hrun, rfl, ?_, ?_⟩
  · exact ((hexposed (0, 1200) (List.mem_singleton.mpr rfl)).2 [] _ (.nil _)).2
  · rcases hslots 1 (by decide) with h | h
    · exact h.1
    · exact absurd h.2 Nat.zero_ne_one

end Girth.Sys.Rio
