import Girth.Server.Conn

/-!
# Rejected pushes and the objects they leave

A push opens its object, creating it if it is missing, and sizes it before the cipher is negotiated.
Whatever fails after that is answered with an error, but what was done to the object stays.
`rejected_untouched_iff` names exactly the requests that are rejected with the object changed: the
file was created or resized, and then reading its metadata, setting its length or the negotiation
failed.
-/

namespace Girth.Server

open Lib

variable {srv : Server} {peer : SocketAddr} {w w' : World} {h : Hello} {env : HelloEnv}
  {auth : Option AuthState} {name : String} {sink : Sink}

/-- The client was answered with an error. -/
def Rejected (events : List Event) : Prop := ∃ a : Ack, .ack a ∈ events ∧ a.ok = false

/-! ## Opening -/

/-- The open of a push creates its object. -/
def Creates (srv : Server) (w : World) (name : String) (env : HelloEnv) : Prop :=
  srv.sinkResolver = none ∧ env.openErr = none ∧ w.dir name = none

/-- The open of a push finds an object that is already there. -/
def Finds (srv : Server) (w : World) (name : String) (env : HelloEnv) (sink : Sink) : Prop :=
  match srv.sinkResolver with
  | some resolve => resolve name = .ok () ∧ sink = w.sinks name
  | none =>
    env.openErr = none ∧ env.metadataErr = none ∧ sink.kind = .file ∧
      w.dir name = some (.file sink.contents)

/-- The world with an empty file under `name`. -/
def World.create (w : World) (name : String) : World :=
  { w with dir := Function.update w.dir name (some (.file [])) }

/-- The outcomes of opening the sink of a push. -/
inductive Opening (srv : Server) (w : World) (name : String) (env : HelloEnv) :
    Except String Sink → World → Prop
  | refused (e : String) : ¬ Creates srv w name env → (∀ sink, ¬ Finds srv w name env sink) →
      Opening srv w name env (.error e) w
  | found {sink : Sink} : Finds srv w name env sink → Opening srv w name env (.ok sink) w
  | createdOnly (e : String) : Creates srv w name env → env.metadataErr.isSome →
      Opening srv w name env (.error e) (w.create name)
  | created : Creates srv w name env → env.metadataErr = none →
      Opening srv w name env (.ok ⟨.file, []⟩) (w.create name)

theorem Finds.not_creates (hfind : Finds srv w name env sink) : ¬ Creates srv w name env := by
  rintro ⟨hres, -, hdir⟩
  unfold Finds at hfind
  rw [hres] at hfind
  rw [hfind.2.2.2] at hdir
  cases hdir

theorem Finds.unique {sink' : Sink} (hfind : Finds srv w name env sink)
    (hfind' : Finds srv w name env sink') : sink = sink' := by
  unfold Finds at hfind hfind'
  cases hres : srv.sinkResolver with
  | some resolve =>
    rw [hres] at hfind hfind'
    rw [hfind.2, hfind'.2]
  | none =>
    rw [hres] at hfind hfind'
    obtain ⟨kind, contents⟩ := sink
    obtain ⟨kind', contents'⟩ := sink'
    obtain ⟨-, -, rfl, hdir⟩ := hfind
    obtain ⟨-, -, rfl, hdir'⟩ := hfind'
    rw [hdir] at hdir'
    cases hdir'
    rfl

theorem opening_openSink (srv : Server) (w : World) (name : String) (env : HelloEnv) :
    Opening srv w name env (srv.openSink w name env).1 (srv.openSink w name env).2.1 := by
  unfold openSink
  cases hres : srv.sinkResolver with
  | some resolve =>
    dsimp only
    cases hok : resolve name with
    | ok => exact .found (by simp [Finds, hres, hok])
    | error e => exact .refused e (by simp [Creates, hres]) (by simp [Finds, hres, hok])
  | none =>
    unfold openServedSink openNoFollow
    cases hopen : env.openErr with
    | some e => exact .refused e (by simp [Creates, hopen]) (by simp [Finds, hres, hopen])
    | none =>
      cases hdir : w.dir name with
      | none =>
        have hcreate : Creates srv w name env := ⟨hres, hopen, hdir⟩
        dsimp only [if_true, Except.bind, regularFile]
        cases hmeta : env.metadataErr with
        | some e => exact .createdOnly e hcreate (by simp [hmeta])
        | none => exact .created hcreate hmeta
      | some node =>
        have hnot : ¬ Creates srv w name env := by simp [Creates, hdir]
        cases node with
        | file contents =>
          dsimp only [Except.bind, regularFile]
          cases hmeta : env.metadataErr with
          | some e => exact .refused e hnot (by simp [Finds, hres, hmeta])
          | none => exact .found (by simp [Finds, hres, hopen, hmeta, hdir])
        | symlink | dir => exact .refused _ hnot (by simp [Finds, hres, hdir])
        | special =>
          have hnone : ∀ sink, ¬ Finds srv w name env sink := by simp [Finds, hres, hdir]
          dsimp only [Except.bind, regularFile]
          cases env.metadataErr with
          | some e => exact .refused e hnot hnone
          | none => exact .refused _ hnot hnone

/-! ## After opening -/

/-- The socket is bound and the negotiation fails. -/
def NegotiationFails (srv : Server) (h : Hello) (env : HelloEnv) : Prop :=
  env.bindErr = none ∧ ∃ e, srv.negotiate h env = .error e

/-- An open sink is rejected exactly if sizing it or the negotiation fails, and then it is left as
`allocate` made it. -/
theorem recvInto_spec (srv : Server) (w : World) (h : Hello) (env : HelloEnv)
    (auth : Option AuthState) (name : String) (sink : Sink) :
    (Rejected (srv.recvInto w h env auth name sink).events ↔
      sink.AllocFails env.alloc ∨ NegotiationFails srv h env) ∧
    (Rejected (srv.recvInto w h env auth name sink).events →
      (srv.recvInto w h env auth name sink).world =
        srv.putSink w name (sink.allocate env.alloc h.size.toNat).2) := by
  rw [← sink.allocate_error_iff env.alloc h.size.toNat]
  unfold recvInto NegotiationFails
  dsimp only
  cases hok : (sink.allocate env.alloc h.size.toNat).1 with
  | error e => simp [Rejected, ackErr]
  | ok =>
    dsimp only
    cases hbind : env.bindErr with
    | some e => simp [Rejected]
    | none =>
      dsimp only
      cases hneg : srv.negotiate h env with
      | error e => simp [Rejected, ackErr]
      | ok neg =>
        dsimp only
        cases env.ackErr with
        | some e => simp [Rejected]
        | none => simp [Rejected, okAck]

theorem putSink_found (hfind : Finds srv w name env sink) {sink' : Sink}
    (hkind : sink'.kind = sink.kind) : srv.putSink w name sink' = w ↔ sink' = sink := by
  obtain ⟨dir, sinks⟩ := w
  obtain ⟨kind, contents⟩ := sink
  obtain ⟨kind', contents'⟩ := sink'
  unfold Finds at hfind
  unfold putSink
  cases hres : srv.sinkResolver with
  | some resolve =>
    rw [hres] at hfind
    rw [hfind.2]
    simp only [World.mk.injEq, true_and, Function.update_eq_self_iff]
  | none =>
    rw [hres] at hfind
    have hdir : dir name = some (.file contents) := hfind.2.2.2
    obtain rfl : kind' = kind := hkind
    simp only [World.mk.injEq, and_true, Function.update_eq_self_iff, hdir, Option.some.injEq,
      Node.file.injEq, Sink.mk.injEq, true_and]

theorem putSink_created (hcreate : Creates srv w name env) (sink : Sink) :
    srv.putSink (w.create name) name sink ≠ w := by
  intro heq
  have hdir := congrArg (fun v : World => v.dir name) heq
  simp only [putSink, hcreate.1, World.create, Function.update_self, hcreate.2.2] at hdir
  cases hdir

theorem create_ne (hfree : w.dir name = none) : w.create name ≠ w := by
  intro heq
  have hdir := congrArg (fun v : World => v.dir name) heq
  simp only [World.create, Function.update_self, hfree] at hdir
  cases hdir

/-! ## The push -/

/-- The push of `h` changes its object and is rejected afterwards. -/
def Spoils (srv : Server) (w : World) (h : Hello) (env : HelloEnv) (name : String) : Prop :=
  (Creates srv w name env ∧
    (env.metadataErr.isSome ∨ env.alloc.setLenErr.isSome ∨ NegotiationFails srv h env)) ∨
  ∃ sink, Finds srv w name env sink ∧ sink.AllocChanges env.alloc h.size.toNat ∧
    (sink.AllocFails env.alloc ∨ NegotiationFails srv h env)

theorem spoils_found_iff (hfind : Finds srv w name env sink) :
    Spoils srv w h env name ↔ sink.AllocChanges env.alloc h.size.toNat ∧
      (sink.AllocFails env.alloc ∨ NegotiationFails srv h env) := by
  unfold Spoils
  rw [or_iff_right fun hbad => hfind.not_creates hbad.1]
  refine ⟨?_, fun hbad => ⟨sink, hfind, hbad⟩⟩
  rintro ⟨sink', hfind', hbad⟩
  rwa [hfind.unique hfind']

theorem spoils_created_iff (hcreate : Creates srv w name env) :
    Spoils srv w h env name ↔
      env.metadataErr.isSome ∨ env.alloc.setLenErr.isSome ∨ NegotiationFails srv h env := by
  unfold Spoils
  rw [or_iff_left fun ⟨_, hfind, _⟩ => hfind.not_creates hcreate, and_iff_right hcreate]

theorem rejected_append (before events : List Event) (hbefore : ∀ a, .ack a ∉ before) :
    Rejected (before ++ events) ↔ Rejected events := by
  unfold Rejected
  refine exists_congr fun a => and_congr_left fun _ => ?_
  rw [List.mem_append, or_iff_right (hbefore a)]

theorem recvInto_found_iff (hfind : Finds srv w name env sink) (auth : Option AuthState) :
    (Rejected (srv.recvInto w h env auth name sink).events →
      (srv.recvInto w h env auth name sink).world = w) ↔
    ¬ (sink.AllocChanges env.alloc h.size.toNat ∧
      (sink.AllocFails env.alloc ∨ NegotiationFails srv h env)) := by
  obtain ⟨hiff, hworld⟩ := recvInto_spec srv w h env auth name sink
  rw [not_and', ← hiff]
  refine forall_congr' fun hrej => ?_
  rw [hworld hrej, putSink_found hfind (sink.allocate_kind _ _), sink.allocate_eq_self_iff]

theorem recvInto_created_iff (hcreate : Creates srv w name env) (auth : Option AuthState) :
    (Rejected (srv.recvInto (w.create name) h env auth name ⟨.file, []⟩).events →
      (srv.recvInto (w.create name) h env auth name ⟨.file, []⟩).world = w) ↔
    ¬ (env.alloc.setLenErr.isSome ∨ NegotiationFails srv h env) := by
  obtain ⟨hiff, hworld⟩ := recvInto_spec srv (w.create name) h env auth name ⟨.file, []⟩
  have hfails : Sink.AllocFails ⟨.file, []⟩ env.alloc ↔ env.alloc.setLenErr.isSome :=
    and_iff_right rfl
  rw [← hfails, ← hiff]
  refine forall_congr' fun hrej => ?_
  rw [hworld hrej]
  exact iff_of_false (putSink_created hcreate _) id

theorem recvFromClient_untouched_iff (srv : Server) (w : World) (h : Hello) (env : HelloEnv)
    (auth : Option AuthState) :
    (Rejected (srv.recvFromClient w h env auth).events →
      (srv.recvFromClient w h env auth).world = w) ↔
    ¬ ∃ name, servedObjectName h.name = .ok name ∧ Spoils srv w h env name := by
  unfold recvFromClient
  cases servedObjectName h.name with
  | error e => simp
  | ok name =>
    have hopening := opening_openSink srv w name env
    obtain ⟨kind, hev⟩ := openSink_event srv w name env
    dsimp only
    generalize srv.openSink w name env = opened at hopening hev
    obtain ⟨res, w', ev⟩ := opened
    obtain rfl : ev = .access kind name := hev
    have hone : (∃ name', (Except.ok name : Except String String) = .ok name' ∧
        Spoils srv w h env name') ↔ Spoils srv w h env name := by
      simp
    have hrej (events : List Event) : Rejected (.access kind name :: events) ↔ Rejected events :=
      rejected_append [_] events (by simp)
    rw [hone]
    cases hopening with
    | refused e hcreate hfind => simp [Spoils, hcreate, hfind]
    | createdOnly e hcreate hmeta =>
      have hack : Rejected [.access kind name, ackErr e false] :=
        (hrej _).mpr ⟨_, List.mem_singleton_self _, rfl⟩
      refine iff_of_false (fun hkeep => create_ne hcreate.2.2 (hkeep hack)) ?_
      exact not_not_intro ((spoils_created_iff hcreate).mpr (.inl hmeta))
    | found hfind =>
      rw [spoils_found_iff hfind, ← recvInto_found_iff hfind auth]
      exact imp_congr_left (hrej _)
    | created hcreate hmeta =>
      have hsome : ¬ env.metadataErr.isSome := by simp [hmeta]
      rw [spoils_created_iff hcreate, or_iff_right hsome, ← recvInto_created_iff hcreate auth]
      exact imp_congr_left (hrej _)

/-! ## The whole request -/

theorem sendToClient_world (srv : Server) (w : World) (h : Hello) (env : HelloEnv)
    (auth : Option AuthState) : (srv.sendToClient w h env auth).world = w := by
  unfold sendToClient
  split
  · rfl
  · split
    · rfl
    · exact (srv.sendFrom_spec w h env auth _).1

/-- The server admits the Hello: version, limits and authentication are in order. -/
def Admits (srv : Server) (peer : SocketAddr) (h : Hello) : Prop :=
  ∃ auth, (srv.admission peer h).2 = .ok auth

/-- **A rejected request leaves the objects alone**, exactly if it is not an admitted push that
changes its object and then fails. -/
theorem rejected_untouched_iff (srv : Server) (peer : SocketAddr) (w : World) (h : Hello)
    (env : HelloEnv) :
    (Rejected (srv.handleHello peer w h env).events → (srv.handleHello peer w h env).world = w) ↔
    ¬ (Admits srv peer h ∧ h.mode = modeSend ∧
      ∃ name, servedObjectName h.name = .ok name ∧ Spoils srv w h env name) := by
  have hnoack := admission_no_ack srv peer h
  unfold handleHello Admits
  generalize srv.admission peer h = admitted at hnoack
  obtain ⟨events, err | auth⟩ := admitted
  · simp
  · dsimp only
    rw [rejected_append events _ hnoack, and_iff_right ⟨auth, rfl⟩]
    by_cases hsend : h.mode = modeSend
    · rw [if_pos hsend, and_iff_right hsend]
      exact recvFromClient_untouched_iff srv w h env auth
    · rw [if_neg hsend]
      refine iff_of_true (fun _ => ?_) fun hbad => hsend hbad.1
      split
      · exact sendToClient_world srv w h env auth
      · rfl

/-- An encrypted push that offers no cipher. -/
def noCipher : Hello where
  version := 1
  mode := modeSend
  name := "a"
  size := 1
  blockSize := 1400
  encrypt := true

/-- A directory in which `a` holds three bytes. -/
def threeBytes : World :=
  { emptyWorld with dir := fun name => if name = "a" then some (.file [1, 2, 3]) else none }

/-- It is rejected, but the object has been created; one that was there has been cut. -/
theorem noCipher_spoils :
    (Rejected (plain.handleHello localPeer emptyWorld noCipher {}).events ∧
      emptyWorld.dir "a" = none ∧
      (plain.handleHello localPeer emptyWorld noCipher {}).world.dir "a" = some (.file [0])) ∧
    (Rejected (plain.handleHello localPeer threeBytes noCipher {}).events ∧
      threeBytes.dir "a" = some (.file [1, 2, 3]) ∧
      (plain.handleHello localPeer threeBytes noCipher {}).world.dir "a" = some (.file [1])) := by
  refine ⟨⟨⟨{ err := "no common cipher suite" }, ?_, rfl⟩, rfl, ?_⟩,
    ⟨{ err := "no common cipher suite" }, ?_, rfl⟩, rfl, ?_⟩
  · decide +kernel
  · decide +kernel
  · decide +kernel
  · decide +kernel

end Girth.Server
