import Girth.Server.Conn

/-!
# Authorization and the object served

The authorizer decides on the name as the client wrote it; the object that is opened or resolved is
its basename. `accesses_covered_iff` says that every access on a connection is covered by a decision
of the authorizer about that very object if and only if each admitted request names its object by the
basename. An authorizer that guards one name is passed by a path that ends in it (`guarded_opened`).
-/

namespace Girth.Server

open Lib

variable {srv : Server} {peer : SocketAddr} {w : World} {h : Hello} {env : HelloEnv}
  {auth : Option AuthState}

/-! ## What is accessed -/

/-- The events after an object has been opened: it may be sized, and the client is answered. -/
def Event.Follows (name : String) : Event → Prop
  | .access kind n => kind = .allocate ∧ n = name
  | .ack _ => True
  | _ => False

@[simp] theorem follows_allocate (name : String) :
    (Event.access .allocate name).Follows name := ⟨rfl, rfl⟩

@[simp] theorem follows_ack (name : String) (a : Ack) : (Event.ack a).Follows name := trivial

@[simp] theorem follows_ackErr (name err : String) (authRequired : Bool) :
    (ackErr err authRequired).Follows name := trivial

/-- The events of a handler: the object is opened, if its name is valid. -/
def Opens (h : Hello) (events : List Event) : Prop :=
  match servedObjectName h.name with
  | .error _ => ∃ a, events = [.ack a]
  | .ok name => ∃ kind rest, events = .access kind name :: rest ∧ ∀ e ∈ rest, e.Follows name

theorem follows_recvInto (name : String) (sink : Sink) :
    ∀ e ∈ (srv.recvInto w h env auth name sink).events, e.Follows name := by
  unfold recvInto
  dsimp only
  split
  · simp
  · split
    · simp
    · split
      · simp
      · split
        · simp
        · simp

theorem follows_sendFrom (name : String) (source : BlockSource) :
    ∀ e ∈ (srv.sendFrom w h env auth source).events, e.Follows name := by
  intro e he
  obtain ⟨a, rfl⟩ := (srv.sendFrom_spec w h env auth source).2 e he
  exact follows_ack name a

theorem opens_recvFromClient : Opens h (srv.recvFromClient w h env auth).events := by
  unfold Opens recvFromClient
  cases servedObjectName h.name with
  | error e => exact ⟨_, rfl⟩
  | ok name =>
    obtain ⟨kind, hkind⟩ := openSink_event srv w name env
    dsimp only
    split
    · rename_i hopen
      rw [hopen] at hkind
      exact ⟨kind, _, congrArg (· :: _) hkind, by simp⟩
    · rename_i hopen
      rw [hopen] at hkind
      exact ⟨kind, _, congrArg (· :: _) hkind, follows_recvInto name _⟩

theorem opens_sendToClient : Opens h (srv.sendToClient w h env auth).events := by
  unfold Opens sendToClient
  cases servedObjectName h.name with
  | error e => exact ⟨_, rfl⟩
  | ok name =>
    obtain ⟨kind, hkind⟩ := openSource_event srv w name env
    dsimp only
    split
    · rename_i hopen
      rw [hopen] at hkind
      exact ⟨kind, _, congrArg (· :: _) hkind, by simp⟩
    · rename_i hopen
      rw [hopen] at hkind
      exact ⟨kind, _, congrArg (· :: _) hkind, follows_sendFrom name _⟩

/-! ## Who is admitted -/

section authorized

variable {authz : AuthContext → Except String Bytes}

/-- The checks of the server: the version, the limits, and a MAC under the token that the authorizer
returns for the request. -/
def Passes (srv : Server) (authz : AuthContext → Except String Bytes) (peer : SocketAddr) (h : Hello)
    (token : Bytes) : Prop :=
  h.version = protocolVersion ∧ validateHelloLimits h srv.limits = .ok () ∧
    authz ⟨h.mode, h.name, peer⟩ = .ok token ∧
      ∃ mac, h.authMac = some mac ∧ verifyClientMac srv.hmac token h.version h.mode h.name h.size
        (h.pubKey.getD []) mac = true

theorem admission_cases (hauth : srv.authorizer = some authz) (peer : SocketAddr) (h : Hello) :
    (∃ token auth, Passes srv authz peer h token ∧ srv.admission peer h =
      ([.authorize ⟨h.mode, h.name, peer⟩ (.ok token), .verify token true], .ok auth)) ∨
    (∀ token, ¬ Passes srv authz peer h token) ∧
      ∃ events err, srv.admission peer h = (events, .error err) ∧
        ∀ kind name, .access kind name ∉ events := by
  unfold admission Passes
  by_cases hver : h.version = protocolVersion
  · rw [if_neg (not_not_intro hver), hauth]
    cases hlim : validateHelloLimits h srv.limits with
    | error e => exact .inr ⟨by simp, _, _, rfl, by simp⟩
    | ok =>
      dsimp only
      cases hctx : authz ⟨h.mode, h.name, peer⟩ with
      | error reason => exact .inr ⟨by simp, _, _, rfl, by simp⟩
      | ok token =>
        dsimp only
        cases hmac : h.authMac with
        | none => exact .inr ⟨by simp, _, _, rfl, by simp⟩
        | some mac =>
          dsimp only
          by_cases hok : verifyClientMac srv.hmac token h.version h.mode h.name h.size
              (h.pubKey.getD []) mac = true
          · rw [if_pos hok]
            exact .inl ⟨token, _, ⟨hver, rfl, rfl, mac, rfl, hok⟩, by rw [hok]⟩
          · rw [if_neg hok]
            refine .inr ⟨?_, _, _, rfl, by simp⟩
            rintro token' ⟨-, -, htoken, mac', hmac', hok'⟩
            cases htoken
            cases hmac'
            exact hok hok'
  · rw [if_pos hver]
    exact .inr ⟨fun _ hpass => hver hpass.1, _, _, rfl, by simp⟩

theorem mode_of_validate (hok : validateHelloLimits h srv.limits = .ok ()) :
    h.mode = modeSend ∨ h.mode = modeRecv := by
  by_contra hmode
  rw [not_or] at hmode
  unfold validateHelloLimits at hok
  rw [if_pos hmode] at hok
  cases hok

/-! ## Coverage -/

/-- Each access stands after a decision of the authorizer about that object and a verified proof of
the client under the token it returned. -/
def Covered (srv : Server) (peer : SocketAddr) (h : Hello) (events : List Event) : Prop :=
  ∀ before kind name after, events = before ++ .access kind name :: after →
    ∃ token mac, .authorize ⟨h.mode, name, peer⟩ (.ok token) ∈ before ∧
      .verify token true ∈ before ∧ h.authMac = some mac ∧
      verifyClientMac srv.hmac token h.version h.mode h.name h.size (h.pubKey.getD []) mac = true

theorem handleHello_passes (w : World) (env : HelloEnv) (hauth : srv.authorizer = some authz)
    {token : Bytes} (hpass : Passes srv authz peer h token) : ∃ events, Opens h events ∧
      (srv.handleHello peer w h env).events =
        .authorize ⟨h.mode, h.name, peer⟩ (.ok token) :: .verify token true :: events := by
  rcases admission_cases hauth peer h with ⟨token', auth, hpass', hadmission⟩ | ⟨hnot, -⟩
  · obtain rfl : token = token' := Except.ok.inj (hpass.2.2.1.symm.trans hpass'.2.2.1)
    unfold handleHello
    rw [hadmission]
    dsimp only
    rcases mode_of_validate hpass.2.1 with hmode | hmode
    · rw [if_pos hmode]
      exact ⟨_, opens_recvFromClient, rfl⟩
    · rw [if_neg (by rw [hmode]; decide), if_pos hmode]
      exact ⟨_, opens_sendToClient, rfl⟩
  · exact absurd hpass (hnot token)

theorem handleHello_not_passes (hauth : srv.authorizer = some authz)
    (hnot : ∀ token, ¬ Passes srv authz peer h token) (kind : Access) (name : String) :
    .access kind name ∉ (srv.handleHello peer w h env).events := by
  rcases admission_cases hauth peer h with
    ⟨token, auth, hpass, -⟩ | ⟨-, events, err, hadmission, hnone⟩
  · exact absurd hpass (hnot token)
  · unfold handleHello
    rw [hadmission]
    simpa [ackErr] using hnone kind name

theorem Opens.name_eq {events : List Event} (hopens : Opens h events) {kind : Access} {name : String}
    (hmem : .access kind name ∈ events) : servedObjectName h.name = .ok name := by
  unfold Opens at hopens
  cases hname : servedObjectName h.name with
  | error e =>
    rw [hname] at hopens
    obtain ⟨a, rfl⟩ := hopens
    simp at hmem
  | ok served =>
    rw [hname] at hopens
    obtain ⟨kind', rest, rfl, hrest⟩ := hopens
    rcases List.mem_cons.mp hmem with heq | hmem
    · cases heq
      rfl
    · rw [(hrest _ hmem).2]

/-- The accesses for one Hello are covered exactly if it is turned away or names its object by the
basename. -/
theorem covered_handleHello_iff (hauth : srv.authorizer = some authz) :
    Covered srv peer h (srv.handleHello peer w h env).events ↔
      ∀ token name, Passes srv authz peer h token → servedObjectName h.name = .ok name →
        name = h.name := by
  constructor
  · intro hcov token name hpass hname
    obtain ⟨events, hopens, heq⟩ := handleHello_passes w env hauth hpass
    unfold Opens at hopens
    rw [hname] at hopens
    obtain ⟨kind, rest, rfl, -⟩ := hopens
    obtain ⟨token', mac, hmem, -⟩ := hcov [_, _] kind name rest heq
    simp only [List.mem_cons, Event.authorize.injEq, AuthContext.mk.injEq, reduceCtorEq,
      List.not_mem_nil, or_false] at hmem
    exact hmem.1.2.1
  · intro hself before kind name after heq
    have hmem : .access kind name ∈ (srv.handleHello peer w h env).events := by
      rw [heq]
      simp
    by_cases hpass : ∃ token, Passes srv authz peer h token
    · obtain ⟨token, hpass⟩ := hpass
      obtain ⟨events, hopens, hevents⟩ := handleHello_passes w env hauth hpass
      rw [hevents] at heq
      -- an access can only stand after the two events of the admission
      rcases before with - | ⟨e₁, - | ⟨e₂, before⟩⟩
      · simp at heq
      · simp at heq
      · simp only [List.cons_append, List.cons.injEq] at heq
        obtain ⟨rfl, rfl, rfl⟩ := heq
        obtain rfl := hself token name hpass
          (hopens.name_eq (List.mem_append_right before (List.mem_cons_self ..)))
        obtain ⟨-, -, -, mac, hmac, hok⟩ := hpass
        exact ⟨token, mac, by simp, by simp, hmac, hok⟩
    · exact absurd hmem (handleHello_not_passes hauth (not_exists.mp hpass) kind name)

/-! ## Whole connections -/

/-- A request that is admitted and whose name is valid names its object by the basename. -/
def NamesItself (srv : Server) (authz : AuthContext → Except String Bytes) (peer : SocketAddr)
    (_ : Conn) : ConnAction → Prop
  | .hello h _ => ∀ token name, Passes srv authz peer h token → servedObjectName h.name = .ok name →
      name = h.name
  | _ => True

theorem covered_step (hauth : srv.authorizer = some authz) {s t : Conn} {act : ConnAction}
    (hstep : srv.connStep peer s act = some t) :
    (∀ entry ∈ t.log, Covered srv peer entry.1 entry.2) ↔
      (∀ entry ∈ s.log, Covered srv peer entry.1 entry.2) ∧ NamesItself srv authz peer s act := by
  unfold connStep at hstep
  split at hstep
  · cases hstep
  · cases act with
    | hello h env =>
      cases hstep
      rw [List.forall_mem_cons, and_comm, covered_handleHello_iff hauth]
      rfl
    | hangUp | readErr e | others w =>
      cases hstep
      exact ⟨fun hlog => ⟨hlog, trivial⟩, And.left⟩

/-- **Authorization covers the object served.** On a server with an authorizer, every access on a
connection is covered by a decision about that very object exactly when every admitted request names
its object by the basename. -/
theorem accesses_covered_iff (hauth : srv.authorizer = some authz) {as : List ConnAction} {t : Conn}
    (hrun : Steps (srv.connStep peer) Any (newConn w) as t) :
    (∀ entry ∈ t.log, Covered srv peer entry.1 entry.2) ↔
      Steps (srv.connStep peer) (NamesItself srv authz peer) (newConn w) as t := by
  rw [hrun.iff_of_step fun _ _ _ => covered_step hauth]
  refine and_iff_right ?_
  simp [newConn]

end authorized

/-! ## A guarded object -/

/-- An authorizer that refuses the object `b`. -/
def refuseB (ctx : AuthContext) : Except String Bytes :=
  if ctx.name = "b" then .error "no access" else .ok (utf8 "s3cr3t")

/-- The proof of a client that knows the token, for a push of one byte to `a/b` and to `c`. -/
def macAB : Bytes :=
  [174, 95, 58, 135, 218, 71, 19, 249, 212, 160, 195, 141, 92, 183, 29, 250,
   22, 136, 184, 72, 242, 112, 169, 87, 149, 45, 111, 78, 152, 52, 14, 66]

@[inherit_doc macAB]
def macC : Bytes :=
  [74, 126, 151, 186, 141, 247, 236, 153, 182, 73, 21, 52, 209, 170, 67, 111,
   105, 46, 20, 70, 192, 119, 171, 186, 254, 7, 69, 254, 188, 111, 88, 246]

/-- HMAC-SHA256 under the token, on the transcripts of these two exchanges. -/
def tableHmac : Hmac where
  mac _ msg :=
    if msg = clientTranscript 1 modeSend "a/b" 1 [] then macAB
    else if msg = clientTranscript 1 modeSend "c" 1 [] then macC
    else if msg = domainServer ++ leBytes 4 0 ++ macAB then
      [79, 210, 177, 88, 204, 243, 165, 229, 163, 207, 12, 119, 23, 122, 21, 161,
       133, 67, 19, 197, 190, 149, 90, 39, 111, 90, 88, 64, 59, 42, 23, 114]
    else
      [155, 6, 73, 252, 99, 148, 15, 94, 157, 50, 195, 234, 232, 203, 81, 238,
       246, 199, 82, 42, 13, 236, 141, 38, 222, 255, 183, 133, 154, 142, 31, 190]

def guarded : Server := { plain with authorizer := some refuseB, hmac := tableHmac }

/-- A push of the byte 7. -/
def pushByte (name : String) (mac : Bytes) : Hello where
  version := 1
  mode := modeSend
  name := name
  size := 1
  blockSize := 1400
  crc32c := 0x86b737ba
  authMac := some mac

def byteEnv : HelloEnv where
  contents := [7]

theorem accesses_covered_pushC : ∃ t,
    Steps (guarded.connStep localPeer) Any (newConn emptyWorld)
        [.hello (pushByte "c" macC) byteEnv] t ∧
      (∃ entry ∈ t.log, .access .openSink "c" ∈ entry.2) ∧
      ∀ entry ∈ t.log, Covered guarded localPeer entry.1 entry.2 := by
  have hauth : guarded.authorizer = some refuseB := rfl
  have hstep : guarded.connStep localPeer (newConn emptyWorld) (.hello (pushByte "c" macC) byteEnv) =
      some _ := rfl
  have hself : NamesItself guarded refuseB localPeer (newConn emptyWorld)
      (.hello (pushByte "c" macC) byteEnv) := by
    intro token name _ hname
    have hserved : servedObjectName "c" = .ok "c" := by decide +kernel
    exact (Except.ok.inj (hserved.symm.trans hname)).symm
  refine ⟨_, .single trivial hstep, ⟨_, List.mem_singleton_self _, by decide +kernel⟩, ?_⟩
  exact (accesses_covered_iff hauth (.single trivial hstep)).mpr (.single hself hstep)

/-- The path `a/b` gets past the authorizer that refuses `b`, and `b` is written. -/
theorem guarded_opened : refuseB ⟨modeSend, "b", localPeer⟩ = .error "no access" ∧ ∃ t,
    Steps (guarded.connStep localPeer) Any (newConn emptyWorld)
        [.hello (pushByte "a/b" macAB) byteEnv] t ∧
      t.world.dir "b" = some (.file [7]) ∧
      ¬ ∀ entry ∈ t.log, Covered guarded localPeer entry.1 entry.2 := by
  refine ⟨by decide +kernel, _, .single trivial rfl, by decide +kernel, fun hcov => ?_⟩
  have hevents :
      (guarded.handleHello localPeer emptyWorld (pushByte "a/b" macAB) byteEnv).events.take 3 =
      [.authorize ⟨modeSend, "a/b", localPeer⟩ (.ok (utf8 "s3cr3t")), .verify (utf8 "s3cr3t") true,
        .access .openSink "b"] := by decide +kernel
  obtain ⟨token, mac, hmem, -⟩ := hcov _ (List.mem_singleton_self _) [_, _] .openSink "b" _
    ((List.take_append_drop 3 _).symm.trans (congrArg (· ++ _) hevents))
  simp at hmem

end Girth.Server
