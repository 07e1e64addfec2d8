import Girth.Io
import Girth.Lib.Machine
import Girth.Receiver.Packet
import Girth.Server.Limits
import Mathlib.Logic.Function.Basic

/-!
# A control connection

`handle_conn` reads one `Hello` after another. Each is checked (version, limits, the client's proof of
possession), then the object it names is opened and the transfer runs: `recv_from_client` for a push,
`send_to_client` for a pull. A rejection in the checks closes the connection; one later on answers
with an error and waits for the next `Hello`.

The served directory maps names to nodes; a server may instead have resolvers, which hand out a sink
or a source for a name. What the operating system, the network and the data plane decide while one
`Hello` is handled is in `HelloEnv`. `handleHello` returns the objects afterwards and what happened, in
order: calls of the authorizer, checks of the client's MAC, accesses to objects, answers.
-/

namespace Girth

open Lib

namespace Server

/-! ## The served objects -/

inductive Node
  | file (contents : Bytes)
  | symlink
  | dir
  /-- A device, a socket or a pipe. -/
  | special
  deriving DecidableEq

/-- The served directory, and the sinks that a sink resolver hands out. -/
structure World where
  dir : String → Option Node
  sinks : String → Sink

structure AuthContext where
  mode : String
  name : String
  peerAddr : SocketAddr
  deriving DecidableEq

/-- A verified client. -/
structure AuthState where
  token : Bytes
  clientMac : Bytes
  deriving DecidableEq

inductive Access
  | resolveSink
  | openSink
  | allocate
  | resolveSource
  | openSource
  deriving DecidableEq

inductive Event
  | authorize (ctx : AuthContext) (res : Except String Bytes)
  | verify (token : Bytes) (ok : Bool)
  | access (kind : Access) (name : String)
  | ack (a : Ack)
  deriving DecidableEq

end Server

open Server in
/-- A server, with the crates it calls. -/
structure Server where
  params : TransferParams
  authorizer : Option (AuthContext → Except String Bytes)
  limits : ServerLimits
  sourceResolver : Option (String → Except String BlockSource)
  sinkResolver : Option (String → Except String Unit)
  hmac : Hmac
  kx : KeyExchange
  aesHardware : Bool
  crc32cAppend : UInt32 → Bytes → UInt32

namespace Server

/-- What the environment decides while a Hello is handled. -/
structure HelloEnv where
  session : UInt32 := 0
  privKey : Bytes := []
  openErr : Option String := none
  metadataErr : Option String := none
  alloc : AllocOs := {}
  /-- The reads of a served file that fail, by offset and length. -/
  readFails : Nat → Nat → Bool := fun _ _ => false
  /-- The text of a read error, should reading the source or the sink back fail. -/
  readErr : String := ""
  bindErr : Option String := none
  udpPort : UInt16 := 0
  /-- Writing a positive answer to the connection fails. -/
  ackErr : Option String := none
  /-- What the data plane leaves in the sink, and how it ends. -/
  contents : Bytes := []
  result : Except String Unit := .ok ()
  finalizeErr : Option String := none

/-- How the connection goes on. -/
inductive Next
  | again
  | closed (res : Except String Unit)

structure Outcome where
  world : World
  events : List Event
  next : Next

def ackErr (err : String) (authRequired : Bool) : Event :=
  .ack { err := err, authRequired := authRequired }

/-! ## Opening objects -/

def servedObjectName (name : String) : Except String String :=
  let b := basename name
  if b = "" ∨ b = "." ∨ b = ".." ∨ '/' ∈ b.toList ∨ '\\' ∈ b.toList then .error "invalid object name"
  else .ok b

/-- `open` of a served object, with `O_NOFOLLOW`: the node that is opened and the directory afterwards.
A missing object is created if `create`. -/
def openNoFollow (create : Bool) (dir : String → Option Node) (name : String) (env : HelloEnv) :
    Except String Node × (String → Option Node) :=
  match env.openErr with
  | some e => (.error e, dir)
  | none =>
    match dir name with
    | some .symlink => (.error "Too many levels of symbolic links (os error 40)", dir)
    | some .dir => (if create then .error "Is a directory (os error 21)" else .ok .dir, dir)
    | some node => (.ok node, dir)
    | none =>
      if create then (.ok (.file []), Function.update dir name (some (.file [])))
      else (.error "No such file or directory (os error 2)", dir)

/-- The check that an opened node is a regular file. -/
def regularFile (env : HelloEnv) (node : Node) : Except String Bytes :=
  match env.metadataErr with
  | some e => .error e
  | none =>
    match node with
    | .file contents => .ok contents
    | _ => .error "served object is not a regular file"

/-- Open a served object for writing; it is created if it is missing. -/
def openServedSink (dir : String → Option Node) (name : String) (env : HelloEnv) :
    Except String Bytes × (String → Option Node) :=
  let (node, dir) := openNoFollow true dir name env
  (node.bind (regularFile env), dir)

/-- Open a served object for reading. -/
def openServedSource (dir : String → Option Node) (name : String) (env : HelloEnv) :
    Except String Bytes :=
  (openNoFollow false dir name env).1.bind (regularFile env)

variable (srv : Server)

/-- The sink for a push. -/
def openSink (w : World) (name : String) (env : HelloEnv) : Except String Sink × World × Event :=
  match srv.sinkResolver with
  | some resolve => ((resolve name).map fun _ => w.sinks name, w, .access .resolveSink name)
  | none =>
    let (res, dir) := openServedSink w.dir name env
    (res.map (Sink.mk .file), { w with dir := dir }, .access .openSink name)

/-- The objects after the sink of a push has changed. -/
def putSink (w : World) (name : String) (sink : Sink) : World :=
  match srv.sinkResolver with
  | some _ => { w with sinks := Function.update w.sinks name sink }
  | none => { w with dir := Function.update w.dir name (some (.file sink.contents)) }

/-- The source for a pull. -/
def openSource (w : World) (name : String) (env : HelloEnv) : Except String BlockSource × Event :=
  match srv.sourceResolver with
  | some resolve => (resolve name, .access .resolveSource name)
  | none =>
    ((openServedSource w.dir name env).map (fileSource · env.readFails), .access .openSource name)

theorem openSink_event (srv : Server) (w : World) (name : String) (env : HelloEnv) :
    ∃ kind, (srv.openSink w name env).2.2 = .access kind name := by
  unfold openSink
  split
  · exact ⟨_, rfl⟩
  · exact ⟨_, rfl⟩

theorem openSource_event (srv : Server) (w : World) (name : String) (env : HelloEnv) :
    ∃ kind, (srv.openSource w name env).2 = .access kind name := by
  unfold openSource
  split
  · exact ⟨_, rfl⟩
  · exact ⟨_, rfl⟩

/-! ## Handling one Hello -/

def negotiate (h : Hello) (env : HelloEnv) : Except String Negotiated :=
  negotiateCryptoServer srv.kx srv.aesHardware env.privKey h.encrypt (h.ciphers.getD [])
    (h.pubKey.getD []) env.session

/-- The checks before any object is touched: the error to answer, or the client's identity. -/
def admission (peer : SocketAddr) (h : Hello) :
    List Event × Except (String × Bool) (Option AuthState) :=
  if h.version ≠ protocolVersion then ([], .error ("protocol version mismatch", false))
  else
    match validateHelloLimits h srv.limits with
    | .error e => ([], .error (e, false))
    | .ok () =>
      match srv.authorizer with
      | none => ([], .ok none)
      | some authz =>
        let ctx : AuthContext := ⟨h.mode, h.name, peer⟩
        match authz ctx with
        | .error reason =>
          ([.authorize ctx (.error reason)], .error (s!"auth denied: {reason}", true))
        | .ok token =>
          match h.authMac with
          | none => ([.authorize ctx (.ok token)], .error ("auth required", true))
          | some presented =>
            let ok := verifyClientMac srv.hmac token h.version h.mode h.name h.size
              (h.pubKey.getD []) presented
            let events := [.authorize ctx (.ok token), .verify token ok]
            if ok then (events, .ok (some ⟨token, presented⟩))
            else (events, .error ("auth denied", true))

theorem admission_events {srv : Server} {peer : SocketAddr} {h : Hello} {ev : Event}
    (hev : ev ∈ (srv.admission peer h).1) :
    (∃ ctx res, ev = .authorize ctx res) ∨ ∃ token ok, ev = .verify token ok := by
  unfold admission at hev
  split at hev
  · cases hev
  · split at hev
    · cases hev
    · split at hev
      · cases hev
      · dsimp only at hev
        split at hev
        · exact .inl ⟨_, _, List.mem_singleton.mp hev⟩
        · split at hev
          · exact .inl ⟨_, _, List.mem_singleton.mp hev⟩
          · have hpair : ∀ {x y : Event}, ev ∈ [x, y] → ev = x ∨ ev = y := by simp
            split at hev
            · exact (hpair hev).imp (fun h => ⟨_, _, h⟩) fun h => ⟨_, _, h⟩
            · exact (hpair hev).imp (fun h => ⟨_, _, h⟩) fun h => ⟨_, _, h⟩

theorem admission_no_ack (srv : Server) (peer : SocketAddr) (h : Hello) (a : Ack) :
    .ack a ∉ (srv.admission peer h).1 := by
  intro hev
  rcases admission_events hev with ⟨_, _, hne⟩ | ⟨_, _, hne⟩ <;> cases hne

theorem admission_no_access (srv : Server) (peer : SocketAddr) (h : Hello) (kind : Access)
    (name : String) : .access kind name ∉ (srv.admission peer h).1 := by
  intro hev
  rcases admission_events hev with ⟨_, _, hne⟩ | ⟨_, _, hne⟩ <;> cases hne

/-- The positive answer. -/
def okAck (h : Hello) (env : HelloEnv) (auth : Option AuthState) (neg : Negotiated) : Ack where
  ok := true
  udpPort := env.udpPort.toNat
  session := env.session
  name := h.name
  encrypt := neg.enabled
  cipher := neg.cipherName
  pubKey := if neg.pubKey.isEmpty then none else some neg.pubKey
  authMac := auth.map fun a => serverMac srv.hmac a.token env.session neg.pubKey a.clientMac

def hex8 (v : UInt32) : String :=
  let digits := Nat.toDigits 16 v.toNat
  String.ofList (List.replicate (8 - digits.length) '0' ++ digits)

/-- The end of a push: an error of the data plane, of syncing or of the integrity check closes the
connection. -/
def finishRecv (h : Hello) (env : HelloEnv) (sink : Sink) : Next :=
  match env.result with
  | .error e => .closed (.error e)
  | .ok () =>
    match env.finalizeErr with
    | some e => .closed (.error e)
    | none =>
      match sink.readCrc32c srv.crc32cAppend h.size.toNat with
      | none => .closed (.error env.readErr)
      | some got =>
        if got ≠ h.crc32c then
          .closed (.error (s!"integrity failure {debugStr h.name}: " ++
            s!"crc got={hex8 got} want={hex8 h.crc32c}"))
        else .again

/-- The end of a pull. -/
def finishSend (env : HelloEnv) : Next :=
  match env.result with
  | .error e => .closed (.error e)
  | .ok () => .again

/-- `recv_from_client` once the sink is open. -/
def recvInto (w : World) (h : Hello) (env : HelloEnv) (auth : Option AuthState) (name : String)
    (sink : Sink) : Outcome :=
  let (allocated, sink) := sink.allocate env.alloc h.size.toNat
  let w := srv.putSink w name sink
  match allocated with
  | .error e => ⟨w, [.access .allocate name, ackErr e false], .again⟩
  | .ok () =>
    match env.bindErr with
    | some e => ⟨w, [.access .allocate name], .closed (.error e)⟩
    | none =>
      match srv.negotiate h env with
      | .error e => ⟨w, [.access .allocate name, ackErr e false], .again⟩
      | .ok neg =>
        match env.ackErr with
        | some e => ⟨w, [.access .allocate name], .closed (.error e)⟩
        | none =>
          let sink := { sink with contents := env.contents }
          ⟨srv.putSink w name sink, [.access .allocate name, .ack (srv.okAck h env auth neg)],
            srv.finishRecv h env sink⟩

/-- The client pushes; the server is the data receiver. -/
def recvFromClient (w : World) (h : Hello) (env : HelloEnv) (auth : Option AuthState) : Outcome :=
  match servedObjectName h.name with
  | .error e => ⟨w, [ackErr e false], .again⟩
  | .ok name =>
    match srv.openSink w name env with
    | (.error e, w, opened) => ⟨w, [opened, ackErr e false], .again⟩
    | (.ok sink, w, opened) =>
      let out := srv.recvInto w h env auth name sink
      { out with events := opened :: out.events }

/-- `send_to_client` once the source is open. -/
def sendFrom (w : World) (h : Hello) (env : HelloEnv) (auth : Option AuthState)
    (source : BlockSource) : Outcome :=
  if source.len > srv.limits.maxObjectSize then
    ⟨w, [ackErr s!"object too large: {source.len} > {srv.limits.maxObjectSize}" false], .again⟩
  else if source.len > 2 ^ 63 - 1 then
    ⟨w, [ackErr "object too large for protocol size field" false], .again⟩
  else
    match sourceCrc32c srv.crc32cAppend source with
    | none => ⟨w, [ackErr env.readErr false], .again⟩
    | some crc =>
      match env.bindErr with
      | some e => ⟨w, [], .closed (.error e)⟩
      | none =>
        match srv.negotiate h env with
        | .error e => ⟨w, [ackErr e false], .again⟩
        | .ok neg =>
          match env.ackErr with
          | some e => ⟨w, [], .closed (.error e)⟩
          | none =>
            let ack := { srv.okAck h env auth neg with size := source.len, crc32c := crc }
            ⟨w, [.ack ack], finishSend env⟩

theorem sendFrom_spec (w : World) (h : Hello) (env : HelloEnv) (auth : Option AuthState)
    (source : BlockSource) : (srv.sendFrom w h env auth source).world = w ∧
      ∀ e ∈ (srv.sendFrom w h env auth source).events, ∃ a, e = .ack a := by
  unfold sendFrom
  split_ifs
  · simp [ackErr]
  · simp [ackErr]
  · split
    · simp [ackErr]
    · split
      · simp
      · split
        · simp [ackErr]
        · split
          · simp
          · simp

/-- The client pulls; the server is the data sender. -/
def sendToClient (w : World) (h : Hello) (env : HelloEnv) (auth : Option AuthState) : Outcome :=
  match servedObjectName h.name with
  | .error e => ⟨w, [ackErr e false], .again⟩
  | .ok name =>
    match srv.openSource w name env with
    | (.error e, opened) => ⟨w, [opened, ackErr e false], .again⟩
    | (.ok source, opened) =>
      let out := srv.sendFrom w h env auth source
      { out with events := opened :: out.events }

/-- One iteration of `handle_conn`. -/
def handleHello (peer : SocketAddr) (w : World) (h : Hello) (env : HelloEnv) : Outcome :=
  match srv.admission peer h with
  | (events, .error (e, authRequired)) =>
    ⟨w, events ++ [ackErr e authRequired], .closed (.ok ())⟩
  | (events, .ok auth) =>
    let out :=
      if h.mode = modeSend then srv.recvFromClient w h env auth
      else if h.mode = modeRecv then srv.sendToClient w h env auth
      else ⟨w, [ackErr "unknown mode" false], .closed (.ok ())⟩
    { out with events := events ++ out.events }

/-! ## The connection -/

structure Conn where
  world : World
  /-- The Hellos handled, each with what happened, newest first. -/
  log : List (Hello × List Event)
  next : Next

def newConn (w : World) : Conn := ⟨w, [], .again⟩

inductive ConnAction
  | hello (h : Hello) (env : HelloEnv)
  /-- The client is gone, or the server stops. -/
  | hangUp
  | readErr (e : String)
  /-- Other connections and processes change the served objects. -/
  | others (w : World)

/-- One step of a connection. -/
def connStep (peer : SocketAddr) (s : Conn) (act : ConnAction) : Option Conn :=
  match s.next with
  | .closed _ => none
  | .again =>
    match act with
    | .hello h env =>
      let out := srv.handleHello peer s.world h env
      some ⟨out.world, (h, out.events) :: s.log, out.next⟩
    | .hangUp => some { s with next := .closed (.ok ()) }
    | .readErr e => some { s with next := .closed (.error e) }
    | .others w => some { s with world := w }

/-! ## A server with the default settings -/

/-- Open to everyone; HMAC is never called. -/
def plain : Server where
  params := defaultParams
  authorizer := none
  limits := .default
  sourceResolver := none
  sinkResolver := none
  hmac := ⟨fun _ _ => []⟩
  kx := .unused
  aesHardware := true
  crc32cAppend _ bs := if bs = [7] then 0x86b737ba else 0

def localPeer : SocketAddr := ⟨.v4 0x7f000001#32, 50000⟩

def emptyWorld : World := ⟨fun _ => none, fun _ => ⟨.mem, []⟩⟩

end Server

end Girth
