import Girth.Client.Reply
import Girth.Service

/-!
# Key agreement over a hostile control channel

Clients and servers share a token, and whoever sits between them rewrites every Hello and every Ack at
will. A `Channel` records the calls that clients with the token made, the answers that servers gave
under the token, and the answers that clients accepted. Two things are assumed of HMAC: a MAC that
verifies was computed by a holder of the token on that very transcript (`Unforged`), and two transcripts
that holders computed have different MACs (`CollisionFree`).

A client that asked for encryption accepts an answer only if a server gave it in reply to this
client's own request, with this client's key and in this session (`key_agreement`): no key of a third
party enters. The argument needs encryption. The proof of a client without a key covers an open end
behind the name, and can be read as that of another request (`clientProof_binds_iff`); with a key of
32 bytes in both requests the end is fixed.

The cipher is not covered by either MAC. An altered one makes the two ends derive different boxes.
-/

namespace Girth

open Lib

/-! ## Calls and answers -/

/-- A call of a client, as far as its request and its checks go. -/
structure ClientRun where
  client : Client
  p : ClientParams
  job : Job
  env : TransferEnv
  dir : Direction

namespace ClientRun

variable (c : ClientRun)

/-- The bytes of the client's key, none without encryption. -/
def pub : Bytes := (clientKeys c.client c.p c.env).2.getD []

def mac : Option Bytes :=
  clientAuth c.client c.job c.dir.mode (c.dir.size c.job) (clientKeys c.client c.p c.env).2

/-- The computation behind its proof. -/
def macCall : MacCall := .client protocolVersion c.dir.mode c.job.name (c.dir.size c.job) c.pub

/-- What a call does with an answer before it sets up its end of the data plane. -/
def check (a : Ack) : Call GirthError World (Option AeadBox) := do
  rejectUnlessOk a
  verifyServerAuth c.client c.job.token c.mac a
  clientCryptoCall c.client c.p a (clientKeys c.client c.p c.env).1

/-- The cipher of an accepted answer. -/
def accepts (a : Ack) : Option (Option AeadBox) := ((c.check a).runOn {}).1.toOption

end ClientRun

/-- A Hello that reaches a server, and what the server finds. -/
structure ServerRun where
  srv : Server
  peer : SocketAddr
  world : Server.World
  hello : Hello
  env : Server.HelloEnv

namespace ServerRun

variable (r : ServerRun)

def positive : Server.Event → Option Ack
  | .ack a => if a.ok then some a else none
  | _ => none

/-- The positive answers, if the server checked the request under `token`. -/
def answers (token : Bytes) : List Ack :=
  match (r.srv.admission r.peer r.hello).2 with
  | .ok (some auth) =>
    if auth.token = token then
      (r.srv.handleHello r.peer r.world r.hello r.env).events.filterMap positive
    else []
  | _ => []

/-- The cipher of the server's end. -/
def box : Option AeadBox := (r.srv.negotiate r.hello r.env).toOption.bind Negotiated.box

end ServerRun

theorem ClientRun.accepts_of_core_ok {c : ClientRun} {tracked : Bool} {warm : Option RateWarmStart}
    {w u : World}
    (h : (coreWithStream c.client c.p c.job c.env c.dir tracked warm).runOn w = (.ok (), u)) :
    ∃ a, c.env.ack = .ok a ∧ (c.accepts a).isSome := by
  obtain ⟨a, box, hthrough⟩ := core_ok h
  have hcheck : ((c.check a).runOn {}).1 = .ok box := by
    have hreject : (rejectUnlessOk a).runOn {} = (.ok (), {}) := by
      rw [rejectUnlessOk, hthrough.ok]
      rfl
    have hauth : (verifyServerAuth c.client c.job.token c.mac a).runOn {} = (.ok (), {}) :=
      Prod.ext hthrough.auth rfl
    rw [check, Call.runOn_bind, hreject]
    dsimp only
    rw [Call.runOn_bind, hauth]
    dsimp only
    rw [clientCryptoCall, Call.runOn_ofExcept, hthrough.crypto]
    rfl
  refine ⟨a, hthrough.read, ?_⟩
  rw [accepts, hcheck]
  rfl

/-! ## The channel -/

structure Channel where
  calls : List ClientRun := []
  answers : List (ServerRun × Ack) := []
  accepted : List (ClientRun × Ack × Option AeadBox) := []

inductive ChannelAct
  | call (c : ClientRun)
  /-- A Hello of anyone's making reaches a server. -/
  | serve (r : ServerRun)
  /-- An Ack of anyone's making reaches the `i`-th call. -/
  | deliver (i : Nat) (a : Ack)

namespace Channel

/-- What the holders of the token have computed. -/
def issued (s : Channel) : Set MacCall :=
  { m | (∃ c ∈ s.calls, m = c.macCall) ∨ ∃ x ∈ s.answers,
    m = .server x.2.session (x.2.pubKey.getD []) (x.1.hello.authMac.getD []) }

def transcripts (s : Channel) : Set Bytes := Set.image MacCall.transcript s.issued

variable (hmac : Hmac) (kx : KeyExchange) (token : Bytes)

def step (s : Channel) : ChannelAct → Option Channel
  | .call c => if c.job.token = some token then some { s with calls := c :: s.calls } else none
  | .serve r => some { s with answers := (r.answers token).map (r, ·) ++ s.answers }
  | .deliver i a =>
    match s.calls[i]? with
    | none => none
    | some c =>
      some { s with accepted := ((c.accepts a).map fun box => (c, a, box)).toList ++ s.accepted }

/-- Everyone uses the same crates, numbers are `i64`, and a MAC that verifies was computed by a holder
of the token. -/
def Unforged (s : Channel) : ChannelAct → Prop
  | .call c => c.client.hmac = hmac ∧ c.client.kx = kx ∧ IsI64 c.job.size
  | .serve r => r.srv.hmac = hmac ∧ r.srv.kx = kx ∧ IsI64 r.hello.version ∧ IsI64 r.hello.size ∧
      (r.answers token ≠ [] → r.hello.transcript ∈ s.transcripts)
  | .deliver i a => ∀ c, s.calls[i]? = some c → (c.accepts a).isSome →
      serverTranscript a.session (a.pubKey.getD []) (c.mac.getD []) ∈ s.transcripts

/-- Different transcripts of the holders have different MACs. -/
def CollisionFree (s : Channel) : Prop :=
  Set.InjOn (hmac.mac token) (s.transcripts)

end Channel

/-! ## What an answer and its acceptance say -/

namespace Server

theorem admission_some {srv : Server} {peer : SocketAddr} {h : Hello} {auth : AuthState}
    (hauth : (srv.admission peer h).2 = .ok (some auth)) :
    h.authMac = some auth.clientMac ∧ srv.hmac.mac auth.token h.transcript = auth.clientMac := by
  unfold admission at hauth
  split at hauth
  · cases hauth
  · split at hauth
    · cases hauth
    · split at hauth
      · cases hauth
      · dsimp only at hauth
        split at hauth
        · cases hauth
        · split at hauth
          · cases hauth
          · rename_i presented hpresented
            split at hauth
            · rename_i hok
              cases hauth
              exact ⟨hpresented, beq_iff_eq.mp hok⟩
            · cases hauth

end Server

theorem ServerRun.answers_spec {r : ServerRun} {token : Bytes} {a : Ack} (h : a ∈ r.answers token) :
    WithinLimits r.hello r.srv.limits ∧
      r.hello.authMac = some (r.srv.hmac.mac token r.hello.transcript) ∧
      ∃ neg, r.srv.negotiate r.hello r.env = .ok neg ∧ a.session = r.env.session ∧
        a.pubKey.getD [] = neg.pubKey ∧ a.cipher = neg.cipherName := by
  unfold answers at h
  split at h
  · rename_i auth hauth
    split_ifs at h with htoken
    · obtain ⟨ev, hev, hpos⟩ := List.mem_filterMap.mp h
      cases ev with
      | ack a' =>
        obtain ⟨hok, rfl⟩ : a'.ok = true ∧ a' = a := by
          simpa [positive] using hpos
        obtain ⟨hmac, hverify⟩ := Server.admission_some hauth
        obtain ⟨auth', neg, size, crc, -, hneg, hack⟩ := Server.ack_of_granted hev hok
        refine ⟨(Server.handleHello_granted hev hok).1, ?_, neg, hneg, ?_, ?_, ?_⟩
        · rw [hmac, ← hverify, htoken]
        · rw [hack]
          rfl
        · rw [hack]
          exact r.srv.okAck_pubKey r.hello r.env auth' neg
        · rw [hack]
          rfl
      | _ => cases hpos
    · cases h
  · cases h

theorem encrypt_of_pubKey {srv : Server} {h : Hello} {env : Server.HelloEnv} {neg : Negotiated}
    (hneg : srv.negotiate h env = .ok neg) (hpub : neg.pubKey ≠ []) : h.encrypt = true := by
  unfold Server.negotiate at hneg
  cases hencrypt : h.encrypt with
  | false =>
    rw [hencrypt] at hneg
    cases hneg
    exact absurd rfl hpub
  | true => rfl

theorem length_of_deriveAead {kx : KeyExchange} {privKey peerPub : Bytes} {session : UInt32}
    {name : String} {box : AeadBox} (h : deriveAead kx privKey peerPub session name = .ok box) :
    peerPub.length = 32 := by
  unfold deriveAead at h
  split_ifs at h with hlen
  exact not_not.mp hlen

theorem negotiate_of_encrypt {srv : Server} {h : Hello} {env : Server.HelloEnv} {neg : Negotiated}
    (hneg : srv.negotiate h env = .ok neg) (hencrypt : h.encrypt = true) :
    neg.pubKey = srv.kx.publicKey env.privKey ∧ ∃ box, neg.box = some box ∧
      deriveAead srv.kx env.privKey h.clientPub env.session neg.cipherName = .ok box := by
  rw [Server.negotiate, hencrypt] at hneg
  obtain ⟨box, hderived, -, hanswer⟩ := negotiate_cases hneg
  exact ⟨by rw [hanswer], box, by rw [hanswer], hderived⟩

theorem ClientRun.accepts_spec {c : ClientRun} {a : Ack} {box : Option AeadBox}
    (h : c.accepts a = some box) (hencrypt : c.p.encrypt = true) :
    (a.pubKey.getD []).length = 32 ∧ ∃ b, box = some b ∧
      deriveAead c.client.kx c.env.privKey (a.pubKey.getD []) a.session a.cipher = .ok b := by
  have hcheck : (c.check a).runOn {} = (.ok box, ((c.check a).runOn {}).2) := by
    unfold accepts at h
    generalize (c.check a).runOn {} = r at h
    obtain ⟨res, t⟩ := r
    cases res with
    | ok b =>
      cases h
      rfl
    | error e => cases h
  obtain ⟨_, w₁, -, h₁⟩ := Call.runOn_bind_ok hcheck
  obtain ⟨_, w₂, -, h₂⟩ := Call.runOn_bind_ok h₁
  have hcrypto := clientCryptoCall_ok h₂
  have hkeys : (clientKeys c.client c.p c.env).1 = some c.env.privKey := by
    rw [clientKeys, hencrypt]
    rfl
  rw [hkeys, hencrypt] at hcrypto
  unfold clientCrypto at hcrypto
  cases henabled : a.encrypt with
  | false =>
    rw [henabled] at hcrypto
    cases hcrypto
  | true =>
    rw [henabled] at hcrypto
    simp only [Bool.not_true, Bool.false_eq_true, if_false] at hcrypto
    split at hcrypto
    · cases hcrypto
    · rename_i b hderived
      cases hcrypto
      exact ⟨length_of_deriveAead hderived, b, rfl, hderived⟩

theorem clientTranscript_injective {v₁ v₂ s₁ s₂ : Int} {m₁ m₂ n₁ n₂ : String} {p₁ p₂ : Bytes}
    (hv₁ : IsI64 v₁) (hv₂ : IsI64 v₂) (hs₁ : IsI64 s₁) (hs₂ : IsI64 s₂)
    (hm : (utf8 m₁).length = (utf8 m₂).length) (hp : p₁.length = p₂.length)
    (h : clientTranscript v₁ m₁ n₁ s₁ p₁ = clientTranscript v₂ m₂ n₂ s₂ p₂) :
    v₁ = v₂ ∧ m₁ = m₂ ∧ n₁ = n₂ ∧ s₁ = s₂ ∧ p₁ = p₂ := by
  unfold clientTranscript at h
  -- the key, the size and a terminator from the end
  obtain ⟨h, hpub⟩ := List.append_inj' h hp
  obtain ⟨h, hsize⟩ := List.append_inj' h (by simp)
  obtain ⟨h, -⟩ := List.append_inj' h rfl
  -- the domain, the version and the mode from the front
  simp only [List.append_assoc] at h
  obtain ⟨hversion, h⟩ := List.append_inj (List.append_cancel_left h) (by simp)
  obtain ⟨hmode, h⟩ := List.append_inj h hm
  exact ⟨i64Bytes_injective hv₁ hv₂ hversion, utf8_injective hmode,
    utf8_injective (List.append_cancel_left h), i64Bytes_injective hs₁ hs₂ hsize, hpub⟩

/-! ## Every run -/

namespace Channel

variable {hmac : Hmac} {kx : KeyExchange} {token : Bytes} {s t : Channel}

/-- What is known of a call. -/
structure OfCall (hmac : Hmac) (kx : KeyExchange) (token : Bytes) (c : ClientRun) : Prop where
  token : c.job.token = some token
  hmac : c.client.hmac = hmac
  kx : c.client.kx = kx
  size : IsI64 c.job.size

/-- What is known of an answer, where the holders have computed on `known`. -/
structure OfAnswer (hmac : Hmac) (kx : KeyExchange) (token : Bytes) (known : Set Bytes)
    (x : ServerRun × Ack) : Prop where
  answers : x.2 ∈ x.1.answers token
  hmac : x.1.srv.hmac = hmac
  kx : x.1.srv.kx = kx
  version : IsI64 x.1.hello.version
  size : IsI64 x.1.hello.size
  known : x.1.hello.transcript ∈ known

/-- What is known of an accepted answer. -/
structure OfAccepted (calls : List ClientRun) (known : Set Bytes)
    (x : ClientRun × Ack × Option AeadBox) : Prop where
  call : x.1 ∈ calls
  accepts : x.1.accepts x.2.1 = some x.2.2
  known : serverTranscript x.2.1.session (x.2.1.pubKey.getD []) (x.1.mac.getD []) ∈ known

structure Inv (hmac : Hmac) (kx : KeyExchange) (token : Bytes) (s : Channel) : Prop where
  calls : ∀ c ∈ s.calls, OfCall hmac kx token c
  answers : ∀ x ∈ s.answers, OfAnswer hmac kx token s.transcripts x
  accepted : ∀ x ∈ s.accepted, OfAccepted s.calls s.transcripts x

theorem transcripts_mono (hcalls : s.calls ⊆ t.calls) (hanswers : s.answers ⊆ t.answers) :
    s.transcripts ⊆ t.transcripts := by
  refine Set.image_mono ?_
  rintro m (⟨c, hc, rfl⟩ | ⟨x, hx, rfl⟩)
  · exact .inl ⟨c, hcalls hc, rfl⟩
  · exact .inr ⟨x, hanswers hx, rfl⟩

theorem step_grows {act : ChannelAct} (h : step token s act = some t) :
    s.calls ⊆ t.calls ∧ s.answers ⊆ t.answers := by
  cases act with
  | call c =>
    simp only [step] at h
    split_ifs at h
    cases h
    exact ⟨List.subset_cons_self .., List.Subset.refl _⟩
  | serve r =>
    cases h
    exact ⟨List.Subset.refl _, List.subset_append_right ..⟩
  | deliver i a =>
    simp only [step] at h
    split at h <;> cases h
    exact ⟨List.Subset.refl _, List.Subset.refl _⟩

theorem inv_step {act : ChannelAct} (hinv : s.Inv hmac kx token) (hC : Unforged hmac kx token s act)
    (h : step token s act = some t) : t.Inv hmac kx token := by
  obtain ⟨hcalls, hanswers⟩ := step_grows h
  have hmono := transcripts_mono hcalls hanswers
  have hold : ∀ x ∈ s.answers, OfAnswer hmac kx token t.transcripts x := fun x hx =>
    { hinv.answers x hx with known := hmono (hinv.answers x hx).known }
  have hacc : ∀ x ∈ s.accepted, OfAccepted t.calls t.transcripts x := fun x hx =>
    { hinv.accepted x hx with
      call := hcalls (hinv.accepted x hx).call
      known := hmono (hinv.accepted x hx).known }
  cases act with
  | call c =>
    simp only [step] at h
    split_ifs at h with htoken
    cases h
    refine ⟨fun c' hc' => ?_, hold, hacc⟩
    rcases List.mem_cons.mp hc' with rfl | hc'
    · exact ⟨htoken, hC.1, hC.2.1, hC.2.2⟩
    · exact hinv.calls c' hc'
  | serve r =>
    obtain ⟨hh, hk, hv, hsz, hforged⟩ := hC
    cases h
    refine ⟨hinv.calls, fun x hx => ?_, hacc⟩
    rcases List.mem_append.mp hx with hnew | hx
    · obtain ⟨a, ha, rfl⟩ := List.mem_map.mp hnew
      exact ⟨ha, hh, hk, hv, hsz, hmono (hforged (List.ne_nil_of_mem ha))⟩
    · exact hold x hx
  | deliver i a =>
    simp only [step] at h
    split at h
    · cases h
    · rename_i c hc
      cases h
      refine ⟨hinv.calls, hold, fun x hx => ?_⟩
      rcases List.mem_append.mp hx with hnew | hx
      · obtain ⟨box, hbox, rfl⟩ := Option.map_eq_some_iff.mp (Option.mem_toList.mp hnew)
        exact ⟨List.mem_of_getElem? hc, hbox, hmono (hC c hc (by rw [hbox]; rfl))⟩
      · exact hacc x hx

theorem inv_run {as : List ChannelAct} (h : Steps (step token) (Unforged hmac kx token) {} as s) :
    s.Inv hmac kx token :=
  h.invariant (fun _ _ _ hinv hC hstep => inv_step hinv hC hstep)
    ⟨fun _ h => (by cases h), fun _ h => (by cases h), fun _ h => by cases h⟩

/-! ## Agreement -/

/-- The request that the server handled is the call's own: all that the proof covers is the same. -/
structure SameCall (r : ServerRun) (c : ClientRun) : Prop where
  version : r.hello.version = protocolVersion
  mode : r.hello.mode = c.dir.mode
  name : r.hello.name = c.job.name
  size : r.hello.size = c.dir.size c.job
  clientPub : r.hello.clientPub = c.pub

theorem OfCall.mac_eq {c : ClientRun} (hc : OfCall hmac kx token c) :
    c.mac = some (hmac.mac token c.macCall.transcript) := by
  rw [ClientRun.mac, clientAuth, hc.token, hc.hmac]
  rfl

theorem OfAnswer.mac_eq {x : ServerRun × Ack} {known : Set Bytes}
    (hx : OfAnswer hmac kx token known x) :
    x.1.hello.authMac.getD [] = hmac.mac token x.1.hello.transcript := by
  rw [(ServerRun.answers_spec hx.answers).2.1, hx.hmac]
  rfl

theorem sameCall_of_transcript {x : ServerRun × Ack} {c : ClientRun} {known : Set Bytes}
    (hx : OfAnswer hmac kx token known x) (hc : OfCall hmac kx token c)
    (hpub : x.1.hello.clientPub.length = c.pub.length)
    (h : x.1.hello.transcript = c.macCall.transcript) : SameCall x.1 c := by
  have hsize : IsI64 (c.dir.size c.job) := by
    cases c.dir with
    | push => exact hc.size
    | pull => exact (show IsI64 0 from ⟨by decide, by decide⟩)
  have hmode : (utf8 x.1.hello.mode).length = (utf8 c.dir.mode).length := by
    have hclient : (utf8 c.dir.mode).length = 4 := by cases c.dir <;> decide +kernel
    rw [hclient]
    rcases (ServerRun.answers_spec hx.answers).1.mode with hserver | hserver <;> rw [hserver] <;>
      decide +kernel
  obtain ⟨hversion, hmode, hname, hsize, hpub⟩ := clientTranscript_injective hx.version
    ⟨by decide, by decide⟩ hx.size hsize hmode hpub h
  exact ⟨hversion, hmode, hname, hsize, hpub⟩

theorem exists_call (hinv : s.Inv hmac kx token) {x : ServerRun × Ack} (hx : x ∈ s.answers) :
    ∃ c ∈ s.calls, x.1.hello.transcript = c.macCall.transcript := by
  obtain ⟨m, hm | hm, heq⟩ := (hinv.answers x hx).known
  · obtain ⟨c, hc, rfl⟩ := hm
    exact ⟨c, hc, heq.symm⟩
  · obtain ⟨y, -, rfl⟩ := hm
    exact absurd heq (serverTranscript_ne_clientTranscript _ _ _ _ _ _ _ _)

/-- An accepted answer is one that some server gave, in this session and with this key, to a request
with the call's proof. -/
theorem exists_answer (hinv : s.Inv hmac kx token) (hlen : ∀ key msg, (hmac.mac key msg).length = 32)
    {x : ClientRun × Ack × Option AeadBox} (hacc : OfAccepted s.calls s.transcripts x) :
    ∃ y ∈ s.answers, y.2.session = x.2.1.session ∧ y.2.pubKey.getD [] = x.2.1.pubKey.getD [] ∧
      y.1.hello.authMac.getD [] = x.1.mac.getD [] := by
  obtain ⟨m, hm, heq⟩ := hacc.known
  have hcmac : (x.1.mac.getD []).length = 32 := by
    rw [(hinv.calls x.1 hacc.call).mac_eq]
    exact hlen _ _
  have hwf : m.WellFormed := by
    rcases hm with ⟨c, -, rfl⟩ | ⟨y, hy, rfl⟩
    · trivial
    · show (y.1.hello.authMac.getD []).length = 32
      rw [(hinv.answers y hy).mac_eq]
      exact hlen _ _
  obtain rfl := MacCall.eq_of_transcript_eq hcmac hwf heq
  rcases hm with ⟨c, -, hm⟩ | ⟨y, hy, hm⟩
  · cases hm
  · obtain ⟨h₁, h₂, h₃⟩ := MacCall.server.inj hm
    exact ⟨y, hy, h₁.symm, h₂.symm, h₃.symm⟩

theorem box_eq_iff {r : ServerRun} {c : ClientRun} {a a' : Ack} {b b' : AeadBox}
    (hcomm : ∀ k l, kx.diffieHellman k (kx.publicKey l) = kx.diffieHellman l (kx.publicKey k))
    (hclient : deriveAead kx c.env.privKey (kx.publicKey r.env.privKey) r.env.session a.cipher = .ok b)
    (hserver : deriveAead kx r.env.privKey (kx.publicKey c.env.privKey) r.env.session a'.cipher =
      .ok b') : b = b' ↔ a.cipher = a'.cipher := by
  constructor
  · intro heq
    rw [← deriveAead_name hclient, ← deriveAead_name hserver, heq]
  · intro heq
    rw [heq] at hclient
    exact (deriveAead_symm (hcomm r.env.privKey c.env.privKey) hserver hclient).symm

/-- Some server handled the call's own request and gave the accepted answer, up to its cipher. -/
def Agrees (kx : KeyExchange) (s : Channel) (c : ClientRun) (a : Ack) (box : Option AeadBox) : Prop :=
  ∃ r a', (r, a') ∈ s.answers ∧ SameCall r c ∧ a.session = r.env.session ∧
    a.pubKey.getD [] = kx.publicKey r.env.privKey ∧ r.box.isSome ∧ (box = r.box ↔ a.cipher = a'.cipher)

theorem Inv.pub_eq (hinv : s.Inv hmac kx token) {c : ClientRun} (hc : c ∈ s.calls)
    (hencrypt : c.p.encrypt = true) : c.pub = kx.publicKey c.env.privKey := by
  rw [ClientRun.pub, clientKeys, hencrypt, (hinv.calls c hc).kx]
  rfl

theorem agrees_of_accepted (hinv : s.Inv hmac kx token)
    (hlen : ∀ key msg, (hmac.mac key msg).length = 32) (hpub : ∀ key, (kx.publicKey key).length = 32)
    (hcomm : ∀ k l, kx.diffieHellman k (kx.publicKey l) = kx.diffieHellman l (kx.publicKey k))
    (hfree : s.CollisionFree hmac token) {c : ClientRun} {a : Ack} {box : Option AeadBox}
    (hof : OfAccepted s.calls s.transcripts (c, a, box)) (hencrypt : c.p.encrypt = true) :
    s.Agrees kx c a box := by
  have hc := hinv.calls c hof.call
  obtain ⟨⟨r, a'⟩, hans, hsession, hkey, hmac⟩ := exists_answer hinv hlen hof
  have hr := hinv.answers _ hans
  obtain ⟨-, -, neg, hneg, hsession', hkey', hcipher⟩ := ServerRun.answers_spec hr.answers
  obtain ⟨hkeyLen, b, hb, hclient⟩ := ClientRun.accepts_spec hof.accepts hencrypt
  dsimp only at hsession hkey hsession' hkey' hcipher hkeyLen hb hclient hmac
  -- the answer has a key, so the request was for encryption
  have hne : neg.pubKey ≠ [] := by
    intro hnil
    rw [← hkey, hkey', hnil] at hkeyLen
    cases hkeyLen
  obtain ⟨hserverPub, b', hbox, hserver⟩ := negotiate_of_encrypt hneg (encrypt_of_pubKey hneg hne)
  have hpubC := hinv.pub_eq hof.call hencrypt
  -- one MAC, one transcript
  have htranscript : r.hello.transcript = c.macCall.transcript := by
    refine hfree hr.known ⟨_, .inl ⟨c, hof.call, rfl⟩, rfl⟩ ?_
    rw [← hr.mac_eq, hmac, hc.mac_eq]
    rfl
  have hsame : SameCall r c := by
    refine sameCall_of_transcript hr hc ?_ htranscript
    rw [length_of_deriveAead hserver, hpubC, hpub]
  have hrbox : r.box = some b' := by
    rw [ServerRun.box, hneg]
    exact hbox
  rw [hr.kx] at hserverPub hserver
  rw [hc.kx, ← hkey, hkey', ← hsession, hsession', hserverPub] at hclient
  rw [hsame.clientPub, hpubC, ← hcipher] at hserver
  refine ⟨r, a', hans, hsame, ?_, ?_, ?_, ?_⟩
  · rw [← hsession, hsession']
  · rw [← hkey, hkey', hserverPub]
  · rw [hrbox]
    rfl
  · rw [hb, hrbox, Option.some.injEq]
    exact box_eq_iff hcomm hclient hserver

/-- **Key agreement.** Let clients and servers with the token make any calls and handle any Hellos, with
an adversary in between who writes all messages but forges no MAC. If a client that asked for
encryption accepts an answer, then some server handled this very request with this client's key, and
answered in the accepted session with the accepted key, which is its own; the boxes of the two ends
are equal exactly if the cipher was not altered. So it is for a call that returns `Ok`, with the answer
it read. If all calls ask for encryption, then every request for encryption that a server answers is one
that a client made. -/
theorem key_agreement (hlen : ∀ key msg, (hmac.mac key msg).length = 32)
    (hpub : ∀ key, (kx.publicKey key).length = 32)
    (hcomm : ∀ k l, kx.diffieHellman k (kx.publicKey l) = kx.diffieHellman l (kx.publicKey k))
    {as : List ChannelAct} (h : Steps (step token) (Unforged hmac kx token) {} as s)
    (hfree : s.CollisionFree hmac token) :
    (∀ c a box, (c, a, box) ∈ s.accepted → c.p.encrypt = true → s.Agrees kx c a box) ∧
    (∀ c ∈ s.calls, c.p.encrypt = true → ∀ tracked warm w u,
      (coreWithStream c.client c.p c.job c.env c.dir tracked warm).runOn w = (.ok (), u) →
      ∃ a box, c.env.ack = .ok a ∧ c.accepts a = some box ∧
        (serverTranscript a.session (a.pubKey.getD []) (c.mac.getD []) ∈ s.transcripts →
          s.Agrees kx c a box)) ∧
    ((∀ c ∈ s.calls, c.p.encrypt = true) → ∀ r a', (r, a') ∈ s.answers → r.hello.encrypt = true →
      ∃ c ∈ s.calls, SameCall r c) := by
  have hinv := inv_run h
  refine ⟨fun c a box hacc hencrypt => ?_, fun c hc hencrypt tracked warm w u hcall => ?_,
    fun hall r a' hans hencrypt => ?_⟩
  · exact agrees_of_accepted hinv hlen hpub hcomm hfree (hinv.accepted _ hacc) hencrypt
  · obtain ⟨a, hread, haccepts⟩ := ClientRun.accepts_of_core_ok hcall
    obtain ⟨box, hbox⟩ := Option.isSome_iff_exists.mp haccepts
    exact ⟨a, box, hread, hbox, fun hknown =>
      agrees_of_accepted hinv hlen hpub hcomm hfree ⟨hc, hbox, hknown⟩ hencrypt⟩
  · have hr := hinv.answers _ hans
    obtain ⟨-, -, neg, hneg, -⟩ := ServerRun.answers_spec hr.answers
    obtain ⟨-, b', -, hserver⟩ := negotiate_of_encrypt hneg hencrypt
    obtain ⟨c, hc, htranscript⟩ := exists_call hinv hans
    refine ⟨c, hc, sameCall_of_transcript hr (hinv.calls c hc) ?_ htranscript⟩
    rw [length_of_deriveAead hserver, hinv.pub_eq hc (hall c hc), hpub]

/-! ### One exchange -/

/-- A client with the token pulls `a` encrypted. -/
def sealedCall : ClientRun where
  client := ⟨exchangeHmac, onesTwosExchange, false⟩
  p := { Exchange.byteParams with encrypt := true }
  job := { name := "a", token := some sharedToken }
  env := { privKey := onesKey, ack := .error ⟨.other, ""⟩ }
  dir := .pull

/-- The request reaches a server that holds the object `a`. -/
def sealedServe : ServerRun where
  srv :=
    { Server.plain with
      authorizer := some fun _ => .ok sharedToken
      hmac := exchangeHmac
      kx := onesTwosExchange
      aesHardware := false }
  peer := Server.localPeer
  world := { Server.emptyWorld with dir := fun name => if name = "a" then some (.file [7]) else none }
  hello := requestHello sealedCall.client sealedCall.p sealedCall.job sealedCall.env .pull 0 none
  env := { session := 9, privKey := twosKey }

def sealedAnswer : Ack where
  ok := true
  session := 9
  size := 1
  crc32c := 0x86b737ba
  name := "a"
  encrypt := true
  cipher := cipherChacha
  pubKey := some twosPub
  authMac := some replyMac

def sealedBox : AeadBox := ⟨.cha, onesTwosKey⟩

def sealedEnd : Channel where
  calls := [sealedCall]
  answers := [(sealedServe, sealedAnswer)]
  accepted := [(sealedCall, sealedAnswer, some sealedBox)]

theorem sealed_run : Steps (step sharedToken) (Unforged exchangeHmac onesTwosExchange sharedToken) {}
    [.call sealedCall, .serve sealedServe, .deliver 0 sealedAnswer] sealedEnd := by
  have hanswers : sealedServe.answers sharedToken = [sealedAnswer] := by decide +kernel
  have haccepts : sealedCall.accepts sealedAnswer = some (some sealedBox) := by decide +kernel
  have hproof : sealedCall.macCall.transcript = sealedServe.hello.transcript := rfl
  have hreply : (MacCall.server sealedAnswer.session (sealedAnswer.pubKey.getD [])
      (sealedServe.hello.authMac.getD [])).transcript = serverTranscript sealedAnswer.session
        (sealedAnswer.pubKey.getD []) (sealedCall.mac.getD []) := rfl
  have hcall : step sharedToken {} (.call sealedCall) = some { calls := [sealedCall] } := if_pos rfl
  refine .cons ⟨rfl, rfl, by decide, by decide⟩ hcall ?_
  refine .cons (t := { calls := [sealedCall], answers := [(sealedServe, sealedAnswer)] }) ?_ ?_ ?_
  · exact ⟨rfl, rfl, ⟨by decide, by decide⟩, ⟨by decide, by decide⟩, fun _ =>
      ⟨_, .inl ⟨sealedCall, List.mem_singleton_self _, rfl⟩, hproof⟩⟩
  · rw [step, hanswers]
    rfl
  · refine .single ?_ ?_
    · intro c hc _
      cases hc
      exact ⟨_, .inr ⟨(sealedServe, sealedAnswer), List.mem_singleton_self _, rfl⟩, hreply⟩
    · show some _ = some sealedEnd
      rw [haccepts]
      rfl

theorem key_agreement_sealed :
    sealedEnd.Agrees onesTwosExchange sealedCall sealedAnswer (some sealedBox) := by
  have hlen (key msg : Bytes) : (exchangeHmac.mac key msg).length = 32 := by
    simp only [exchangeHmac]
    split_ifs <;> rfl
  refine (key_agreement hlen onesTwosExchange_length onesTwosExchange_comm sealed_run ?_).1 sealedCall
    sealedAnswer (some sealedBox) (List.mem_singleton_self _) rfl
  -- the two transcripts that were computed on have different MACs
  have hmacs : exchangeHmac.mac sharedToken sealedCall.macCall.transcript ≠ exchangeHmac.mac sharedToken
      (serverTranscript sealedAnswer.session (sealedAnswer.pubKey.getD [])
        (sealedServe.hello.authMac.getD [])) := by decide +kernel
  rintro x ⟨_, ⟨c, hc, rfl⟩ | ⟨c, hc, rfl⟩, rfl⟩ y ⟨_, ⟨d, hd, rfl⟩ | ⟨d, hd, rfl⟩, rfl⟩ heq <;>
    cases List.mem_singleton.mp hc <;> cases List.mem_singleton.mp hd
  · rfl
  · exact absurd heq hmacs
  · exact absurd heq.symm hmacs
  · rfl

end Channel

end Girth
