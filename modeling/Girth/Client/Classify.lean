import Girth.Client.Session
import Girth.Handshake
import Girth.Lib.Text
import Girth.Server.Conn

/-!
# What a client makes of a rejection

A server answers a request that it rejects with a text, and the client reads the cause off the words
that it finds there. Most texts are the server's own and their words tell the cause. But where opening,
sizing or reading the object fails, the answer is the text of the operating system or of a resolver,
which may have any of the words.

`rejectionCause` names the place in the server that rejects; every answer with an error comes from it
(`answered_handleHello`). `rejection_classified_iff` gives the exact condition on the foreign texts under
which the client takes each rejection for what it is.
-/

namespace Girth

open Lib

/-! ## The words -/

/-- What `from_server_err` looks for. -/
def causeWords : List String :=
  ["version mismatch", "auth", "denied", "unauthorized", "no such file", "not found", "notfound"]

def SaysDenied (text : String) : Prop :=
  Says text "auth" ∨ Says text "denied" ∨ Says text "unauthorized"

def SaysMissing (text : String) : Prop :=
  Says text "no such file" ∨ Says text "not found" ∨ Says text "notfound"

instance (text : String) : Decidable (SaysDenied text) := inferInstanceAs (Decidable (_ ∨ _ ∨ _))

instance (text : String) : Decidable (SaysMissing text) := inferInstanceAs (Decidable (_ ∨ _ ∨ _))

theorem fromServerErr_spec (text : String) :
    (GirthError.fromServerErr text = .versionMismatch ↔ Says text "version mismatch") ∧
    (GirthError.fromServerErr text = .authDenied ↔
      ¬ Says text "version mismatch" ∧ SaysDenied text) ∧
    (GirthError.fromServerErr text = .notFound ↔
      ¬ Says text "version mismatch" ∧ ¬ SaysDenied text ∧ SaysMissing text) := by
  unfold GirthError.fromServerErr
  dsimp only
  split_ifs with hversion hdenied hmissing
  · exact ⟨iff_of_true rfl hversion, iff_of_false (by simp) fun h => h.1 hversion,
      iff_of_false (by simp) fun h => h.1 hversion⟩
  · exact ⟨iff_of_false (by simp) hversion, iff_of_true rfl ⟨hversion, hdenied⟩,
      iff_of_false (by simp) fun h => h.2.1 hdenied⟩
  · exact ⟨iff_of_false (by simp) hversion, iff_of_false (by simp) fun h => hdenied h.2,
      iff_of_true rfl ⟨hversion, hdenied, hmissing⟩⟩
  · exact ⟨iff_of_false (by simp) hversion, iff_of_false (by simp) fun h => hdenied h.2,
      iff_of_false (by simp) fun h => hmissing h.2.2⟩

theorem silent_iff {text : String} : Silent causeWords text ↔
    ¬ Says text "version mismatch" ∧ ¬ SaysDenied text ∧ ¬ SaysMissing text := by
  simp only [Silent, causeWords, SaysDenied, SaysMissing, List.forall_mem_cons, not_or,
    List.not_mem_nil, false_imp_iff, implies_true, and_true, and_assoc]

namespace Server

/-! ## Where a request is rejected -/

inductive Cause
  | version
  | limits
  | auth
  | mode
  | name
  /-- Opening or resolving the object fails with an error of this kind. -/
  | opening (kind : IoErrorKind)
  | allocate
  | tooLarge
  | read
  | negotiation
  deriving DecidableEq

/-- The kinds of the errors that the resolver, the open and the look at the metadata end in, if they
do; an answer carries their texts only. -/
structure ErrorKinds where
  resolve : IoErrorKind := .other
  openFile : IoErrorKind := .other
  metadata : IoErrorKind := .other

/-- The kind of error that opening a served object ends in. -/
def openKind (create : Bool) (dir : String → Option Node) (name : String) (env : HelloEnv)
    (kinds : ErrorKinds) : IoErrorKind :=
  let metadata := if env.metadataErr.isSome then kinds.metadata else .other
  if env.openErr.isSome then kinds.openFile
  else
    match dir name with
    | some .symlink => .other
    | some .dir => if create then .other else metadata
    | some _ => metadata
    | none => if create then metadata else .notFound

variable (srv : Server)

def sinkKind (w : World) (name : String) (env : HelloEnv) (kinds : ErrorKinds) : IoErrorKind :=
  if srv.sinkResolver.isSome then kinds.resolve else openKind true w.dir name env kinds

def sourceKind (w : World) (name : String) (env : HelloEnv) (kinds : ErrorKinds) : IoErrorKind :=
  if srv.sourceResolver.isSome then kinds.resolve else openKind false w.dir name env kinds

def admissionCause (h : Hello) : Cause :=
  if h.version ≠ protocolVersion then .version
  else
    match validateHelloLimits h srv.limits with
    | .error _ => .limits
    | .ok () => .auth

/-- Once the object is ready; without a socket the connection is closed and nothing is answered. -/
def negotiationCause (h : Hello) (env : HelloEnv) : Option Cause :=
  match env.bindErr with
  | some _ => none
  | none =>
    match srv.negotiate h env with
    | .error _ => some .negotiation
    | .ok _ => none

def recvIntoCause (h : Hello) (env : HelloEnv) (sink : Sink) : Option Cause :=
  match (sink.allocate env.alloc h.size.toNat).1 with
  | .error _ => some .allocate
  | .ok () => srv.negotiationCause h env

def recvCause (w : World) (h : Hello) (env : HelloEnv) (kinds : ErrorKinds) : Option Cause :=
  match servedObjectName h.name with
  | .error _ => some .name
  | .ok name =>
    match (srv.openSink w name env).1 with
    | .error _ => some (.opening (srv.sinkKind w name env kinds))
    | .ok sink => srv.recvIntoCause h env sink

def sendFromCause (h : Hello) (env : HelloEnv) (source : BlockSource) : Option Cause :=
  if source.len > srv.limits.maxObjectSize then some .tooLarge
  else if source.len > 2 ^ 63 - 1 then some .tooLarge
  else
    match sourceCrc32c srv.crc32cAppend source with
    | none => some .read
    | some _ => srv.negotiationCause h env

def sendCause (w : World) (h : Hello) (env : HelloEnv) (kinds : ErrorKinds) : Option Cause :=
  match servedObjectName h.name with
  | .error _ => some .name
  | .ok name =>
    match (srv.openSource w name env).1 with
    | .error _ => some (.opening (srv.sourceKind w name env kinds))
    | .ok source => srv.sendFromCause h env source

/-- The place where the request is rejected, if it is. -/
def rejectionCause (peer : SocketAddr) (w : World) (h : Hello) (env : HelloEnv) (kinds : ErrorKinds) :
    Option Cause :=
  match (srv.admission peer h).2 with
  | .error _ => some (srv.admissionCause h)
  | .ok _ =>
    if h.mode = modeSend then srv.recvCause w h env kinds
    else if h.mode = modeRecv then srv.sendCause w h env kinds
    else some .mode

/-! ## The texts of the server -/

/-- What the server itself makes of the text for a cause. -/
def OwnText : Cause → String → Prop
  | .version, text => text = "protocol version mismatch"
  | .limits, text | .mode, text | .name, text | .tooLarge, text => Silent causeWords text
  | .negotiation, text => Silent causeWords text ∨ ∃ e, text = "girth: HKDF failed: " ++ e
  | .auth, _ | .opening _, _ | .allocate, _ | .read, _ => True

theorem noDigits_causeWords : NoDigits causeWords := by decide +kernel

theorem silent_append_nat {a : String} (ha : Silent causeWords a) (n : Nat) :
    Silent causeWords (a ++ toString n) := by
  rw [← String.append_empty (s := a ++ toString n)]
  exact silent_nat noDigits_causeWords ha (by decide +kernel) n

theorem silent_limit {a : String} (ha : Silent causeWords a) (m n : Nat) :
    Silent causeWords (a ++ toString m ++ " > " ++ toString n) :=
  silent_append_nat (silent_nat noDigits_causeWords ha (by decide +kernel) m) n

theorem guard_error {q : String → Prop} {p : Prop} [Decidable p] {e₀ e : String}
    {next : Except String Unit} (h : (if p then .error e₀ else next) = .error e) (h₀ : q e₀)
    (hnext : ¬ p → next = .error e → q e) : q e := by
  by_cases hp : p
  · rw [if_pos hp] at h
    cases h
    exact h₀
  · rw [if_neg hp] at h
    exact hnext hp h

theorem silent_limits {h : Hello} {limits : ServerLimits} {e : String}
    (he : validateHelloLimits h limits = .error e) : Silent causeWords e := by
  refine guard_error he (by decide +kernel) fun _ he => ?_
  refine guard_error he (by decide +kernel) fun hsize he => ?_
  refine guard_error he ?_ fun _ he => ?_
  · obtain ⟨size, hsize⟩ := Int.eq_ofNat_of_zero_le (not_lt.mp hsize)
    rw [hsize]
    have hlarge : Silent causeWords "object too large: " := by decide +kernel
    exact silent_limit hlarge size limits.maxObjectSize
  refine guard_error he (by decide +kernel) fun _ he => ?_
  refine guard_error he ?_ fun _ he => ?_
  · have hrange := silent_nat noDigits_causeWords (a := "block size out of range: ")
      (b := " (allowed ") (by decide +kernel) (by decide +kernel) h.blockSize.toNat
    have hmin := silent_nat noDigits_causeWords hrange (b := "..=") (by decide +kernel)
      limits.minBlockSize
    have hmax := silent_nat noDigits_causeWords hmin (b := ")") (by decide +kernel)
      limits.maxBlockSize
    have hblank : " (allowed " = " " ++ "(allowed " := rfl
    rw [hblank] at hmax
    simp only [String.append_assoc] at hmax ⊢
    exact hmax
  refine guard_error he (silent_limit (by decide +kernel) _ _) fun _ he => ?_
  refine guard_error he (silent_limit (by decide +kernel) _ _) fun _ he => ?_
  refine guard_error he (silent_limit (by decide +kernel) _ _) fun _ he => ?_
  refine guard_error he ?_ fun _ he => ?_
  · have hsrtt := silent_nat noDigits_causeWords (a := "warm RTT too high: srtt=") (b := " base=")
      (by decide +kernel) (by decide +kernel) h.warmSrttNetUs
    have hbase := silent_nat noDigits_causeWords hsrtt (b := " max=") (by decide +kernel)
      h.warmBaseRttUs
    exact silent_append_nat hbase maxWarmRttUs
  refine guard_error he (by decide +kernel) fun _ he => ?_
  refine guard_error he (silent_limit (by decide +kernel) _ _) fun _ he => ?_
  refine guard_error he (by decide +kernel) fun _ he => ?_
  cases he

theorem silent_name {name e : String} (he : servedObjectName name = .error e) :
    Silent causeWords e := by
  unfold servedObjectName at he
  dsimp only at he
  split at he <;> cases he
  decide +kernel

theorem aeadBox_error {aesHardware : Bool} {peer : List String} {key : Bytes} {e : String}
    (hne : (chooseCipher (localCiphers aesHardware) peer).isEmpty = false)
    (he : AeadBox.new (chooseCipher (localCiphers aesHardware) peer) key = .error e) :
    Silent causeWords e := by
  rw [chooseCipher_eq_find?] at hne he
  cases hfind : (localCiphers aesHardware).find? (· ∈ peer) with
  | none =>
    rw [hfind] at hne
    cases hne
  | some c =>
    have hmem : c = cipherAesGcm ∨ c = cipherChacha := by
      have hmem := List.mem_of_find?_eq_some hfind
      unfold localCiphers at hmem
      split at hmem <;> simp only [List.mem_cons, List.not_mem_nil, or_false] at hmem
      · exact hmem
      · exact hmem.symm
    rw [hfind, Option.getD_some] at he
    unfold AeadBox.new at he
    split_ifs at he with hlen haes hcha
    · cases he
      exact silent_append_nat (by decide +kernel) key.length
    · exact absurd hmem (not_or.mpr ⟨haes, hcha⟩)

theorem ownText_negotiate {h : Hello} {env : HelloEnv} {e : String}
    (he : srv.negotiate h env = .error e) : OwnText .negotiation e := by
  unfold negotiate negotiateCryptoServer at he
  split at he
  · cases he
  · dsimp only at he
    split at he
    · cases he
      exact .inl (by decide +kernel)
    · rename_i hne
      split at he <;> cases he
      rename_i hderive
      unfold deriveAead at hderive
      split at hderive
      · cases hderive
        exact .inl (by decide +kernel)
      · dsimp only at hderive
        split at hderive
        · cases hderive
          exact .inr ⟨_, rfl⟩
        · exact .inl (aeadBox_error (Bool.not_eq_true _ ▸ hne) hderive)

/-! ## The answers -/

/-- An answer with an error for a cause. -/
structure Answered (c : Cause) (a : Ack) : Prop where
  flag : a.authRequired = decide (c = .auth)
  text : OwnText c a.err

/-- Every rejection among the events is answered for the cause. -/
def AnsweredFor (cause : Option Cause) (events : List Event) : Prop :=
  ∀ a, .ack a ∈ events → a.ok = false → ∃ c, cause = some c ∧ Answered c a

theorem answeredFor_nil (cause : Option Cause) : AnsweredFor cause [] :=
  fun _ ha => absurd ha List.not_mem_nil

theorem answeredFor_ok {a : Ack} (h : a.ok = true) (cause : Option Cause) :
    AnsweredFor cause [.ack a] := by
  intro a' ha' hrej
  cases List.mem_singleton.mp ha'
  rw [h] at hrej
  cases hrej

theorem answeredFor_ackErr {c : Cause} {e : String} {authRequired : Bool} (htext : OwnText c e)
    (hflag : authRequired = decide (c = .auth)) :
    AnsweredFor (some c) [ackErr e authRequired] := by
  intro a ha _
  cases List.mem_singleton.mp ha
  exact ⟨c, rfl, hflag, htext⟩

theorem AnsweredFor.append {cause : Option Cause} {events : List Event}
    (h : AnsweredFor cause events) {front : List Event} (hfront : ∀ a, .ack a ∉ front) :
    AnsweredFor cause (front ++ events) := by
  intro a ha
  rcases List.mem_append.mp ha with ha | ha
  · exact absurd ha (hfront a)
  · exact h a ha

theorem AnsweredFor.access {cause : Option Cause} {events : List Event}
    (h : AnsweredFor cause events) (kind : Access) (name : String) :
    AnsweredFor cause (.access kind name :: events) := by
  have hfront : ∀ a : Ack, Event.ack a ∉ [Event.access kind name] := by simp
  exact h.append hfront

section answers

variable {srv : Server} {peer : SocketAddr} {w : World} {h : Hello} {env : HelloEnv}
  {kinds : ErrorKinds} {auth : Option AuthState}

theorem answered_recvInto (name : String) (sink : Sink) :
    AnsweredFor (srv.recvIntoCause h env sink) (srv.recvInto w h env auth name sink).events := by
  unfold recvIntoCause recvInto negotiationCause
  dsimp only
  cases (sink.allocate env.alloc h.size.toNat).1 with
  | error e => exact (answeredFor_ackErr (c := .allocate) trivial rfl).access _ _
  | ok =>
    dsimp only
    cases env.bindErr with
    | some e => exact (answeredFor_nil _).access _ _
    | none =>
      dsimp only
      cases hneg : srv.negotiate h env with
      | error e => exact (answeredFor_ackErr (srv.ownText_negotiate hneg) rfl).access _ _
      | ok neg =>
        dsimp only
        cases env.ackErr with
        | some e => exact (answeredFor_nil _).access _ _
        | none => exact (answeredFor_ok (a := srv.okAck h env auth neg) rfl _).access _ _

theorem answered_recvFromClient :
    AnsweredFor (srv.recvCause w h env kinds) (srv.recvFromClient w h env auth).events := by
  unfold recvCause recvFromClient
  cases hname : servedObjectName h.name with
  | error e => exact answeredFor_ackErr (c := .name) (silent_name hname) rfl
  | ok name =>
    dsimp only
    obtain ⟨kind, hopened⟩ := openSink_event srv w name env
    generalize srv.openSink w name env = opened at hopened ⊢
    obtain ⟨res, w', ev⟩ := opened
    cases hopened
    cases res with
    | error e => exact (answeredFor_ackErr (c := .opening _) trivial rfl).access _ _
    | ok sink => exact (answered_recvInto name sink).access _ _

theorem answered_sendFrom (source : BlockSource) :
    AnsweredFor (srv.sendFromCause h env source) (srv.sendFrom w h env auth source).events := by
  rw [sendFromCause, sendFrom]
  split_ifs
  · exact answeredFor_ackErr (c := .tooLarge) (silent_limit (by decide +kernel) _ _) rfl
  · have hsilent : Silent causeWords "object too large for protocol size field" := by
      decide +kernel
    exact answeredFor_ackErr (c := .tooLarge) hsilent rfl
  · cases sourceCrc32c srv.crc32cAppend source with
    | none => exact answeredFor_ackErr (c := .read) trivial rfl
    | some crc =>
      dsimp only [negotiationCause]
      cases env.bindErr with
      | some e => exact answeredFor_nil _
      | none =>
        dsimp only
        cases hneg : srv.negotiate h env with
        | error e => exact answeredFor_ackErr (srv.ownText_negotiate hneg) rfl
        | ok neg =>
          dsimp only
          cases env.ackErr with
          | some e => exact answeredFor_nil _
          | none => exact answeredFor_ok (by rfl) _

theorem answered_sendToClient :
    AnsweredFor (srv.sendCause w h env kinds) (srv.sendToClient w h env auth).events := by
  unfold sendCause sendToClient
  cases hname : servedObjectName h.name with
  | error e => exact answeredFor_ackErr (c := .name) (silent_name hname) rfl
  | ok name =>
    dsimp only
    obtain ⟨kind, hopened⟩ := openSource_event srv w name env
    generalize srv.openSource w name env = opened at hopened ⊢
    obtain ⟨res, ev⟩ := opened
    cases hopened
    cases res with
    | error e => exact (answeredFor_ackErr (c := .opening _) trivial rfl).access _ _
    | ok source => exact (answered_sendFrom source).access _ _

theorem admission_error {e : String} {authRequired : Bool}
    (herr : (srv.admission peer h).2 = .error (e, authRequired)) :
    OwnText (srv.admissionCause h) e ∧ authRequired = decide (srv.admissionCause h = .auth) := by
  unfold admission at herr
  unfold admissionCause
  by_cases hversion : h.version ≠ protocolVersion
  · rw [if_pos hversion] at herr ⊢
    cases herr
    exact ⟨rfl, rfl⟩
  · rw [if_neg hversion] at herr ⊢
    cases hlimits : validateHelloLimits h srv.limits with
    | error e' =>
      rw [hlimits] at herr
      cases herr
      exact ⟨silent_limits hlimits, rfl⟩
    | ok =>
      -- from here on every error carries the flag
      rw [hlimits] at herr
      refine ⟨trivial, ?_⟩
      dsimp only at herr
      split at herr
      · cases herr
      · split at herr
        · cases herr
          rfl
        · split at herr
          · cases herr
            rfl
          · split at herr <;> cases herr
            rfl

theorem answered_handleHello :
    AnsweredFor (srv.rejectionCause peer w h env kinds) (srv.handleHello peer w h env).events := by
  have hevents := admission_no_ack srv peer h
  have herror := @admission_error srv peer h
  unfold rejectionCause handleHello
  generalize srv.admission peer h = adm at hevents herror ⊢
  obtain ⟨events, res⟩ := adm
  cases res with
  | error err =>
    obtain ⟨htext, hflag⟩ := @herror err.1 err.2 rfl
    exact (answeredFor_ackErr htext hflag).append hevents
  | ok auth =>
    refine AnsweredFor.append ?_ hevents
    split_ifs
    · exact answered_recvFromClient
    · exact answered_sendToClient
    · have hsilent : Silent causeWords "unknown mode" := by decide +kernel
      exact answeredFor_ackErr (c := .mode) hsilent rfl

end answers

/-! ## The class of a rejection -/

/-- The client's error is the right one for the cause. -/
def Classified (c : Cause) (e : GirthError) : Prop :=
  (e = .authDenied ↔ c = .auth) ∧ (e = .versionMismatch ↔ c = .version) ∧
    (e = .notFound → c = .opening .notFound)

/-- What a text from outside must not say. -/
def TextFits : Cause → String → Prop
  | .version, _ | .limits, _ | .auth, _ | .mode, _ | .name, _ | .tooLarge, _ => True
  | .opening kind, text => ¬ Says text "version mismatch" ∧ ¬ SaysDenied text ∧
      (SaysMissing text → kind = .notFound)
  | .allocate, text | .read, text => Silent causeWords text
  | .negotiation, text => ∀ e, text = "girth: HKDF failed: " ++ e → Silent causeWords text

theorem classified_text_iff {c : Cause} (hauth : c ≠ .auth) (hversion : c ≠ .version) (text : String) :
    Classified c (.fromServerErr text) ↔ ¬ Says text "version mismatch" ∧ ¬ SaysDenied text ∧
      (SaysMissing text → c = .opening .notFound) := by
  obtain ⟨hV, hD, hM⟩ := fromServerErr_spec text
  unfold Classified
  rw [hV, hD, hM, iff_false_right hauth, iff_false_right hversion]
  constructor
  · rintro ⟨hD, hV, hM⟩
    exact ⟨hV, fun h => hD ⟨hV, h⟩, fun h => hM ⟨hV, fun h' => hD ⟨hV, h'⟩, h⟩⟩
  · rintro ⟨hV, hD, hM⟩
    exact ⟨fun h => hD h.2, hV, fun h => hM h.2.2⟩

theorem classified_of_silent {c : Cause} (hauth : c ≠ .auth) (hversion : c ≠ .version)
    {text : String} (h : Silent causeWords text) : Classified c (.fromServerErr text) := by
  obtain ⟨hV, hD, hM⟩ := silent_iff.mp h
  exact (classified_text_iff hauth hversion text).mpr ⟨hV, hD, fun h => absurd h hM⟩

theorem Answered.classified_iff {c : Cause} {a : Ack} (h : Answered c a) :
    Classified c (rejectError a) ↔ TextFits c a.err := by
  have hflag := h.flag
  have htext := h.text
  unfold rejectError
  cases c with
  | auth =>
    rw [if_pos (by rw [hflag]; rfl)]
    exact iff_of_true ⟨by simp, by simp, fun h => by cases h⟩ trivial
  | version =>
    rw [if_neg (by rw [hflag]; decide), show a.err = _ from htext]
    have hclass : GirthError.fromServerErr "protocol version mismatch" = .versionMismatch :=
      (fromServerErr_spec _).1.mpr (by decide +kernel)
    rw [hclass]
    exact iff_of_true ⟨by simp, by simp, fun h => by cases h⟩ trivial
  | limits | mode | name | tooLarge =>
    rw [if_neg (by rw [hflag]; decide)]
    exact iff_of_true (classified_of_silent (by decide) (by decide) htext) trivial
  | opening kind =>
    rw [if_neg (by rw [hflag]; simp), classified_text_iff (by simp) (by simp)]
    simp only [TextFits, Cause.opening.injEq]
  | allocate | read =>
    rw [if_neg (by rw [hflag]; decide), classified_text_iff (by decide) (by decide)]
    simp only [TextFits, silent_iff, reduceCtorEq, imp_false]
  | negotiation =>
    rw [if_neg (by rw [hflag]; decide)]
    refine ⟨fun hclass e he => ?_, fun hfits => ?_⟩
    · obtain ⟨hV, hD, hM⟩ := (classified_text_iff (by decide) (by decide) _).mp hclass
      exact silent_iff.mpr ⟨hV, hD, fun h => by cases hM h⟩
    · rcases htext with hsilent | ⟨e, he⟩
      · exact classified_of_silent (by decide) (by decide) hsilent
      · exact classified_of_silent (by decide) (by decide) (hfits e he)

/-- **When a rejection is taken for what it is.** Every answer with an error has a cause in the server.
The client's error is `AuthDenied` exactly if the cause is authentication, `VersionMismatch` exactly if
it is the version, and `NotFound` only if the object was not found, if and only if no foreign text in
the answer has the words of another cause. -/
theorem rejection_classified_iff (srv : Server) (peer : SocketAddr) (w : World) (h : Hello)
    (env : HelloEnv) (kinds : ErrorKinds) {a : Ack}
    (hack : .ack a ∈ (srv.handleHello peer w h env).events) (hrej : a.ok = false) :
    ∃ c, srv.rejectionCause peer w h env kinds = some c ∧
      (Classified c (rejectError a) ↔ TextFits c a.err) := by
  obtain ⟨c, hcause, hans⟩ := answered_handleHello a hack hrej
  exact ⟨c, hcause, hans.classified_iff⟩

/-- The pull of an object. -/
def pullHello : Hello where
  version := protocolVersion
  mode := modeRecv
  name := "a"
  size := 0
  blockSize := 1400

/-- The object is missing, and the client hears so. -/
theorem rejection_classified_iff_missing :
    let a : Ack := { err := "No such file or directory (os error 2)" }
    .ack a ∈ (plain.handleHello localPeer emptyWorld pullHello {}).events ∧ a.ok = false ∧
      plain.rejectionCause localPeer emptyWorld pullHello {} {} = some (.opening .notFound) ∧
      Classified (.opening .notFound) (rejectError a) := by
  intro a
  have hack : .ack a ∈ (plain.handleHello localPeer emptyWorld pullHello {}).events := by
    decide +kernel
  have hcause : plain.rejectionCause localPeer emptyWorld pullHello {} {} =
      some (.opening .notFound) := by
    decide +kernel
  obtain ⟨c, hc, hiff⟩ := rejection_classified_iff plain localPeer emptyWorld pullHello {} {} hack rfl
  cases hcause.symm.trans hc
  refine ⟨hack, rfl, hcause, hiff.mpr ⟨?_, ?_, fun _ => rfl⟩⟩
  · decide +kernel
  · decide +kernel

/-- The server may not read the object. No client has to authenticate there, and still this one is told
that authentication was denied. -/
theorem rejection_misclassified :
    let env : HelloEnv := { openErr := some "Permission denied (os error 13)" }
    let a : Ack := { err := "Permission denied (os error 13)" }
    plain.authorizer = none ∧
    .ack a ∈ (plain.handleHello localPeer emptyWorld pullHello env).events ∧ a.ok = false ∧
    plain.rejectionCause localPeer emptyWorld pullHello env {} = some (.opening .other) ∧
    rejectError a = .authDenied := by
  refine ⟨rfl, ?_, rfl, ?_, ?_⟩ <;> decide +kernel

end Server

end Girth
