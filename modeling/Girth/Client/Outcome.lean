import Girth.Client.Session

/-!
# What a handle says at the end

The four entry points that take a handle mark every early return of the transfer itself with
`mark_result`, and the transfer marks `Complete` as the last thing it does (`core_ends`). The two
methods of a session do one fallible thing before that: they look for a control connection, and return
without a mark if connecting fails. `handle_faithful_iff` says that this is the only way for the
handle to be wrong.
-/

namespace Girth

open Lib

/-- The four entry points with a handle. -/
inductive EntryPoint
  | clientSendFromWithHandle
  | clientRecvIntoWithHandle
  | sessionSendFromWithHandle
  | sessionRecvIntoWithHandle
  deriving DecidableEq

namespace EntryPoint

def call (client : Client) (p : ClientParams) (job : Job) (env : TransferEnv) :
    EntryPoint → ClientCall
  | .clientSendFromWithHandle => Girth.clientSendFromWithHandle client p job env
  | .clientRecvIntoWithHandle => Girth.clientRecvIntoWithHandle client p job env
  | .sessionSendFromWithHandle => ClientSession.sendFromWithHandle client p job env
  | .sessionRecvIntoWithHandle => ClientSession.recvIntoWithHandle client p job env

def ofSession : EntryPoint → Bool
  | .clientSendFromWithHandle | .clientRecvIntoWithHandle => false
  | .sessionSendFromWithHandle | .sessionRecvIntoWithHandle => true

end EntryPoint

def Completed (w : World) : Prop := w.handle.phase = .complete ∧ w.handle.lastError = none

def Failed (w : World) : Prop := w.handle.phase = .failed ∧ w.handle.lastError.isSome

/-- The handle reports the result. -/
def Faithful (r : Except GirthError Unit × World) : Prop :=
  match r.1 with
  | .ok _ => Completed r.2
  | .error _ => Failed r.2

/-! ## The transfer ends with its mark -/

variable (client : Client) (p : ClientParams) (job : Job) (env : TransferEnv)

theorem markPhase_ends : Call.Ends Completed (markPhase true .complete) :=
  .modify fun w => ⟨w.handle.phase_setPhase .complete, rfl⟩

theorem core_ends (dir : Direction) (warm : Option RateWarmStart) :
    Call.Ends Completed (coreWithStream client p job env dir true warm) := by
  cases dir with
  | push =>
    exact .bind fun _ => .bind fun _ => .bind fun _ => .bind fun _ => .bind fun _ => .bind fun _ =>
      .bind fun _ => .bind fun _ => .bind fun _ => .bind fun _ => markPhase_ends
  | pull =>
    exact .bind fun _ => .bind fun _ => .bind fun _ => .bind fun _ => .bind fun _ => .bind fun _ =>
      .bind fun _ => .bind fun _ => .bind fun _ => .bind fun _ => .bind fun _ => .bind fun _ =>
      .bind fun _ => .bind fun _ => markPhase_ends

theorem runOn_markResult (c : ClientCall) (w : World) :
    (markResult c).runOn w =
      match c.runOn w with
      | (.ok a, t) => (.ok a, t)
      | (.error e, t) => (.error e, { t with handle := t.handle.setFailed e.text }) := by
  rw [markResult, Call.runOn_tryCatch]
  generalize c.runOn w = r
  obtain ⟨res, t⟩ := r
  cases res <;> rfl

theorem markResult_faithful {c : ClientCall} (hc : Call.Ends Completed c) (w : World) :
    Faithful ((markResult c).runOn w) := by
  rw [runOn_markResult]
  cases hrun : c.runOn w with
  | mk res t =>
    cases res with
    | ok a => exact hc w a t hrun
    | error e => exact ⟨t.handle.phase_setFailed e.text, rfl⟩

/-! ## The entry points -/

theorem client_faithful (dir : Direction) (w : World) :
    Faithful ((markResult (core client p job env true dir)).runOn w) :=
  markResult_faithful (.bind fun _ => .bind fun _ => core_ends client p job env dir none) w

/-- What a session does once it has a connection. -/
def withConnection (dir : Direction) : ClientCall := do
  let warm ← warmFor p
  markResult (coreWithStream client p job env dir true warm)
  recordWarmStart p
  putStream

theorem keep_faithful {t : World} (h : Completed t) :
    Faithful ((do recordWarmStart p; putStream : ClientCall).runOn t) := by
  show Completed ({ (if !p.adaptive then t else _ : World) with session := _ } : World)
  split <;> exact h

theorem withConnection_faithful (dir : Direction) (w : World) :
    Faithful ((withConnection client p job env dir).runOn w) := by
  have hmarked := markResult_faithful (core_ends client p job env dir
    (warmForParams p (some w.session.warmStart))) w
  show Faithful ((markResult (coreWithStream client p job env dir true
    (warmForParams p (some w.session.warmStart))) >>= fun _ => do
      recordWarmStart p
      putStream : ClientCall).runOn w)
  rw [Call.runOn_bind]
  generalize (markResult _).runOn w = r at hmarked
  obtain ⟨res, t⟩ := r
  cases res with
  | ok a => exact keep_faithful p hmarked
  | error e => exact hmarked

theorem session_faithful_iff (dir : Direction) (w : World) :
    Faithful ((sessionCallWithHandle client p job env dir).runOn w) ↔
      ¬ (w.session.connected = false ∧ ∃ e, env.connect = .error e) := by
  -- a session looks for its connection first
  show Faithful ((getOrConnect env >>= fun _ => withConnection client p job env dir :
    ClientCall).runOn { w with handle := w.handle.setPhase .connecting }) ↔ _
  rw [Call.runOn_bind]
  cases hkept : w.session.connected with
  | true =>
    have hget : (getOrConnect env).runOn { w with handle := w.handle.setPhase .connecting } =
        (.ok (), { w with
          handle := w.handle.setPhase .connecting
          session := { w.session with connected := false } }) := by
      rw [getOrConnect, Call.runOn_get_bind, if_pos hkept]
      rfl
    rw [hget]
    exact iff_of_true (withConnection_faithful client p job env dir _) (by simp)
  | false =>
    have hget : (getOrConnect env).runOn { w with handle := w.handle.setPhase .connecting } =
        (env.connect.mapError .io, { w with handle := w.handle.setPhase .connecting }) := by
      rw [getOrConnect, Call.runOn_get_bind, if_neg (by simp [hkept])]
      rfl
    rw [hget]
    cases hconnect : env.connect with
    | ok u => exact iff_of_true (withConnection_faithful client p job env dir _) (by simp)
    | error e =>
      refine iff_of_false (fun hfailed => ?_) (by simp)
      have hphase := hfailed.1
      rw [show (_ : World).handle.phase = _ from w.handle.phase_setPhase .connecting] at hphase
      cases hphase

/-- **The handle reports the outcome.** For every entry point, every state of the handle and the
session and every combination of outcomes: the phase and the error text say how the call ended,
except when a method of a session without a kept connection fails to connect. -/
theorem handle_faithful_iff (entry : EntryPoint) (w : World) :
    Faithful ((entry.call client p job env).runOn w) ↔
      ¬ (entry.ofSession = true ∧ w.session.connected = false ∧ ∃ e, env.connect = .error e) := by
  cases entry with
  | clientSendFromWithHandle =>
    exact iff_of_true (client_faithful client p job env .push w) (by simp [EntryPoint.ofSession])
  | clientRecvIntoWithHandle =>
    exact iff_of_true (client_faithful client p job env .pull w) (by simp [EntryPoint.ofSession])
  | sessionSendFromWithHandle =>
    rw [EntryPoint.ofSession, eq_self, true_and]
    exact session_faithful_iff client p job env .push w
  | sessionRecvIntoWithHandle =>
    rw [EntryPoint.ofSession, eq_self, true_and]
    exact session_faithful_iff client p job env .pull w

/-! ### A refused connection -/

def refused : IoError := ⟨.other, "Connection refused (os error 111)"⟩

/-- A session that never connected; the handle is new and the server is down. -/
theorem handle_left_connecting :
    let env : TransferEnv := { connect := .error refused, ack := .error refused }
    let client : Client := ⟨⟨fun _ _ => []⟩, .unused, true⟩
    let r := (EntryPoint.sessionSendFromWithHandle.call client { defaultParams with encrypt := false }
      { name := "a" } env).runOn {}
    r.1 = .error (.io refused) ∧ r.2.handle.phase = .connecting ∧ r.2.handle.lastError = none ∧
      ¬ Faithful r := by
  refine ⟨rfl, rfl, rfl, fun hfailed => ?_⟩
  cases hfailed.1

end Girth
