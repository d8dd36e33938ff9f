import VolumeStore.Proofs.Session.Steps
import VolumeStore.Proofs.Wire.ReplyLines
import VolumeStore.Server.Connection

/-!
# Requests and the limit of sessions

What the outcome of a request tells about the volume of its session: the number of a mounting is
given to a mounting alone. None of the outcomes is the one that speaks of too many sessions.
-/

namespace VolumeStore

namespace Session

variable {settings : StoreSettings} {s : Session} {t : Host.Tree}

theorem code_ne_mounted (error : StoreError) : error.reply.code ≠ ReplyCode.mounted :=
  error.replyCode_of_all (· ≠ ReplyCode.mounted) (by decide)

/-- A command mounts its volume and is told so, or it is told something else; then the volume is the
one from before, unless the session ends. -/
theorem Step.mounts_or {command : Command} {e : Execution} (h : s.Step command e) :
    (∃ mount : Mount, command = .mount mount.name ∧ e.session.mounted = some mount ∧
      e.outcome = .ok ReplyCode.mounted ("Volume " ++ mount.name ++ " mounted")) ∨
    (e.outcome.reply.code ≠ ReplyCode.mounted ∧
      (e.session.mounted = s.mounted ∨ e.outcome.isClosing = true ∧ e.session.mounted = none)) := by
  cases h with
  | refused error => exact .inr ⟨code_ne_mounted error, .inl rfl⟩
  | stopped _ _ error => exact .inr ⟨code_ne_mounted error, .inl rfl⟩
  | answered _ hcode => exact .inr ⟨ne_of_mem_of_not_mem hcode (by decide), .inl rfl⟩
  | mounted mount => exact .inl ⟨mount, rfl, rfl, rfl⟩
  | left => exact .inr ⟨(by decide : ReplyCode.goodbye ≠ ReplyCode.mounted), .inr ⟨rfl, rfl⟩⟩
  | began => exact .inr ⟨(by decide : ReplyCode.pending ≠ ReplyCode.mounted), .inl rfl⟩
  | listed => exact .inr ⟨(by decide : ReplyCode.listing ≠ ReplyCode.mounted), .inl rfl⟩
  | opened => exact .inr ⟨(by decide : ReplyCode.done ≠ ReplyCode.mounted), .inl rfl⟩
  | wrote | closed => exact .inr ⟨(by decide : ReplyCode.actionDone ≠ ReplyCode.mounted), .inl rfl⟩
  | read => exact .inr ⟨(by decide : ReplyCode.openingTransfer ≠ ReplyCode.mounted), .inl rfl⟩

theorem Step.code_eq_mounted {name : String} {e : Execution} (h : s.Step (.mount name) e)
    {reply : Reply} {attachment : Attachment} (hdone : e.outcome = .done reply attachment) :
    reply.code = ReplyCode.mounted := by
  cases h with
  | mounted =>
    cases hdone
    rfl
  | refused | stopped => cases hdone
  | answered hcommand => cases hcommand

theorem serve_of_unmounted (settings : StoreSettings) (t : Host.Tree) (hs : s.mounted = none)
    (r : Request) :
    let e := s.serve settings t r
    (∃ mount, e.session.mounted = some mount ∧ e.outcome.reply.code = ReplyCode.mounted) ∨
      (e.session.mounted = none ∧ e.outcome.reply.code ≠ ReplyCode.mounted) := by
  -- The payload does not matter here, only the command.
  have hexecute : ∀ command, let e := s.executeUnmounted settings t command
      (∃ mount, e.session.mounted = some mount ∧ e.outcome.reply.code = ReplyCode.mounted) ∨
        (e.session.mounted = none ∧ e.outcome.reply.code ≠ ReplyCode.mounted) := by
    intro command
    rcases (step_executeUnmounted settings s t command).mounts_or with
      ⟨mount, -, hmounted, houtcome⟩ | ⟨hcode, hkept | ⟨-, hnone⟩⟩
    · exact .inl ⟨mount, hmounted, congrArg (·.reply.code) houtcome⟩
    · exact .inr ⟨hkept.trans hs, hcode⟩
    · exact .inr ⟨hnone, hcode⟩
  have hunmounted : s.isMounted = false := congrArg Option.isSome hs
  match r with
  | .malformed error => exact .inr ⟨hs, code_ne_mounted _⟩
  | .command command (.ok payload) =>
    simp only [serve, execute, hunmounted, Bool.false_eq_true, if_false]
    exact hexecute command
  | .command command (.error error) =>
    simp only [serve, hunmounted, Bool.false_eq_true, if_false]
    exact hexecute command

end Session

/-- The client is not told that the store has too many sessions. -/
def Execution.Uncrowded (e : Execution) : Prop :=
  e.outcome.reply.code ≠ ReplyCode.unavailable

namespace Session

variable {settings : StoreSettings} {s : Session} {t : Host.Tree}

theorem code_ne_unavailable {error : StoreError}
    (h : ∀ limit, error ≠ .session (.tooManySessions limit)) :
    error.reply.code ≠ ReplyCode.unavailable :=
  ne_of_mem_of_not_mem (StoreError.replyCode_mem_tail h) (by decide)

theorem Effect.uncrowded {source : Option String} {payload : List UInt8} {command : Command}
    {e : Execution} (h : s.Effect settings source t payload command e) : e.Uncrowded := by
  cases h with
  | refused herror => exact code_ne_unavailable herror
  | declined | cut | stopped => exact code_ne_unavailable (by simp)
  | answered _ hcode | operated _ _ _ hcode => exact ne_of_mem_of_not_mem hcode (by decide)
  | mounted => exact (by decide : ReplyCode.mounted ≠ ReplyCode.unavailable)
  | left => exact (by decide : ReplyCode.goodbye ≠ ReplyCode.unavailable)
  | began => exact (by decide : ReplyCode.pending ≠ ReplyCode.unavailable)
  | listed => exact (by decide : ReplyCode.listing ≠ ReplyCode.unavailable)
  | opened => exact (by decide : ReplyCode.done ≠ ReplyCode.unavailable)
  | wrote | closed => exact (by decide : ReplyCode.actionDone ≠ ReplyCode.unavailable)
  | read => exact (by decide : ReplyCode.openingTransfer ≠ ReplyCode.unavailable)

theorem uncrowded_wire (s : Session) (t : Host.Tree) (error : WireError) :
    (s.refuse t (.wire error)).Uncrowded :=
  code_ne_unavailable (by simp)

theorem uncrowded_serve (settings : StoreSettings) (s : Session) (t : Host.Tree) (r : Request) :
    (s.serve settings t r).Uncrowded := by
  unfold serve
  split
  · exact uncrowded_wire s t _
  · exact (effect_execute settings s t _ _).elim (·.uncrowded) (·.uncrowded)
  · split
    · exact uncrowded_wire s t _
    · exact (effect_executeUnmounted settings s none t _ []).uncrowded

end Session

end VolumeStore
