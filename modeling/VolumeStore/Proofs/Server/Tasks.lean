import Mathlib.Logic.Function.Basic
import VolumeStore.Proofs.Session.Steps
import VolumeStore.Server.Connection

/-!
# Connections as tasks

Each connection of a store is served by a task of its own, and the tasks run at the same time. What
they share is taken in steps: a request that is carried out on the host's files, one access to the
registry, one outcome that is written. Between any two steps of a task the others may take theirs.
The steps of one task in a row, with none of another in between, are the turns of its connection.
-/

namespace VolumeStore

def Registry.refresh (r : Registry) (peer : Peer) (volume : String) : Registry :=
  match r.register peer volume with
  | .ok r => r
  | .error _ => r

namespace Task

inductive Stage where
  | accepted
  | outside
  | replying (outcome : Outcome)
  | entering (volume : String) (outcome : Outcome)
  | turnedAway (outcome : Outcome)
  | admitted (outcome : Outcome)
  | inside
  | refreshing (volume : String) (outcome : Outcome)
  | answering (outcome : Outcome)
  | leaving
  | ended
deriving DecidableEq, Repr

end Task

structure Task where
  connection : Connection
  stage : Task.Stage := .accepted

namespace Task

structure Advance where
  store : Store
  task : Task
  written : Option Outcome := none

def goTo (task : Task) (stage : Stage) : Task :=
  { task with stage := stage }

def finish (task : Task) : Task :=
  ⟨task.connection.close, .ended⟩

def Stage.afterMount (e : Execution) : Stage :=
  match e.session.mounted with
  | none => .replying e.outcome
  | some mount => .entering mount.name e.outcome

def Stage.afterRequest (request : Request) (outcome : Outcome) : Stage :=
  match request, outcome with
  | .command (.mount name) _, .done _ _ => .refreshing name outcome
  | _, _ => .answering outcome

/-- Reads a request and carries it out. There is no such step while more bytes have to arrive. -/
def read? (store : Store) (task lost : Task) (next : Request → Execution → Stage) :
    Option Advance :=
  match task.connection.incoming.readRequest store.settings with
  | .error .waiting => none
  | .error _ => some { store := store, task := lost }
  | .ok (request, rest) =>
    let e := task.connection.session.serve store.settings store.tree request
    some {
      store := { store with tree := e.tree }
      task := ⟨{ task.connection with session := e.session, incoming := rest }, next request e⟩ }

/-- The next step of a task. `delivered` tells whether what the step writes reaches the client. -/
def step? (store : Store) (task : Task) (delivered : Bool) : Option Advance :=
  match task.stage with
  | .accepted =>
    some ⟨store, if delivered then task.goTo .outside else task.finish, some Store.greeting⟩
  | .outside => task.read? store task.finish fun _ e => .afterMount e
  | .replying outcome =>
    some ⟨store, if delivered && !outcome.isClosing then task.goTo .outside else task.finish,
      some outcome⟩
  | .entering volume outcome =>
    match store.registry.register task.connection.peer volume with
    | .ok registry =>
      some ⟨{ store with registry := registry }, task.goTo (.admitted outcome), none⟩
    | .error error =>
      let c := task.connection
      some ⟨store,
        ⟨{ c with session := c.session.unmount }, .turnedAway (.failed (.session error))⟩, none⟩
  | .turnedAway outcome => some ⟨store, task.finish, some outcome⟩
  | .admitted outcome =>
    -- The loop that gives up the place at its end begins only behind this reply.
    some ⟨store, if delivered then task.goTo .inside else task.finish, some outcome⟩
  | .inside => task.read? store (task.goTo .leaving) fun request e =>
      .afterRequest request e.outcome
  | .refreshing volume outcome =>
    some ⟨{ store with registry := store.registry.refresh task.connection.peer volume },
      task.goTo (.answering outcome), none⟩
  | .answering outcome =>
    some ⟨store, task.goTo (if delivered && !outcome.isClosing then .inside else .leaving),
      some outcome⟩
  | .leaving =>
    some ⟨{ store with registry := store.registry.remove task.connection.peer }, task.finish, none⟩
  | .ended => none

/-- The task of a connection that breaks off while a request is awaited. While an outcome is
written, the writing fails instead. -/
def breakOff (task : Task) : Task :=
  match task.stage with
  | .outside => task.finish
  | .inside => task.goTo .leaving
  | _ => task

def receive (task : Task) (new : Incoming) : Task :=
  { task with connection :=
      { task.connection with incoming := task.connection.incoming.append new } }

/-! ## Turns -/

inductive Steps (delivered : Bool) : Store → Task → Store → Task → List Outcome → Prop
  | nil (store : Store) (task : Task) : Steps delivered store task store task []
  | cons {store store' : Store} {task task' : Task} (next : Advance) {written : List Outcome}
    (first : task.step? store delivered = some next)
    (others : Steps delivered next.store next.task store' task' written) :
    Steps delivered store task store' task' (next.written.toList ++ written)

def between (c : Connection) : Task :=
  ⟨c, if !c.isOpen then .ended else if c.session.isMounted then .inside else .outside⟩

end Task

namespace Session

variable {s : Session}

theorem Step.isMounted {command : Command} {e : Execution} (h : s.Step command e)
    (hs : s.isMounted = true) (hgoes : e.outcome.isClosing = false) :
    e.session.isMounted = true := by
  cases h with
  | mounted => rfl
  | left => cases hgoes
  | refused | answered | began | listed | opened | stopped | wrote | read | closed => exact hs

theorem isMounted_serve {settings : StoreSettings} {t : Host.Tree} {r : Request}
    (hs : s.isMounted = true) (hgoes : (s.serve settings t r).outcome.isClosing = false) :
    (s.serve settings t r).session.isMounted = true := by
  match r with
  | .malformed error => exact hs
  | .command command (.ok payload) =>
    rcases s.step_execute settings t command payload with hstep | hstep
    · exact hstep.isMounted hs hgoes
    · exact hstep.isMounted hs hgoes
  | .command command (.error error) =>
    simp only [serve, hs, if_true]
    exact hs

end Session

namespace Task

variable {store : Store} {c : Connection} {delivered : Bool}

theorem Steps.single {task : Task} (next : Advance)
    (h : task.step? store delivered = some next) :
    Steps delivered store task next.store next.task next.written.toList := by
  have hsteps := Steps.cons next h (.nil next.store next.task)
  rwa [List.append_nil] at hsteps

theorem steps_answering (store : Store) (delivered : Bool) (hopen : c.isOpen = true) {s : Session}
    {outcome : Outcome}
    (hs : outcome.isClosing = false → s.isMounted = true) :
    Steps delivered store ⟨{ c with session := s }, .answering outcome⟩
      { store with
        registry :=
          if delivered && !outcome.isClosing then store.registry else store.registry.remove c.peer }
      (between (c.withSession s (delivered && !outcome.isClosing))) [outcome] := by
  -- The task goes on inside, or takes one more step to give up its place.
  cases hgoes : delivered && !outcome.isClosing with
  | true =>
    simp only [Bool.and_eq_true, Bool.not_eq_true'] at hgoes
    have hend : between (c.withSession s true) = ⟨{ c with session := s }, .inside⟩ := by
      simp [between, Connection.withSession, hopen, hs hgoes.2]
    rw [hend]
    refine .single ⟨store, _, some outcome⟩ ?_
    simp [step?, goTo, hgoes]
  | false =>
    have hend : between (c.withSession s false) = finish ⟨{ c with session := s }, .leaving⟩ := by
      simp [between, Connection.withSession, finish, Connection.close]
    have hleave : Steps delivered store ⟨{ c with session := s }, .leaving⟩
        { store with registry := store.registry.remove c.peer }
        (finish ⟨{ c with session := s }, .leaving⟩) [] :=
      .single ⟨_, _, none⟩ rfl
    rw [hend]
    refine .cons ⟨store, ⟨{ c with session := s }, .leaving⟩, some outcome⟩ ?_ hleave
    simp [step?, goTo, hgoes]

theorem afterRequest_cases (request : Request) (outcome : Outcome) (registry : Registry)
    (peer : Peer) :
    (∃ name, Stage.afterRequest request outcome = .refreshing name outcome ∧
      Connection.refreshRegistry registry peer request outcome = registry.refresh peer name) ∨
    (Stage.afterRequest request outcome = .answering outcome ∧
      Connection.refreshRegistry registry peer request outcome = registry) := by
  cases request with
  | malformed error => exact .inr ⟨rfl, rfl⟩
  | command command payload =>
    cases command with
    | mount name =>
      cases outcome with
      | done reply attachment => exact .inl ⟨name, rfl, rfl⟩
      | failed | closing => exact .inr ⟨rfl, rfl⟩
    | _ => exact .inr ⟨rfl, rfl⟩

theorem steps_mountedTurn (hopen : c.isOpen = true) (hs : c.session.isMounted = true)
    (request : Request) :
    let e := c.session.serve store.settings store.tree request
    let turn := c.mountedTurn store request delivered
    Steps delivered { store with tree := e.tree }
      ⟨{ c with session := e.session }, .afterRequest request e.outcome⟩
      turn.store (between turn.connection) turn.written.toList := by
  intro e turn
  have hmounted : e.outcome.isClosing = false → e.session.isMounted = true :=
    Session.isMounted_serve hs
  -- Only a MOUNT takes a step through the registry before it is answered.
  rcases afterRequest_cases request e.outcome store.registry c.peer with
    ⟨name, hstage, hregistry⟩ | ⟨hstage, hregistry⟩
  · have hanswering := steps_answering
      { store with tree := e.tree, registry := store.registry.refresh c.peer name } delivered
      hopen hmounted
    rw [hstage]
    simp only [turn, Connection.mountedTurn]
    rw [hregistry]
    exact .cons ⟨_, _, none⟩ rfl hanswering
  · have hanswering := steps_answering { store with tree := e.tree } delivered hopen hmounted
    rw [hstage]
    simp only [turn, Connection.mountedTurn]
    rw [hregistry]
    exact hanswering

theorem steps_unmountedTurn (hopen : c.isOpen = true) (request : Request) :
    let e := c.session.serve store.settings store.tree request
    let turn := c.unmountedTurn store request delivered
    Steps delivered { store with tree := e.tree }
      ⟨{ c with session := e.session }, .afterMount e⟩
      turn.store (between turn.connection) turn.written.toList := by
  unfold Connection.unmountedTurn Stage.afterMount
  dsimp only
  generalize c.session.serve store.settings store.tree request = e
  -- Without a volume the outcome is written at once. With one, the registry is asked first, and its
  -- answer is a step of its own.
  cases hmounted : e.session.mounted with
  | none =>
    have hunmounted : e.session.isMounted = false := congrArg Option.isSome hmounted
    refine .single ⟨_, _, some e.outcome⟩ ?_
    cases hgoes : delivered && !e.outcome.isClosing <;>
      simp [step?, goTo, finish, Connection.close, Connection.withSession, hopen, hgoes,
        hunmounted]
  | some mount =>
    have hismounted : e.session.isMounted = true := congrArg Option.isSome hmounted
    dsimp only
    cases hregister : store.registry.register c.peer mount.name with
    | ok registry =>
      have hadmitted : Steps delivered { store with tree := e.tree, registry := registry }
          ⟨{ c with session := e.session }, .admitted e.outcome⟩
          { store with tree := e.tree, registry := registry }
          (between (c.withSession e.session delivered)) [e.outcome] := by
        refine .single ⟨_, _, some e.outcome⟩ ?_
        cases delivered <;>
          simp [step?, goTo, finish, Connection.close, Connection.withSession, hopen,
            hismounted]
      refine .cons ⟨_, ⟨{ c with session := e.session }, .admitted e.outcome⟩, none⟩ ?_
        hadmitted
      simp [step?, goTo, hregister]
    | error error =>
      have hturned : Steps delivered { store with tree := e.tree }
          ⟨{ c with session := e.session.unmount }, .turnedAway (.failed (.session error))⟩
          { store with tree := e.tree } (between (c.withSession e.session.unmount false))
          [.failed (.session error)] := by
        refine .single ⟨_, _, some (.failed (.session error))⟩ ?_
        simp [step?, finish, Connection.close, Connection.withSession]
      refine .cons ⟨_, ⟨{ c with session := e.session.unmount }, _⟩, none⟩ ?_ hturned
      simp [step?, hregister]

theorem between_of_isMounted (hopen : c.isOpen = true) (hs : c.session.isMounted = true) :
    between c = ⟨c, .inside⟩ := by
  simp [between, hopen, hs]

theorem between_of_unmounted (hopen : c.isOpen = true) (hs : c.session.isMounted = false) :
    between c = ⟨c, .outside⟩ := by
  simp [between, hopen, hs]

theorem steps_lost (hopen : c.isOpen = true) {stop : ReadStop} (hstop : stop ≠ .waiting)
    (hread : c.incoming.readRequest store.settings = .error stop) :
    Steps delivered store (between c) (c.lost store).store (between (c.lost store).connection)
      [] := by
  have hend : between (c.lost store).connection = finish ⟨c, .ended⟩ := by
    simp [between, Connection.lost, finish, Connection.close]
  rw [hend]
  unfold Connection.lost
  -- Inside, the task gives up its place before it ends.
  cases hs : c.session.isMounted with
  | true =>
    rw [between_of_isMounted hopen hs]
    have hleave : Steps delivered store ⟨c, .leaving⟩
        { store with registry := store.registry.remove c.peer } (finish ⟨c, .leaving⟩) [] :=
      .single ⟨_, _, none⟩ rfl
    refine .cons ⟨store, ⟨c, .leaving⟩, none⟩ ?_ hleave
    cases stop <;> first | exact absurd rfl hstop | simp [step?, read?, hread, goTo]
  | false =>
    rw [between_of_unmounted hopen hs]
    refine .single ⟨store, finish ⟨c, .outside⟩, none⟩ ?_
    cases stop <;> first | exact absurd rfl hstop | simp [step?, read?, hread]

theorem steps_of_turn? {turn : Turn} (hopen : c.isOpen = true)
    (h : c.turn? store delivered = some turn) :
    Steps delivered store (between c) turn.store (between turn.connection)
      turn.written.toList := by
  unfold Connection.turn? at h
  split at h
  · cases h
  next stop hstop hread =>
    cases h
    exact steps_lost hopen hstop hread
  next request rest hread =>
    cases h
    cases hs : c.session.isMounted with
    | true =>
      rw [between_of_isMounted hopen hs]
      refine .cons ⟨_, _, none⟩ ?_
        (steps_mountedTurn (c := { c with incoming := rest }) hopen hs request)
      simp [step?, read?, hread]
    | false =>
      rw [between_of_unmounted hopen hs]
      refine .cons ⟨_, _, none⟩ ?_
        (steps_unmountedTurn (c := { c with incoming := rest }) hopen request)
      simp [step?, read?, hread]

theorem step?_of_turn?_eq_none (h : c.turn? store delivered = none) :
    (between c).step? store delivered = none := by
  unfold Connection.turn? at h
  split at h
  next hread =>
    cases hopen : c.isOpen <;> cases hs : c.session.isMounted <;>
      simp [between, hopen, hs, step?, read?, hread]
  · cases h
  · cases h

end Task

end VolumeStore
