import VolumeStore.Proofs.Server.Refinement
import VolumeStore.Proofs.Server.Tasks

/-!
# Many tasks at one store

Any number of tasks, each client with an address of its own, take their steps in any order. A step
of one task changes nothing for the other clients: neither their entries in the registry nor what
they were told. The turns of the connections are among the rows of steps.
-/

namespace VolumeStore

/-! ## The registry -/

namespace Registry

variable {r r' : Registry} {peer other : Peer} {volume : String}

/-- A change of the registry that is about one client only, and needs no place beyond the limit. -/
structure Concerns (r : Registry) (peer : Peer) (r' : Registry) : Prop where
  limit : r'.limit = r.limit
  others : ∀ other, other ≠ peer → r'.volume? other = r.volume? other
  within : r.size ≤ r.limit → r'.size ≤ r.limit

theorem Concerns.refl (r : Registry) (peer : Peer) : r.Concerns peer r :=
  ⟨rfl, fun _ _ => rfl, id⟩

theorem volume?_remove_self (r : Registry) (peer : Peer) : (r.remove peer).volume? peer = none := by
  rw [volume?, List.lookup_eq_none_iff]
  intro entry hentry
  have hne := (List.mem_filter.1 hentry).2
  simpa using Ne.symm (of_decide_eq_true hne)

theorem volume?_remove_of_ne (r : Registry) (h : other ≠ peer) :
    (r.remove peer).volume? other = r.volume? other := by
  unfold volume? remove
  rw [Host.Tree.lookup_filter (p := fun key => decide (key ≠ peer))]
  simp [h]

theorem size_remove_le (r : Registry) (peer : Peer) : (r.remove peer).size ≤ r.size :=
  List.length_filter_le _ _

theorem size_remove_lt (h : (r.volume? peer).isSome = true) : (r.remove peer).size < r.size := by
  obtain ⟨volume, hvolume⟩ := Option.isSome_iff_exists.1 h
  obtain ⟨before, after, hsessions, -⟩ := List.lookup_eq_some_iff.1 hvolume
  refine List.length_filter_lt_length_iff_exists.2 ⟨(peer, volume), ?_, by simp⟩
  rw [hsessions]
  exact List.mem_append_right _ List.mem_cons_self

theorem concerns_remove (r : Registry) (peer : Peer) : r.Concerns peer (r.remove peer) :=
  ⟨rfl, fun _ h => volume?_remove_of_ne r h, Nat.le_trans (size_remove_le r peer)⟩

theorem register_eq_ok (h : r.register peer volume = .ok r') :
    r'.volume? peer = some volume ∧ r.Concerns peer r' := by
  unfold register at h
  split at h
  · cases h
  next hroom =>
    cases h
    refine ⟨List.lookup_cons_self, rfl, fun other hother => ?_, fun hsize => ?_⟩
    · have hother' : (other == peer) = false := beq_false_of_ne hother
      rw [← volume?_remove_of_ne r hother]
      simp [volume?, List.lookup_cons, hother']
    · -- Either the client gives its old place for the new one, or a place was free.
      change (r.remove peer).size + 1 ≤ r.limit
      cases hentry : (r.volume? peer).isSome with
      | true => exact Nat.lt_of_lt_of_le (size_remove_lt hentry) hsize
      | false =>
        have hfree : r.size < r.limit := by
          rw [Option.isSome_eq_false_iff] at hentry
          exact Nat.not_le.1 fun hfull => hroom ⟨hentry, hfull⟩
        exact Nat.lt_of_le_of_lt (size_remove_le r peer) hfree

theorem register_eq_error {error : SessionError} (h : r.register peer volume = .error error) :
    error = .tooManySessions r.limit := by
  unfold register at h
  split at h
  · cases h
    rfl
  · cases h

theorem register_of_full (hentry : r.volume? peer = none) (hfull : r.limit ≤ r.size) :
    r.register peer volume = .error (.tooManySessions r.limit) :=
  if_pos ⟨by rw [hentry]; rfl, hfull⟩

theorem concerns_refresh (r : Registry) (peer : Peer) (volume : String) :
    r.Concerns peer (r.refresh peer volume) := by
  unfold refresh
  split
  next h => exact (register_eq_ok h).2
  · exact .refl r peer

theorem volume?_refresh (h : (r.volume? peer).isSome = true) (volume : String) :
    (r.refresh peer volume).volume? peer = some volume := by
  obtain ⟨r', hr'⟩ := (show r.HasRoom peer from .inl h).register volume
  unfold refresh
  rw [hr']
  exact (register_eq_ok hr').1

end Registry

/-! ## One task -/

structure Task.Advance.Local (store : Store) (task : Task) (next : Task.Advance) : Prop where
  settings : next.store.settings = store.settings
  registry : store.registry.Concerns task.connection.peer next.store.registry
  peer : next.task.connection.peer = task.connection.peer

namespace Task

variable {store : Store} {task : Task} {next : Advance} {delivered : Bool}

theorem read?_cases {lost : Task} {follow : Request → Execution → Stage}
    (h : task.read? store lost follow = some next) :
    next = { store := store, task := lost } ∨
      ∃ request rest,
        let e := task.connection.session.serve store.settings store.tree request
        let c := { task.connection with session := e.session, incoming := rest }
        next = { store := { store with tree := e.tree }, task := ⟨c, follow request e⟩ } := by
  unfold read? at h
  split at h
  · cases h
  · exact .inl (Option.some.inj h).symm
  next request rest _ => exact .inr ⟨request, rest, (Option.some.inj h).symm⟩

theorem local_step? (h : task.step? store delivered = some next) : next.Local store task := by
  obtain ⟨c, stage⟩ := task
  have hrefl := Registry.Concerns.refl store.registry c.peer
  -- Three of the stages write to the registry, each to the entry of its own client.
  cases stage with
  | accepted =>
    cases h
    cases delivered <;> exact ⟨rfl, hrefl, rfl⟩
  | replying o =>
    cases h
    cases delivered && !o.isClosing <;> exact ⟨rfl, hrefl, rfl⟩
  | admitted =>
    cases h
    cases delivered <;> exact ⟨rfl, hrefl, rfl⟩
  | turnedAway | answering =>
    cases h
    exact ⟨rfl, hrefl, rfl⟩
  | outside | inside =>
    unfold step? at h
    rcases read?_cases h with rfl | ⟨request, rest, rfl⟩ <;> exact ⟨rfl, hrefl, rfl⟩
  | entering volume o =>
    simp only [step?] at h
    split at h
    next registry hregister =>
      cases h
      exact ⟨rfl, (Registry.register_eq_ok hregister).2, rfl⟩
    · cases h
      exact ⟨rfl, hrefl, rfl⟩
  | refreshing volume o =>
    cases h
    exact ⟨rfl, Registry.concerns_refresh _ _ _, rfl⟩
  | leaving =>
    cases h
    exact ⟨rfl, Registry.concerns_remove _ _, rfl⟩
  | ended => cases h

theorem peer_breakOff (task : Task) : task.breakOff.connection.peer = task.connection.peer := by
  unfold breakOff
  split <;> rfl

end Task

/-! ## Tasks at one store -/

structure Answer where
  peer : Peer
  outcome : Outcome
  delivered : Bool

structure TaskPool where
  store : Store
  tasks : Peer → Option Task := fun _ => none
  answers : List Answer := []

inductive TaskEvent where
  | connect (peer : Peer)
  | arrive (peer : Peer) (new : Incoming)
  | breakOff (peer : Peer)
  | step (peer : Peer) (delivered : Bool)
deriving DecidableEq, Repr

namespace TaskPool

def start (settings : StoreSettings) (tree : Host.Tree) : TaskPool :=
  { store :=
      { settings := settings, tree := tree, registry := { limit := settings.maxClients.toNat } } }

def setTask (pool : TaskPool) (peer : Peer) (task : Task) : TaskPool :=
  { pool with tasks := Function.update pool.tasks peer (some task) }

def advance (pool : TaskPool) (peer : Peer) (delivered : Bool) (next : Task.Advance) : TaskPool :=
  { pool.setTask peer next.task with
    store := next.store
    answers := (next.written.toList.map fun o => ⟨peer, o, delivered⟩) ++ pool.answers }

/-- The pool after one event. An event of a client that has no task, or none that can take a step,
changes nothing; so does a second connection of a client. -/
def step (pool : TaskPool) : TaskEvent → TaskPool
  | .connect peer =>
    match pool.tasks peer with
    | none => pool.setTask peer { connection := .ofPeer peer }
    | some _ => pool
  | .arrive peer new =>
    match pool.tasks peer with
    | none => pool
    | some task => pool.setTask peer (task.receive new)
  | .breakOff peer =>
    match pool.tasks peer with
    | none => pool
    | some task => pool.setTask peer task.breakOff
  | .step peer delivered =>
    match (pool.tasks peer).bind fun task => task.step? pool.store delivered with
    | none => pool
    | some next => pool.advance peer delivered next

def run (pool : TaskPool) (events : List TaskEvent) : TaskPool :=
  events.foldl step pool

def Ended (pool : TaskPool) (peer : Peer) : Prop :=
  ∃ task, pool.tasks peer = some task ∧ task.stage = .ended

def told (pool : TaskPool) (peer : Peer) (code : UInt16) (delivered : Bool) : Bool :=
  pool.answers.any fun a =>
    a.peer = peer && a.outcome.reply.code = code && a.delivered = delivered

theorem start_of_store {settings : StoreSettings} {tree : Host.Tree} {store : Store}
    (h : Store.start settings tree = .ok store) :
    start settings store.tree = { store := store } := by
  unfold Store.start at h
  split at h
  · cases h
  · split at h
    · cases h
      rfl
    · cases h

/-! ## Events -/

variable {pool : TaskPool} {peer : Peer} {task : Task} {delivered : Bool}

inductive Change (pool : TaskPool) : TaskPool → Prop
  | nothing : Change pool pool
  | connected {peer : Peer} (hnone : pool.tasks peer = none) :
    Change pool (pool.setTask peer { connection := .ofPeer peer })
  | received {peer : Peer} {task : Task} (htask : pool.tasks peer = some task) (new : Incoming) :
    Change pool (pool.setTask peer (task.receive new))
  | brokeOff {peer : Peer} {task : Task} (htask : pool.tasks peer = some task) :
    Change pool (pool.setTask peer task.breakOff)
  | advanced {peer : Peer} {task : Task} {next : Task.Advance} {delivered : Bool}
    (htask : pool.tasks peer = some task)
    (hnext : task.step? pool.store delivered = some next) :
    Change pool (pool.advance peer delivered next)

theorem change_step (pool : TaskPool) (event : TaskEvent) : pool.Change (pool.step event) := by
  cases event with
  | connect peer =>
    cases hpeer : pool.tasks peer with
    | none => simpa only [step, hpeer] using Change.connected hpeer
    | some task => simpa only [step, hpeer] using Change.nothing
  | arrive peer new =>
    cases hpeer : pool.tasks peer with
    | none => simpa only [step, hpeer] using Change.nothing
    | some task => simpa only [step, hpeer] using Change.received hpeer new
  | breakOff peer =>
    cases hpeer : pool.tasks peer with
    | none => simpa only [step, hpeer] using Change.nothing
    | some task => simpa only [step, hpeer] using Change.brokeOff hpeer
  | step peer delivered =>
    cases hpeer : pool.tasks peer with
    | none => simpa only [step, hpeer, Option.bind_none] using Change.nothing
    | some task =>
      cases hnext : task.step? pool.store delivered with
      | none => simpa only [step, hpeer, Option.bind_some, hnext] using Change.nothing
      | some next =>
        simpa only [step, hpeer, Option.bind_some, hnext] using Change.advanced hpeer hnext

/-! The settings of the store and the number of places never change. -/

theorem Change.constants {pool' : TaskPool} (h : pool.Change pool') :
    pool'.store.settings = pool.store.settings ∧
      pool'.store.registry.limit = pool.store.registry.limit := by
  cases h with
  | nothing | connected | received | brokeOff => exact ⟨rfl, rfl⟩
  | advanced htask hnext =>
    have hlocal := Task.local_step? hnext
    exact ⟨hlocal.settings, hlocal.registry.limit⟩

theorem constants_run (pool : TaskPool) (events : List TaskEvent) :
    (pool.run events).store.settings = pool.store.settings ∧
      (pool.run events).store.registry.limit = pool.store.registry.limit := by
  induction events generalizing pool with
  | nil => exact ⟨rfl, rfl⟩
  | cons event events ih =>
    have hfirst := (pool.change_step event).constants
    have hothers := ih (pool.step event)
    exact ⟨hothers.1.trans hfirst.1, hothers.2.trans hfirst.2⟩

/-! ## Turns as rows of steps -/

theorem step_eq_advance {next : Task.Advance} (htask : pool.tasks peer = some task)
    (hnext : task.step? pool.store delivered = some next) :
    pool.step (.step peer delivered) = pool.advance peer delivered next := by
  simp only [step, htask, Option.bind_some, hnext]

def come (pool : TaskPool) (peer : Peer) (delivered : Bool) (store : Store) (task : Task)
    (written : List Outcome) : TaskPool where
  store := store
  tasks := Function.update pool.tasks peer (some task)
  answers := (written.reverse.map fun o => ⟨peer, o, delivered⟩) ++ pool.answers

theorem exists_run_of_steps {store store' : Store} {task task' : Task} {written : List Outcome}
    (h : Task.Steps delivered store task store' task' written) {pool : TaskPool}
    (hstore : pool.store = store) (htask : pool.tasks peer = some task) :
    ∃ n, pool.run (List.replicate n (.step peer delivered)) =
      pool.come peer delivered store' task' written := by
  -- Each step of the task is one event of the pool for its peer.
  induction h generalizing pool with
  | nil store task =>
    refine ⟨0, ?_⟩
    obtain ⟨s, tasks, answers⟩ := pool
    subst hstore
    simp only [come, ← htask, Function.update_eq_self]
    rfl
  | @cons store store' task task' next written first others ih =>
    have hnext : (pool.advance peer delivered next).tasks peer = some next.task := by
      simp [advance, setTask]
    obtain ⟨n, hrun⟩ := ih rfl hnext
    refine ⟨n + 1, ?_⟩
    rw [List.replicate_succ]
    change (pool.step (.step peer delivered)).run _ = _
    rw [step_eq_advance htask (hstore ▸ first), hrun]
    cases hwritten : next.written <;> simp [come, advance, setTask, hwritten]

theorem exists_run_of_turn? {c : Connection} {turn : Turn}
    (htask : pool.tasks peer = some (.between c)) (hopen : c.isOpen = true)
    (h : c.turn? pool.store delivered = some turn) :
    ∃ n, pool.run (List.replicate n (.step peer delivered)) =
      pool.come peer delivered turn.store (.between turn.connection) turn.written.toList :=
  exists_run_of_steps (Task.steps_of_turn? hopen h) rfl htask

end TaskPool

end VolumeStore
