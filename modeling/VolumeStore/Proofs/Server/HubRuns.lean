import VolumeStore.Proofs.Server.Places
import VolumeStore.Server.Hub

/-!
# Runs of the hub

In a run of the hub every connection takes its turns as a whole. Such a run is one of the rows of
steps of the tasks, if no client connects twice; so what holds after every row of steps holds after
every run of the hub.
-/

namespace VolumeStore

theorem Connection.peer_turn? {store : Store} {c : Connection} {delivered : Bool} {turn : Turn}
    (h : c.turn? store delivered = some turn) : turn.connection.peer = c.peer := by
  unfold turn? at h
  split at h
  · cases h
  · cases h
    rfl
  · cases h
    split
    · rfl
    · unfold unmountedTurn
      dsimp only
      split
      · rfl
      · split <;> rfl

namespace Hub

variable {hub : Hub} {peer : Peer} {c : Connection}

theorem of_connection? (h : hub.connection? peer = some c) : c.peer = peer ∧ c.isOpen = true := by
  have hfound := List.find?_some h
  simpa using hfound

theorem connection?_setConnection_of_ne (hub : Hub) (c : Connection) (hne : peer ≠ c.peer) :
    (hub.setConnection c).connection? peer = hub.connection? peer := by
  unfold connection? setConnection
  induction hub.connections with
  | nil => rfl
  | cons d connections ih =>
    rw [List.map_cons, List.find?_cons, List.find?_cons, ih]
    by_cases hd : d.peer = c.peer ∧ d.isOpen = true
    · simp [hd, hne.symm]
    · simp [hd]

theorem connection?_setConnection_of_closed (hub : Hub) (hclosed : c.isOpen = false) :
    (hub.setConnection c).connection? c.peer = none := by
  refine List.find?_eq_none.2 fun d hd => ?_
  obtain ⟨d', -, rfl⟩ := List.mem_map.1 hd
  split
  · simp [hclosed]
  next hother => simpa using hother

theorem connection?_setConnection_of_isOpen (h : (hub.connection? c.peer).isSome = true)
    (hopen : c.isOpen = true) : (hub.setConnection c).connection? c.peer = some c := by
  obtain ⟨store, connections⟩ := hub
  unfold connection? setConnection at *
  dsimp only at h ⊢
  induction connections with
  | nil => cases h
  | cons d connections ih =>
    rw [List.find?_cons] at h
    rw [List.map_cons, List.find?_cons]
    by_cases hd : d.peer = c.peer ∧ d.isOpen = true
    · simp [hd, hopen]
    · have hmiss : (decide (d.peer = c.peer) && d.isOpen) = false := by simpa using hd
      rw [if_neg hd]
      rw [hmiss] at h ⊢
      exact ih h

/-! ## The hub and the tasks -/

/-- The tasks stand where the connections of the hub stand between two turns. -/
structure Mirrors (hub : Hub) (pool : TaskPool) : Prop where
  store : pool.store = hub.store
  isOpen : ∀ peer c, hub.connection? peer = some c → pool.tasks peer = some (.between c)
  ended : ∀ peer, hub.connection? peer = none → pool.tasks peer = none ∨ pool.Ended peer

def arrivals (events : List HubEvent) : List Peer :=
  events.filterMap fun
    | .connect peer => some peer
    | _ => none

variable {pool : TaskPool}

/-- A row of events of the tasks leads to where the hub stands, and nobody else has connected in
it. -/
def Follows (hub' : Hub) (pool : TaskPool) (connects : Peer → Prop) : Prop :=
  ∃ events, hub'.Mirrors (pool.run events) ∧
    ∀ peer, ¬ connects peer → pool.tasks peer = none → (pool.run events).tasks peer = none

theorem Mirrors.follows_self (h : hub.Mirrors pool) (connects : Peer → Prop) :
    hub.Follows pool connects :=
  ⟨[], h, fun _ _ => id⟩

theorem Mirrors.follows {events : List TaskEvent} (h : hub.Mirrors pool) (hub' : Hub)
    (hconnections : hub'.connections = hub.connections)
    (hc : (hub.connection? c.peer).isSome = true)
    (hstore : (pool.run events).store = hub'.store)
    (htasks : (pool.run events).tasks =
      Function.update pool.tasks c.peer (some (.between c)))
    (connects : Peer → Prop) : (hub'.setConnection c).Follows pool connects := by
  have hopens : ∀ peer, hub'.connection? peer = hub.connection? peer := by
    intro peer
    unfold connection?
    rw [hconnections]
  have hself : (pool.run events).tasks c.peer = some (.between c) := by
    rw [htasks, Function.update_self]
  have hother : ∀ other, other ≠ c.peer → (pool.run events).tasks other = pool.tasks other := by
    intro other hne
    rw [htasks, Function.update_of_ne hne]
  -- The other connections and their tasks are as before. This one is found as long as it is open;
  -- otherwise its task has ended.
  refine ⟨events, ⟨hstore, fun other d hd => ?_, fun other hnone => ?_⟩, fun other _ hnone => ?_⟩
  · by_cases heq : other = c.peer
    · subst heq
      cases hopen : c.isOpen with
      | true =>
        rw [connection?_setConnection_of_isOpen (hopens c.peer ▸ hc) hopen] at hd
        cases hd
        exact hself
      | false =>
        rw [connection?_setConnection_of_closed _ hopen] at hd
        cases hd
    · rw [connection?_setConnection_of_ne _ _ heq, hopens] at hd
      exact (hother other heq).trans (h.isOpen other d hd)
  · by_cases heq : other = c.peer
    · subst heq
      cases hopen : c.isOpen with
      | true =>
        rw [connection?_setConnection_of_isOpen (hopens c.peer ▸ hc) hopen] at hnone
        cases hnone
      | false => exact .inr ⟨.between c, hself, by simp [Task.between, hopen]⟩
    · rw [connection?_setConnection_of_ne _ _ heq, hopens] at hnone
      rw [TaskPool.Ended, hother other heq]
      exact h.ended other hnone
  · obtain ⟨d, hd⟩ := Option.isSome_iff_exists.1 hc
    have hne : other ≠ c.peer := by
      rintro rfl
      cases hnone.symm.trans (h.isOpen c.peer d hd)
    exact (hother other hne).trans hnone

theorem Mirrors.receive (h : hub.Mirrors pool) (peer : Peer) (new : Incoming)
    (connects : Peer → Prop) : (hub.receive peer new).Follows pool connects := by
  unfold Hub.receive
  cases hconnection : hub.connection? peer with
  | none => exact h.follows_self connects
  | some c =>
    obtain ⟨rfl, -⟩ := of_connection? hconnection
    have hrun : pool.run [.arrive c.peer new] =
        pool.setTask c.peer (.between { c with incoming := c.incoming.append new }) := by
      simp only [TaskPool.run, List.foldl_cons, List.foldl_nil, TaskPool.step,
        h.isOpen c.peer c hconnection]
      rfl
    exact h.follows (c := { c with incoming := c.incoming.append new }) hub rfl
      (congrArg Option.isSome hconnection) ((congrArg TaskPool.store hrun).trans h.store)
      (congrArg TaskPool.tasks hrun) connects

theorem Mirrors.turn (h : hub.Mirrors pool) (peer : Peer) (delivered : Bool)
    (connects : Peer → Prop) : (hub.step (.turn peer delivered)).1.Follows pool connects := by
  unfold Hub.step
  dsimp only
  cases hconnection : hub.connection? peer with
  | none => exact h.follows_self connects
  | some c =>
    dsimp only
    obtain ⟨rfl, hopen⟩ := of_connection? hconnection
    cases hturn : c.turn? hub.store delivered with
    | none => exact h.follows_self connects
    | some turn =>
      -- A turn is a number of steps of the task behind the connection.
      obtain ⟨n, hrun⟩ :=
        TaskPool.exists_run_of_turn? (h.isOpen c.peer c hconnection) hopen (h.store ▸ hturn)
      have hpeer := Connection.peer_turn? hturn
      refine h.follows { hub with store := turn.store } rfl ?_ (congrArg _ hrun) ?_
        connects
      · rw [hpeer, hconnection]
        rfl
      · rw [hrun, hpeer]
        rfl

theorem run_connect (hnew : pool.tasks peer = none) :
    pool.run [.connect peer, .step peer true] =
      pool.come peer true pool.store (.between (.ofPeer peer)) [Store.greeting] := by
  have hfirst : pool.step (.connect peer) =
      pool.setTask peer { connection := .ofPeer peer } := by
    simp only [TaskPool.step, hnew]
  have htask : (pool.setTask peer { connection := .ofPeer peer }).tasks peer =
      some { connection := .ofPeer peer } := Function.update_self _ _ _
  simp only [TaskPool.run, List.foldl_cons, List.foldl_nil, hfirst]
  rw [TaskPool.step_eq_advance htask rfl]
  simp only [TaskPool.advance, TaskPool.come, TaskPool.setTask, Function.update_idem]
  rfl

theorem Mirrors.connect (h : hub.Mirrors pool) (hnew : pool.tasks peer = none) :
    (hub.step (.connect peer)).1.Follows pool (· = peer) := by
  have hnone : hub.connection? peer = none := by
    refine Option.eq_none_iff_forall_ne_some.2 fun c hc => ?_
    cases hnew.symm.trans (h.isOpen peer c hc)
  have hother : ∀ other, other ≠ peer →
      (pool.run [.connect peer, .step peer true]).tasks other = pool.tasks other := by
    intro other hne
    rw [run_connect hnew]
    exact Function.update_of_ne hne _ _
  have hstep : (hub.step (.connect peer)).1 =
      { hub with connections := .ofPeer peer :: hub.connections } := by
    simp only [Hub.step, hnone]
    rfl
  have hfound : ∀ other, (hub.step (.connect peer)).1.connection? other =
      if other = peer then some (.ofPeer peer) else hub.connection? other := by
    intro other
    rw [hstep]
    unfold connection?
    by_cases heq : other = peer
    · simp [heq, Connection.ofPeer]
    · simp [heq, Connection.ofPeer, Ne.symm heq]
  -- The task is started, and its first step greets the client.
  refine ⟨[.connect peer, .step peer true], ⟨?_, fun other c hc => ?_, fun other hc => ?_⟩,
    fun other hne hnone => (hother other hne).trans hnone⟩
  · rw [run_connect hnew, hstep]
    exact h.store
  · rw [hfound] at hc
    split at hc
    next heq =>
      cases hc
      rw [heq, run_connect hnew]
      exact Function.update_self _ _ _
    next hne => exact (hother other hne).trans (h.isOpen other c hc)
  · rw [hfound] at hc
    split at hc
    · cases hc
    next hne =>
      rw [TaskPool.Ended, hother other hne]
      exact h.ended other hc

theorem Mirrors.step (h : hub.Mirrors pool) (event : HubEvent)
    (hnew : ∀ peer, event = .connect peer → pool.tasks peer = none) :
    (hub.step event).1.Follows pool fun peer => event = .connect peer := by
  cases event with
  | connect peer =>
    obtain ⟨events, hmirrors, hnone⟩ := h.connect (hnew peer rfl)
    exact ⟨events, hmirrors, fun other hne => hnone other fun heq => hne (heq ▸ rfl)⟩
  | arrive peer bytes => exact h.receive peer ⟨bytes, false⟩ _
  | finish peer => exact h.receive peer ⟨[], true⟩ _
  | turn peer delivered => exact h.turn peer delivered _

theorem Mirrors.exists_run {events : List HubEvent} (h : hub.Mirrors pool)
    (honce : (arrivals events).Nodup) (hnew : ∀ peer ∈ arrivals events, pool.tasks peer = none) :
    ∃ events', (hub.run events).Mirrors (pool.run events') := by
  induction events generalizing hub pool with
  | nil => exact ⟨[], h⟩
  | cons event events ih =>
    have hlater : (arrivals events).Sublist (arrivals (event :: events)) :=
      (List.sublist_cons_self event events).filterMap _
    obtain ⟨first, hmirrors, hkept⟩ := h.step event fun peer heq => by
      subst heq
      exact hnew peer List.mem_cons_self
    obtain ⟨later, hrun⟩ := ih hmirrors (honce.sublist hlater) fun peer hpeer => by
      refine hkept peer ?_ (hnew peer (hlater.subset hpeer))
      rintro rfl
      exact (List.nodup_cons.1 honce).1 hpeer
    refine ⟨first ++ later, ?_⟩
    rw [TaskPool.run, List.foldl_append]
    exact hrun

theorem mirrors_start (settings : StoreSettings) (tree : Host.Tree) :
    let pool := TaskPool.start settings tree
    ({ store := pool.store } : Hub).Mirrors pool :=
  ⟨rfl, fun _ _ h => (Option.some_ne_none _ h.symm).elim, fun _ _ => .inl rfl⟩

theorem size_run_le (settings : StoreSettings) (tree : Host.Tree) {events : List HubEvent}
    (honce : (arrivals events).Nodup) :
    let hub : Hub := { store := (TaskPool.start settings tree).store }
    (hub.run events).store.registry.size ≤ settings.maxClients.toNat := by
  intro hub
  obtain ⟨events', hmirrors⟩ := (mirrors_start settings tree).exists_run honce fun _ _ => rfl
  have hsound := (TaskPool.sound_start settings tree).run events'
  rw [← hmirrors.store]
  exact hsound.within.trans_eq ((TaskPool.start settings tree).constants_run events').2

end Hub

end VolumeStore
