import VolumeStore.Proofs.Server.Places

/-!
# The limit of clients

The registry never holds more clients than the settings allow, in whatever order the tasks take
their steps. A client that was told of its mounting has a place until its task ends, one that finds
no place is told so and left without a volume, and one that has a place can always renew it.
-/

namespace VolumeStore

structure StoreSettings.Offers (settings : StoreSettings) (t : Host.Tree) (name : String) :
    Prop where
  valid : isVolumeName name = true
  served : settings.hasVolume name = true
  directory : t.isDirectory (settings.volumePath name) = true

theorem Incoming.payload_of_mount {s rest : Incoming} {settings : StoreSettings} {name : String}
    {payload : Except WireError (List UInt8)}
    (h : s.readRequest settings = .ok (.command (.mount name) payload, rest)) :
    payload = .ok [] := by
  unfold readRequest at h
  simp only [bind, Except.bind, pure, Except.pure] at h
  split at h
  · cases h
  next read hline =>
    split at h
    · cases h
    next line =>
      split at h
      · cases h
      next command hcommand =>
        split at h
        · cases h
        next hpayload =>
          cases h
          cases hpayload
          rfl

namespace Session

variable {settings : StoreSettings} {s : Session} {t : Host.Tree} {name : String}

theorem mountVolume_of_offers (h : settings.Offers t name) (s : Session) :
    s.mountVolume settings t name =
      (s.mount ⟨name, ⟨settings.volumePath name⟩⟩).answer t ReplyCode.mounted
        ("Volume " ++ name ++ " mounted") := by
  simp [mountVolume, h.valid, h.served, h.directory]

theorem serve_mount_of_offers (h : settings.Offers t name) (s : Session) :
    let e := s.serve settings t (.command (.mount name) (.ok []))
    e.tree = t ∧ e.session.volumeName? = some name ∧
      e.outcome = .ok ReplyCode.mounted ("Volume " ++ name ++ " mounted") := by
  simp only [serve, execute, executeMounted, executeUnmounted, mountVolume_of_offers h]
  split <;> exact ⟨rfl, rfl, rfl⟩

end Session

namespace Fits

variable {limit : Nat} {s : Session} {stage : Task.Stage} {a : Account}

theorem placed (h : Fits limit s stage a) (hgoes : stage ≠ .ended) (htold : a.admitted = true) :
    ∃ volume, a.entry = some volume ∧ (stage = .inside → s.volumeName? = some volume) ∧
      ((∀ name o, stage ≠ .refreshing name o) →
        ∀ mount, s.mounted = some mount → mount.name = volume) := by
  cases h with
  | accepted | outside | replying | entering | turnedAway | admitted => cases htold
  | neverPlaced | gaveUp | leftBehind => exact absurd rfl hgoes
  | @inside mount hs =>
    have hname : s.volumeName? = some mount.name := congrArg (Option.map Mount.name) hs
    refine ⟨mount.name, rfl, fun _ => hname, fun _ other hother => ?_⟩
    cases hs.symm.trans hother
    rfl
  | @refreshing o mount hs hmounted entry =>
    exact ⟨entry, rfl, Task.Stage.noConfusion, fun hstage => absurd rfl (hstage mount.name o)⟩
  | @answering o mount hs =>
    refine ⟨mount.name, rfl, Task.Stage.noConfusion, fun _ other hother => ?_⟩
    rcases hs with hs | ⟨-, hs⟩ <;> cases hs.symm.trans hother
    rfl
  | @leaving mount hs =>
    refine ⟨mount.name, rfl, Task.Stage.noConfusion, fun _ other hother => ?_⟩
    rcases hs with hs | hs <;> cases hs.symm.trans hother
    rfl

theorem entry_of_entering {name : String} {o : Outcome} (h : Fits limit s (.entering name o) a) :
    a.entry = none := by
  cases h
  rfl

theorem entry_of_refreshing {name : String} {o : Outcome}
    (h : Fits limit s (.refreshing name o) a) : a.entry.isSome = true := by
  cases h
  rfl

theorem of_turnedAway {o : Outcome} (h : Fits limit s (.turnedAway o) a) :
    o = .failed (.session (.tooManySessions limit)) ∧ s.mounted = none := by
  cases h with
  | turnedAway hs => exact ⟨rfl, hs⟩

theorem turned (h : Fits limit s stage a) (htold : a.turnedAway = true) :
    stage = .ended ∧ s.mounted = none ∧ a.entry = none ∧ a.admitted = false := by
  cases h with
  | neverPlaced hs => exact ⟨rfl, hs, rfl, rfl⟩
  | accepted | outside | replying | entering | turnedAway | admitted | inside | refreshing
  | answering | leaving | gaveUp | leftBehind => cases htold

end Fits

namespace TaskPool

variable {pool : TaskPool} {peer : Peer} {task : Task}

/-- The next request of a task mounts a volume that is offered. -/
def Mounts (pool : TaskPool) (task : Task) (name : String) : Prop :=
  (∃ payload rest, task.connection.incoming.readRequest pool.store.settings =
    .ok (.command (.mount name) payload, rest)) ∧
  pool.store.settings.Offers pool.store.tree name

/-- What the limit of clients means for a store and its tasks. -/
structure KeepsLimit (limit : Nat) (pool : TaskPool) : Prop where
  within : pool.store.registry.size ≤ limit
  /-- A client that was told of its mounting has a place until its task ends, and under the volume
  of its session but for the moment in which the place is renewed. -/
  placed : ∀ peer task, pool.tasks peer = some task → task.stage ≠ .ended →
    pool.told peer ReplyCode.mounted true = true →
    ∃ volume, pool.store.registry.volume? peer = some volume ∧
      (task.stage = .inside → task.connection.session.volumeName? = some volume) ∧
      ((∀ name o, task.stage ≠ .refreshing name o) →
        ∀ mount, task.connection.session.mounted = some mount → mount.name = volume)
  asks : ∀ peer task name delivered, pool.tasks peer = some task → task.stage = .outside →
    pool.Mounts task name →
    ∃ task' o, pool.step (.step peer delivered) = pool.setTask peer task' ∧
      task'.stage = .entering name o ∧ o.reply.code = ReplyCode.mounted
  /-- Without a free place the session loses its volume, and the registry stays as it is. -/
  turnsAway : ∀ peer task name o delivered, pool.tasks peer = some task →
    task.stage = .entering name o → limit ≤ pool.store.registry.size →
    ∃ task', pool.step (.step peer delivered) = pool.setTask peer task' ∧
      task'.stage = .turnedAway (.failed (.session (.tooManySessions limit))) ∧
      task'.connection.session.mounted = none
  tells : ∀ peer task o delivered, pool.tasks peer = some task → task.stage = .turnedAway o →
    o.reply.code = ReplyCode.unavailable ∧
    ∃ task', pool.step (.step peer delivered) =
        { pool.setTask peer task' with answers := ⟨peer, o, delivered⟩ :: pool.answers } ∧
      task'.stage = .ended ∧ task'.connection.isOpen = false ∧
      task'.connection.session.mounted = none
  told : ∀ peer delivered, pool.told peer ReplyCode.unavailable delivered = true →
    (∃ task, pool.tasks peer = some task ∧ task.stage = .ended ∧
      task.connection.session.mounted = none) ∧
    pool.store.registry.volume? peer = none ∧ pool.told peer ReplyCode.mounted true = false
  remounts : ∀ peer task name delivered, pool.tasks peer = some task → task.stage = .inside →
    pool.Mounts task name →
    ∃ task' o, pool.step (.step peer delivered) = pool.setTask peer task' ∧
      task'.stage = .refreshing name o ∧ o.reply.code = ReplyCode.mounted
  renews : ∀ peer task name o delivered, pool.tasks peer = some task →
    task.stage = .refreshing name o →
    ∃ registry, pool.store.registry.register peer name = .ok registry ∧
      pool.step (.step peer delivered) =
        { pool.setTask peer (task.goTo (.answering o)) with
          store := { pool.store with registry := registry } } ∧
      registry.volume? peer = some name ∧ registry.size ≤ limit
  writes : ∀ peer task o delivered, pool.tasks peer = some task → task.stage = .answering o →
    ∃ task', pool.step (.step peer delivered) =
      { pool.setTask peer task' with answers := ⟨peer, o, delivered⟩ :: pool.answers }

theorem Sound.turned (h : pool.Sound) {delivered : Bool}
    (htold : pool.told peer ReplyCode.unavailable delivered = true) :
    (∃ task, pool.tasks peer = some task ∧ task.stage = .ended ∧
      task.connection.session.mounted = none) ∧
    pool.store.registry.volume? peer = none ∧ pool.told peer ReplyCode.mounted true = false := by
  have hturned : (pool.account peer).turnedAway = true := by
    cases delivered <;> simp [account, htold]
  cases htask : pool.tasks peer with
  | none =>
    rw [h.fresh peer htask] at hturned
    cases hturned
  | some task =>
    obtain ⟨hstage, hmounted, hentry, hadmitted⟩ := (h.fits peer task htask).turned hturned
    exact ⟨⟨task, rfl, hstage, hmounted⟩, hentry, hadmitted⟩

theorem Mounts.read? {name : String} (h : pool.Mounts task name) (lost : Task)
    (follow : Request → Execution → Task.Stage) :
    ∃ (c : Connection) (e : Execution),
      task.read? pool.store lost follow =
        some ⟨pool.store, ⟨c, follow (.command (.mount name) (.ok [])) e⟩, none⟩ ∧
      e.session.volumeName? = some name ∧
      e.outcome = .ok ReplyCode.mounted ("Volume " ++ name ++ " mounted") := by
  obtain ⟨⟨payload, rest, hread⟩, hoffers⟩ := h
  obtain rfl := Incoming.payload_of_mount hread
  obtain ⟨htree, hname, houtcome⟩ :=
    Session.serve_mount_of_offers hoffers task.connection.session
  generalize hserve : task.connection.session.serve pool.store.settings pool.store.tree
    (.command (.mount name) (.ok [])) = e at htree hname houtcome
  refine ⟨{ task.connection with session := e.session, incoming := rest }, e, ?_, hname, houtcome⟩
  unfold Task.read?
  rw [hread]
  simp only [hserve, htree]

theorem Mounts.asks {name : String} (h : pool.Mounts task name)
    (htask : pool.tasks peer = some task) (hstage : task.stage = .outside) (delivered : Bool) :
    ∃ task' o, pool.step (.step peer delivered) = pool.setTask peer task' ∧
      task'.stage = .entering name o ∧ o.reply.code = ReplyCode.mounted := by
  obtain ⟨c, e, hread, hname, houtcome⟩ := h.read? task.finish fun _ e => .afterMount e
  obtain ⟨mount, hmounted, hmount⟩ := Option.map_eq_some_iff.1 hname
  have hnext : task.step? pool.store delivered =
      some ⟨pool.store, ⟨c, .afterMount e⟩, none⟩ := by
    rw [Task.step?, hstage]
    exact hread
  refine ⟨_, e.outcome, step_eq_advance htask hnext, ?_, congrArg (·.reply.code) houtcome⟩
  simp only [Task.Stage.afterMount, hmounted, hmount]

theorem Mounts.remounts {name : String} (h : pool.Mounts task name)
    (htask : pool.tasks peer = some task) (hstage : task.stage = .inside) (delivered : Bool) :
    ∃ task' o, pool.step (.step peer delivered) = pool.setTask peer task' ∧
      task'.stage = .refreshing name o ∧ o.reply.code = ReplyCode.mounted := by
  obtain ⟨c, e, hread, -, houtcome⟩ :=
    h.read? (task.goTo .leaving) fun request e => .afterRequest request e.outcome
  have hnext : task.step? pool.store delivered = some ⟨pool.store,
      ⟨c, .afterRequest (.command (.mount name) (.ok [])) e.outcome⟩, none⟩ := by
    rw [Task.step?, hstage]
    exact hread
  refine ⟨_, e.outcome, step_eq_advance htask hnext, ?_, congrArg (·.reply.code) houtcome⟩
  rw [houtcome]
  rfl

theorem turnsAway {name : String} {o : Outcome} (htask : pool.tasks peer = some task)
    (hstage : task.stage = .entering name o)
    (hentry : pool.store.registry.volume? task.connection.peer = none)
    (hfull : pool.store.registry.limit ≤ pool.store.registry.size) (delivered : Bool) :
    ∃ task', pool.step (.step peer delivered) = pool.setTask peer task' ∧
      task'.stage = .turnedAway (.failed (.session
        (.tooManySessions pool.store.registry.limit))) ∧
      task'.connection.session.mounted = none := by
  have hnext : task.step? pool.store delivered = some ⟨pool.store,
      ⟨{ task.connection with session := task.connection.session.unmount },
        .turnedAway (.failed (.session (.tooManySessions pool.store.registry.limit)))⟩, none⟩ := by
    rw [Task.step?, hstage]
    simp only [Registry.register_of_full hentry hfull]
  exact ⟨_, step_eq_advance htask hnext, rfl, rfl⟩

theorem tells {o : Outcome} (htask : pool.tasks peer = some task)
    (hstage : task.stage = .turnedAway o) (delivered : Bool) :
    pool.step (.step peer delivered) =
      { pool.setTask peer task.finish with
        answers := ⟨peer, o, delivered⟩ :: pool.answers } := by
  have hnext : task.step? pool.store delivered =
      some ⟨pool.store, task.finish, some o⟩ := by
    rw [Task.step?, hstage]
  exact step_eq_advance htask hnext

theorem renews {name : String} {o : Outcome} {registry : Registry}
    (htask : pool.tasks peer = some task) (hstage : task.stage = .refreshing name o)
    (hregister : pool.store.registry.register task.connection.peer name = .ok registry)
    (delivered : Bool) :
    pool.step (.step peer delivered) =
      { pool.setTask peer (task.goTo (.answering o)) with
        store := { pool.store with registry := registry } } := by
  have hnext : task.step? pool.store delivered = some ⟨{ pool.store with registry := registry },
      task.goTo (.answering o), none⟩ := by
    rw [Task.step?, hstage]
    simp only [Registry.refresh, hregister]
  exact step_eq_advance htask hnext

theorem writes {o : Outcome} (htask : pool.tasks peer = some task)
    (hstage : task.stage = .answering o) (delivered : Bool) :
    ∃ task', pool.step (.step peer delivered) =
      { pool.setTask peer task' with answers := ⟨peer, o, delivered⟩ :: pool.answers } := by
  have hnext : task.step? pool.store delivered = some ⟨pool.store,
      task.goTo (if delivered && !o.isClosing then .inside else .leaving), some o⟩ := by
    rw [Task.step?, hstage]
  exact ⟨_, step_eq_advance htask hnext⟩

/-- In whatever order the tasks take their steps, the limit of clients is kept. -/
theorem keepsLimit_run (settings : StoreSettings) (tree : Host.Tree) (events : List TaskEvent) :
    ((start settings tree).run events).KeepsLimit settings.maxClients.toNat := by
  have hsound := (sound_start settings tree).run events
  have hlimit := ((start settings tree).constants_run events).2
  -- From here on only what holds of every sound pool is used.
  generalize (start settings tree).run events = pool at hsound hlimit
  change pool.store.registry.limit = settings.maxClients.toNat at hlimit
  rw [← hlimit]
  exact {
    within := hsound.within
    placed := fun peer task htask hgoes htold =>
      (hsound.fits peer task htask).placed hgoes htold
    asks := fun peer task name delivered htask hstage hmounts =>
      hmounts.asks htask hstage delivered
    turnsAway := fun peer task name o delivered htask hstage hfull => by
      have hentry := (hstage ▸ hsound.fits peer task htask).entry_of_entering
      exact turnsAway htask hstage (hsound.peer peer task htask ▸ hentry) hfull delivered
    tells := fun peer task o delivered htask hstage => by
      obtain ⟨ho, hmounted⟩ := (hstage ▸ hsound.fits peer task htask).of_turnedAway
      exact ⟨ho ▸ rfl, _, tells htask hstage delivered, rfl, rfl, hmounted⟩
    told := fun peer delivered htold => hsound.turned htold
    remounts := fun peer task name delivered htask hstage hmounts =>
      hmounts.remounts htask hstage delivered
    renews := fun peer task name o delivered htask hstage => by
      have hentry := (hstage ▸ hsound.fits peer task htask).entry_of_refreshing
      have hpeer := hsound.peer peer task htask
      obtain ⟨registry, hregister⟩ :=
        (show pool.store.registry.HasRoom peer from .inl hentry).register name
      have heffect := Registry.register_eq_ok hregister
      exact ⟨registry, hregister, renews htask hstage (hpeer ▸ hregister) delivered, heffect.1,
        heffect.2.within hsound.within⟩
    writes := fun peer task o delivered htask hstage => writes htask hstage delivered }

def lastPlace (first second : Peer) : List TaskEvent :=
  asksFor first "ltptest" ++ asksFor second "ltptest" ++
    [.step first true, .step second true, .step first true, .step second true]

theorem keepsLimit_run_lastPlace :
    let first : Peer := { tcpPort := 40000 }
    let second : Peer := { tcpPort := 40001 }
    let pool := (start { maxClients := 1 } soleVolume).run (lastPlace first second)
    pool.KeepsLimit 1 ∧ pool.store.registry.volume? first = some "ltptest" ∧
      (pool.tasks first).map (·.stage) = some .inside ∧
      (pool.tasks second).map (·.stage) = some .ended ∧
      pool.told second ReplyCode.unavailable true = true :=
  ⟨keepsLimit_run { maxClients := 1 } soleVolume _, by decide +kernel, by decide +kernel,
    by decide +kernel, by decide +kernel⟩

end TaskPool

end VolumeStore
