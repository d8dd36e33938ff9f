import VolumeStore.Proofs.Server.Served
import VolumeStore.Proofs.Server.TaskPool

/-!
# Tasks and their places in the registry

What holds after every row of steps: for each client, the stage of its task goes with the volume of
its session, with its entry in the registry and with what it has been told about its mounting. One
step keeps this for the client whose task takes it, and for the others nothing changes.
-/

namespace VolumeStore

/-! ## What a client stands for -/

structure Account where
  entry : Option String
  admitted : Bool
  missed : Bool
  turnedAway : Bool

namespace Account

def fresh : Account :=
  ⟨none, false, false, false⟩

def note (a : Account) (code : UInt16) (delivered : Bool) : Account :=
  { a with
    admitted := a.admitted || (code == ReplyCode.mounted && delivered)
    missed := a.missed || (code == ReplyCode.mounted && !delivered)
    turnedAway := a.turnedAway || code == ReplyCode.unavailable }

end Account

def TaskPool.account (pool : TaskPool) (peer : Peer) : Account where
  entry := pool.store.registry.volume? peer
  admitted := pool.told peer ReplyCode.mounted true
  missed := pool.told peer ReplyCode.mounted false
  turnedAway := pool.told peer ReplyCode.unavailable true ||
    pool.told peer ReplyCode.unavailable false

/-- What goes together for one client: its session, the stage of its task, and its account. -/
inductive Fits (limit : Nat) (s : Session) : Task.Stage → Account → Prop
  | accepted (hs : s.mounted = none) : Fits limit s .accepted .fresh
  | outside (hs : s.mounted = none) : Fits limit s .outside .fresh
  | replying {o : Outcome} (hs : s.mounted = none) (hmounted : o.reply.code ≠ ReplyCode.mounted)
    (hcrowded : o.reply.code ≠ ReplyCode.unavailable) : Fits limit s (.replying o) .fresh
  | entering {o : Outcome} {mount : Mount} (hs : s.mounted = some mount)
    (hmounted : o.reply.code = ReplyCode.mounted) : Fits limit s (.entering mount.name o) .fresh
  | turnedAway (hs : s.mounted = none) :
    Fits limit s (.turnedAway (.failed (.session (.tooManySessions limit)))) .fresh
  | admitted {o : Outcome} {mount : Mount} (hs : s.mounted = some mount)
    (hmounted : o.reply.code = ReplyCode.mounted) :
    Fits limit s (.admitted o) ⟨some mount.name, false, false, false⟩
  | inside {mount : Mount} (hs : s.mounted = some mount) (missed : Bool) :
    Fits limit s .inside ⟨some mount.name, true, missed, false⟩
  | refreshing {o : Outcome} {mount : Mount} (hs : s.mounted = some mount)
    (hmounted : o.reply.code = ReplyCode.mounted) (entry : String) (missed : Bool) :
    Fits limit s (.refreshing mount.name o) ⟨some entry, true, missed, false⟩
  | answering {o : Outcome} {mount : Mount}
    (hs : s.mounted = some mount ∨ o.isClosing = true ∧ s.mounted = none)
    (hcrowded : o.reply.code ≠ ReplyCode.unavailable) (missed : Bool) :
    Fits limit s (.answering o) ⟨some mount.name, true, missed, false⟩
  | leaving {mount : Mount} (hs : s.mounted = some mount ∨ s.mounted = none) (missed : Bool) :
    Fits limit s .leaving ⟨some mount.name, true, missed, false⟩
  | neverPlaced (hs : s.mounted = none) (turnedAway : Bool) :
    Fits limit s .ended ⟨none, false, false, turnedAway⟩
  | gaveUp (missed : Bool) : Fits limit s .ended ⟨none, true, missed, false⟩
  | leftBehind (entry : String) : Fits limit s .ended ⟨some entry, false, true, false⟩

namespace Task

theorem afterRequest_of_step {s : Session} {command : Command} {e : Execution}
    (h : s.Step command e) (payload : Except WireError (List UInt8)) :
    (∃ mount : Mount, Stage.afterRequest (.command command payload) e.outcome =
        .refreshing mount.name e.outcome ∧
      e.session.mounted = some mount ∧ e.outcome.reply.code = ReplyCode.mounted) ∨
    (Stage.afterRequest (.command command payload) e.outcome = .answering e.outcome ∧
      (e.session.mounted = s.mounted ∨ e.outcome.isClosing = true ∧ e.session.mounted = none)) := by
  rcases h.mounts_or with ⟨mount, hcommand, hmounted, houtcome⟩ | ⟨hcode, hkept⟩
  · refine .inl ⟨mount, ?_, hmounted, congrArg (·.reply.code) houtcome⟩
    rw [hcommand, houtcome]
    rfl
  · refine .inr ⟨?_, hkept⟩
    unfold Stage.afterRequest
    split
    next hrequest hdone =>
      cases hrequest
      rw [hdone] at hcode
      exact absurd (h.code_eq_mounted hdone) hcode
    · rfl

theorem afterRequest_serve {s : Session} {mount : Mount} (settings : StoreSettings)
    (t : Host.Tree) (hs : s.mounted = some mount) (r : Request) :
    let e := s.serve settings t r
    (∃ mount' : Mount, Stage.afterRequest r e.outcome = .refreshing mount'.name e.outcome ∧
      e.session.mounted = some mount' ∧ e.outcome.reply.code = ReplyCode.mounted) ∨
    (Stage.afterRequest r e.outcome = .answering e.outcome ∧
      (e.session.mounted = some mount ∨
        e.outcome.isClosing = true ∧ e.session.mounted = none)) := by
  have hmounted : s.isMounted = true := congrArg Option.isSome hs
  rw [← hs]
  match r with
  | .malformed error => exact .inr ⟨rfl, .inl rfl⟩
  | .command command (.ok payload) =>
    rcases s.step_execute settings t command payload with hstep | hstep
    · exact afterRequest_of_step hstep _
    · exact afterRequest_of_step hstep _
  | .command command (.error error) =>
    have hrefused : s.serve settings t (.command command (.error error)) =
        s.refuse t (.wire error) := if_pos hmounted
    rw [hrefused]
    exact afterRequest_of_step (.refused _ t) _

end Task

namespace Account

variable {a : Account} {code : UInt16} {delivered : Bool}

theorem note_eq_self (hmounted : code ≠ ReplyCode.mounted)
    (hcrowded : code ≠ ReplyCode.unavailable) : a.note code delivered = a := by
  simp [note, beq_false_of_ne hmounted, beq_false_of_ne hcrowded]

theorem note_mounted (a : Account) (delivered : Bool) :
    a.note ReplyCode.mounted delivered =
      { a with admitted := a.admitted || delivered, missed := a.missed || !delivered } := by
  have hcrowded : (ReplyCode.mounted == ReplyCode.unavailable) = false := by decide
  simp [note, hcrowded]

theorem note_of_admitted (entry : Option String) (missed delivered : Bool)
    (hcrowded : code ≠ ReplyCode.unavailable) :
    ∃ missed', (Account.mk entry true missed false).note code delivered =
      ⟨entry, true, missed', false⟩ :=
  ⟨missed || (code == ReplyCode.mounted && !delivered), by
    simp [note, beq_false_of_ne hcrowded]⟩

def after (a : Account) (peer : Peer) (delivered : Bool) (next : Task.Advance) : Account :=
  let a := { a with entry := next.store.registry.volume? peer }
  match next.written with
  | none => a
  | some o => a.note o.reply.code delivered

end Account

namespace Fits

variable {store : Store} {c : Connection} {a : Account} {next : Task.Advance} {delivered : Bool}
  {entry : String} {missed : Bool}

theorem step_outside (hs : c.session.mounted = none) (hentry : store.registry.volume? c.peer = none)
    (hnext : (Task.mk c .outside).step? store delivered = some next) :
    Fits store.registry.limit next.task.connection.session next.task.stage
      (Account.fresh.after c.peer delivered next) := by
  unfold Task.step? at hnext
  rcases Task.read?_cases hnext with rfl | ⟨request, rest, rfl⟩
  · simp only [Account.after, hentry]
    exact .neverPlaced hs false
  · simp only [Account.after, hentry, Task.Stage.afterMount]
    have hcrowded := Session.uncrowded_serve store.settings c.session store.tree request
    rcases Session.serve_of_unmounted store.settings store.tree hs request with
      ⟨mount, hmounted, hcode⟩ | ⟨hnone, hcode⟩
    · simp only [hmounted]
      exact .entering hmounted hcode
    · simp only [hnone]
      exact .replying hnone hcode hcrowded

theorem step_entering {mount : Mount} {o : Outcome} (hs : c.session.mounted = some mount)
    (hmounted : o.reply.code = ReplyCode.mounted) (hentry : store.registry.volume? c.peer = none)
    (hnext : (Task.mk c (.entering mount.name o)).step? store delivered = some next) :
    Fits store.registry.limit next.task.connection.session next.task.stage
      (Account.fresh.after c.peer delivered next) := by
  simp only [Task.step?] at hnext
  split at hnext
  next registry hregister =>
    cases hnext
    simp only [Account.after, (Registry.register_eq_ok hregister).1]
    exact .admitted hs hmounted
  next error hregister =>
    cases hnext
    simp only [Account.after, hentry, Registry.register_eq_error hregister]
    exact .turnedAway rfl

theorem step_inside {mount : Mount} (hs : c.session.mounted = some mount)
    (hentry : store.registry.volume? c.peer = some mount.name)
    (hnext : (Task.mk c .inside).step? store delivered = some next) :
    Fits store.registry.limit next.task.connection.session next.task.stage
      (Account.after ⟨some mount.name, true, missed, false⟩ c.peer delivered next) := by
  unfold Task.step? at hnext
  rcases Task.read?_cases hnext with rfl | ⟨request, rest, rfl⟩
  · simp only [Account.after, hentry]
    exact .leaving (.inl hs) missed
  · simp only [Account.after, hentry]
    have hcrowded := Session.uncrowded_serve store.settings c.session store.tree request
    rcases Task.afterRequest_serve store.settings store.tree hs request with
      ⟨mount', hstage, hmounted, hcode⟩ | ⟨hstage, hmounted⟩
    · rw [hstage]
      exact .refreshing hmounted hcode _ missed
    · rw [hstage]
      exact .answering hmounted hcrowded missed

theorem step_refreshing {mount : Mount} {o : Outcome} (hs : c.session.mounted = some mount)
    (hmounted : o.reply.code = ReplyCode.mounted)
    (hentry : store.registry.volume? c.peer = some entry)
    (hnext : (Task.mk c (.refreshing mount.name o)).step? store delivered = some next) :
    Fits store.registry.limit next.task.connection.session next.task.stage
      (Account.after ⟨some entry, true, missed, false⟩ c.peer delivered next) := by
  cases hnext
  have hplace : (store.registry.volume? c.peer).isSome = true := congrArg Option.isSome hentry
  have hcrowded : o.reply.code ≠ ReplyCode.unavailable := by
    rw [hmounted]
    decide
  simp only [Account.after, Registry.volume?_refresh hplace]
  exact .answering (.inl hs) hcrowded missed

theorem step_answering {mount : Mount} {o : Outcome}
    (hs : c.session.mounted = some mount ∨ o.isClosing = true ∧ c.session.mounted = none)
    (hcrowded : o.reply.code ≠ ReplyCode.unavailable)
    (hentry : store.registry.volume? c.peer = some mount.name)
    (hnext : (Task.mk c (.answering o)).step? store delivered = some next) :
    Fits store.registry.limit next.task.connection.session next.task.stage
      (Account.after ⟨some mount.name, true, missed, false⟩ c.peer delivered next) := by
  cases hnext
  obtain ⟨missed', hnote⟩ :=
    Account.note_of_admitted (some mount.name) missed delivered hcrowded
  simp only [Account.after, hentry, hnote]
  cases hgoes : delivered && !o.isClosing with
  | true =>
    rw [Bool.and_eq_true, Bool.not_eq_true'] at hgoes
    rcases hs with hs | ⟨hclosing, -⟩
    · exact .inside hs missed'
    · cases hgoes.2.symm.trans hclosing
  | false => exact .leaving (hs.imp_right And.right) missed'

theorem step {stage : Task.Stage} (h : Fits store.registry.limit c.session stage a)
    (hentry : store.registry.volume? c.peer = a.entry)
    (hnext : (Task.mk c stage).step? store delivered = some next) :
    Fits store.registry.limit next.task.connection.session next.task.stage
      (a.after c.peer delivered next) := by
  -- A step that leaves the registry alone leaves the entry.
  have hkept : { a with entry := store.registry.volume? c.peer } = a := by rw [hentry]
  cases h with
  | accepted hs =>
    cases hnext
    have hgreeting : Store.greeting.reply.code ≠ ReplyCode.mounted ∧
        Store.greeting.reply.code ≠ ReplyCode.unavailable := by decide
    simp only [Account.after, hkept, Account.note_eq_self hgreeting.1 hgreeting.2]
    cases delivered with
    | true => exact .outside hs
    | false => exact .neverPlaced hs false
  | outside hs => exact step_outside hs hentry hnext
  | @replying o hs hmounted hcrowded =>
    cases hnext
    simp only [Account.after, hkept, Account.note_eq_self hmounted hcrowded]
    cases delivered && !o.isClosing with
    | true => exact .outside hs
    | false => exact .neverPlaced hs false
  | entering hs hmounted => exact step_entering hs hmounted hentry hnext
  | turnedAway hs =>
    cases hnext
    simp only [Account.after, hkept]
    exact .neverPlaced hs true
  | @admitted o mount hs hmounted =>
    cases hnext
    simp only [Account.after, hkept, hmounted, Account.note_mounted]
    cases delivered with
    | true => exact .inside hs false
    | false => exact .leftBehind mount.name
  | inside hs => exact step_inside hs hentry hnext
  | refreshing hs hmounted => exact step_refreshing hs hmounted hentry hnext
  | answering hs hcrowded => exact step_answering hs hcrowded hentry hnext
  | leaving hs missed =>
    cases hnext
    simp only [Account.after, Registry.volume?_remove_self]
    exact .gaveUp missed
  | neverPlaced | gaveUp | leftBehind => cases hnext

theorem breakOff {limit : Nat} {task : Task}
    (h : Fits limit task.connection.session task.stage a) :
    Fits limit task.breakOff.connection.session task.breakOff.stage a := by
  obtain ⟨c, stage⟩ := task
  cases h with
  | outside hs => exact .neverPlaced hs false
  | inside hs missed => exact .leaving (.inl hs) missed
  | accepted | replying | entering | turnedAway | admitted | refreshing | answering | leaving
  | neverPlaced | gaveUp | leftBehind => constructor <;> assumption

end Fits

/-! ## Every row of steps -/

namespace TaskPool

variable {pool : TaskPool} {peer other : Peer} {task : Task} {next : Task.Advance}
  {delivered : Bool}

/-- In the pool every task fits what is on record about its client, and no place is taken beyond the
limit. -/
structure Sound (pool : TaskPool) : Prop where
  within : pool.store.registry.size ≤ pool.store.registry.limit
  fresh : ∀ peer, pool.tasks peer = none → pool.account peer = .fresh
  peer : ∀ peer task, pool.tasks peer = some task → task.connection.peer = peer
  fits : ∀ peer task, pool.tasks peer = some task →
    Fits pool.store.registry.limit task.connection.session task.stage (pool.account peer)

theorem told_advance_self (pool : TaskPool) (peer : Peer) (delivered : Bool) (next : Task.Advance)
    (code : UInt16) (heard : Bool) :
    (pool.advance peer delivered next).told peer code heard =
      match next.written with
      | none => pool.told peer code heard
      | some o => pool.told peer code heard || (o.reply.code == code && delivered == heard) := by
  unfold told advance
  cases next.written with
  | none => rfl
  | some o =>
    simp only [Option.toList_some, List.map_cons, List.map_nil, List.singleton_append,
      List.any_cons, decide_true, Bool.true_and]
    exact Bool.or_comm _ _

theorem told_advance_of_ne (pool : TaskPool) (delivered : Bool) (next : Task.Advance)
    (code : UInt16) (heard : Bool) (h : other ≠ peer) :
    (pool.advance peer delivered next).told other code heard = pool.told other code heard := by
  unfold told advance
  cases next.written with
  | none => rfl
  | some o => simp [h.symm]

theorem account_advance_self (pool : TaskPool) (peer : Peer) (delivered : Bool)
    (next : Task.Advance) :
    (pool.advance peer delivered next).account peer =
      (pool.account peer).after peer delivered next := by
  unfold account Account.after
  simp only [told_advance_self]
  cases next.written with
  | none => rfl
  | some o =>
    simp only [Account.note]
    cases delivered <;> cases o.reply.code == ReplyCode.unavailable <;> simp [advance]

theorem account_advance_of_ne (pool : TaskPool) (delivered : Bool) (next : Task.Advance)
    (hregistry : pool.store.registry.Concerns peer next.store.registry) (h : other ≠ peer) :
    (pool.advance peer delivered next).account other = pool.account other := by
  have hentry : (pool.advance peer delivered next).store.registry.volume? other =
      pool.store.registry.volume? other := hregistry.others other h
  simp only [account, told_advance_of_ne _ _ _ _ _ h, hentry]

theorem Sound.of_update {pool' : TaskPool} (h : pool.Sound)
    (hregistry : pool.store.registry.Concerns peer pool'.store.registry)
    (htasks : pool'.tasks = Function.update pool.tasks peer (some task))
    (hothers : ∀ other, other ≠ peer → pool'.account other = pool.account other)
    (hpeer : task.connection.peer = peer)
    (hfits : Fits pool.store.registry.limit task.connection.session task.stage
      (pool'.account peer)) : pool'.Sound := by
  refine ⟨?_, fun other hother => ?_, fun other task' hother => ?_, fun other task' hother => ?_⟩
  · rw [hregistry.limit]
    exact hregistry.within h.within
  -- The other clauses ask the same first: is this the task that has moved?
  all_goals
    rw [htasks, Function.update_apply] at hother
    split at hother
  · cases hother
  next hne =>
    rw [hothers other hne]
    exact h.fresh other hother
  next heq =>
    cases hother
    exact hpeer.trans heq.symm
  · exact h.peer other task' hother
  next heq =>
    cases hother
    rw [hregistry.limit, heq]
    exact hfits
  next hne =>
    rw [hregistry.limit, hothers other hne]
    exact h.fits other task' hother

theorem Sound.setTask (h : pool.Sound) (hpeer : task.connection.peer = peer)
    (hfits : Fits pool.store.registry.limit task.connection.session task.stage
      (pool.account peer)) : (pool.setTask peer task).Sound :=
  h.of_update (.refl _ peer) rfl (fun _ _ => rfl) hpeer hfits

theorem Sound.advance (h : pool.Sound) (htask : pool.tasks peer = some task)
    (hnext : task.step? pool.store delivered = some next) :
    (pool.advance peer delivered next).Sound := by
  have hpeer : task.connection.peer = peer := h.peer peer task htask
  have hlocal := Task.local_step? hnext
  have hregistry : pool.store.registry.Concerns peer next.store.registry :=
    hpeer ▸ hlocal.registry
  have hstep := (h.fits peer task htask).step (congrArg pool.store.registry.volume? hpeer) hnext
  rw [hpeer, ← account_advance_self] at hstep
  exact h.of_update hregistry rfl
    (fun other hne => account_advance_of_ne pool delivered next hregistry hne)
    (hlocal.peer.trans hpeer) hstep

theorem Sound.change {pool' : TaskPool} (h : pool.Sound) (hchange : pool.Change pool') :
    pool'.Sound := by
  cases hchange with
  | nothing => exact h
  | connected hnone =>
    refine h.setTask rfl ?_
    rw [h.fresh _ hnone]
    exact .accepted rfl
  | @received peer task htask new =>
    exact h.setTask (h.peer peer task htask) (h.fits peer task htask)
  | brokeOff htask =>
    exact h.setTask ((Task.peer_breakOff _).trans (h.peer _ _ htask)) (h.fits _ _ htask).breakOff
  | advanced htask hnext => exact h.advance htask hnext

theorem sound_start (settings : StoreSettings) (tree : Host.Tree) : (start settings tree).Sound :=
  ⟨Nat.zero_le _, fun _ _ => rfl, fun _ _ h => (Option.some_ne_none _ h.symm).elim,
    fun _ _ h => (Option.some_ne_none _ h.symm).elim⟩

theorem Sound.run (h : pool.Sound) (events : List TaskEvent) : (pool.run events).Sound := by
  induction events generalizing pool with
  | nil => exact h
  | cons event events ih => exact ih (h.change (pool.change_step event))

def asksFor (peer : Peer) (name : String) : List TaskEvent :=
  [.connect peer, .step peer true, .arrive peer ⟨Text.encode ("MOUNT " ++ name ++ "\n"), false⟩,
    .step peer true]

def soleVolume : Host.Tree where
  nodes :=
    [([Text.encode "store_root"], .directory),
      ([Text.encode "store_root", Text.encode "ltptest"], .directory)]

end TaskPool

end VolumeStore
