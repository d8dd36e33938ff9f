import VolumeStore.Proofs.Server.Places

/-!
# Places that are given back

A task that has ended leaves no place behind, with one exception: the place is taken before the
reply to the first mounting is written, and when that reply is lost the task ends without giving it
up. Nothing that happens later gives such a place back.
-/

namespace VolumeStore

theorem Fits.entry_of_ended {limit : Nat} {s : Session} {a : Account} (h : Fits limit s .ended a) :
    a.entry.isSome = true ↔ a.missed = true ∧ a.admitted = false := by
  cases h with
  | neverPlaced | gaveUp | leftBehind => simp

namespace TaskPool

variable {pool pool' : TaskPool} {peer : Peer}

theorem Ended.setTask {other : Peer} {task : Task} (h : pool.Ended peer)
    (htask : peer = other → task.stage = .ended) : (pool.setTask other task).Ended peer := by
  obtain ⟨last, hlast, hstage⟩ := h
  by_cases heq : peer = other
  · exact ⟨task, heq ▸ Function.update_self _ _ _, htask heq⟩
  · exact ⟨last, (Function.update_of_ne heq _ _).trans hlast, hstage⟩

theorem Change.ended (h : pool.Change pool') (hsound : pool.Sound) (hended : pool.Ended peer) :
    pool'.Ended peer ∧ pool'.account peer = pool.account peer := by
  obtain ⟨last, hlast, hstage⟩ := id hended
  -- No change starts a task again: its name is still taken, and it takes no step.
  cases h with
  | nothing => exact ⟨hended, rfl⟩
  | @connected other hnone =>
    refine ⟨hended.setTask fun heq => ?_, rfl⟩
    rw [heq, hnone] at hlast
    cases hlast
  | @received other task htask new =>
    refine ⟨hended.setTask fun heq => ?_, rfl⟩
    rw [heq, htask] at hlast
    cases hlast
    exact hstage
  | @brokeOff other task htask =>
    refine ⟨hended.setTask fun heq => ?_, rfl⟩
    rw [heq, htask] at hlast
    cases hlast
    unfold Task.breakOff
    rw [hstage]
    exact hstage
  | @advanced other task next delivered htask hnext =>
    have hne : peer ≠ other := by
      rintro rfl
      cases hlast.symm.trans htask
      rw [Task.step?, hstage] at hnext
      cases hnext
    have hlocal := (Task.local_step? hnext).registry
    rw [hsound.peer other task htask] at hlocal
    exact ⟨hended.setTask fun heq => absurd heq hne,
      account_advance_of_ne pool delivered next hlocal hne⟩

theorem account_run_of_ended (hsound : pool.Sound) (hended : pool.Ended peer)
    (later : List TaskEvent) : (pool.run later).account peer = pool.account peer := by
  induction later generalizing pool with
  | nil => rfl
  | cons event later ih =>
    have hchange := pool.change_step event
    obtain ⟨hstays, hsame⟩ := hchange.ended hsound hended
    exact (ih (hsound.change hchange) hstays).trans hsame

/-- A client whose task has ended still has a place exactly when the reply to its first mounting was
lost; and then it has the place for good. -/
theorem isSome_volume?_iff_of_ended {settings : StoreSettings} {tree : Host.Tree}
    {events : List TaskEvent} {peer : Peer}
    (hended : ((start settings tree).run events).Ended peer) :
    let pool := (start settings tree).run events
    ((pool.store.registry.volume? peer).isSome = true ↔
      pool.told peer ReplyCode.mounted false = true ∧
        pool.told peer ReplyCode.mounted true = false) ∧
    ∀ later, (pool.run later).store.registry.volume? peer = pool.store.registry.volume? peer := by
  intro pool
  have hsound : pool.Sound := (sound_start settings tree).run events
  obtain ⟨task, htask, hstage⟩ := id hended
  exact ⟨(hstage ▸ hsound.fits peer task htask).entry_of_ended, fun later =>
    congrArg Account.entry (account_run_of_ended hsound hended later)⟩

def lostMount (peer : Peer) : List TaskEvent :=
  asksFor peer "ltptest" ++ [.step peer true, .step peer false]

theorem ended_lostMount :
    ((start {} soleVolume).run (lostMount { tcpPort := 40000 })).Ended { tcpPort := 40000 } := by
  refine ⟨_, Option.eq_some_of_isSome ?_, ?_⟩ <;> decide +kernel

theorem told_lostMount :
    let pool := (start {} soleVolume).run (lostMount { tcpPort := 40000 })
    pool.told { tcpPort := 40000 } ReplyCode.mounted false = true ∧
      pool.told { tcpPort := 40000 } ReplyCode.mounted true = false := by
  decide +kernel

theorem isSome_volume?_iff_lostMount :
    let pool := (start {} soleVolume).run (lostMount { tcpPort := 40000 })
    pool.Ended { tcpPort := 40000 } ∧
      ∀ later, ((pool.run later).store.registry.volume? { tcpPort := 40000 }).isSome = true :=
  have hplace := isSome_volume?_iff_of_ended ended_lostMount
  ⟨ended_lostMount, fun later =>
    (congrArg Option.isSome (hplace.2 later)).trans (hplace.1.2 told_lostMount)⟩

/-- Not every task that has ended leaves its place: the reply to the first mounting can be lost. -/
theorem not_forall_volume?_eq_none_of_ended :
    ¬ ∀ (settings : StoreSettings) (tree : Host.Tree) (events : List TaskEvent) (peer : Peer),
      let pool := (start settings tree).run events
      pool.Ended peer → pool.store.registry.volume? peer = none := by
  intro h
  have hnone := h {} soleVolume (lostMount { tcpPort := 40000 }) { tcpPort := 40000 }
    ended_lostMount
  revert hnone
  decide +kernel

end TaskPool

end VolumeStore
