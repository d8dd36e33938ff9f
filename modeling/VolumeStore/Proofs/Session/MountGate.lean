import VolumeStore.Proofs.Session.Atomicity
import VolumeStore.Proofs.Session.Descriptors

/-!
# The gate of mounting

A session has a volume exactly when it mounted one with success and did not quit since then. The
volume is the one that was mounted last; what belonged to an earlier one is gone, and without a
volume a session has nothing and touches no file.
-/

namespace VolumeStore

namespace Session

def Mounts (settings : StoreSettings) (s : Session) (a : Arrival) (name : String) : Prop :=
  a.command = .mount name ∧
    ∃ reply attachment, (s.meet settings a).outcome = .done reply attachment

def EndsInMount (settings : StoreSettings) (run : List Arrival) (name : String) : Prop :=
  ∃ before a, run = before ++ [a] ∧ (after settings {} before).Mounts settings a name

/-- A run that is taken apart behind the last mounting that succeeds in it. -/
structure LatestMount (settings : StoreSettings) (upTo since : List Arrival) (name : String) :
    Prop where
  mount : EndsInMount settings upTo name
  latest : ∀ upTo' since' name', upTo' ++ since' = upTo ++ since →
    EndsInMount settings upTo' name' → upTo'.length ≤ upTo.length

def Bare (s : Session) : Prop :=
  s.files = [] ∧ s.renameSource = none

variable {settings : StoreSettings} {s s' : Session} {t : Host.Tree} {a : Arrival}

/-! ## One arrival -/

theorem mountVolume_cases (settings : StoreSettings) (s : Session) (t : Host.Tree)
    (name : String) :
    (∃ error, s.mountVolume settings t name = s.refuse t error) ∨
    (isVolumeName name = true ∧ settings.hasVolume name = true ∧
      s.mountVolume settings t name =
        (s.mount ⟨name, ⟨settings.volumePath name⟩⟩).answer t ReplyCode.mounted
          ("Volume " ++ name ++ " mounted")) := by
  unfold mountVolume
  split
  · exact .inl ⟨_, rfl⟩
  next hknown =>
    simp only [Bool.or_eq_true, Bool.not_eq_true', not_or, Bool.not_eq_false] at hknown
    dsimp only
    split
    · exact .inl ⟨_, rfl⟩
    · exact .inr ⟨hknown.1, hknown.2, rfl⟩

theorem Step.mounted_eq {command : Command} {e : Execution} (h : s.Step command e)
    (hquit : command ≠ .quit) (hmount : ∀ name, command ≠ .mount name) :
    e.session.mounted = s.mounted := by
  cases h with
  | mounted m => exact absurd rfl (hmount m.name)
  | left => exact absurd rfl hquit
  | refused | answered | began | listed | opened | stopped | wrote | read | closed => rfl

/-- What an arrival can do to the volume of a session: it ends the session, mounts a volume anew, or
leaves the volume as it is. Without a volume, the last is all that it does. -/
inductive Passage (settings : StoreSettings) (s : Session) (a : Arrival) (s' : Session) : Prop
  | left (hcommand : a.command = .quit) (hmounted : s'.mounted = none) (hbare : s'.Bare)
  | entered (name : String) (hmounts : s.Mounts settings a name)
    (hname : isVolumeName name = true) (hserved : settings.hasVolume name = true)
    (hmounted : s'.mounted = some ⟨name, ⟨settings.volumePath name⟩⟩) (hbare : s'.Bare)
  | stayed (hcommand : a.command ≠ .quit) (hmounts : ∀ name, ¬ s.Mounts settings a name)
    (hmounted : s'.mounted = s.mounted) (hsame : s.mounted = none → s' = s)

theorem not_isMounted_of_none (h : s.mounted = none) : ¬ s.isMounted = true :=
  Option.not_isSome_iff_eq_none.2 h

theorem meet_eq_mountVolume {name : String} (settings : StoreSettings) (s : Session)
    (hcommand : a.command = .mount name) :
    ∃ s', s.meet settings a = s'.mountVolume settings a.tree name ∧
      (s' = s ∨ s.isMounted = true ∧ s' = s.clearRenameSource) := by
  unfold meet execute
  rw [hcommand]
  split
  next hmounted => exact ⟨_, rfl, .inr ⟨hmounted, rfl⟩⟩
  · exact ⟨_, rfl, .inl rfl⟩

/-- A mounting is refused and leaves the volume and the open files as they are, or it succeeds and
leaves nothing but the new volume. -/
theorem meet_mount_cases {name : String} (settings : StoreSettings) (s : Session)
    (hcommand : a.command = .mount name) :
    ((∃ error, (s.meet settings a).outcome = .failed error) ∧
      (s.meet settings a).session.mounted = s.mounted ∧
      (s.meet settings a).session.files = s.files ∧
      (s.mounted = none → (s.meet settings a).session = s)) ∨
    ((∃ reply attachment, (s.meet settings a).outcome = .done reply attachment) ∧
      isVolumeName name = true ∧ settings.hasVolume name = true ∧
      (s.meet settings a).session.mounted = some ⟨name, ⟨settings.volumePath name⟩⟩ ∧
      (s.meet settings a).session.Bare) := by
  obtain ⟨s', hmeet, hclear⟩ := meet_eq_mountVolume settings s hcommand
  rw [hmeet]
  rcases mountVolume_cases settings s' a.tree name with ⟨error, hrefused⟩ | ⟨hname, hserved, hdone⟩
  · rw [hrefused]
    rcases hclear with rfl | ⟨hmounted, rfl⟩
    · exact .inl ⟨⟨error, rfl⟩, rfl, rfl, fun _ => rfl⟩
    · exact .inl ⟨⟨error, rfl⟩, rfl, rfl,
        fun hnone => absurd hmounted (not_isMounted_of_none hnone)⟩
  · rw [hdone]
    exact .inr ⟨⟨_, .none, rfl⟩, hname, hserved, rfl, rfl, rfl⟩

theorem passage_meet (settings : StoreSettings) (s : Session) (a : Arrival) :
    Passage settings s a (s.meet settings a).session := by
  by_cases hquit : a.command = .quit
  · refine .left hquit ?_ ?_ <;> unfold meet execute <;> rw [hquit] <;> split
    · rfl
    · rfl
    · exact ⟨rfl, rfl⟩
    · exact ⟨rfl, rfl⟩
  by_cases hmount : ∃ name, a.command = .mount name
  · obtain ⟨name, hname⟩ := hmount
    rcases meet_mount_cases settings s hname with
      ⟨⟨error, hfailed⟩, hmounted, -, hsame⟩ | ⟨hdone, hvalid, hserved, hmounted, hbare⟩
    · refine .stayed hquit ?_ hmounted hsame
      rintro other ⟨-, reply, attachment, hdone⟩
      cases hfailed.symm.trans hdone
    · exact .entered name ⟨hname, hdone⟩ hvalid hserved hmounted hbare
  · have hother : ∀ name, a.command ≠ .mount name := fun name h => hmount ⟨name, h⟩
    refine .stayed hquit (fun name h => hother name h.1) ?_ fun hnone => ?_
    · rcases s.step_execute settings a.tree a.command a.payload with hstep | hstep
      · exact hstep.mounted_eq hquit hother
      · exact hstep.mounted_eq hquit hother
    · -- Only the empty command and refusals are left.
      unfold meet execute
      rw [if_neg (not_isMounted_of_none hnone)]
      unfold executeUnmounted
      split
      next heq => exact absurd heq (hother _)
      next heq => exact absurd heq hquit
      · rfl
      · rfl

theorem tree_meet_of_unmounted (settings : StoreSettings) (h : s.mounted = none) (a : Arrival) :
    (s.meet settings a).tree = a.tree := by
  unfold meet execute
  rw [if_neg (not_isMounted_of_none h)]
  exact tree_executeUnmounted settings s a.tree a.command

/-! ## Runs -/

theorem after_concat (settings : StoreSettings) (s : Session) (run : List Arrival) (a : Arrival) :
    s.after settings (run ++ [a]) = ((s.after settings run).meet settings a).session :=
  after_append settings s run [a]

theorem endsInMount_concat {run : List Arrival} {name : String} :
    EndsInMount settings (run ++ [a]) name ↔ (after settings {} run).Mounts settings a name := by
  constructor
  · rintro ⟨before, b, heq, hmounts⟩
    obtain ⟨rfl, hlast⟩ := List.append_inj' heq rfl
    cases hlast
    exact hmounts
  · intro hmounts
    exact ⟨run, a, rfl, hmounts⟩

theorem append_eq_concat {upTo since run : List Arrival} (h : upTo ++ since = run ++ [a]) :
    since = [] ∧ upTo = run ++ [a] ∨ ∃ since', since = since' ++ [a] ∧ upTo ++ since' = run := by
  rcases List.eq_nil_or_concat since with rfl | ⟨since', b, rfl⟩
  · rw [List.append_nil] at h
    exact .inl ⟨rfl, h⟩
  · rw [List.concat_eq_append, ← List.append_assoc] at h
    obtain ⟨hrun, hlast⟩ := List.append_inj' h rfl
    cases hlast
    exact .inr ⟨since', List.concat_eq_append, hrun⟩

/-- What has become of the volumes of a session by the end of a run: the last one that was mounted
with success stands, or each one was left by quitting. -/
inductive Standing (settings : StoreSettings) (run : List Arrival) : Prop
  | stands (upTo since : List Arrival) (name : String) (hrun : run = upTo ++ since)
    (hlatest : LatestMount settings upTo since name) (hkept : ∀ b ∈ since, b.command ≠ .quit)
    (hname : isVolumeName name = true) (hserved : settings.hasVolume name = true)
    (hmounted : (after settings {} run).mounted = some ⟨name, ⟨settings.volumePath name⟩⟩)
    (hbare : (after settings {} upTo).Bare)
  | gone (hleft : ∀ upTo since name, run = upTo ++ since → EndsInMount settings upTo name →
      ∃ b ∈ since, b.command = .quit)
    (hmounted : (after settings {} run).mounted = none) (hbare : (after settings {} run).Bare)

theorem standing_of_mount {run : List Arrival} {name : String}
    (hmounts : (after settings {} run).Mounts settings a name)
    (hname : isVolumeName name = true) (hserved : settings.hasVolume name = true)
    (hmounted : (after settings {} (run ++ [a])).mounted =
      some ⟨name, ⟨settings.volumePath name⟩⟩)
    (hbare : (after settings {} (run ++ [a])).Bare) : Standing settings (run ++ [a]) := by
  refine .stands (run ++ [a]) [] name (List.append_nil _).symm
    ⟨endsInMount_concat.2 hmounts, fun upTo' since' name' heq _ => ?_⟩
    (fun b hb => absurd hb List.not_mem_nil) hname hserved hmounted hbare
  have hlength := congrArg List.length heq
  rw [List.append_nil, List.length_append] at hlength
  omega

theorem Standing.concat {run : List Arrival} (h : Standing settings run) (a : Arrival) :
    Standing settings (run ++ [a]) := by
  have hpassage := passage_meet settings (after settings {} run) a
  rw [← after_concat] at hpassage
  -- What stood before matters only when the arrival neither mounts nor quits.
  cases hpassage with
  | entered name hmounts hname hserved hmounted hbare =>
    exact standing_of_mount hmounts hname hserved hmounted hbare
  | left hcommand hmounted hbare =>
    refine .gone (fun upTo since name hrun hmount => ?_) hmounted hbare
    rcases append_eq_concat hrun.symm with ⟨-, rfl⟩ | ⟨since', rfl, -⟩
    · have hname := (endsInMount_concat.1 hmount).1
      rw [hcommand] at hname
      cases hname
    · exact ⟨a, List.mem_append_right _ List.mem_cons_self, hcommand⟩
  | stayed hcommand hmounts hmounted hsame =>
    cases h with
    | stands upTo since name hrun hlatest hkept hname hserved hstands hbare =>
      subst hrun
      rw [List.append_assoc] at hmounted ⊢
      refine .stands upTo (since ++ [a]) name rfl ⟨hlatest.mount, ?_⟩ ?_ hname hserved
        (hmounted.trans hstands) hbare
      · intro upTo' since' name' heq hmount
        rw [← List.append_assoc] at heq
        rcases append_eq_concat heq with ⟨-, rfl⟩ | ⟨since'', -, hbefore⟩
        · exact absurd (endsInMount_concat.1 hmount) (hmounts name')
        · exact hlatest.latest upTo' since'' name' hbefore hmount
      · intro b hb
        rcases List.mem_append.1 hb with hb | hb
        · exact hkept b hb
        · rw [List.mem_singleton.1 hb]
          exact hcommand
    | gone hleft hnone hbare =>
      refine .gone (fun upTo since name hrun hmount => ?_) (hmounted.trans hnone) ?_
      · rcases append_eq_concat hrun.symm with ⟨-, rfl⟩ | ⟨since', rfl, hbefore⟩
        · exact absurd (endsInMount_concat.1 hmount) (hmounts name)
        · obtain ⟨b, hb, hquit⟩ := hleft upTo since' name hbefore.symm hmount
          exact ⟨b, List.mem_append_left _ hb, hquit⟩
      · rw [hsame hnone]
        exact hbare

theorem standing (settings : StoreSettings) (run : List Arrival) : Standing settings run := by
  induction run using List.reverseRecOn with
  | nil =>
    refine .gone (fun upTo since name hrun hmount => ?_) rfl ⟨rfl, rfl⟩
    obtain ⟨before, a, rfl, -⟩ := hmount
    simp at hrun
  | append_singleton run a ih => exact ih.concat a

theorem inUse_after {fd : UInt64} {run : List Arrival} (h : (s.after settings run).InUse fd) :
    s.InUse fd ∨ fd ∈ s.returned settings run := by
  induction run generalizing s with
  | nil => exact .inl h
  | cons a run ih =>
    unfold returned
    rw [List.mem_append]
    rcases ih h with hmeet | hlater
    · rcases narrows_or_opens settings s a with ⟨hnarrows, -⟩ | hopens
      · exact .inl (hnarrows.inUse fd hmeet)
      · rcases hopens.inUse fd hmeet with rfl | hold
        · rw [hopens.returned?]
          exact .inr (.inl List.mem_cons_self)
        · exact .inl hold
    · exact .inr (.inr hlater)

/-- In a run of any length from a new session: it has a volume exactly when some mounting succeeded
and no quitting followed it. Then the volume is the one of the last mounting that succeeded, a valid
and served one at its own directory, and every open file was opened since. Without a volume it has
no open file and no half of a rename, and changes no file, whatever arrives. A mounting that is
refused leaves the volume and the open files as they are. -/
theorem mount_gate (settings : StoreSettings) (run : List Arrival) (a : Arrival) :
    ((after settings {} run).isMounted = true ↔ ∃ upTo since name, run = upTo ++ since ∧
      EndsInMount settings upTo name ∧ ∀ b ∈ since, b.command ≠ .quit) ∧
    ((after settings {} run).isMounted = true → ∃ upTo since name, run = upTo ++ since ∧
      LatestMount settings upTo since name ∧
      isVolumeName name = true ∧ settings.hasVolume name = true ∧
      (after settings {} run).mounted = some ⟨name, ⟨settings.volumePath name⟩⟩ ∧
      ∀ fd, (after settings {} run).InUse fd →
        fd ∈ (after settings {} upTo).returned settings since) ∧
    ((after settings {} run).isMounted = false → (after settings {} run).Bare ∧
      ((after settings {} run).meet settings a).tree = a.tree) ∧
    (∀ name error, a.command = .mount name →
      ((after settings {} run).meet settings a).outcome = .failed error →
      ((after settings {} run).meet settings a).session.mounted = (after settings {} run).mounted ∧
      ((after settings {} run).meet settings a).session.files = (after settings {} run).files) := by
  -- A refused MOUNT leaves the attachment and the open files, mounted or not.
  have hrefused : ∀ name error, a.command = .mount name →
      ((after settings {} run).meet settings a).outcome = .failed error →
      ((after settings {} run).meet settings a).session.mounted = (after settings {} run).mounted ∧
      ((after settings {} run).meet settings a).session.files =
        (after settings {} run).files := by
    intro name error hcommand hfailed
    rcases meet_mount_cases settings (after settings {} run) hcommand with
      ⟨-, hmounted, hfiles, -⟩ | ⟨⟨reply, attachment, hdone⟩, -⟩
    · exact ⟨hmounted, hfiles⟩
    · cases hfailed.symm.trans hdone
  cases standing settings run with
  | stands upTo since name hrun hlatest hkept hname hserved hmounted hbare =>
    have hisMounted : (after settings {} run).isMounted = true := by
      unfold isMounted
      rw [hmounted]
      rfl
    refine ⟨⟨fun _ => ⟨upTo, since, name, hrun, hlatest.mount, hkept⟩, fun _ => hisMounted⟩,
      fun _ => ⟨upTo, since, name, hrun, hlatest, hname, hserved, hmounted, fun fd hfd => ?_⟩,
      fun h => absurd hisMounted (Bool.eq_false_iff.1 h), hrefused⟩
    rw [hrun, after_append] at hfd
    exact (inUse_after hfd).resolve_left (not_inUse_of_files hbare.1)
  | gone hleft hmounted hbare =>
    have hnot := not_isMounted_of_none hmounted
    refine ⟨⟨fun h => absurd h hnot, ?_⟩, fun h => absurd h hnot,
      fun _ => ⟨hbare, tree_meet_of_unmounted settings hmounted a⟩, hrefused⟩
    -- Every mount of the run was followed by a QUIT.
    rintro ⟨upTo, since, name, hrun, hmount, hkept⟩
    obtain ⟨b, hb, hquit⟩ := hleft upTo since name hrun hmount
    exact absurd hquit (hkept b hb)

def strayMount : Arrival :=
  ⟨servedVolume, .mount "other", []⟩

theorem mount_gate_strayMount :
    (after {} {} openOne).isMounted = true ∧
      ((after {} {} openOne).meet {} strayMount).outcome =
        .failed (.session (.unknownVolume "other")) ∧
      (∃ upTo since name, openOne = upTo ++ since ∧ LatestMount {} upTo since name ∧
        ((after {} {} openOne).meet {} strayMount).session.mounted =
          some ⟨name, ⟨StoreSettings.volumePath {} name⟩⟩) ∧
      ((after {} {} openOne).meet {} strayMount).session.files = (after {} {} openOne).files ∧
      (after {} {} openOne).InUse 1 := by
  have hmounted : (after {} {} openOne).isMounted = true := by decide +kernel
  have hfailed : ((after {} {} openOne).meet {} strayMount).outcome =
      .failed (.session (.unknownVolume "other")) := by decide +kernel
  have hopen : (after {} {} openOne).InUse 1 := by
    unfold InUse
    decide +kernel
  obtain ⟨-, hlast, -, hrefused⟩ := mount_gate {} openOne strayMount
  obtain ⟨upTo, since, name, hrun, hlatest, -, -, hvolume, -⟩ := hlast hmounted
  obtain ⟨hkept, hfiles⟩ := hrefused "other" _ rfl hfailed
  exact ⟨hmounted, hfailed, ⟨upTo, since, name, hrun, hlatest, hkept.trans hvolume⟩, hfiles, hopen⟩

end Session

end VolumeStore
