import VolumeStore.Proofs.Session.Steps

/-!
# Descriptors

The descriptors of a session count up and are never given out twice. One that is no longer in use
stays so, whatever the session is asked and whatever becomes of the files in the meantime.
-/

namespace VolumeStore

def Command.descriptor? : Command → Option UInt64
  | write fd _ _ | read fd _ _ | flush fd | close fd => some fd
  | _ => none

/-- A command as it arrives at a session: with its payload, and with the files as they are then. -/
structure Arrival where
  tree : Host.Tree
  command : Command
  payload : List UInt8

def Execution.returned? (command : Command) (e : Execution) : Option UInt64 :=
  match command, e.outcome with
  | .openFile _ _, .done reply _ => Text.readUInt64? reply.text.toList
  | _, _ => none

namespace Session

def meet (settings : StoreSettings) (s : Session) (a : Arrival) : Execution :=
  s.execute settings a.tree a.command a.payload

def after (settings : StoreSettings) (s : Session) (run : List Arrival) : Session :=
  run.foldl (fun s a => (s.meet settings a).session) s

def returned (settings : StoreSettings) : Session → List Arrival → List UInt64
  | _, [] => []
  | s, a :: run =>
    ((s.meet settings a).returned? a.command).toList ++
      returned settings (s.meet settings a).session run

def InUse (s : Session) (fd : UInt64) : Prop :=
  fd ∈ s.files.map Prod.fst

/-- The arrival takes the descriptor out of use: it closes it, or it ends what was mounted. -/
def Retires (settings : StoreSettings) (s : Session) (a : Arrival) (fd : UInt64) : Prop :=
  a.command = .quit ∨ (a.command = .close fd ∨ ∃ name, a.command = .mount name) ∧
    ∃ reply attachment, (s.meet settings a).outcome = .done reply attachment

def strayError (settings : StoreSettings) (s : Session) (fd : UInt64) (command : Command) :
    StoreError :=
  if !s.isMounted then .session .notMounted
  else
    match command with
    | .read _ _ len =>
      if settings.maxPayload < len then
        .wire (.payloadTooLarge len.toNat settings.maxPayload.toNat)
      else .volume (.badDescriptor fd)
    | _ => .volume (.badDescriptor fd)

variable {settings : StoreSettings} {s s' s'' : Session} {t : Host.Tree} {fd : UInt64}

/-! ## Descriptors in use -/

theorem file_of_not_inUse (h : ¬ s.InUse fd) : s.file fd = .error (.badDescriptor fd) := by
  have hlookup : s.files.lookup fd = none := by
    rw [List.lookup_eq_none_iff]
    intro entry hmem
    rw [bne_iff_ne]
    rintro rfl
    exact h (List.mem_map_of_mem hmem)
  unfold file
  rw [hlookup]

theorem inUse_addFile {file : OpenFile} :
    (s.addFile file).2.InUse fd ↔ fd = s.nextFd ∨ s.InUse fd :=
  List.mem_cons

theorem not_inUse_dropFile (s : Session) (fd : UInt64) : ¬ (s.dropFile fd).InUse fd := by
  intro h
  obtain ⟨entry, hmem, hfd⟩ := List.mem_map.1 h
  exact absurd hfd (by simpa using (List.mem_filter.1 hmem).2)

theorem not_inUse_of_files (h : s.files = []) : ¬ s.InUse fd := by
  unfold InUse
  rw [h]
  exact List.not_mem_nil

/-! ## What a command does to the descriptors -/

/-- No descriptor comes into use from the first session to the second one. -/
structure Narrows (s s' : Session) : Prop where
  nextFd : s'.nextFd = s.nextFd
  inUse : ∀ fd, s'.InUse fd → s.InUse fd

/-- The command opens a file, with the next descriptor for it. -/
structure Opens (s : Session) (command : Command) (e : Execution) : Prop where
  command : ∃ flags path, command = .openFile flags path
  outcome : e.outcome = .ok ReplyCode.done (Text.decimal s.nextFd.toNat)
  nextFd : e.session.nextFd = s.nextFd + 1
  inUse : ∀ fd, e.session.InUse fd → fd = s.nextFd ∨ s.InUse fd

namespace Narrows

theorem refl (s : Session) : s.Narrows s :=
  ⟨rfl, fun _ h => h⟩

theorem setRenameSource (s : Session) (path : String) : s.Narrows (s.setRenameSource path) :=
  ⟨rfl, fun _ h => h⟩

theorem mount (s : Session) (m : Mount) : s.Narrows (s.mount m) :=
  ⟨rfl, fun _ h => absurd h (not_inUse_of_files rfl)⟩

theorem unmount (s : Session) : s.Narrows s.unmount :=
  ⟨rfl, fun _ h => absurd h (not_inUse_of_files rfl)⟩

theorem dropFile (s : Session) (fd : UInt64) : s.Narrows (s.dropFile fd) := by
  refine ⟨rfl, fun other h => ?_⟩
  obtain ⟨entry, hmem, rfl⟩ := List.mem_map.1 h
  exact List.mem_map_of_mem (List.mem_filter.1 hmem).1

theorem setHandle (s : Session) (fd : UInt64) (handle : Host.Handle) :
    s.Narrows (s.setHandle fd handle) := by
  refine ⟨rfl, fun other h => ?_⟩
  have hkeys : (s.setHandle fd handle).files.map Prod.fst = s.files.map Prod.fst := by
    unfold Session.setHandle
    rw [List.map_map]
    refine List.map_congr_left fun entry _ => ?_
    by_cases hfd : entry.1 = fd <;> simp [hfd]
  unfold InUse at h
  rwa [hkeys] at h

end Narrows

/-- Every command opens a file, or leaves the descriptors as they are or takes some out of use; an
opening that does not succeed does the latter. -/
theorem Step.narrows_or_opens {command : Command} {e : Execution} (h : s.Step command e) :
    (s.Narrows e.session ∧ ∀ flags path, command = .openFile flags path →
      ∃ error, e.outcome = .failed error) ∨ s.Opens command e := by
  cases h with
  | refused error => exact .inl ⟨.refl s, fun _ _ _ => ⟨error, rfl⟩⟩
  | answered hcommand =>
    refine .inl ⟨.refl s, ?_⟩
    rintro flags path rfl
    cases hcommand
  | mounted m => exact .inl ⟨.mount s m, nofun⟩
  | left => exact .inl ⟨.unmount s, nofun⟩
  | began => exact .inl ⟨.setRenameSource s _, nofun⟩
  | listed => exact .inl ⟨.refl s, nofun⟩
  | opened => exact .inr ⟨⟨_, _, rfl⟩, rfl, rfl, fun fd => inUse_addFile.1⟩
  | stopped hcommand handle error => exact .inl ⟨.setHandle s _ handle, fun _ _ _ => ⟨error, rfl⟩⟩
  | wrote handle | read handle => exact .inl ⟨.setHandle s _ handle, nofun⟩
  | closed => exact .inl ⟨.dropFile s _, nofun⟩

theorem narrows_or_opens (settings : StoreSettings) (s : Session) (a : Arrival) :
    (s.Narrows (s.meet settings a).session ∧
      ∀ flags path, a.command = .openFile flags path →
        ∃ error, (s.meet settings a).outcome = .failed error) ∨
    s.Opens a.command (s.meet settings a) := by
  rcases s.step_execute settings a.tree a.command a.payload with hstep | hstep
  · exact hstep.narrows_or_opens
  -- Half of a rename has nothing to do with descriptors.
  · rcases hstep.narrows_or_opens with ⟨hnarrows, hfailed⟩ | hopens
    · exact .inl ⟨⟨hnarrows.nextFd, hnarrows.inUse⟩, hfailed⟩
    · exact .inr ⟨hopens.command, hopens.outcome, hopens.nextFd, hopens.inUse⟩

theorem returned?_of_failed {command : Command} {e : Execution}
    (h : ∀ flags path, command = .openFile flags path → ∃ error, e.outcome = .failed error) :
    e.returned? command = none := by
  cases command with
  | openFile flags path =>
    obtain ⟨error, hfailed⟩ := h flags path rfl
    unfold Execution.returned?
    rw [hfailed]
  | _ => rfl

theorem Opens.returned? {command : Command} {e : Execution} (h : s.Opens command e) :
    e.returned? command = some s.nextFd := by
  obtain ⟨flags, path, rfl⟩ := h.command
  unfold Execution.returned?
  rw [h.outcome]
  exact Text.readUInt64?_decimal s.nextFd

/-! ## Descriptors that are not in use -/

theorem withFile_of_not_inUse (h : ¬ s.InUse fd) (next : OpenFile → Execution) :
    s.withFile t fd next = s.refuse t (.volume (.badDescriptor fd)) := by
  unfold withFile
  rw [file_of_not_inUse h]

theorem executeMounted_of_not_inUse {command : Command} (hcommand : command.descriptor? = some fd)
    (h : ¬ s.InUse fd) (hmounted : s.isMounted = true) (payload : List UInt8) :
    s.executeMounted settings t command payload =
      s.clearRenameSource.refuse t (s.strayError settings fd command) := by
  have hfree : ¬ s.clearRenameSource.InUse fd := h
  unfold strayError
  rw [hmounted]
  cases command with
  | write | flush | close =>
    cases hcommand
    exact withFile_of_not_inUse hfree _
  | read other offset len =>
    cases hcommand
    show s.clearRenameSource.read settings t fd offset len = _
    unfold read
    rw [withFile_of_not_inUse hfree]
    dsimp only
    split <;> rfl
  | _ => cases hcommand

theorem replyCode_strayError {command : Command} (hmounted : s.isMounted = true)
    (hlen : ∀ offset len, command = .read fd offset len → len ≤ settings.maxPayload)
    (hcommand : command.descriptor? = some fd) :
    (s.strayError settings fd command).replyCode = (ReplyCode.notTaken, .badDescriptor) := by
  unfold strayError
  rw [hmounted]
  cases command with
  | read other offset len =>
    cases hcommand
    dsimp only
    rw [if_neg (UInt64.not_lt.2 (hlen offset len rfl))]
    rfl
  | write | flush | close => rfl
  | _ => cases hcommand

theorem meet_of_not_inUse (settings : StoreSettings) {a : Arrival}
    (hcommand : a.command.descriptor? = some fd) (h : ¬ s.InUse fd) :
    (s.meet settings a).outcome = .failed (s.strayError settings fd a.command) ∧
      (s.meet settings a).tree = a.tree := by
  obtain ⟨t, command, payload⟩ := a
  unfold meet execute
  dsimp only at hcommand ⊢
  split
  next hmounted =>
    rw [executeMounted_of_not_inUse hcommand h hmounted]
    exact ⟨rfl, rfl⟩
  next hmounted =>
    unfold strayError
    rw [Bool.not_eq_true] at hmounted
    rw [hmounted]
    cases command with
    | write | read | flush | close => exact ⟨rfl, rfl⟩
    | _ => cases hcommand

theorem Step.not_inUse {command : Command} {e : Execution} (h : s.Step command e)
    (hcommand : command = .close fd ∨ ∃ name, command = .mount name) {reply : Reply}
    {attachment : Attachment} (hdone : e.outcome = .done reply attachment) :
    ¬ e.session.InUse fd := by
  cases h with
  | refused | stopped => cases hdone
  | answered hkeeps => rcases hcommand with rfl | ⟨name, rfl⟩ <;> cases hkeeps
  | mounted => exact not_inUse_of_files rfl
  | closed =>
    rcases hcommand with heq | ⟨name, heq⟩
    · cases heq
      exact not_inUse_dropFile s fd
    · cases heq
  | left | began | listed | opened | wrote | read =>
    rcases hcommand with heq | ⟨name, heq⟩ <;> cases heq

theorem not_inUse_of_retires {a : Arrival} (h : s.Retires settings a fd) :
    ¬ (s.meet settings a).session.InUse fd := by
  rcases h with hquit | ⟨hcommand, reply, attachment, hdone⟩
  · unfold meet execute
    rw [hquit]
    split <;> exact not_inUse_of_files rfl
  · rcases s.step_execute settings a.tree a.command a.payload with hstep | hstep <;>
      exact hstep.not_inUse hcommand hdone

/-! ## Runs -/

/-- From the first session to the second one these descriptors were returned. They are the next ones
from there on, and no other comes into use. -/
structure Advances (s s' : Session) (fds : List UInt64) : Prop where
  nextFd : s'.nextFd.toNat = s.nextFd.toNat + fds.length
  fresh : ∀ fd ∈ fds, s.nextFd ≤ fd ∧ fd < s'.nextFd
  inUse : ∀ fd, s'.InUse fd → s.InUse fd ∨ fd ∈ fds

namespace Advances

variable {fds fds' : List UInt64}

theorem refl (s : Session) : s.Advances s [] :=
  ⟨rfl, nofun, fun _ h => .inl h⟩

theorem le (h : s.Advances s' fds) : s.nextFd ≤ s'.nextFd := by
  rw [UInt64.le_iff_toNat_le, h.nextFd]
  exact Nat.le_add_right _ _

theorem trans (h : s.Advances s' fds) (h' : s'.Advances s'' fds') :
    s.Advances s'' (fds ++ fds') where
  nextFd := by
    rw [h'.nextFd, h.nextFd, List.length_append, Nat.add_assoc]
  fresh fd hfd := by
    rcases List.mem_append.1 hfd with hfd | hfd
    · exact ⟨(h.fresh fd hfd).1, UInt64.lt_of_lt_of_le (h.fresh fd hfd).2 h'.le⟩
    · exact ⟨UInt64.le_trans h.le (h'.fresh fd hfd).1, (h'.fresh fd hfd).2⟩
  inUse fd hfd := by
    rw [List.mem_append, ← or_assoc]
    exact (h'.inUse fd hfd).imp_left (h.inUse fd)

theorem not_inUse (h : s.Advances s' fds) (hold : fd < s.nextFd) (hfree : ¬ s.InUse fd) :
    ¬ s'.InUse fd := by
  intro hfd
  rcases h.inUse fd hfd with hfd | hfd
  · exact hfree hfd
  · exact UInt64.not_le.2 hold (h.fresh fd hfd).1

end Advances

theorem advances_meet (settings : StoreSettings) (a : Arrival)
    (hroom : s.nextFd.toNat + ((s.meet settings a).returned? a.command).toList.length <
      UInt64.size) :
    s.Advances (s.meet settings a).session
      ((s.meet settings a).returned? a.command).toList := by
  rcases narrows_or_opens settings s a with ⟨hnarrows, hfailed⟩ | hopens
  · rw [returned?_of_failed hfailed]
    exact ⟨congrArg UInt64.toNat hnarrows.nextFd, nofun, fun fd h => .inl (hnarrows.inUse fd h)⟩
  · rw [hopens.returned?] at hroom ⊢
    have hnext : (s.meet settings a).session.nextFd.toNat = s.nextFd.toNat + 1 := by
      rw [hopens.nextFd, UInt64.toNat_add]
      exact Nat.mod_eq_of_lt hroom
    refine ⟨hnext, fun fd hfd => ?_, fun fd hfd => ?_⟩
    · rw [List.mem_singleton.1 hfd, UInt64.lt_iff_toNat_lt, hnext]
      exact ⟨UInt64.le_refl _, Nat.lt_succ_self _⟩
    · rcases hopens.inUse fd hfd with rfl | hold
      · exact .inr List.mem_cons_self
      · exact .inl hold

theorem advances_after (settings : StoreSettings) (run : List Arrival)
    (hroom : s.nextFd.toNat + (s.returned settings run).length < UInt64.size) :
    s.Advances (s.after settings run) (s.returned settings run) := by
  induction run generalizing s with
  | nil => exact .refl s
  | cons a run ih =>
    unfold returned at hroom ⊢
    rw [List.length_append] at hroom
    -- The number of openings bounds the counter at every session on the way.
    have hfirst := advances_meet (s := s) settings a (by omega)
    have hnext := hfirst.nextFd
    exact hfirst.trans (ih (by omega))

theorem after_append (settings : StoreSettings) (s : Session) (before later : List Arrival) :
    s.after settings (before ++ later) = (s.after settings before).after settings later :=
  List.foldl_append

theorem returned_append (settings : StoreSettings) (s : Session) (before later : List Arrival) :
    s.returned settings (before ++ later) =
      s.returned settings before ++ (s.after settings before).returned settings later := by
  induction before generalizing s with
  | nil => rfl
  | cons a before ih =>
    rw [List.cons_append, returned, ih, returned, List.append_assoc]
    rfl

theorem inUse_of_retires {a : Arrival} (hclose : a.command = .close fd)
    (h : s.Retires settings a fd) : s.InUse fd := by
  apply Classical.byContradiction
  intro hfree
  have hcommand : a.command.descriptor? = some fd := by
    rw [hclose]
    rfl
  have hfailed := (meet_of_not_inUse settings hcommand hfree).1
  rcases h with hquit | ⟨-, reply, attachment, hdone⟩
  · rw [hclose] at hquit
    cases hquit
  · rw [hfailed] at hdone
    cases hdone

theorem advances_of_new {run : List Arrival}
    (hroom : (returned settings {} run).length < UInt64.size - 1) :
    Advances {} (after settings {} run) (returned settings {} run) := by
  apply advances_after
  show 1 + _ < _
  omega

theorem not_inUse_after {before between : List Arrival} {a : Arrival}
    (hroom : (returned settings {} (before ++ a :: between)).length < UInt64.size - 1)
    (h : (after settings {} before).Retires settings a fd)
    (hfd : a.command = .close fd ∨ fd ∈ returned settings {} before) :
    ¬ (after settings {} (before ++ a :: between)).InUse fd := by
  rw [returned_append, returned, List.length_append, List.length_append] at hroom
  have hbefore : Advances {} (after settings {} before) (returned settings {} before) :=
    advances_of_new (by omega)
  have hcount : (after settings {} before).nextFd.toNat =
      1 + (returned settings {} before).length := hbefore.nextFd
  have hstep : (after settings {} before).Advances _ _ :=
    advances_meet settings a (by omega)
  have hcount' := hstep.nextFd
  have hbetween : ((after settings {} before).meet settings a).session.Advances _ _ :=
    advances_after settings between (by omega)
  -- What was returned so far lies below the next descriptor, so no later opening returns it again.
  have hold : fd < (after settings {} before).nextFd := by
    rcases hfd with hclose | hfd
    · rcases hbefore.inUse fd (inUse_of_retires hclose h) with hnew | hfd
      · exact absurd hnew (not_inUse_of_files rfl)
      · exact (hbefore.fresh fd hfd).2
    · exact (hbefore.fresh fd hfd).2
  rw [after_append]
  exact hbetween.not_inUse (UInt64.lt_of_lt_of_le hold hstep.le) (not_inUse_of_retires h)

/-- A command that names a descriptor out of use is refused and changes no file. With a volume it is
told that the descriptor is bad, unless it would read too much. -/
structure RefusesStray (settings : StoreSettings) (s : Session) (a : Arrival) (fd : UInt64) :
    Prop where
  outcome : (s.meet settings a).outcome = .failed (s.strayError settings fd a.command)
  tree : (s.meet settings a).tree = a.tree
  number : s.isMounted = true →
    (∀ offset len, a.command = .read fd offset len → len ≤ settings.maxPayload) →
    (s.strayError settings fd a.command).replyCode = (ReplyCode.notTaken, .badDescriptor)

/-- In a run of any length from a new session, with fewer than 2^64 - 1 openings: the descriptors in
use were returned by openings, are at least one and lie below the next one, which never decreases;
an opening returns a greater one than all before it; and a descriptor that was closed, or was
returned before the volume was mounted anew or the session was ended, is refused from then on,
with no change to any file. -/
theorem descriptors_fresh (settings : StoreSettings) (run : List Arrival) (a : Arrival)
    (hroom : (returned settings {} (run ++ [a])).length < UInt64.size - 1) :
    (∀ fd, (after settings {} run).InUse fd →
      fd ∈ returned settings {} run ∧ 1 ≤ fd ∧ fd < (after settings {} run).nextFd) ∧
    (after settings {} run).nextFd ≤ (after settings {} (run ++ [a])).nextFd ∧
    (∀ flags path reply attachment, a.command = .openFile flags path →
      ((after settings {} run).meet settings a).outcome = .done reply attachment →
      ∃ fd : UInt64, ((after settings {} run).meet settings a).outcome =
          .ok ReplyCode.done (Text.decimal fd.toNat) ∧
        ∀ old ∈ returned settings {} run, old < fd) ∧
    ∀ before b between fd, run = before ++ b :: between →
      (after settings {} before).Retires settings b fd →
      b.command = .close fd ∨ fd ∈ returned settings {} before →
      a.command.descriptor? = some fd → (after settings {} run).RefusesStray settings a fd := by
  have hsplit := returned_append settings {} run [a]
  have hroom' : (returned settings {} run).length < UInt64.size - 1 := by
    rw [hsplit, List.length_append] at hroom
    omega
  have hrun : Advances {} (after settings {} run) (returned settings {} run) :=
    advances_of_new hroom'
  refine ⟨fun fd hfd => ?_, ?_, fun flags path reply attachment hcommand hdone => ?_, ?_⟩
  -- The first session has no open files, so what is in use now was returned on the way.
  · rcases hrun.inUse fd hfd with hnew | hmem
    · exact absurd hnew (not_inUse_of_files rfl)
    · exact ⟨hmem, hrun.fresh fd hmem⟩
  · rw [after_append]
    have hcount : (after settings {} run).nextFd.toNat = 1 + (returned settings {} run).length :=
      hrun.nextFd
    rw [hsplit, List.length_append] at hroom
    exact (advances_after settings [a] (by omega)).le
  · rcases narrows_or_opens settings (after settings {} run) a with ⟨-, hfailed⟩ | hopens
    · obtain ⟨error, hfailed⟩ := hfailed flags path hcommand
      rw [hfailed] at hdone
      cases hdone
    · exact ⟨_, hopens.outcome, fun old hold => (hrun.fresh old hold).2⟩
  -- A retired descriptor is free, and stays free since none is returned twice.
  · rintro before b between fd rfl hretires hfd hcommand
    have hfree := not_inUse_after hroom' hretires hfd
    have hmeet := meet_of_not_inUse settings hcommand hfree
    exact ⟨hmeet.1, hmeet.2, fun hmounted hlen => replyCode_strayError hmounted hlen hcommand⟩

def servedVolume : Host.Tree where
  nodes := [([Text.encode "store_root"], .directory),
    ([Text.encode "store_root", Text.encode "ltptest"], .directory)]

def openOne : List Arrival :=
  [⟨servedVolume, .mount "ltptest", []⟩, ⟨servedVolume, .openFile OpenFlags.appending "/f", []⟩]

theorem descriptors_fresh_closedFile :
    (returned {} {} (openOne ++ [⟨servedVolume, .close 1, []⟩] ++
        [⟨servedVolume, .write 1 0 1, [0]⟩])).length < UInt64.size - 1 ∧
      (after {} {} openOne).Retires {} ⟨servedVolume, .close 1, []⟩ 1 ∧
      (after {} {} (openOne ++ [⟨servedVolume, .close 1, []⟩])).RefusesStray {}
        ⟨servedVolume, .write 1 0 1, [0]⟩ 1 := by
  have hroom : (returned {} {} (openOne ++ [⟨servedVolume, .close 1, []⟩] ++
      [⟨servedVolume, .write 1 0 1, [0]⟩])).length < UInt64.size - 1 := by decide +kernel
  have hclosed : (after {} {} openOne).Retires {} ⟨servedVolume, .close 1, []⟩ 1 :=
    .inr ⟨.inl rfl, ⟨ReplyCode.actionDone, "Closed"⟩, .none, by decide +kernel⟩
  exact ⟨hroom, hclosed, (descriptors_fresh {} _ ⟨servedVolume, .write 1 0 1, [0]⟩
    hroom).2.2.2 openOne ⟨servedVolume, .close 1, []⟩ [] 1 rfl hclosed (.inl rfl) rfl⟩

end Session

end VolumeStore
