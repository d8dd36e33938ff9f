import VolumeStore.Proofs.Volume.StoredFiles
import VolumeStore.Session.Execute

/-!
# What a command does to a session

A command mounts or leaves a volume, begins a rename, takes a descriptor or gives one back, moves an
open file on, changes the volume, or is refused. `Session.Effect` has these cases, each with what
had to hold for it, the outcome that belongs to it, and the session and the tree that it leaves;
what holds after every command is read off it case by case. `Session.Step` has the same cases
without the files.

With a volume the session has forgotten half of a rename before the effect and the step.
-/

namespace VolumeStore

def Command.keepsSession : Command → Bool
  | noop | makeDirectory _ | create _ _ | append _ _ | stat _ | removeDirectory _ _ | delete _
  | renameTo _ | flush _ => true
  | mount _ | quit | renameFrom _ | list _ | openFile _ _ | write _ _ _ | read _ _ _ | close _ =>
    false

def Command.moves (fd : UInt64) : Command → Prop
  | write other _ _ | read other _ _ => other = fd
  | _ => False

def ReplyCode.completions : List UInt16 :=
  [done, fileStatus, actionDone, created]

theorem Volume.length_le_of_readAt {t : Host.Tree} {handle handle' : Host.Handle}
    {offset : UInt64} {len : Nat} {data : List UInt8}
    (h : Volume.readAt t handle offset len = (handle', .ok data)) : data.length ≤ len := by
  obtain ⟨-, rfl⟩ := Volume.readAt_eq_ok (congrArg Prod.snd h)
  exact List.length_take_le len _

def Volume.fault? {α : Type} : Except VolumeError α → Option VolumeError
  | .ok _ => none
  | .error error => some error

/-- The operation of a volume that a command asks for: what it fails with, if it does, and the tree
that it leaves. A rename has its source from the command before. -/
inductive Volume.Operates (v : Volume) (t : Host.Tree) (source : Option String)
    (payload : List UInt8) : Command → Option VolumeError → Host.Tree → Prop
  | makeDirectories (path : String) :
    v.Operates t source payload (.makeDirectory path)
      (fault? (v.makeDirectories t path).1) (v.makeDirectories t path).2
  | createFile (path : String) (size : UInt64) :
    v.Operates t source payload (.create size path)
      (fault? (v.createFile t path size).1) (v.createFile t path size).2
  | appendFile (len : UInt64) (path : String) :
    v.Operates t source payload (.append len path)
      (fault? (v.appendFile t path payload).1) (v.appendFile t path payload).2
  | removeDirectory (path : String) (recursive : Bool) :
    v.Operates t source payload (.removeDirectory recursive path)
      (fault? (v.removeDirectory t path recursive).1) (v.removeDirectory t path recursive).2
  | deleteFile (path : String) :
    v.Operates t source payload (.delete path)
      (fault? (v.deleteFile t path).1) (v.deleteFile t path).2
  | rename {old : String} (hsource : source = some old) (path : String) :
    v.Operates t source payload (.renameTo path)
      (fault? (v.rename t old path).1) (v.rename t old path).2
  | openFile (path : String) (flags : OpenFlags) :
    v.Operates t source payload (.openFile flags path)
      (fault? (v.openFile t path flags).1) (v.openFile t path flags).2

namespace Session

inductive Step (s : Session) : Command → Execution → Prop
  | refused {command : Command} (error : StoreError) (t : Host.Tree) :
    Step s command ⟨.failed error, s, t⟩
  | answered {command : Command} (hcommand : command.keepsSession = true) {code : UInt16}
    (hcode : code ∈ ReplyCode.completions) (text : String) (t : Host.Tree) :
    Step s command ⟨.ok code text, s, t⟩
  | mounted (m : Mount) (t : Host.Tree) :
    Step s (.mount m.name)
      ⟨.ok ReplyCode.mounted ("Volume " ++ m.name ++ " mounted"), s.mount m, t⟩
  | left (t : Host.Tree) :
    Step s .quit ⟨.closing ⟨ReplyCode.goodbye, "Goodbye"⟩, s.unmount, t⟩
  | began {path : String} {p : VolumePath} (hp : VolumePath.parse path = .ok p) (t : Host.Tree) :
    Step s (.renameFrom path)
      ⟨.ok ReplyCode.pending "Ready for destination", s.setRenameSource p.render, t⟩
  | listed {path : String} (lines : List String) (t : Host.Tree) :
    Step s (.list path)
      ⟨.done ⟨ReplyCode.listing, Text.decimal lines.length⟩ (.lines lines), s, t⟩
  | opened {flags : OpenFlags} {path : String} (file : OpenFile) (t : Host.Tree) :
    Step s (.openFile flags path)
      ⟨.ok ReplyCode.done (Text.decimal s.nextFd.toNat), (s.addFile file).2, t⟩
  | stopped {command : Command} {fd : UInt64} (hcommand : command.moves fd) (handle : Host.Handle)
    (error : StoreError) (t : Host.Tree) :
    Step s command ⟨.failed error, s.setHandle fd handle, t⟩
  | wrote {fd offset len : UInt64} (handle : Host.Handle) (count : Nat) (t : Host.Tree) :
    Step s (.write fd offset len)
      ⟨.ok ReplyCode.actionDone (Text.decimal count), s.setHandle fd handle, t⟩
  | read {fd offset len : UInt64} (handle : Host.Handle) {data : List UInt8}
    (hlen : data.length ≤ len.toNat) (t : Host.Tree) :
    Step s (.read fd offset len)
      ⟨.done ⟨ReplyCode.openingTransfer, Text.decimal data.length⟩ (.bytes data),
        s.setHandle fd handle, t⟩
  | closed {fd : UInt64} (t : Host.Tree) :
    Step s (.close fd) ⟨.ok ReplyCode.actionDone "Closed", s.dropFile fd, t⟩

/-- What a command can come to on a session, with the files. The source is that of a rename which
was begun right before. -/
inductive Effect (settings : StoreSettings) (s : Session) (source : Option String) (t : Host.Tree)
    (payload : List UInt8) : Command → Execution → Prop
  | refused {command : Command} {error : StoreError}
    (herror : ∀ limit, error ≠ .session (.tooManySessions limit)) :
    s.Effect settings source t payload command ⟨.failed error, s, t⟩
  | answered {command : Command} (hcommand : command.keepsSession = true) {code : UInt16}
    (hcode : code ∈ ReplyCode.completions) (text : String) :
    s.Effect settings source t payload command ⟨.ok code text, s, t⟩
  | mounted {name : String} (hname : isVolumeName name = true)
    (hserved : settings.hasVolume name = true)
    (hdirectory : t.isDirectory (settings.volumePath name) = true) :
    s.Effect settings source t payload (.mount name)
      ⟨.ok ReplyCode.mounted ("Volume " ++ name ++ " mounted"),
        s.mount ⟨name, ⟨settings.volumePath name⟩⟩, t⟩
  | left :
    s.Effect settings source t payload .quit
      ⟨.closing ⟨ReplyCode.goodbye, "Goodbye"⟩, s.unmount, t⟩
  | began {v : Volume} {path : String} {p : VolumePath} (hvolume : s.volume = .ok v)
    (hconfine : v.confine t path = .ok p) (hexists : t.exists? (v.hostPath p) = true) :
    s.Effect settings source t payload (.renameFrom path)
      ⟨.ok ReplyCode.pending "Ready for destination", s.setRenameSource p.render, t⟩
  | listed {v : Volume} {path : String} {entries : List DirEntry} (hvolume : s.volume = .ok v)
    (hentries : v.listDirectory t path = .ok entries) :
    s.Effect settings source t payload (.list path)
      ⟨.done ⟨ReplyCode.listing, Text.decimal entries.length⟩
        (.lines (entries.map (·.render))), s, t⟩
  | operated {command : Command} {v : Volume} {t' : Host.Tree} (hvolume : s.volume = .ok v)
    (hoperates : v.Operates t source payload command none t')
    (hcommand : command.keepsSession = true) {code : UInt16} (hcode : code ∈ ReplyCode.completions)
    (text : String) :
    s.Effect settings source t payload command ⟨.ok code text, s, t'⟩
  | declined {command : Command} {v : Volume} {error : VolumeError} {t' : Host.Tree}
    (hvolume : s.volume = .ok v)
    (hoperates : v.Operates t source payload command (some error) t') :
    s.Effect settings source t payload command ⟨.failed (.volume error), s, t'⟩
  | opened {v : Volume} {flags : OpenFlags} {path path' : String} {handle : Host.Handle}
    {t' : Host.Tree} (hvolume : s.volume = .ok v)
    (hopen : v.openFile t path flags = (.ok (handle, path'), t')) :
    s.Effect settings source t payload (.openFile flags path)
      ⟨.ok ReplyCode.done (Text.decimal s.nextFd.toNat), (s.addFile ⟨handle, path', flags⟩).2, t'⟩
  | wrote {fd offset len : UInt64} {file : OpenFile} {handle : Host.Handle} {t' : Host.Tree}
    (hfile : s.file fd = .ok file) (hright : file.flags.isWritable = true)
    (hwrite : Volume.writeAt t file.handle offset payload file.flags.append =
      (.ok (), handle, t')) :
    s.Effect settings source t payload (.write fd offset len)
      ⟨.ok ReplyCode.actionDone (Text.decimal payload.length), s.setHandle fd handle, t'⟩
  | cut {fd offset len : UInt64} {file : OpenFile} {handle : Host.Handle} {t' : Host.Tree}
    {error : VolumeError} (hfile : s.file fd = .ok file) (hright : file.flags.isWritable = true)
    (hwrite : Volume.writeAt t file.handle offset payload file.flags.append =
      (.error error, handle, t')) :
    s.Effect settings source t payload (.write fd offset len)
      ⟨.failed (.volume error), s.setHandle fd handle, t'⟩
  | read {fd offset len : UInt64} {file : OpenFile} {handle : Host.Handle} {data : List UInt8}
    (hfile : s.file fd = .ok file) (hright : file.flags.read = true)
    (hread : Volume.readAt t file.handle offset len.toNat = (handle, .ok data)) :
    s.Effect settings source t payload (.read fd offset len)
      ⟨.done ⟨ReplyCode.openingTransfer, Text.decimal data.length⟩ (.bytes data),
        s.setHandle fd handle, t⟩
  | stopped {fd offset len : UInt64} {file : OpenFile} {handle : Host.Handle} {error : VolumeError}
    (hfile : s.file fd = .ok file) (hright : file.flags.read = true)
    (hread : Volume.readAt t file.handle offset len.toNat = (handle, .error error)) :
    s.Effect settings source t payload (.read fd offset len)
      ⟨.failed (.volume error), s.setHandle fd handle, t⟩
  | closed {fd : UInt64} {file : OpenFile} (hfile : s.file fd = .ok file) :
    s.Effect settings source t payload (.close fd)
      ⟨.ok ReplyCode.actionDone "Closed", s.dropFile fd, t⟩

variable {settings : StoreSettings} {s : Session} {source : Option String} {t : Host.Tree}
  {payload : List UInt8} {command : Command} {e : Execution}

theorem withVolume_of_ok {volume : Volume} (h : s.volume = .ok volume)
    (next : Volume → Execution) : s.withVolume t next = next volume := by
  unfold withVolume
  rw [h]

theorem exists_mounted_of_volume {v : Volume} (h : s.volume = .ok v) :
    ∃ mount, s.mounted = some mount ∧ mount.volume = v := by
  unfold volume at h
  split at h
  next mount hmounted =>
    cases h
    exact ⟨mount, hmounted, rfl⟩
  · cases h

theorem execute_of_isMounted (hmounted : s.isMounted = true) :
    s.execute settings t command payload = s.executeMounted settings t command payload := by
  rw [execute, if_pos hmounted]

theorem renameTo_of_none (h : s.renameSource = none) (t : Host.Tree) (path : String) :
    s.renameTo t path = s.refuse t (.session (.invalidState .renameWithoutSource)) := by
  unfold renameTo
  rw [h]

theorem renameTo_of_some {old : String} (h : s.renameSource = some old) (t : Host.Tree)
    (path : String) : s.renameTo t path =
      s.clearRenameSource.change t ReplyCode.actionDone ("Renamed to " ++ ·) fun volume =>
        volume.rename t old path := by
  unfold renameTo
  rw [h]

/-! ## Parts of a command -/

theorem Effect.of_volumeError (error : VolumeError) :
    s.Effect settings source t payload command (s.refuse t (.volume error)) :=
  .refused (by simp)

theorem effect_withVolume {next : Volume → Execution}
    (h : ∀ v, s.volume = .ok v → s.Effect settings source t payload command (next v)) :
    s.Effect settings source t payload command (s.withVolume t next) := by
  unfold withVolume
  split
  next v hvolume => exact h v hvolume
  next error hnone =>
    -- The only reason for a session to have no volume is not the number of sessions.
    refine .refused fun limit hlimit => ?_
    cases hlimit
    unfold volume at hnone
    split at hnone <;> cases hnone

theorem effect_withFile {fd : UInt64} {next : OpenFile → Execution}
    (h : ∀ file, s.file fd = .ok file →
      s.Effect settings source t payload command (next file)) :
    s.Effect settings source t payload command (s.withFile t fd next) := by
  unfold withFile
  split
  next file hfile => exact h file hfile
  · exact .of_volumeError _

theorem effect_change {α : Type} {code : UInt16} {text : α → String}
    {operation : Volume → Except VolumeError α × Host.Tree}
    (hoperates : ∀ v : Volume, v.Operates t source payload command
      (Volume.fault? (operation v).1) (operation v).2)
    (hcommand : command.keepsSession = true) (hcode : code ∈ ReplyCode.completions) :
    s.Effect settings source t payload command (s.change t code text operation) := by
  refine effect_withVolume fun v hvolume => ?_
  have hoperates := hoperates v
  split
  next heq =>
    rw [heq] at hoperates
    exact .operated hvolume hoperates hcommand hcode _
  next heq =>
    rw [heq] at hoperates
    exact .declined hvolume hoperates

theorem effect_mountVolume (name : String) :
    s.Effect settings source t payload (.mount name) (s.mountVolume settings t name) := by
  unfold mountVolume
  split
  · exact .refused (by simp)
  next hserved =>
    simp only [Bool.or_eq_true, Bool.not_eq_true', not_or, Bool.not_eq_false] at hserved
    dsimp only
    split
    · exact .of_volumeError _
    next hdirectory =>
      simp only [Bool.not_eq_true', Bool.not_eq_false] at hdirectory
      exact .mounted hserved.1 hserved.2 hdirectory

theorem effect_statEntry (path : String) :
    s.Effect settings source t payload (.stat path) (s.statEntry t path) := by
  refine effect_withVolume fun v _ => ?_
  split
  · exact .answered rfl (by decide) _
  · exact .of_volumeError _

theorem effect_listDirectory (path : String) :
    s.Effect settings source t payload (.list path) (s.listDirectory t path) := by
  refine effect_withVolume fun v hvolume => ?_
  split
  next hentries => exact .listed hvolume hentries
  · exact .of_volumeError _

theorem effect_renameFrom (path : String) :
    s.Effect settings source t payload (.renameFrom path) (s.renameFrom t path) := by
  refine effect_withVolume fun v hvolume => ?_
  split
  next hconfine =>
    split
    next hexists => exact .began hvolume hconfine hexists
    · exact .of_volumeError _
  · exact .of_volumeError _

theorem effect_renameTo (path : String) :
    s.clearRenameSource.Effect settings s.renameSource t payload (.renameTo path)
      (s.renameTo t path) := by
  cases hsource : s.renameSource with
  | none =>
    -- The other commands forget a source before they begin; here there is none to forget.
    have hclear : s.clearRenameSource = s := by
      unfold clearRenameSource
      rw [← hsource]
    rw [hclear, renameTo_of_none hsource]
    exact .refused (by simp)
  | some old =>
    rw [renameTo_of_some hsource]
    exact effect_change (fun v => .rename rfl path) rfl (by decide)

theorem effect_openPath (path : String) (flags : OpenFlags) :
    s.Effect settings source t payload (.openFile flags path) (s.openPath t path flags) := by
  refine effect_withVolume fun v hvolume => ?_
  split
  next hopen => exact .opened hvolume hopen
  next hopen =>
    have hoperates : v.Operates t source payload (.openFile flags path) _ _ :=
      .openFile path flags
    rw [hopen] at hoperates
    exact .declined hvolume hoperates

theorem effect_write (fd offset len : UInt64) :
    s.Effect settings source t payload (.write fd offset len) (s.write t fd offset payload) := by
  refine effect_withFile fun file hfile => ?_
  split
  · exact .of_volumeError _
  next hright =>
    simp only [Bool.not_eq_true', Bool.not_eq_false] at hright
    split
    next hwrite => exact .wrote hfile hright hwrite
    next hwrite => exact .cut hfile hright hwrite

theorem effect_read (fd offset len : UInt64) :
    s.Effect settings source t payload (.read fd offset len) (s.read settings t fd offset len) := by
  unfold Session.read
  split
  · exact .refused (by simp)
  refine effect_withFile fun file hfile => ?_
  split
  · exact .of_volumeError _
  next hright =>
    simp only [Bool.not_eq_true', Bool.not_eq_false] at hright
    split
    next hread => exact .read hfile hright hread
    next hread => exact .stopped hfile hright hread

/-! ## All commands -/

theorem effect_executeMounted (settings : StoreSettings) (s : Session) (t : Host.Tree)
    (command : Command) (payload : List UInt8) :
    s.clearRenameSource.Effect settings s.renameSource t payload command
      (s.executeMounted settings t command payload) := by
  unfold executeMounted
  cases command with
  | mount name => exact effect_mountVolume name
  | quit => exact .left
  | noop => exact .answered rfl (by decide) _
  | makeDirectory path => exact effect_change (fun _ => .makeDirectories path) rfl (by decide)
  | create size path => exact effect_change (fun _ => .createFile path size) rfl (by decide)
  | append len path => exact effect_change (fun _ => .appendFile len path) rfl (by decide)
  | stat path => exact effect_statEntry path
  | removeDirectory recursive path =>
    exact effect_change (fun _ => .removeDirectory path recursive) rfl (by decide)
  | delete path => exact effect_change (fun _ => .deleteFile path) rfl (by decide)
  | renameFrom path => exact effect_renameFrom path
  | renameTo path => exact effect_renameTo path
  | list path => exact effect_listDirectory path
  | openFile flags path => exact effect_openPath path flags
  | write fd offset len => exact effect_write fd offset len
  | read fd offset len => exact effect_read fd offset len
  | flush fd => exact effect_withFile fun _ _ => .answered rfl (by decide) _
  | close fd => exact effect_withFile fun _ hfile => .closed hfile

theorem effect_executeUnmounted (settings : StoreSettings) (s : Session) (source : Option String)
    (t : Host.Tree) (command : Command) (payload : List UInt8) :
    s.Effect settings source t payload command (s.executeUnmounted settings t command) := by
  unfold executeUnmounted
  split
  · exact effect_mountVolume _
  · exact .left
  · exact .answered rfl (by decide) _
  · exact .refused (by simp)

theorem effect_execute (settings : StoreSettings) (s : Session) (t : Host.Tree) (command : Command)
    (payload : List UInt8) :
    s.Effect settings s.renameSource t payload command (s.execute settings t command payload) ∨
      s.clearRenameSource.Effect settings s.renameSource t payload command
        (s.execute settings t command payload) := by
  unfold execute
  split
  · exact .inr (effect_executeMounted settings s t command payload)
  · exact .inl (effect_executeUnmounted settings s _ t command payload)

/-! ## Steps -/

theorem Effect.step (h : s.Effect settings source t payload command e) : s.Step command e := by
  cases h with
  | refused => exact .refused _ t
  | answered hcommand hcode text => exact .answered hcommand hcode text t
  | mounted => exact .mounted ⟨_, _⟩ t
  | left => exact .left t
  | began _ hconfine => exact .began (Volume.confine_eq_ok hconfine).1 t
  | @listed _ path entries =>
    have hlisted : s.Step (.list path) _ := .listed (entries.map (·.render)) t
    rwa [List.length_map] at hlisted
  | operated _ _ hcommand hcode text => exact .answered hcommand hcode text _
  | declined => exact .refused _ _
  | opened => exact .opened _ _
  | wrote => exact .wrote _ _ _
  | read _ _ hread => exact .read _ (Volume.length_le_of_readAt hread) t
  | @cut fd offset len =>
    exact .stopped (show Command.moves fd (.write fd offset len) from rfl) _ _ _
  | @stopped fd offset len =>
    exact .stopped (show Command.moves fd (.read fd offset len) from rfl) _ _ t
  | closed => exact .closed t

theorem step_executeMounted (settings : StoreSettings) (s : Session) (t : Host.Tree)
    (command : Command) (payload : List UInt8) :
    s.clearRenameSource.Step command (s.executeMounted settings t command payload) :=
  (effect_executeMounted settings s t command payload).step

theorem step_executeUnmounted (settings : StoreSettings) (s : Session) (t : Host.Tree)
    (command : Command) : s.Step command (s.executeUnmounted settings t command) :=
  (effect_executeUnmounted settings s none t command []).step

theorem step_execute (settings : StoreSettings) (s : Session) (t : Host.Tree) (command : Command)
    (payload : List UInt8) :
    s.Step command (s.execute settings t command payload) ∨
      s.clearRenameSource.Step command (s.execute settings t command payload) :=
  (effect_execute settings s t command payload).imp (·.step) (·.step)

theorem tree_mountVolume (settings : StoreSettings) (s : Session) (t : Host.Tree) (name : String) :
    (s.mountVolume settings t name).tree = t := by
  unfold mountVolume
  split
  · rfl
  · dsimp only
    split <;> rfl

theorem tree_executeUnmounted (settings : StoreSettings) (s : Session) (t : Host.Tree)
    (command : Command) : (s.executeUnmounted settings t command).tree = t := by
  unfold executeUnmounted
  split
  · exact tree_mountVolume settings s t _
  all_goals rfl

end Session

end VolumeStore
