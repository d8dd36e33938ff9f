import VolumeStore.Proofs.Session.Confinement

/-!
# Sessions see nothing but their volume

Two sessions that are the same but for the numbers of their open files, on a volume in two trees
that mirror each other below it: a command is answered the same, and leaves such sessions and trees
again. What the answers say of numbers and times is the host's affair in each tree.
-/

namespace VolumeStore

open Host (Location FileId Alike Numbering)
open Host.Tree (Mirrors)
open Volume (Agree Follows)

def OpenFile.renumber (N : Numbering) (file : OpenFile) : OpenFile :=
  { file with handle := file.handle.renumber N }

@[simp] theorem OpenFile.handle_renumber (N : Numbering) (file : OpenFile) :
    (file.renumber N).handle = file.handle.renumber N := rfl

@[simp] theorem OpenFile.flags_renumber (N : Numbering) (file : OpenFile) :
    (file.renumber N).flags = file.flags := rfl

/-- Two outcomes are the same but for the number and the times in the description of an entry, and
for the times in a listing. -/
inductive Outcome.SameUnstamped : Outcome → Outcome → Prop
  | same (o : Outcome) : SameUnstamped o o
  | described {record record' : StatRecord} (h : record'.unstamped = record.unstamped) :
    SameUnstamped (.ok ReplyCode.fileStatus record.render) (.ok ReplyCode.fileStatus record'.render)
  | listed {entries entries' : List DirEntry}
    (h : entries'.map DirEntry.untimed = entries.map DirEntry.untimed) :
    SameUnstamped
      (.done ⟨ReplyCode.listing, Text.decimal entries.length⟩ (.lines (entries.map (·.render))))
      (.done ⟨ReplyCode.listing, Text.decimal entries'.length⟩ (.lines (entries'.map (·.render))))

theorem Outcome.SameUnstamped.code_eq {o o' : Outcome} (h : o.SameUnstamped o') :
    o'.reply.code = o.reply.code := by
  cases h <;> simp only [Outcome.ok, Outcome.reply]

namespace Session

def renumber (N : Numbering) (s : Session) : Session :=
  { s with files := s.files.map fun entry => (entry.1, entry.2.renumber N) }

def KnownIn (s : Session) (N : Numbering) : Prop :=
  ∀ entry ∈ s.files, N.known entry.2.handle.file

/-- Two executions answer the same but for numbers and times, and leave sessions and trees that are
the same but for the numbers of files. -/
structure Answers (home : Location) (N : Numbering) (bound : Nat) (e e' : Execution) : Prop where
  outcome : e.outcome.SameUnstamped e'.outcome
  rest : ∃ N', N.Extends N' bound ∧ Mirrors home N' e.tree e'.tree ∧ e.session.KnownIn N' ∧
    e'.session = e.session.renumber N'

variable {settings : StoreSettings} {s : Session} {t t' : Host.Tree} {v : Volume}
  {home : Location} {region : Location → Prop} {N N' : Numbering} {bound : Nat}

@[simp] theorem mounted_renumber (N : Numbering) (s : Session) :
    (s.renumber N).mounted = s.mounted := rfl

@[simp] theorem renameSource_renumber (N : Numbering) (s : Session) :
    (s.renumber N).renameSource = s.renameSource := rfl

theorem renumber_same (known : FileId → Prop) (s : Session) :
    s.renumber ⟨known, fun id => id⟩ = s := by
  have hfiles : (s.files.map fun entry => (entry.1, entry.2.renumber ⟨known, fun id => id⟩)) =
      s.files := List.map_id s.files
  unfold renumber
  rw [hfiles]

theorem renumber_of_extends (h : N.Extends N' bound) (hs : s.KnownIn N) :
    s.renumber N' = s.renumber N := by
  have hfiles : (s.files.map fun entry => (entry.1, entry.2.renumber N')) =
      s.files.map fun entry => (entry.1, entry.2.renumber N) := by
    refine List.map_congr_left fun entry hmem => ?_
    simp only [OpenFile.renumber, Host.Handle.renumber, h.image _ (hs entry hmem)]
  unfold renumber
  rw [hfiles]

theorem file_renumber (N : Numbering) (s : Session) (fd : UInt64) :
    (s.renumber N).file fd = (s.file fd).map (OpenFile.renumber N) := by
  unfold file renumber
  rw [Host.lookup_map_snd fun _ => OpenFile.renumber N]
  cases s.files.lookup fd <;> rfl

theorem setHandle_renumber (N : Numbering) (s : Session) (fd : UInt64) (handle : Host.Handle) :
    (s.renumber N).setHandle fd (handle.renumber N) = (s.setHandle fd handle).renumber N := by
  unfold setHandle renumber
  simp only [List.map_map]
  congr 1
  refine List.map_congr_left fun entry _ => ?_
  simp only [Function.comp_apply]
  split <;> rfl

theorem dropFile_renumber (N : Numbering) (s : Session) (fd : UInt64) :
    (s.renumber N).dropFile fd = (s.dropFile fd).renumber N := by
  unfold dropFile renumber
  simp only [List.filter_map]
  rfl

theorem known_of_file (hs : s.KnownIn N) {fd : UInt64} {file : OpenFile}
    (hfile : s.file fd = .ok file) : N.known file.handle.file :=
  hs (fd, file) (mem_files_of_file hfile)

/-! ## Parts of a command -/

theorem answers_of_follows (hf : Follows home N bound t t') (hs : s.KnownIn N)
    (outcome : Outcome) :
    Answers home N bound ⟨outcome, s, t⟩ ⟨outcome, s.renumber N, t'⟩ := by
  obtain ⟨N', hextends, hmirrors⟩ := hf
  exact ⟨.same _, N', hextends, hmirrors, fun entry hmem => hextends.known _ (hs entry hmem),
    (renumber_of_extends hextends hs).symm⟩

theorem answers_same (hm : Mirrors home N t t') (hs : s.KnownIn N) (outcome : Outcome) :
    Answers home N bound ⟨outcome, s, t⟩ ⟨outcome, s.renumber N, t'⟩ :=
  answers_of_follows (Volume.follows_of_mirrors hm bound) hs outcome

section Parts

variable (h : v.Twins region home N t t') (hv : OnlyOn v s) (hs : s.KnownIn N)

include h hv hs

theorem answers_withVolume {next next' : Volume → Execution}
    (hnext : Answers home N bound (next v) (next' v)) :
    Answers home N bound (s.withVolume t next) ((s.renumber N).withVolume t' next') := by
  unfold withVolume volume
  rw [mounted_renumber]
  cases hmounted : s.mounted with
  | none => exact answers_same h.mirrors hs _
  | some mount =>
    simp only [hv mount hmounted]
    exact hnext

theorem answers_change {α : Type} {code : UInt16} {text : α → String}
    {operation operation' : Volume → Except VolumeError α × Host.Tree}
    (hagree : Agree home N bound (operation v) (operation' v)) :
    Answers home N bound (s.change t code text operation)
      ((s.renumber N).change t' code text operation') := by
  refine answers_withVolume h hv hs ?_
  obtain ⟨hanswer, hfollows⟩ := hagree
  generalize operation v = result at hanswer hfollows ⊢
  generalize operation' v = result' at hanswer hfollows ⊢
  obtain ⟨answer, u⟩ := result
  obtain ⟨answer', u'⟩ := result'
  obtain rfl : answer' = answer := hanswer
  cases answer' <;> exact answers_of_follows hfollows hs _

omit hv in
theorem answers_withFile {fd : UInt64} {next next' : OpenFile → Execution}
    (hnext : ∀ file, s.file fd = .ok file →
      Answers home N bound (next file) (next' (file.renumber N))) :
    Answers home N bound (s.withFile t fd next) ((s.renumber N).withFile t' fd next') := by
  unfold withFile
  rw [file_renumber]
  cases hfile : s.file fd with
  | error error => exact answers_same h.mirrors hs _
  | ok file => exact hnext file hfile

omit hv in
theorem answers_mountVolume {name : String}
    (hname : settings.hasVolume name = true → settings.volumePath name = v.root) :
    Answers home N bound (s.mountVolume settings t name)
      ((s.renumber N).mountVolume settings t' name) := by
  unfold mountVolume
  split
  · exact answers_same h.mirrors hs _
  next hserved =>
    simp only [Bool.or_eq_true, Bool.not_eq_true', not_or, Bool.not_eq_false] at hserved
    have hroot := hname hserved.2
    have hdirectory : t.isDirectory (settings.volumePath name) = true := by
      unfold Host.Tree.isDirectory
      rw [hroot, h.left.target]
    have hdirectory' : t'.isDirectory (settings.volumePath name) = true := by
      unfold Host.Tree.isDirectory
      rw [hroot, h.right.target]
    simp only [hdirectory, hdirectory', Bool.not_true, Bool.false_eq_true, if_false]
    exact ⟨.same _, N, .refl N bound, h.mirrors, fun _ hmem => absurd hmem List.not_mem_nil, rfl⟩

omit hv hs in
theorem answers_quit : Answers home N bound (s.quit t) ((s.renumber N).quit t') :=
  ⟨.same _, N, .refl N bound, h.mirrors, fun _ hmem => absurd hmem List.not_mem_nil, rfl⟩

theorem answers_statEntry (path : String) :
    Answers home N bound (s.statEntry t path) ((s.renumber N).statEntry t' path) := by
  refine answers_withVolume h hv hs ?_
  have hstat := h.alike_stat path
  generalize v.stat t path = result at hstat ⊢
  generalize v.stat t' path = result' at hstat ⊢
  cases hstat with
  | error error => exact answers_same h.mirrors hs _
  | ok hrecord => exact ⟨.described hrecord, N, .refl N bound, h.mirrors, hs, rfl⟩

theorem answers_listDirectory (path : String) :
    Answers home N bound (s.listDirectory t path) ((s.renumber N).listDirectory t' path) := by
  refine answers_withVolume h hv hs ?_
  have hlist := h.alike_listDirectory path
  generalize v.listDirectory t path = result at hlist ⊢
  generalize v.listDirectory t' path = result' at hlist ⊢
  cases hlist with
  | error error => exact answers_same h.mirrors hs _
  | ok hentries => exact ⟨.listed hentries, N, .refl N bound, h.mirrors, hs, rfl⟩

theorem answers_renameFrom (path : String) :
    Answers home N bound (s.renameFrom t path) ((s.renumber N).renameFrom t' path) := by
  refine answers_withVolume h hv hs ?_
  rw [h.confine_eq]
  cases hc : v.confine t path with
  | error error => exact answers_same h.mirrors hs _
  | ok p =>
    simp only [(h.samePath (Volume.isProper_of_confine hc)).exists?_eq]
    split
    · exact ⟨.same _, N, .refl N bound, h.mirrors, hs, rfl⟩
    · exact answers_same h.mirrors hs _

theorem answers_renameTo (path : String) :
    Answers home N bound (s.renameTo t path) ((s.renumber N).renameTo t' path) := by
  unfold renameTo
  rw [renameSource_renumber]
  cases s.renameSource with
  | none => exact answers_same h.mirrors hs _
  | some source => exact answers_change h (s := s.clearRenameSource) hv hs (h.rename source path)

theorem answers_openPath (path : String) (flags : OpenFlags) :
    Answers home N t.contents.length (s.openPath t path flags)
      ((s.renumber N).openPath t' path flags) := by
  refine answers_withVolume h hv hs ?_
  obtain ⟨N', hextends, hmirrors, hanswer, hknown⟩ := h.openFile path flags
  -- The files that were open before keep their numbers.
  rw [← renumber_of_extends hextends hs]
  have hs' : s.KnownIn N' := fun entry hmem => hextends.known _ (hs entry hmem)
  generalize v.openFile t path flags = result at hmirrors hanswer hknown ⊢
  generalize v.openFile t' path flags = result' at hmirrors hanswer hknown ⊢
  obtain ⟨answer, u⟩ := result
  obtain ⟨answer', u'⟩ := result'
  obtain rfl : answer' = _ := hanswer
  cases answer with
  | error error => exact ⟨.same _, N', hextends, hmirrors, hs', rfl⟩
  | ok opened =>
    refine ⟨.same _, N', hextends, hmirrors, fun entry hmem => ?_, rfl⟩
    obtain rfl | hmem := List.mem_cons.1 hmem
    · exact hknown opened.1 opened.2 rfl
    · exact hs' entry hmem

omit h hv in
theorem knownIn_setHandle {fd : UInt64} {handle : Host.Handle} (hid : N.known handle.file) :
    (s.setHandle fd handle).KnownIn N := by
  intro entry hmem
  obtain ⟨old, hold, rfl⟩ := List.mem_map.1 hmem
  split
  · exact hid
  · exact hs old hold

omit hv in
theorem answers_write (fd offset : UInt64) (payload : List UInt8) :
    Answers home N bound (s.write t fd offset payload)
      ((s.renumber N).write t' fd offset payload) := by
  refine answers_withFile h hs fun file hfile => ?_
  have hid := known_of_file hs hfile
  show Answers home N bound _ (if !file.flags.isWritable then _ else _)
  split
  · exact answers_same h.mirrors hs _
  · -- The handle moves on in both trees, but to no other file.
    simp only [OpenFile.flags_renumber, OpenFile.handle_renumber]
    obtain ⟨⟨n, hposition⟩, -⟩ :=
      Volume.writeAt_cases t file.handle offset payload file.flags.append
    have hknown : N.known
        (Volume.writeAt t file.handle offset payload file.flags.append).2.1.file :=
      congrArg Host.Handle.file hposition ▸ hid
    have hwrite := Volume.writeAt_renumber h.mirrors hid offset payload file.flags.append
    generalize Volume.writeAt t file.handle offset payload file.flags.append = result
      at hknown hwrite ⊢
    generalize Volume.writeAt t' (file.handle.renumber N) offset payload file.flags.append = result'
      at hwrite ⊢
    obtain ⟨answer, handle, u⟩ := result
    obtain ⟨answer', handle', u'⟩ := result'
    obtain rfl : answer' = answer := hwrite.answer
    obtain rfl : handle' = handle.renumber N := hwrite.handle
    have hs' : (s.setHandle fd handle).KnownIn N := knownIn_setHandle hs hknown
    cases answer' <;>
      exact ⟨.same _, N, .refl N bound, hwrite.mirrors, hs', setHandle_renumber N s fd handle⟩

omit hv in
theorem answers_read (fd offset len : UInt64) :
    Answers home N bound (s.read settings t fd offset len)
      ((s.renumber N).read settings t' fd offset len) := by
  unfold read
  split
  · exact answers_same h.mirrors hs _
  · refine answers_withFile h hs fun file hfile => ?_
    have hid := known_of_file hs hfile
    show Answers home N bound _ (if !file.flags.read then _ else _)
    split
    · exact answers_same h.mirrors hs _
    · simp only [OpenFile.handle_renumber]
      obtain ⟨n, hposition⟩ := Volume.readAt_cases t file.handle offset len.toNat
      have hknown : N.known (Volume.readAt t file.handle offset len.toNat).1.file :=
        congrArg Host.Handle.file hposition ▸ hid
      rw [Volume.readAt_eq h.mirrors hid]
      generalize Volume.readAt t file.handle offset len.toNat = result at hknown ⊢
      obtain ⟨handle, answer⟩ := result
      have hs' : (s.setHandle fd handle).KnownIn N := knownIn_setHandle hs hknown
      cases answer <;>
        exact ⟨.same _, N, .refl N bound, h.mirrors, hs', setHandle_renumber N s fd handle⟩

omit hv in
theorem answers_close (fd : UInt64) :
    Answers home N bound (s.close t fd) ((s.renumber N).close t' fd) := by
  refine answers_withFile h hs fun file hfile => ?_
  refine ⟨.same _, N, .refl N bound, h.mirrors, fun entry hmem => ?_, dropFile_renumber N s fd⟩
  exact hs entry (List.mem_filter.1 hmem).1

end Parts

/-! ## All commands -/

theorem expireRename_renumber (N : Numbering) (s : Session) (command : Command) :
    (s.renumber N).expireRename command = (s.expireRename command).renumber N := by
  unfold expireRename
  split <;> rfl

theorem answers_executeMounted (h : v.Twins region home N t t') (hv : OnlyOn v s)
    (hs : s.KnownIn N) {command : Command}
    (hcommand : ∀ name, command = .mount name → settings.hasVolume name = true →
      settings.volumePath name = v.root) (payload : List UInt8) :
    Answers home N t.contents.length (s.executeMounted settings t command payload)
      ((s.renumber N).executeMounted settings t' command payload) := by
  -- Whether a pending rename is dropped depends on the command alone.
  have hexpired : OnlyOn v (s.expireRename command) ∧ (s.expireRename command).KnownIn N := by
    unfold expireRename
    split <;> exact ⟨hv, hs⟩
  obtain ⟨hv', hs'⟩ := hexpired
  unfold executeMounted
  rw [expireRename_renumber]
  cases command with
  | mount name => exact answers_mountVolume h hs' (hcommand name rfl)
  | quit => exact answers_quit h
  | noop => exact answers_same h.mirrors hs' _
  | makeDirectory path => exact answers_change h hv' hs' (h.makeDirectories path)
  | create size path => exact answers_change h hv' hs' (h.createFile path size)
  | append len path => exact answers_change h hv' hs' (h.appendFile path payload)
  | stat path => exact answers_statEntry h hv' hs' path
  | removeDirectory recursive path =>
    exact answers_change h hv' hs' (h.removeDirectory path recursive)
  | delete path => exact answers_change h hv' hs' (h.deleteFile path)
  | renameFrom path => exact answers_renameFrom h hv' hs' path
  | renameTo path => exact answers_renameTo h hv' hs' path
  | list path => exact answers_listDirectory h hv' hs' path
  | openFile flags path => exact answers_openPath h hv' hs' path flags
  | write fd offset len => exact answers_write h hs' fd offset payload
  | read fd offset len => exact answers_read h hs' fd offset len
  | flush fd => exact answers_withFile h hs' fun _ _ => answers_same h.mirrors hs' _
  | close fd => exact answers_close h hs' fd

theorem answers_executeUnmounted (h : v.Twins region home N t t') (hs : s.KnownIn N)
    {command : Command}
    (hcommand : ∀ name, command = .mount name → settings.hasVolume name = true →
      settings.volumePath name = v.root) :
    Answers home N bound (s.executeUnmounted settings t command)
      ((s.renumber N).executeUnmounted settings t' command) := by
  unfold executeUnmounted
  split
  · exact answers_mountVolume h hs (hcommand _ rfl)
  · exact answers_quit h
  · exact answers_same h.mirrors hs _
  · exact answers_same h.mirrors hs _

theorem answers_execute (h : v.Twins region home N t t') (hv : OnlyOn v s) (hs : s.KnownIn N)
    {command : Command}
    (hcommand : ∀ name, command = .mount name → settings.hasVolume name = true →
      settings.volumePath name = v.root) (payload : List UInt8) :
    Answers home N t.contents.length (s.execute settings t command payload)
      ((s.renumber N).execute settings t' command payload) := by
  unfold execute
  show Answers home N _ _ (if s.isMounted then _ else _)
  split
  · exact answers_executeMounted h hv hs hcommand payload
  · exact answers_executeUnmounted h hs hcommand

end Session

end VolumeStore
