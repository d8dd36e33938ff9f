import VolumeStore.Proofs.Session.Steps
import VolumeStore.Proofs.Volume.Locality

/-!
# What a session can change

Whatever command a session on a volume carries out, in a tree without links, it changes nothing but
what stands below the directory of the volume and the files that the session has open.
-/

namespace VolumeStore

open Host (Location Below FileId)
open Host.Tree (StaysWithin ChangesOnly pathFailure?_eq_none_of_find entry_eq_ok_iff)

/-! ## Removing and renaming where there are no links -/

namespace Volume

variable {v : Volume} {t : Host.Tree} {home : Location} {region : Location → Prop}

theorem Settled.below_of_not_directory (h : v.Settled region t home) {path : String}
    {p : VolumePath} (hc : v.confine t path = .ok p) {loc : Location} {node : Host.Node}
    (hentry : t.entry (v.hostPath p) = .ok (loc, node)) (hnode : node ≠ .directory) :
    Below home loc := by
  have hfind := entry_eq_ok_iff.1 hentry
  have hstands : t.node? loc = some node := by
    rw [h.find_eq (isProper_of_confine hc) (pathFailure?_eq_none_of_find hfind)] at hfind
    exact (h.linkFree.below_of_walkLinks (isProper_of_confine hc).isEntryName h.directory hfind).2
  refine ⟨h.toStands.seated.inside_of_not_link hc hfind fun target he => ?_, ?_⟩
  · exact h.linkFree loc target (he ▸ hstands)
  · rintro rfl
    rw [h.directory] at hstands
    exact hnode (Option.some.inj hstands).symm

theorem Settled.deleteFile (h : v.Settled region t home) (path : String) :
    StaysWithin home (t.Holds home) t (v.deleteFile t path).2 :=
  h.toStands.deleteFile path fun _ _ _ hc hentry hnode => h.below_of_not_directory hc hentry hnode

theorem Settled.rename (h : v.Settled region t home) (source target : String) :
    StaysWithin home (t.Holds home) t (v.rename t source target).2 := by
  refine h.toStands.rename source target fun p q a b _ _ hmoves => ⟨?_, ?_⟩
  · by_contra hout
    obtain ⟨link, hlink⟩ := hmoves.source hout
    exact h.linkFree a link hlink
  · by_contra hout
    obtain ⟨link, hlink⟩ := hmoves.target hout
    exact h.linkFree b link hlink

theorem Settled.operates (h : v.Settled region t home) {source : Option String}
    {payload : List UInt8} {command : Command} {fault : Option VolumeError} {t' : Host.Tree}
    (hoperates : v.Operates t source payload command fault t') :
    StaysWithin home (t.Holds home) t t' := by
  cases hoperates with
  | makeDirectories path => exact h.toStands.makeDirectories path
  | createFile path size => exact h.toStands.createFile path size
  | appendFile len path => exact h.toStands.appendFile path payload
  | removeDirectory path recursive => exact h.toStands.removeDirectory path recursive
  | deleteFile path => exact h.deleteFile path
  | rename _ path => exact h.rename _ path
  | openFile path flags => exact (h.toStands.openFile path flags).1

end Volume

namespace Session

def OnlyOn (v : Volume) (s : Session) : Prop :=
  ∀ mount, s.mounted = some mount → mount.volume = v

/-- The files below `home` and those that the session has open are among `ids`. -/
structure Owns (home : Location) (ids : FileId → Prop) (s : Session) (t : Host.Tree) : Prop where
  holds : ∀ id, t.Holds home id → ids id
  opened : ∀ entry ∈ s.files, ids entry.2.handle.file
  stored : ∀ id, ids id → id < t.contents.length

/-- From one tree to the other, the files of a session stay its own, and new ones may join them. -/
def grown (ids : FileId → Prop) (t t' : Host.Tree) (id : FileId) : Prop :=
  ids id ∨ t.contents.length ≤ id ∧ id < t'.contents.length

/-- An execution that changes nothing but what is the session's own. -/
structure Confined (v : Volume) (home : Location) (ids : FileId → Prop) (t : Host.Tree)
    (e : Execution) : Prop where
  stays : StaysWithin home ids t e.tree
  onlyOn : OnlyOn v e.session
  opened : ∀ entry ∈ e.session.files, grown ids t e.tree entry.2.handle.file

variable {settings : StoreSettings} {s : Session} {t t' : Host.Tree} {v : Volume}
  {home : Location} {region : Location → Prop} {ids : FileId → Prop} {e : Execution}

theorem Confined.owns (h : Confined v home ids t e) (ho : Owns home ids s t) :
    Owns home (grown ids t e.tree) e.session e.tree where
  holds id hholds := by
    obtain hlt | hle := Nat.lt_or_ge id t.contents.length
    · exact .inl (ho.holds id (h.stays.holds id hlt hholds))
    · obtain ⟨loc, -, hnode⟩ := hholds
      exact .inr ⟨hle, h.stays.wellFormed.stored hnode⟩
  opened := h.opened
  stored id hid := by
    obtain hid | ⟨-, hlt⟩ := hid
    · exact Nat.lt_of_lt_of_le (ho.stored id hid) h.stays.stored
    · exact hlt

theorem OnlyOn.eq (h : OnlyOn v s) {w : Volume} (hvolume : s.volume = .ok w) : w = v := by
  obtain ⟨mount, hmounted, rfl⟩ := exists_mounted_of_volume hvolume
  exact h mount hmounted

theorem mem_files_of_file {fd : UInt64} {file : OpenFile} (h : s.file fd = .ok file) :
    (fd, file) ∈ s.files := by
  unfold Session.file at h
  split at h
  next hlookup =>
    cases h
    obtain ⟨before, after, hfiles, -⟩ := List.lookup_eq_some_iff.1 hlookup
    rw [hfiles]
    simp
  · cases h

/-! ## Effects -/

theorem confined_of_stays (hs : OnlyOn v s) (ho : ∀ entry ∈ s.files, ids entry.2.handle.file)
    (hstays : StaysWithin home ids t t') (outcome : Outcome) :
    Confined v home ids t ⟨outcome, s, t'⟩ :=
  ⟨hstays, hs, fun entry hmem => .inl (ho entry hmem)⟩

theorem confined_setHandle (hs : OnlyOn v s) (ho : ∀ entry ∈ s.files, ids entry.2.handle.file)
    {fd : UInt64} {file : OpenFile} (hfile : s.file fd = .ok file) {handle : Host.Handle} {n : Nat}
    (hhandle : handle = { file.handle with position := n }) (hstays : StaysWithin home ids t t')
    (outcome : Outcome) : Confined v home ids t ⟨outcome, s.setHandle fd handle, t'⟩ := by
  have hid : ids handle.file := hhandle ▸ ho (fd, file) (mem_files_of_file hfile)
  refine ⟨hstays, hs, fun entry hmem => .inl ?_⟩
  obtain ⟨old, hold, rfl⟩ := List.mem_map.1 hmem
  split
  · exact hid
  · exact ho old hold

theorem confined_of_writeAt (h : v.Settled region t home) (hs : OnlyOn v s)
    (ho : ∀ entry ∈ s.files, ids entry.2.handle.file) {fd offset : UInt64} {file : OpenFile}
    (hfile : s.file fd = .ok file) {payload : List UInt8} {append : Bool} {handle : Host.Handle}
    {result : Except VolumeError Unit}
    (hwrite : Volume.writeAt t file.handle offset payload append = (result, handle, t'))
    (outcome : Outcome) : Confined v home ids t ⟨outcome, s.setHandle fd handle, t'⟩ := by
  obtain ⟨n, hposition⟩ := Volume.moved_of_writeAt hwrite
  have hfilled := Volume.refilled_of_writeAt hwrite
  have hid : ids file.handle.file := ho _ (mem_files_of_file hfile)
  exact confined_setHandle hs ho hfile hposition
    ⟨(hfilled.changesOnly home).mono fun _ he => he ▸ hid,
      hfilled.preserved (fun _ c hu => hu.setContent _ c) h.wellFormed⟩ outcome

theorem confined_of_files_eq_nil (h : v.Settled region t home) (hs : OnlyOn v s)
    (hfiles : s.files = []) (outcome : Outcome) : Confined v home ids t ⟨outcome, s, t⟩ :=
  ⟨h.refl ids, hs, fun _ hmem => absurd (hfiles ▸ hmem) List.not_mem_nil⟩

theorem grown_of_openFile (h : v.Settled region t home) (hids : ∀ id, t.Holds home id → ids id)
    {flags : OpenFlags} {path path' : String} {handle : Host.Handle}
    (hopen : v.openFile t path flags = (.ok (handle, path'), t')) :
    grown ids t t' handle.file := by
  obtain ⟨hstays, hheld⟩ := h.toStands.openFile path flags
  rw [hopen] at hstays hheld
  obtain hlt | hle := Nat.lt_or_ge handle.file t.contents.length
  · exact .inl (hids _ (hstays.holds _ hlt (hheld handle path' rfl)))
  · obtain ⟨loc, -, hnode⟩ := hheld handle path' rfl
    exact .inr ⟨hle, hstays.wellFormed.stored hnode⟩

theorem Effect.confined {source : Option String} {payload : List UInt8} {command : Command}
    (he : s.Effect settings source t payload command e) (h : v.Settled region t home)
    (hs : OnlyOn v s) (hids : ∀ id, t.Holds home id → ids id)
    (ho : ∀ entry ∈ s.files, ids entry.2.handle.file)
    (hcommand : ∀ name, command = .mount name → settings.hasVolume name = true →
      settings.volumePath name = v.root) : Confined v home ids t e := by
  -- The operations of the volume touch the files below its directory, which the session owns.
  have hstays : ∀ {w : Volume} {fault t'}, s.volume = .ok w →
      w.Operates t source payload command fault t' → StaysWithin home ids t t' := by
    intro w fault t' hvolume hoperates
    have hwithin := h.operates (hs.eq hvolume ▸ hoperates)
    exact ⟨hwithin.toChangesOnly.mono hids, hwithin.wellFormed⟩
  cases he with
  | refused | answered | listed => exact confined_of_stays hs ho (h.refl ids) _
  | began => exact ⟨h.refl ids, hs, fun entry hmem => .inl (ho entry hmem)⟩
  | mounted _ hserved =>
    refine confined_of_files_eq_nil h ?_ rfl _
    rintro mount hmount
    cases hmount
    rw [hcommand _ rfl hserved]
  | left => exact confined_of_files_eq_nil h (s := s.unmount) nofun rfl _
  | operated hvolume hoperates => exact confined_of_stays hs ho (hstays hvolume hoperates) _
  | declined hvolume hoperates => exact confined_of_stays hs ho (hstays hvolume hoperates) _
  | @opened w flags path path' handle t' hvolume hopen =>
    have hwithin := hstays hvolume (.openFile path flags)
    rw [hopen] at hwithin
    refine ⟨hwithin, hs, fun entry hmem => ?_⟩
    obtain rfl | hmem := List.mem_cons.1 hmem
    · exact grown_of_openFile h hids (hs.eq hvolume ▸ hopen)
    · exact .inl (ho entry hmem)
  | wrote hfile _ hwrite => exact confined_of_writeAt h hs ho hfile hwrite _
  | cut hfile _ hwrite => exact confined_of_writeAt h hs ho hfile hwrite _
  | read hfile _ hread =>
    obtain ⟨n, hposition⟩ := Volume.moved_of_readAt hread
    exact confined_setHandle hs ho hfile hposition (h.refl ids) _
  | stopped hfile _ hread =>
    obtain ⟨n, hposition⟩ := Volume.moved_of_readAt hread
    exact confined_setHandle hs ho hfile hposition (h.refl ids) _
  | closed =>
    exact ⟨h.refl ids, hs, fun entry hmem => .inl (ho entry (List.mem_filter.1 hmem).1)⟩

theorem confined_execute (h : v.Settled region t home) (hs : OnlyOn v s) (ho : Owns home ids s t)
    {command : Command}
    (hcommand : ∀ name, command = .mount name → settings.hasVolume name = true →
      settings.volumePath name = v.root) (payload : List UInt8) :
    Confined v home ids t (s.execute settings t command payload) := by
  obtain heffect | heffect := effect_execute settings s t command payload
  · exact heffect.confined h hs ho.holds ho.opened hcommand
  · exact heffect.confined h (s := s.clearRenameSource) hs ho.holds ho.opened hcommand

end Session

end VolumeStore
