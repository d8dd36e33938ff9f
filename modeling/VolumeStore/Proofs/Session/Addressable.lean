import Mathlib.Data.List.Infix
import VolumeStore.Proofs.Session.Atomicity
import VolumeStore.Proofs.Session.Isolation
import VolumeStore.Proofs.Volume.Addressable
import VolumeStore.Proofs.Volume.Containment

/-!
# Sessions on volumes that were empty

A session works on volumes in which nothing stood at the start. Whatever it asks for, the entries of
the volumes stay addressable at every moment, exactly as long as no rename buries an entry.
-/

namespace VolumeStore

open Host (Location Below)
open Volume (Orderly Revises Vacant)

structure Moment where
  session : Session
  tree : Host.Tree

def Moment.next (settings : StoreSettings) (m : Moment) (instruction : Instruction) : Moment :=
  let e := m.session.executeMounted settings m.tree instruction.command instruction.payload
  ⟨e.session, e.tree⟩

def Moment.after (settings : StoreSettings) (m : Moment) (run : List Instruction) : Moment :=
  run.foldl (Moment.next settings) m

def Moment.Buries (m : Moment) (instruction : Instruction) : Prop :=
  ∃ source target mount, instruction.command = .renameTo target ∧
    m.session.renameSource = some source ∧ m.session.mounted = some mount ∧
    mount.volume.Buries m.tree source target

namespace Session

def OneOf {ι : Type} (v : ι → Volume) (s : Session) : Prop :=
  ∀ mount, s.mounted = some mount → ∃ i, mount.volume = v i

variable {ι : Type} {v : ι → Volume} {home : ι → Location} {settings : StoreSettings}
  {s : Session} {t : Host.Tree}

theorem OneOf.exists_eq (h : s.OneOf v) {w : Volume} (hvolume : s.volume = .ok w) :
    ∃ i, w = v i := by
  obtain ⟨mount, hmounted, rfl⟩ := exists_mounted_of_volume hvolume
  exact h mount hmounted

/-! ## Effects -/

section

variable {source : Option String} {payload : List UInt8} {command : Command} {e : Execution}

theorem orderly_of_operates (h : Orderly v home t) {i : ι} {fault : Option VolumeError}
    {t' : Host.Tree} (hoperates : (v i).Operates t source payload command fault t')
    (hno : ∀ old target, source = some old → command = .renameTo target →
      ¬ (v i).Buries t old target) : Orderly v home t' := by
  refine h.revises (i := i) ?_
  cases hoperates with
  | makeDirectories path => exact h.revises_makeDirectories i path
  | createFile path size => exact h.revises_of_writes (Volume.createFile_writes _ t path size)
  | appendFile len path => exact h.revises_of_writes (Volume.appendFile_writes _ t path payload)
  | removeDirectory path recursive =>
    exact h.revises_of_removes (Volume.removeDirectory_removes _ t path recursive)
  | deleteFile path => exact h.revises_deleteFile i path
  | rename hsource path => exact h.revises_rename (hno _ path hsource rfl)
  | openFile path flags => exact h.revises_of_writes (Volume.openFile_writes _ t path flags)

theorem Effect.orderly (he : s.Effect settings source t payload command e)
    (h : Orderly v home t) (hs : s.OneOf v)
    (hno : ∀ w old target, s.volume = .ok w → source = some old → command = .renameTo target →
      ¬ w.Buries t old target) : Orderly v home e.tree := by
  have horderly : ∀ {w : Volume} {fault t'}, s.volume = .ok w →
      w.Operates t source payload command fault t' → Orderly v home t' := by
    intro w fault t' hvolume hoperates
    obtain ⟨i, rfl⟩ := hs.exists_eq hvolume
    exact orderly_of_operates h hoperates fun old target => hno _ old target hvolume
  cases he with
  | refused | answered | mounted | left | began | listed | read | stopped | closed => exact h
  | operated hvolume hoperates => exact horderly hvolume hoperates
  | declined hvolume hoperates => exact horderly hvolume hoperates
  | @opened w flags path _ _ _ hvolume hopen =>
    have hopened := horderly hvolume (.openFile path flags)
    rwa [hopen] at hopened
  | wrote _ _ hwrite => exact h.refilled (Volume.refilled_of_writeAt hwrite)
  | cut _ _ hwrite => exact h.refilled (Volume.refilled_of_writeAt hwrite)

end

theorem orderly_executeMounted (h : Orderly v home t) (hs : s.OneOf v) {instruction : Instruction}
    (hno : ¬ Moment.Buries ⟨s, t⟩ instruction) :
    Orderly v home
      (s.executeMounted settings t instruction.command instruction.payload).tree := by
  refine (effect_executeMounted settings s t instruction.command instruction.payload).orderly h
    (s := s.clearRenameSource) hs fun w source target hvolume hsource hcommand hburies => ?_
  obtain ⟨mount, hmount, rfl⟩ := exists_mounted_of_volume (s := s.clearRenameSource) hvolume
  exact hno ⟨source, target, mount, hcommand, hsource, hmount, hburies⟩

theorem tree_renameTo {source target : String} {mount : Mount} (payload : List UInt8)
    (hsource : s.renameSource = some source) (hmount : s.mounted = some mount) :
    (s.executeMounted settings t (.renameTo target) payload).tree =
      (mount.volume.rename t source target).2 := by
  show (s.renameTo t target).tree = _
  have hvolume : s.clearRenameSource.volume = .ok mount.volume := by
    rw [volume, show s.clearRenameSource.mounted = some mount from hmount]
  rw [renameTo_of_some hsource, change, withVolume_of_ok hvolume]
  split
  next heq => rw [heq]; rfl
  next heq => rw [heq]; rfl

end Session

section

variable {ι : Type} {v : ι → Volume} {home : ι → Location} {settings : StoreSettings}

theorem Moment.not_addressable_of_buries {m : Moment} (h : Orderly v home m.tree)
    (hs : m.session.OneOf v) {instruction : Instruction} (hb : m.Buries instruction) :
    ¬ ∀ i, (v i).Addressable (m.next settings instruction).tree (home i) := by
  obtain ⟨source, target, mount, hcommand, hsource, hmount, hburies⟩ := hb
  obtain ⟨i, hi⟩ := hs mount hmount
  rw [hi] at hburies
  intro haddressable
  refine h.not_addressable_of_buries hburies ?_
  have htree : (m.next settings instruction).tree =
      (mount.volume.rename m.tree source target).2 := by
    unfold next
    rw [hcommand]
    exact Session.tree_renameTo instruction.payload hsource hmount
  rw [← hi, ← htree]
  exact hi ▸ haddressable i

/-- From volumes on in which nothing stands, every entry of theirs is addressable at every moment of
a session on them, exactly if no rename buries an entry. -/
theorem addressable_iff_not_buries (settings : StoreSettings) (v : ι → Volume)
    (home : ι → Location) (m : Moment) (hvacant : Vacant v home m.tree) (run : List Instruction)
    (hon : ∀ before, before <+: run → (m.after settings before).session.OneOf v) :
    (∀ before, before <+: run →
        ∀ i, (v i).Addressable (m.after settings before).tree (home i)) ↔
      ∀ before instruction, before ++ [instruction] <+: run →
        ¬ (m.after settings before).Buries instruction := by
  -- The lemma on rows asks for steps that stay on the volumes: leaving them counts as bad in it,
  -- and `hon` rules that out again.
  have hiff := Volume.forall_isPrefix_foldl_iff
    (fun m : Moment => Orderly v home m.tree ∧ m.session.OneOf v)
    (fun m => (∀ i, (v i).Addressable m.tree (home i)) ∧ m.session.OneOf v)
    (fun m instruction => m.Buries instruction ∨ ¬ (m.next settings instruction).session.OneOf v)
    (fun m h => ⟨h.1.addressable, h.2⟩)
    (fun m instruction h hno => by
      rw [not_or, not_not] at hno
      exact ⟨Session.orderly_executeMounted h.1 h.2 hno.1, hno.2⟩)
    (fun m instruction h hbad hseen => hbad.elim
      (fun hb => Moment.not_addressable_of_buries h.1 h.2 hb hseen.1) fun hoff => hoff hseen.2)
    ⟨hvacant.orderly, hon [] List.nil_prefix⟩ run
  constructor
  · intro hall before instruction hp hb
    exact hiff.1 (fun before hp => ⟨hall before hp, hon before hp⟩) before instruction hp (.inl hb)
  · intro hno before hp
    refine (hiff.2 (fun before instruction hp => ?_) before hp).1
    rw [not_or, not_not]
    refine ⟨hno before instruction hp, ?_⟩
    have hnext := hon _ hp
    rwa [Moment.after, List.foldl_append] at hnext

/-! ## A directory moved down -/

section MoveDown

open Text (encode)

def nested (name : String) (count : Nat) : String :=
  String.join (List.replicate count ("/" ++ name))

def moveDown (n m : Nat) : List Instruction :=
  [⟨.makeDirectory (nested "d" n), []⟩, ⟨.makeDirectory (nested "e" m), []⟩,
   ⟨.renameFrom "/d", []⟩, ⟨.renameTo (nested "e" m ++ "/d"), []⟩]

def onVacantVolume : Moment :=
  ⟨Session.onEmptyVolume, Session.emptyVolume⟩

theorem vacant_onVacantVolume :
    Vacant (fun _ : Unit => ⟨.ofString "vol"⟩) (fun _ => [encode "vol"]) onVacantVolume.tree where
  connected :=
    (Host.Tree.wellFormed_of_nodes (by decide +kernel) (by decide +kernel)).toConnected
  target _ := by decide +kernel
  directory _ := by decide +kernel
  empty _ loc hb := by
    rw [Host.Tree.node?_eq_lookup _ hb.ne_nil, List.lookup_eq_none_iff]
    intro entry hmem
    rw [List.mem_singleton.1 hmem]
    simpa using hb.2

theorem addressable_iff_not_buries_moveDown :
    Vacant (fun _ : Unit => ⟨.ofString "vol"⟩) (fun _ => [encode "vol"]) onVacantVolume.tree ∧
      (∀ before, before <+: moveDown 1 1 → (onVacantVolume.after {} before).session.OneOf
        fun _ : Unit => ⟨.ofString "vol"⟩) ∧
      ((∀ before, before <+: moveDown 1 1 → Unit → Volume.Addressable ⟨.ofString "vol"⟩
          (onVacantVolume.after {} before).tree [encode "vol"]) ↔
        ∀ before instruction, before ++ [instruction] <+: moveDown 1 1 →
          ¬ (onVacantVolume.after {} before).Buries instruction) := by
  have hmounted : ∀ before ∈ (moveDown 1 1).inits,
      (onVacantVolume.after {} before).session.mounted = Session.onEmptyVolume.mounted := by
    decide +kernel
  have hon : ∀ before, before <+: moveDown 1 1 → (onVacantVolume.after {} before).session.OneOf
      fun _ : Unit => ⟨.ofString "vol"⟩ := by
    intro before hp mount hmount
    rw [hmounted before ((List.mem_inits _ _).2 hp)] at hmount
    cases hmount
    exact ⟨(), rfl⟩
  exact ⟨vacant_onVacantVolume, hon,
    addressable_iff_not_buries {} _ _ onVacantVolume vacant_onVacantVolume (moveDown 1 1) hon⟩

/-- Not every row of commands leaves all entries with a written path: directories with 17 levels,
moved below directories with 16, get deeper than a path may be. -/
theorem not_forall_addressable :
    ¬ ∀ (settings : StoreSettings) (mount : Mount) (home : Location) (m : Moment)
      (run : List Instruction), Vacant (fun _ : Unit => mount.volume) (fun _ => home) m.tree →
      m.session.mounted = some mount →
      mount.volume.Addressable (m.after settings run).tree home := by
  intro h
  have haddressable := h {} ⟨"vol", ⟨.ofString "vol"⟩⟩ [encode "vol"] onVacantVolume
    (moveDown 17 16) vacant_onVacantVolume rfl
  obtain ⟨p, hp, hplace⟩ := haddressable.entries
    ([encode "vol"] ++ (List.replicate 16 (encode "e") ++ List.replicate 17 (encode "d")))
    (Host.below_append (by simp)) (by decide +kernel)
  have hlength := congrArg List.length (List.append_cancel_left hplace)
  rw [List.length_append, List.length_replicate, List.length_replicate, VolumePath.names,
    List.length_map] at hlength
  have hdepth : p.segments.length ≤ 32 := (VolumePath.isWritten_iff.1 hp).2
  omega

end MoveDown

end

end VolumeStore
