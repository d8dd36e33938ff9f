import VolumeStore.Proofs.Volume.Appends
import VolumeStore.Proofs.Volume.NamedRefusals

/-!
# Refusals answered as local errors

Nine operations look for entries by their paths. In a volume of directories and files, almost every
refusal names what is in the way. But when the way goes through a file, six of them pass on what the
host says, as a local error: removing and deleting, on the way to the entry, and what puts an entry
in a directory, on the way to the directory. Describing an entry is refused by name in the same
case.
-/

namespace VolumeStore

open Host (Location Name FileId Below maxPathBytes)

namespace Host

variable {t : Tree} {r : Path} {access : Access} {create : Bool}

theorem Tree.exists_openFile (haccess : access.read = true ∨ access.isWritable = true)
    (hcreate : create = true → access.isWritable = true)
    (hfind : (∃ loc id, t.find true r = .ok (.node loc (.file id))) ∨
      create = true ∧ ∃ dir name, t.find true r = .ok (.vacant dir name)) :
    ∃ handle t', t.openFile r access create = .ok (handle, t') ∧ handle.access = access := by
  unfold openFile
  rw [if_neg (by simpa using fun hread => haccess.resolve_left (by simp [hread])),
    if_neg (by simpa using hcreate)]
  obtain ⟨loc, id, hfind⟩ | ⟨hmake, dir, name, hfind⟩ := hfind
  · rw [hfind]
    exact ⟨_, _, rfl, rfl⟩
  · rw [hfind]
    dsimp only
    rw [if_pos hmake]
    exact ⟨_, _, rfl, rfl⟩

end Host

namespace Volume

structure OfFiles (v : Volume) (t : Host.Tree) (home : Location) : Prop extends Plain v t home where
  socketless : ∀ loc, Below home loc → t.node? loc ≠ some .socket

variable {v : Volume} {t base : Host.Tree} {p : VolumePath} {path : String} {home : Location}
  {node : Host.Node} {id : FileId} {x data : List UInt8} {flags : OpenFlags}

theorem access_of_fault?_eq_none (h : flags.fault? = none) :
    ((accessOf flags).read = true ∨ (accessOf flags).isWritable = true) ∧
      (flags.create = true ∨ flags.truncate = true → (accessOf flags).isWritable = true) := by
  obtain ⟨read, write, append, create, truncate⟩ := flags
  revert read write append create truncate
  decide

def Overfull (bytes data : List UInt8) : Prop :=
  data ≠ [] ∧ Host.sizeLimit ≤ bytes.length + data.length

theorem not_stranded_of_filePlace (h : t.Connected)
    (hplace : t.FilePlace (home ++ p.names) x id base) : ¬ Stranded t home p := by
  obtain ⟨segments⟩ := p
  intro hstranded
  have hparts := hstranded
  obtain ⟨⟨above⟩, last, hparent, -⟩ := hparts
  obtain rfl : segments = above ++ [last] := VolumePath.parent?_eq_some_iff.1 hparent
  refine not_stranded_of_directory h ?_ hstranded
  rw [append_names_concat] at hplace
  generalize hloc : home ++ VolumePath.names ⟨above⟩ ++ [Text.encode last] = loc at hplace
  cases hplace with
  | there hfile => exact h.above (by rw [hloc, hfile]; nofun)
  | free hdir _ =>
    obtain ⟨rfl, -⟩ := List.append_inj' hloc rfl
    exact hdir

def Overfilled (t : Host.Tree) (loc : Location) (data : List UInt8) : Prop :=
  ∃ x id base, t.FilePlace loc x id base ∧ Overfull x data

theorem Seated.appendFile_of_filePlace (h : v.Seated t home)
    (hparse : VolumePath.parse path = .ok p) (hfits : v.FitsHost t home p)
    (hplace : t.FilePlace (home ++ p.names) x id base) :
    (¬ Overfull x data ∧ ∃ size, (v.appendFile t path data).1 = .ok size) ∨
      Overfull x data ∧ ∃ failure, (v.appendFile t path data).1 = .error (.host failure) := by
  have happends := h.appendsTo hparse hfits.toSpellable hplace hfits.written
  have hiff := Host.Handle.append_eq_ok_iff base id data
  rw [← Host.Content.length_toList, hplace.toList_content] at hiff
  rw [happends.same, happends.leads.appendFile_eq]
  split
  next failure _ _ hwrite =>
    rw [hwrite] at hiff
    refine .inr ⟨?_, failure, rfl⟩
    by_contra hover
    exact nomatch hiff.2 (or_iff_not_imp_left.2 fun hne => Nat.not_le.1 fun hle => hover ⟨hne, hle⟩)
  next hwrite =>
    rw [hwrite] at hiff
    refine .inl ⟨fun hover => ?_, _, rfl⟩
    exact Nat.not_lt.2 hover.2 ((hiff.1 rfl).resolve_left hover.1)

namespace OfFiles

theorem exists_file (h : v.OfFiles t home) (hnode : t.node? (home ++ p.names) = some node)
    (hdir : node ≠ .directory) : ∃ id, node = .file id := by
  have hb : Below home (home ++ p.names) := by
    refine Host.below_append fun hnil => hdir ?_
    rw [hnil, List.append_nil, h.directory] at hnode
    exact (Option.some.inj hnode).symm
  cases node with
  | directory => exact absurd rfl hdir
  | file id => exact ⟨id, rfl⟩
  | link target => exact absurd hnode (h.linkless _ target hb)
  | socket => exact absurd hnode (h.socketless _ hb)

theorem appendFile_ends (h : v.OfFiles t home) (hparse : VolumePath.parse path = .ok p)
    (hp : v.Usable t home p) (hfits : v.FitsHost t home p)
    (hroom : ¬ Overfilled t (home ++ p.names) data) :
    Ends t home [p] (Stranded t home p) (v.appendFile t path data).1 := by
  have hc := h.confine_eq hparse hp.toSpellable
  refine (h.requireParent_ends hp (by simp)).after (fun error herror => ?_) fun hparent hgo => ?_
  · rw [appendFile, hc]
    dsimp only
    rw [herror]
  -- A file, also an empty one that is made for it, takes the data.
  have hdone : ∀ {x id base}, t.FilePlace (home ++ p.names) x id base →
      Ends t home [p] (Stranded t home p) (v.appendFile t path data).1 := by
    intro x id base hplace
    obtain ⟨-, size, happend⟩ | ⟨hover, -⟩ := h.appendFile_of_filePlace hparse hfits hplace
    · exact .done hgo happend
    · exact absurd ⟨x, id, base, hplace, hover⟩ hroom
  obtain ⟨node, hnode, hfind⟩ | ⟨dir, name, hloc, hdir, hfree, -⟩ :=
    h.find_of_requireParent hp hparent
  · by_cases hdir : node = .directory
    · subst hdir
      have hresult : (v.appendFile t path data).1 = .error (.isADirectory p.render) := by
        rw [appendFile, hc]
        dsimp only
        rw [hparent]
        dsimp only
        rw [if_pos ((h.isDirectory_iff hp).2 hnode)]
      exact .named hgo hresult (.isADirectory (.self (by simp)) hnode)
    · obtain ⟨id, rfl⟩ := h.exists_file hnode hdir
      exact hdone (.there hnode)
  · have hplace := Host.Tree.FilePlace.free hdir hfree
    rw [← hloc] at hplace
    exact hdone hplace

theorem appendFile_settled (h : v.OfFiles t home) (hparse : VolumePath.parse path = .ok p)
    (hfits : v.FitsHost t home p) :
    ((∀ error, (v.appendFile t path data).1 = .error error → Accounts t home [p] error) ↔
      ¬ Stranded t home p ∧ ¬ Overfilled t (home ++ p.names) data) ∧
    (Stranded t home p → (v.appendFile t path data).1 = .error (.host .notDirectory)) ∧
    (Overfilled t (home ++ p.names) data →
      ∃ failure, (v.appendFile t path data).1 = .error (.host failure)) := by
  have hp := h.usable hparse hfits
  by_cases hover : Overfilled t (home ++ p.names) data
  · -- There is a file or room for one, so that the way to it is not cut off.
    obtain ⟨x, id, base, hplace, hfull⟩ := hover
    obtain ⟨hroom, -⟩ | ⟨-, failure, hfail⟩ := h.appendFile_of_filePlace hparse hfits hplace
    · exact absurd hfull hroom
    have hgo : ¬ Stranded t home p := not_stranded_of_filePlace h.connected hplace
    refine ⟨⟨fun hnamed => (nomatch hnamed _ hfail), fun hroom => ?_⟩, fun hstranded => ?_,
      fun _ => ⟨failure, hfail⟩⟩
    · exact absurd ⟨x, id, base, hplace, hfull⟩ hroom.2
    · exact absurd hstranded hgo
  · exact (h.appendFile_ends hparse hp hfits hover).settled hover

theorem requireOpenable_ends (h : v.OfFiles t home) (hp : v.Usable t home p) (create : Bool) :
    Ends t home [p] (create = true ∧ Stranded t home p) (v.requireOpenable t p create) := by
  have hself : IsStage [p] p := .self (by simp)
  unfold requireOpenable
  by_cases hdir : t.node? (home ++ p.names) = some .directory
  · rw [if_pos ((h.isDirectory_iff hp).2 hdir)]
    refine .named (fun hhalts => ?_) rfl (.isADirectory hself hdir)
    rw [hhalts.2.node?_eq_none h.connected] at hdir
    cases hdir
  rw [if_neg (mt (h.isDirectory_iff hp).1 hdir)]
  cases create with
  | true =>
    exact (h.requireParent_ends hp (by simp)).congr ⟨fun hstranded => ⟨rfl, hstranded⟩, And.right⟩
  | false =>
    -- Where nothing is to be made, the directory above is not asked for.
    have hgo : ¬ (false = true ∧ Stranded t home p) := nofun
    rw [if_neg (by decide)]
    by_cases hthere : t.exists? (v.hostPath p) = true
    · rw [if_pos hthere]
      exact .done hgo rfl
    · rw [if_neg hthere]
      exact .named hgo rfl (.fileNotFound hself (by_contra fun hne =>
        hthere ((h.exists?_iff hp).2 hne)))

theorem find_of_requireOpenable (h : v.OfFiles t home) (hp : v.Usable t home p) {create : Bool}
    (hopen : v.requireOpenable t p create = .ok ()) :
    (∃ loc id, t.find true (v.hostPath p) = .ok (.node loc (.file id))) ∨
      create = true ∧ ∃ dir name, t.find true (v.hostPath p) = .ok (.vacant dir name) := by
  unfold requireOpenable at hopen
  split at hopen
  · cases hopen
  next hdir =>
    -- The volume holds directories and files only: what is there and no directory is a file.
    have hfile : ∀ {node}, t.node? (home ++ p.names) = some node →
        ∃ loc id, t.find true (v.hostPath p) = .ok (.node loc (.file id)) := by
      intro node hnode
      obtain ⟨id, rfl⟩ := h.exists_file hnode fun he =>
        hdir ((h.isDirectory_iff hp).2 (he ▸ hnode))
      exact ⟨_, id, h.find_of_node hp (.inl rfl) hnode⟩
    split at hopen
    next hcreate =>
      obtain ⟨node, hnode, -⟩ | ⟨dir, name, -, -, -, hfind⟩ := h.find_of_requireParent hp hopen
      · exact .inl (hfile hnode)
      · exact .inr ⟨hcreate, dir, name, hfind true⟩
    · split at hopen
      next hthere =>
        obtain ⟨node, hnode⟩ := Option.ne_none_iff_exists'.1 ((h.exists?_iff hp).1 hthere)
        exact .inl (hfile hnode)
      · cases hopen

theorem openFile_ends (h : v.OfFiles t home) (hparse : VolumePath.parse path = .ok p)
    (hp : v.Usable t home p) (hflags : flags.fault? = none) :
    Ends t home [p] (flags.create = true ∧ Stranded t home p) (v.openFile t path flags).1 := by
  unfold openFile
  rw [h.confine_eq hparse hp.toSpellable]
  dsimp only
  refine (h.requireOpenable_ends hp flags.create).after (fun error herror => by rw [herror])
    fun hopenable hgo => ?_
  -- Flags without a fault ask for an access that the host grants.
  obtain ⟨haccess, hchange⟩ := access_of_fault?_eq_none hflags
  obtain ⟨handle, t', hopen, hhandle⟩ := Host.Tree.exists_openFile haccess
    (fun hcreate => hchange (.inl hcreate)) (h.find_of_requireOpenable hp hopenable)
  rw [hopenable]
  dsimp only
  rw [hopen]
  dsimp only
  by_cases htruncate : flags.truncate = true
  · obtain ⟨t'', hsize⟩ := Host.Tree.setSize_zero handle t' (hhandle ▸ hchange (.inr htruncate))
    rw [if_pos htruncate, hsize]
    exact .done hgo rfl
  · rw [if_neg htruncate]
    exact .done hgo rfl

end OfFiles

/-! ## All operations -/

/-- An operation that looks for entries of the volume by their paths. -/
inductive PathCall where
  | makeDirectories (path : String)
  | createFile (path : String) (size : UInt64)
  | appendFile (path : String) (data : List UInt8)
  | stat (path : String)
  | removeDirectory (path : String) (recursive : Bool)
  | deleteFile (path : String)
  | rename (source target : String)
  | listDirectory (path : String)
  | openFile (path : String) (flags : OpenFlags)
deriving DecidableEq, Repr

namespace PathCall

def RefusedWith (v : Volume) (t : Host.Tree) : PathCall → VolumeError → Prop
  | .makeDirectories path, error => (v.makeDirectories t path).1 = .error error
  | .createFile path size, error => (v.createFile t path size).1 = .error error
  | .appendFile path data, error => (v.appendFile t path data).1 = .error error
  | .stat path, error => v.stat t path = .error error
  | .removeDirectory path recursive, error =>
    (v.removeDirectory t path recursive).1 = .error error
  | .deleteFile path, error => (v.deleteFile t path).1 = .error error
  | .rename source target, error => (v.rename t source target).1 = .error error
  | .listDirectory path, error => v.listDirectory t path = .error error
  | .openFile path flags, error => (v.openFile t path flags).1 = .error error

def written : PathCall → List String
  | .rename source target => [source, target]
  | .makeDirectories path | .createFile path _ | .appendFile path _ | .stat path
  | .removeDirectory path _ | .deleteFile path | .listDirectory path | .openFile path _ => [path]

/-- A file can have the size it is made with, and flags are usable. -/
def Suits : PathCall → Prop
  | .createFile _ size => size.toNat < Host.sizeLimit
  | .openFile _ flags => flags.fault? = none
  | _ => True

/-- The operation can be asked for, with written forms of these paths that are short enough to be
looked up on the host. -/
structure Legible (v : Volume) (t : Host.Tree) (home : Location) (call : PathCall)
    (ps : List VolumePath) : Prop where
  paths : List.Forall₂ (fun path p => VolumePath.parse path = .ok p ∧ v.FitsHost t home p)
    call.written ps
  suits : call.Suits

/-- The operation comes upon a way that is cut off, and does not expect it: the way to the entry
that it removes, or to the directory that should hold an entry that it makes. -/
def Halts (t : Host.Tree) (home : Location) : PathCall → List VolumePath → Prop
  | .createFile _ _, [p] => Stranded t home p
  | .appendFile _ _, [p] => Stranded t home p
  | .removeDirectory _ _, [p] => CutOff t home p
  | .deleteFile _, [p] => CutOff t home p
  | .rename _ _, [p, q] => t.node? (home ++ p.names) ≠ none ∧
      ¬ (p.segments <+: q.segments ∧ q ≠ p) ∧ Stranded t home q
  | .openFile _ flags, [p] => flags.create = true ∧ Stranded t home p
  | _, _ => False

def Overfills (t : Host.Tree) (home : Location) : PathCall → List VolumePath → Prop
  | .appendFile _ data, [p] => Overfilled t (home ++ p.names) data
  | _, _ => False

variable {call : PathCall} {ps : List VolumePath}

theorem exists_single {R : String → VolumePath → Prop} (h : List.Forall₂ R [path] ps) :
    ∃ p, ps = [p] ∧ R path p := by
  cases h with
  | cons hp hrest =>
    cases hrest
    exact ⟨_, rfl, hp⟩

theorem exists_pair {path' : String} {R : String → VolumePath → Prop}
    (h : List.Forall₂ R [path, path'] ps) : ∃ p q, ps = [p, q] ∧ R path p ∧ R path' q := by
  cases h with
  | cons hp hrest =>
    obtain ⟨q, rfl, hq⟩ := exists_single hrest
    exact ⟨_, q, rfl, hp, hq⟩

theorem settled (h : v.OfFiles t home) (hcall : call.Legible v t home ps) :
    ((∀ error, call.RefusedWith v t error → Accounts t home ps error) ↔
      ¬ call.Halts t home ps ∧ ¬ call.Overfills t home ps) ∧
    (call.Halts t home ps → call.RefusedWith v t (.host .notDirectory)) ∧
    (call.Overfills t home ps → ∃ failure, call.RefusedWith v t (.host failure)) := by
  obtain ⟨hpaths, hsuits⟩ := hcall
  -- How each operation can end is known; what is left is to read its paths.
  cases call with
  | rename source target =>
    obtain ⟨p, q, rfl, ⟨hparse, hfits⟩, hparse', hfits'⟩ := exists_pair hpaths
    exact (h.rename_ends hparse hparse' (h.usable hparse hfits)
      (h.usable hparse' hfits')).settled not_false
  | makeDirectories path =>
    obtain ⟨p, rfl, hparse, hfits⟩ := exists_single hpaths
    exact (h.makeDirectories_ends hparse (h.usable hparse hfits)).settled not_false
  | createFile path size =>
    obtain ⟨p, rfl, hparse, hfits⟩ := exists_single hpaths
    exact (h.createFile_ends hparse (h.usable hparse hfits) hsuits).settled not_false
  | appendFile path data =>
    obtain ⟨p, rfl, hparse, hfits⟩ := exists_single hpaths
    exact h.appendFile_settled hparse hfits
  | stat path =>
    obtain ⟨p, rfl, hparse, hfits⟩ := exists_single hpaths
    exact (h.stat_ends hparse (h.usable hparse hfits)).settled not_false
  | removeDirectory path recursive =>
    obtain ⟨p, rfl, hparse, hfits⟩ := exists_single hpaths
    exact (h.removeDirectory_ends hparse (h.usable hparse hfits) recursive).settled not_false
  | deleteFile path =>
    obtain ⟨p, rfl, hparse, hfits⟩ := exists_single hpaths
    exact (h.deleteFile_ends hparse (h.usable hparse hfits)).settled not_false
  | listDirectory path =>
    obtain ⟨p, rfl, hparse, hfits⟩ := exists_single hpaths
    exact (h.listDirectory_ends hparse (h.usable hparse hfits)).settled not_false
  | openFile path flags =>
    obtain ⟨p, rfl, hparse, hfits⟩ := exists_single hpaths
    exact (h.openFile_ends hparse (h.usable hparse hfits) hsuits).settled not_false

/-- In a volume of directories and files, the error of an operation says what is the case in the
tree, and so it is answered as an action not taken, with two exceptions. An operation that comes
upon a way that is cut off without expecting it fails with what the host says, and so does one that
appends more to a file than the file can hold. -/
theorem named_iff (h : v.OfFiles t home) (hcall : call.Legible v t home ps) :
    ((∀ error, call.RefusedWith v t error → Accounts t home ps error) ↔
      ¬ call.Halts t home ps ∧ ¬ call.Overfills t home ps) ∧
    (call.Halts t home ps → call.RefusedWith v t (.host .notDirectory)) ∧
    (call.Overfills t home ps → ∃ failure, call.RefusedWith v t (.host failure)) ∧
    ∀ error, Accounts t home ps error → error.replyCode.1 = ReplyCode.notTaken := by
  obtain ⟨hnamed, hhalts, hoverfills⟩ := settled h hcall
  exact ⟨hnamed, hhalts, hoverfills, fun _ => Accounts.notTaken⟩

section SmallVolume

open Text (encode)

theorem ofFiles_smallTree : OfFiles ⟨.ofString "vol"⟩ smallTree [encode "vol"] where
  toPlain := plain_smallTree
  socketless loc hb hsocket := by
    have hmem := Host.Tree.mem_nodes_of_node? hb.ne_nil hsocket
    simp [smallTree] at hmem

theorem legible_below_file (call : PathCall) (hwritten : call.written = ["/a/f/x"])
    (hsuits : call.Suits) :
    call.Legible ⟨.ofString "vol"⟩ smallTree [encode "vol"] [⟨["a", "f", "x"]⟩] where
  paths := by
    rw [hwritten]
    exact .cons ⟨by decide +kernel, by decide +kernel⟩ .nil
  suits := hsuits

/-- What should be below a file is not found, which is told when it is to be described. When it is
to be deleted, the error is the one of the host. -/
theorem named_iff_smallTree :
    (∀ error, (stat "/a/f/x").RefusedWith ⟨.ofString "vol"⟩ smallTree error →
      Accounts smallTree [encode "vol"] [⟨["a", "f", "x"]⟩] error) ∧
    (deleteFile "/a/f/x").RefusedWith ⟨.ofString "vol"⟩ smallTree (.host .notDirectory) := by
  have hstat := named_iff ofFiles_smallTree (legible_below_file (stat "/a/f/x") rfl trivial)
  have hdelete :=
    named_iff ofFiles_smallTree (legible_below_file (deleteFile "/a/f/x") rfl trivial)
  have hcut : CutOff smallTree [encode "vol"] ⟨["a", "f", "x"]⟩ :=
    ⟨⟨["a", "f"]⟩, ⟨⟨["x"], rfl⟩, .file 0, by decide +kernel, nofun⟩, by decide⟩
  exact ⟨hstat.1.2 ⟨nofun, nofun⟩, hdelete.2.1 hcut⟩

/-- Not every refusal is answered as an action not taken: what should be below a file cannot be
deleted, and this is a local error. -/
theorem not_forall_notTaken :
    ¬ ∀ (v : Volume) (t : Host.Tree) (home : Location) (call : PathCall) (ps : List VolumePath)
      (error : VolumeError), v.OfFiles t home → call.Legible v t home ps →
      call.RefusedWith v t error → error.replyCode.1 = ReplyCode.notTaken := by
  intro h
  have hrefused : (deleteFile "/a/f/x").RefusedWith ⟨.ofString "vol"⟩ smallTree
      (.host .notDirectory) := by
    change (Volume.deleteFile ⟨.ofString "vol"⟩ smallTree "/a/f/x").1 = .error (.host .notDirectory)
    decide +kernel
  have hcode := h _ _ _ _ _ _ ofFiles_smallTree
    (legible_below_file (deleteFile "/a/f/x") rfl trivial) hrefused
  exact absurd hcode (by decide)

end SmallVolume

end PathCall

end Volume

end VolumeStore
