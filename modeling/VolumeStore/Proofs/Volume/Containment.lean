import VolumeStore.Proofs.Volume.Effects

/-!
# Containment of a volume

A row of operations on a volume, with the files that they open. What stands outside the directory of
the volume stays as it is, exactly as long as no operation takes an entry by a name that a link
leads to outside: the check of a path looks behind a link at its end, while deleting and renaming
take the link itself.
-/

namespace VolumeStore.Volume

open Host (Location Name Below FileId)
open Host.Tree (StaysWithin find_eq_ok target_eq_ok_iff entry_eq_ok_iff)

/-- An operation that may change a volume. Files are written by their number, in the order in which
they were opened. -/
inductive Call where
  | makeDirectories (path : String)
  | createFile (path : String) (size : UInt64)
  | appendFile (path : String) (data : List UInt8)
  | removeDirectory (path : String) (recursive : Bool)
  | deleteFile (path : String)
  | rename (source target : String)
  | openFile (path : String) (flags : OpenFlags)
  | writeAt (file : Nat) (offset : UInt64) (data : List UInt8) (append : Bool)
deriving DecidableEq, Repr

structure Files where
  tree : Host.Tree
  handles : List Host.Handle := []

def perform (v : Volume) (s : Files) : Call → Files
  | .makeDirectories path => { s with tree := (v.makeDirectories s.tree path).2 }
  | .createFile path size => { s with tree := (v.createFile s.tree path size).2 }
  | .appendFile path data => { s with tree := (v.appendFile s.tree path data).2 }
  | .removeDirectory path recursive =>
    { s with tree := (v.removeDirectory s.tree path recursive).2 }
  | .deleteFile path => { s with tree := (v.deleteFile s.tree path).2 }
  | .rename source target => { s with tree := (v.rename s.tree source target).2 }
  | .openFile path flags =>
    match v.openFile s.tree path flags with
    | (.ok (handle, _), t) => ⟨t, s.handles ++ [handle]⟩
    | (.error _, t) => { s with tree := t }
  | .writeAt file offset data append =>
    match s.handles[file]? with
    | none => s
    | some handle =>
      let (_, handle, t) := Volume.writeAt s.tree handle offset data append
      ⟨t, s.handles.set file handle⟩

def performAll (v : Volume) (s : Files) (calls : List Call) : Files :=
  calls.foldl v.perform s

/-- The same entries stand outside a place, and the files among them have the same bytes. -/
def SameOutside (home : Location) (t t' : Host.Tree) : Prop :=
  ∀ loc, ¬ Below home loc → t'.node? loc = t.node? loc ∧
    ∀ id, t.node? loc = some (.file id) → t'.content id = t.content id

/-- The root of the volume leads to `home`, whatever happens below. -/
def Anchored (v : Volume) (home : Location) (t : Host.Tree) : Prop :=
  ∀ t' : Host.Tree, t'.home = t.home → (∀ loc, ¬ Below home loc → t'.node? loc = t.node? loc) →
    t'.target v.root = .ok (home, .directory)

/-- The operation takes away an entry outside `home`, or puts another one in its place: it deletes
such an entry or gives it a new name, or gives its name to an entry that differs from it. -/
def ReachesOut (v : Volume) (home : Location) (t : Host.Tree) : Call → Prop
  | .deleteFile path => ∃ p loc node, v.confine t path = .ok p ∧
      t.entry (v.hostPath p) = .ok (loc, node) ∧ node ≠ .directory ∧ ¬ Below home loc
  | .rename source target => ∃ p q a b, v.confine t source = .ok p ∧ v.confine t target = .ok q ∧
      (v.rename t source target).1 = .ok q.render ∧
      t.renamePlaces? (v.hostPath p) (v.hostPath q) = some (a, b) ∧
      (¬ Below home a ∨ ¬ Below home b ∧ t.node? b ≠ t.node? a)
  | _ => False

variable {v : Volume} {t t' t'' : Host.Tree} {home : Location} {s : Files} {call : Call}

namespace SameOutside

theorem refl (home : Location) (t : Host.Tree) : SameOutside home t t :=
  fun _ _ => ⟨rfl, fun _ _ => rfl⟩

theorem symm (h : SameOutside home t t') : SameOutside home t' t := by
  intro loc hloc
  obtain ⟨hnode, hcontent⟩ := h loc hloc
  exact ⟨hnode.symm, fun id hid => (hcontent id (hnode ▸ hid)).symm⟩

theorem trans (h : SameOutside home t t') (h' : SameOutside home t' t'') :
    SameOutside home t t'' := by
  intro loc hloc
  obtain ⟨hnode, hcontent⟩ := h loc hloc
  obtain ⟨hnode', hcontent'⟩ := h' loc hloc
  exact ⟨hnode'.trans hnode, fun id hid =>
    (hcontent' id (hnode.trans hid)).trans (hcontent id hid)⟩

end SameOutside

/-! ## What every operation keeps -/

/-- Between two operations: the volume stands at `home` whatever happens below it, and every open
file has no name outside. -/
structure Contained (v : Volume) (home : Location) (s : Files) : Prop where
  stands : v.Stands s.tree home
  anchored : v.Anchored home s.tree
  inside : ∀ handle ∈ s.handles, handle.file < s.tree.contents.length ∧
    ∀ loc, s.tree.node? loc = some (.file handle.file) → Below home loc

structure KeepsOutside (home : Location) (t t' : Host.Tree) : Prop where
  wellFormed : t'.WellFormed
  workingDirectory : t'.home = t.home
  stored : t.contents.length ≤ t'.contents.length
  same : SameOutside home t t'

theorem KeepsOutside.of_staysWithin {ids : FileId → Prop} (hwf : t.WellFormed)
    (h : StaysWithin home ids t t')
    (hids : ∀ loc id, ids id → t.node? loc = some (.file id) → Below home loc) :
    KeepsOutside home t t' where
  wellFormed := h.wellFormed
  workingDirectory := h.home
  stored := h.stored
  same loc hloc := ⟨h.node?_eq hloc, fun id hid =>
    h.content id (hwf.stored hid) fun hin => hloc (hids loc id hin hid)⟩

theorem KeepsOutside.of_holds (hwf : t.WellFormed) (h : StaysWithin home (t.Holds home) t t') :
    KeepsOutside home t t' := by
  refine .of_staysWithin hwf h fun loc id hid hnode => ?_
  obtain ⟨loc', hb, hnode'⟩ := hid
  exact hwf.unshared hnode' hnode ▸ hb

theorem Anchored.of_keepsOutside (h : v.Anchored home t) (hk : KeepsOutside home t t') :
    v.Anchored home t' := by
  intro t'' hhome hsame
  refine h t'' (hhome.trans hk.workingDirectory) fun loc hloc => ?_
  rw [hsame loc hloc, (hk.same loc hloc).1]

theorem Contained.of_keepsOutside (h : v.Contained home s) {handles : List Host.Handle}
    (hk : KeepsOutside home s.tree t')
    (hhandles : ∀ handle ∈ handles, (∃ handle' ∈ s.handles, handle.file = handle'.file) ∨
      t'.Holds home handle.file) : v.Contained home ⟨t', handles⟩ where
  stands := by
    refine ⟨hk.wellFormed, ?_, ?_⟩
    · exact h.anchored t' hk.workingDirectory fun loc hloc => (hk.same loc hloc).1
    · exact (hk.same home (Host.not_below_self home)).1.trans h.stands.directory
  anchored := h.anchored.of_keepsOutside hk
  inside handle hmem := by
    obtain ⟨handle', hmem', hfile⟩ | ⟨loc', hb, hnode⟩ := hhandles handle hmem
    · obtain ⟨hlt, hbelow⟩ := h.inside handle' hmem'
      rw [hfile]
      refine ⟨Nat.lt_of_lt_of_le hlt hk.stored, fun loc hloc => ?_⟩
      by_contra hout
      exact hout (hbelow loc ((hk.same loc hout).1 ▸ hloc))
    · exact ⟨hk.wellFormed.stored hnode, fun loc hloc => hk.wellFormed.unshared hnode hloc ▸ hb⟩

theorem Contained.of_tree (h : v.Contained home s) (hk : KeepsOutside home s.tree t') :
    v.Contained home { s with tree := t' } :=
  h.of_keepsOutside hk fun handle hmem => .inl ⟨handle, hmem, rfl⟩

/-! ## One operation -/

theorem keepsOutside_move {a b : Location} (hwf : t.WellFormed) (hm : (t.move a b).WellFormed)
    (ha : Below home a) (hab : ¬ a <+: b) (hba : ¬ b <+: a) {target : List UInt8}
    (hb : t.node? b = some (.link target)) (hsame : t.node? b = t.node? a) :
    KeepsOutside home t (t.move a b) where
  wellFormed := hm
  workingDirectory := rfl
  stored := Nat.le_refl _
  same loc hloc := by
    refine ⟨?_, fun _ _ => rfl⟩
    rw [Host.Tree.node?_move t ha.ne_nil hab hba]
    -- Nothing stands below a link, before the move or after it.
    have hbelow : ∀ {loc' : Location} {rest : List Name}, t.node? loc' = some (.link target) →
        rest ≠ [] → t.node? (loc' ++ rest) = none := fun hlink hrest =>
      hwf.node?_below_eq_none (by simp [hlink]) (Host.below_append hrest)
    split
    next hpre =>
      obtain ⟨rest, rfl⟩ := hpre
      rw [List.drop_left]
      by_cases hrest : rest = []
      · rw [hrest, List.append_nil, List.append_nil, hsame]
      · rw [hbelow hb hrest, hbelow (hsame ▸ hb) hrest]
    · split
      next hpre => exact absurd (ha.of_prefix hpre) hloc
      · rfl

theorem Contained.keepsOutside_rename (h : v.Contained home s) {source target : String}
    (hin : ¬ v.ReachesOut home s.tree (.rename source target)) :
    KeepsOutside home s.tree (v.rename s.tree source target).2 := by
  have hwf := h.stands.wellFormed
  obtain hsame | ⟨p, q, a, b, hc, hc', hok, hmoves, hmove⟩ := h.stands.rename_cases source target
  · rw [hsame]
    exact .of_holds hwf (h.stands.refl _)
  · -- Neither end is outside, or an equal link is.
    have hends : Below home a ∧ (Below home b ∨ s.tree.node? b = s.tree.node? a) := by
      by_contra hno
      refine hin ⟨p, q, a, b, hc, hc', hok, hmoves.places, ?_⟩
      by_cases ha : Below home a
      · refine .inr ⟨fun hb => hno ⟨ha, .inl hb⟩, fun he => hno ⟨ha, .inr he⟩⟩
      · exact .inl ha
    rw [hmove]
    obtain ⟨ha, hb⟩ := hends
    by_cases hbelow : Below home b
    · exact .of_holds hwf ⟨Host.Tree.changesOnly_move ha hbelow hmoves.apart hmoves.apart',
        hmoves.wellFormed⟩
    · obtain ⟨link, hlink⟩ := hmoves.target hbelow
      exact keepsOutside_move hwf hmoves.wellFormed ha hmoves.apart hmoves.apart' hlink
        (hb.resolve_left hbelow)

theorem Contained.openFile (h : v.Contained home s) (path : String) (flags : OpenFlags) :
    v.Contained home (v.perform s (.openFile path flags)) ∧
      SameOutside home s.tree (v.perform s (.openFile path flags)).tree := by
  have hwf := h.stands.wellFormed
  obtain ⟨hopen, hholds⟩ := h.stands.openFile path flags
  simp only [Volume.perform]
  split
  next handle path' t' heq =>
    rw [heq] at hopen hholds
    have hk := KeepsOutside.of_holds hwf hopen
    refine ⟨h.of_keepsOutside hk fun handle' hmem => ?_, hk.same⟩
    obtain hold | hnew := List.mem_append.1 hmem
    · exact .inl ⟨handle', hold, rfl⟩
    · obtain rfl := List.mem_singleton.1 hnew
      exact .inr (hholds handle' path' rfl)
  next t' heq =>
    rw [heq] at hopen
    have hk := KeepsOutside.of_holds hwf hopen
    exact ⟨h.of_tree hk, hk.same⟩

theorem Contained.writeAt (h : v.Contained home s) (file : Nat) (offset : UInt64)
    (data : List UInt8) (append : Bool) :
    v.Contained home (v.perform s (.writeAt file offset data append)) ∧
      SameOutside home s.tree (v.perform s (.writeAt file offset data append)).tree := by
  have hwf := h.stands.wellFormed
  simp only [Volume.perform]
  split
  · exact ⟨h, .refl home s.tree⟩
  next handle hfile =>
    have hmem := List.mem_of_getElem? hfile
    obtain ⟨hlt, hbelow⟩ := h.inside handle hmem
    obtain ⟨⟨n, hposition⟩, hfilled⟩ := writeAt_cases s.tree handle offset data append
    have hk : KeepsOutside home s.tree (Volume.writeAt s.tree handle offset data append).2.2 :=
      .of_staysWithin hwf ⟨hfilled.changesOnly home,
        hfilled.preserved (fun _ c hu => hu.setContent _ c) hwf⟩
        fun loc id hid hnode => hbelow loc (hid ▸ hnode)
    refine ⟨h.of_keepsOutside hk fun handle' hmem' => .inl ?_, hk.same⟩
    -- The handle moves on, but to no other file.
    obtain hold | rfl := List.mem_or_eq_of_mem_set hmem'
    · exact ⟨handle', hold, rfl⟩
    · exact ⟨handle, hmem, by rw [hposition]⟩

theorem Contained.perform (h : v.Contained home s) (hin : ¬ v.ReachesOut home s.tree call) :
    v.Contained home (v.perform s call) ∧ SameOutside home s.tree (v.perform s call).tree := by
  -- A call that stays within the volume keeps all that is outside.
  have hstays : ∀ {t'}, StaysWithin home (s.tree.Holds home) s.tree t' →
      v.Contained home { s with tree := t' } ∧ SameOutside home s.tree t' := fun hstays =>
    have hk := KeepsOutside.of_holds h.stands.wellFormed hstays
    ⟨h.of_tree hk, hk.same⟩
  cases call with
  | makeDirectories path => exact hstays (h.stands.makeDirectories path)
  | createFile path size => exact hstays (h.stands.createFile path size)
  | appendFile path data => exact hstays (h.stands.appendFile path data)
  | removeDirectory path recursive => exact hstays (h.stands.removeDirectory path recursive)
  | deleteFile path =>
    refine hstays (h.stands.deleteFile path fun p loc node hc hentry hnode => ?_)
    by_contra hout
    exact hin ⟨p, loc, node, hc, hentry, hnode, hout⟩
  | rename source target =>
    have hk := h.keepsOutside_rename hin
    exact ⟨h.of_tree hk, hk.same⟩
  | openFile path flags => exact h.openFile path flags
  | writeAt file offset data append => exact h.writeAt file offset data append

theorem not_sameOutside_deleteFile {path : String}
    (hout : v.ReachesOut home s.tree (.deleteFile path)) :
    ¬ SameOutside home s.tree (v.deleteFile s.tree path).2 := by
  intro hsame
  obtain ⟨p, loc, node, hc, hentry, hnode, hloc⟩ := hout
  have hdelete := deleteFile_of_entry hc hentry hnode
  have hstood : s.tree.node? loc = some node := by
    obtain ⟨k, hleads⟩ := find_eq_ok (entry_eq_ok_iff.1 hentry)
    exact hleads.node?_of_ne_directory hnode
  have hne : loc ≠ [] := by
    rintro rfl
    simp_all
  have hgone := (hsame loc hloc).1
  rw [hdelete, Host.Tree.node?_remove s.tree hne, if_pos List.prefix_rfl, hstood] at hgone
  cases hgone

theorem Contained.not_sameOutside_rename (h : v.Contained home s) {source target : String}
    (hout : v.ReachesOut home s.tree (.rename source target)) :
    ¬ SameOutside home s.tree (v.rename s.tree source target).2 := by
  intro hsame
  obtain ⟨p, q, a, b, hc, hc', hok, hplaces, hends⟩ := hout
  obtain ⟨p', q', hcp, hcq, hp, hq, -, hrename⟩ := rename_eq_ok hok
  cases hc.symm.trans hcp
  cases hc'.symm.trans hcq
  obtain ⟨hnone, -⟩ | ⟨a', b', hmoves, hmove⟩ := h.stands.moves_of_rename hc hc' hp hq hrename
  · rw [hnone] at hplaces
    cases hplaces
  · cases hplaces.symm.trans hmoves.places
    have hne : a ≠ [] := fun hnil => hmoves.apart (hnil ▸ List.nil_prefix)
    have hnode := Host.Tree.node?_move s.tree hne hmoves.apart hmoves.apart'
    rw [hmove] at hsame
    obtain ha | ⟨hb, hdiffer⟩ := hends
    · -- The entry is gone from its old place.
      have hgone := (hsame a ha).1
      rw [hnode, if_neg hmoves.apart', if_pos List.prefix_rfl] at hgone
      exact hmoves.present hgone.symm
    · -- The entry stands at its new place, where something else stood.
      have hnew := (hsame b hb).1
      rw [hnode, if_pos List.prefix_rfl, List.drop_length, List.append_nil] at hnew
      exact hdiffer hnew.symm

theorem Contained.not_sameOutside (h : v.Contained home s)
    (hout : v.ReachesOut home s.tree call) :
    ¬ SameOutside home s.tree (v.perform s call).tree := by
  cases call with
  | deleteFile path => exact not_sameOutside_deleteFile hout
  | rename source target => exact h.not_sameOutside_rename hout
  | makeDirectories path => exact absurd hout id
  | createFile path size => exact absurd hout id
  | appendFile path data => exact absurd hout id
  | removeDirectory path recursive => exact absurd hout id
  | openFile path flags => exact absurd hout id
  | writeAt file offset data append => exact absurd hout id

/-! ## All operations -/

/-- A row of steps of which the good ones keep an invariant, while a bad one shows at once: nothing
shows at any moment, exactly if no step is bad. -/
theorem forall_isPrefix_foldl_iff {σ κ : Type} {step : σ → κ → σ} (inv seen : σ → Prop)
    (bad : σ → κ → Prop) (hseen : ∀ s, inv s → seen s)
    (hgood : ∀ s c, inv s → ¬ bad s c → inv (step s c))
    (hbad : ∀ s c, inv s → bad s c → ¬ seen (step s c)) {s : σ} (h : inv s) (row : List κ) :
    (∀ before, before <+: row → seen (before.foldl step s)) ↔
      ∀ before c, before ++ [c] <+: row → ¬ bad (before.foldl step s) c := by
  -- The induction is on the row, with the state that its first step leads to.
  induction row generalizing s with
  | nil =>
    constructor
    · intro _ before c hp
      simp at hp
    · intro _ before hp
      rw [List.prefix_nil.1 hp]
      exact hseen s h
  | cons first row ih =>
    constructor
    · intro hall before c hp
      -- After a bad first step, the prefix of this one step would not look as it should.
      have hin : ¬ bad s first := fun hbad' => hbad s first h hbad' (hall [first] (by simp))
      cases before with
      | nil =>
        obtain ⟨rfl, -⟩ := List.cons_prefix_cons.1 hp
        exact hin
      | cons first' before =>
        obtain ⟨rfl, hp'⟩ := List.cons_prefix_cons.1 hp
        refine (ih (hgood s first' h hin)).1 (fun before' hbefore => ?_) before c hp'
        exact hall (first' :: before') (List.cons_prefix_cons.2 ⟨rfl, hbefore⟩)
    · intro hno before hp
      cases before with
      | nil => exact hseen s h
      | cons first' before =>
        obtain ⟨rfl, hp'⟩ := List.cons_prefix_cons.1 hp
        refine (ih (hgood s first' h (hno [] first' (by simp)))).2 (fun before' c hbefore => ?_)
          before hp'
        exact hno (first' :: before') c (List.cons_prefix_cons.2 ⟨rfl, hbefore⟩)

theorem Contained.sameOutside_iff (h : v.Contained home s) (calls : List Call) :
    (∀ before, before <+: calls → SameOutside home s.tree (v.performAll s before).tree) ↔
      ∀ before call, before ++ [call] <+: calls →
        ¬ v.ReachesOut home (v.performAll s before).tree call := by
  refine forall_isPrefix_foldl_iff
    (fun s' => v.Contained home s' ∧ SameOutside home s.tree s'.tree)
    (fun s' => SameOutside home s.tree s'.tree)
    (fun s' call => v.ReachesOut home s'.tree call) (fun _ h => h.2) ?_ ?_
    ⟨h, .refl home s.tree⟩ calls
  · intro s' call ⟨hcontained, hsame⟩ hin
    obtain ⟨hcontained', hsame'⟩ := hcontained.perform hin
    exact ⟨hcontained', hsame.trans hsame'⟩
  · intro s' call ⟨hcontained, hsame⟩ hout hsame'
    exact hcontained.not_sameOutside hout (hsame.symm.trans hsame')

/-- Whatever the links in a well-formed tree, a row of operations keeps everything outside the
directory of the volume at every moment, exactly if none of them reaches out. -/
theorem sameOutside_iff_not_reachesOut (v : Volume) (t : Host.Tree) (home : Location)
    (hwf : t.WellFormed) (hdirectory : t.node? home = some .directory)
    (hanchored : v.Anchored home t) (calls : List Call) :
    (∀ before, before <+: calls → SameOutside home t (v.performAll { tree := t } before).tree) ↔
      ∀ before call, before ++ [call] <+: calls →
        ¬ v.ReachesOut home (v.performAll { tree := t } before).tree call := by
  have htarget := hanchored t rfl fun _ _ => rfl
  have h : v.Contained home { tree := t } :=
    ⟨⟨hwf, htarget, hdirectory⟩, hanchored, fun _ hmem => absurd hmem List.not_mem_nil⟩
  exact h.sameOutside_iff calls

/-! ## Roots without detours -/

theorem anchored_of_descend (hwf : t.Connected) (hu : Host.Tree.pathFailure? v.root = none)
    (hentry : ∀ name ∈ Host.Path.split v.root.bytes, Host.IsEntryName name)
    (hhome : v.start t ++ Host.Path.split v.root.bytes = home)
    (hdirectory : t.node? home = some .directory) : v.Anchored home t := by
  intro t' hworking hsame
  have hstart : v.start t' = v.start t := by rw [start, start, hworking]
  have hdown : ∀ loc, Below (v.start t') loc →
      loc <+: v.start t' ++ Host.Path.split v.root.bytes → t'.node? loc = some .directory := by
    intro loc _ hp
    rw [hstart, hhome] at hp
    rw [hsame loc fun hb => hb.2 (hp.eq_of_length_le hb.1.length_le)]
    exact hwf.directory_of_prefix hp hdirectory
  have hwalk : t'.walkLinks true Host.maxLinks (v.start t')
      (Host.Path.split v.root.bytes ++ []) = _ := Host.Tree.walkLinks_descend hentry hdown []
  rw [List.append_nil, Host.Tree.walkLinks_nil, hstart, hhome] at hwalk
  rw [target_eq_ok_iff, find_root hu, hstart, hwalk]

/-! ## A way out and back -/

section OutAndBack

open Text (encode)

/-- A volume with a link to a directory outside, in which a link leads back to a file of the volume.
-/
def outAndBack : Host.Tree where
  nodes :=
    [([encode "vol"], .directory),
     ([encode "vol", encode "f"], .file 0),
     ([encode "vol", encode "link"], .link (encode "../out")),
     ([encode "out"], .directory),
     ([encode "out", encode "back"], .link (encode "../vol/f"))]
  contents := [{}]

theorem wellFormed_outAndBack : outAndBack.WellFormed :=
  Host.Tree.wellFormed_of_nodes (by decide +kernel) (by decide +kernel)

theorem anchored_outAndBack : Anchored ⟨.ofString "vol"⟩ [encode "vol"] outAndBack :=
  anchored_of_descend wellFormed_outAndBack.toConnected (by decide +kernel)
    (by decide +kernel) (by decide +kernel) (by decide +kernel)

theorem sameOutside_iff_not_reachesOut_outAndBack :
    outAndBack.WellFormed ∧ outAndBack.node? [encode "vol"] = some .directory ∧
      Anchored ⟨.ofString "vol"⟩ [encode "vol"] outAndBack ∧
      ((∀ before, before <+: [Call.appendFile "/f" [0x78], .deleteFile "/link/back"] →
          SameOutside [encode "vol"] outAndBack
            (performAll ⟨.ofString "vol"⟩ { tree := outAndBack } before).tree) ↔
        ∀ before call, before ++ [call] <+:
            [Call.appendFile "/f" [0x78], .deleteFile "/link/back"] →
          ¬ ReachesOut ⟨.ofString "vol"⟩ [encode "vol"]
            (performAll ⟨.ofString "vol"⟩ { tree := outAndBack } before).tree call) :=
  ⟨wellFormed_outAndBack, by decide +kernel, anchored_outAndBack,
    sameOutside_iff_not_reachesOut _ _ _ wellFormed_outAndBack (by decide +kernel)
      anchored_outAndBack _⟩

/-- Not every row of operations keeps what stands outside, even if the root is a directory itself:
deleting through the two links takes the one outside away. -/
theorem not_forall_sameOutside :
    ¬ ∀ (v : Volume) (t : Host.Tree) (home : Location) (calls : List Call), t.WellFormed →
      t.entry v.root = .ok (home, .directory) →
      SameOutside home t (v.performAll { tree := t } calls).tree := by
  intro h
  have hsame := h ⟨.ofString "vol"⟩ outAndBack [encode "vol"] [.deleteFile "/link/back"]
    wellFormed_outAndBack (by decide +kernel) [encode "out", encode "back"] (by decide +kernel)
  have hgone : (performAll ⟨.ofString "vol"⟩ { tree := outAndBack }
      [.deleteFile "/link/back"]).tree.node? [encode "out", encode "back"] = none := by
    decide +kernel
  rw [hgone] at hsame
  exact absurd hsame.1 (by decide +kernel)

end OutAndBack

end VolumeStore.Volume
