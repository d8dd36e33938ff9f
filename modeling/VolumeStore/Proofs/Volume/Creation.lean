import VolumeStore.Proofs.Host.FileBytes
import VolumeStore.Proofs.Volume.Confined
import VolumeStore.Proofs.Volume.Refusals

/-!
# Making files

A file is made under a free name in a directory, and then it is given its size. Every reason against
the first step is found before anything is done. The size is looked at after it: one that no file of
the host can have is refused when the file is already there, and the file stays, without a byte.
-/

namespace VolumeStore

open Host (Location Name)
open Host.Tree (pathFailure?)

namespace Host.Tree

variable {t t' : Tree} {loc : Location} {size : Nat}

/-- From one tree to the other, a file of so many zero bytes has come to a place at which nothing
stood. It has a number of its own, and nothing else has changed but the host's clock. -/
structure GainsFile (t : Tree) (loc : Location) (size : Nat) (t' : Tree) : Prop where
  free : t.node? loc = none
  file : t'.node? loc = some (.file t.contents.length)
  bytes : (t'.content t.contents.length).toList = List.replicate size 0
  nodes : ∀ other, other ≠ loc → t'.node? other = t.node? other
  contents : ∀ id, id ≠ t.contents.length → t'.content id = t.content id
  home : t'.home = t.home
  user : t'.user = t.user
  owner : t'.owners loc = t.user
  owners : ∀ other, other ≠ loc → t'.owners other = t.owners other

theorem gainsFile_insertFile (h : t.node? loc = none) :
    t.GainsFile loc 0 (t.insertFile loc).2 := by
  have hne : loc ≠ [] := by
    rintro rfl
    rw [node?_nil] at h
    cases h
  exact
    { free := h
      file := by rw [node?_insertFile t hne, if_pos rfl]
      bytes := by
        rw [content_insertFile, content_of_length_le t (Nat.le_refl _)]
        rfl
      nodes := fun other hother => by rw [node?_insertFile t hne, if_neg hother]
      contents := fun id _ => content_insertFile t loc id
      home := rfl
      user := rfl
      owner := if_pos rfl
      owners := fun _ hother => if_neg hother }

theorem GainsFile.setContent (h : t.GainsFile loc 0 t')
    (hstored : t.contents.length < t'.contents.length) (size : Nat) :
    t.GainsFile loc size (t'.setContent t.contents.length
      ((t'.content t.contents.length).resize size)) where
  free := h.free
  file := h.file
  bytes := by
    have hempty : (t'.content t.contents.length).size = 0 := by
      rw [← Content.length_toList, h.bytes]
      rfl
    rw [content_setContent t' hstored, if_pos rfl, Content.toList_resize, h.bytes, hempty,
      List.replicate_zero, List.take_nil, List.nil_append, Nat.sub_zero]
  nodes := h.nodes
  contents id hid := by rw [content_setContent_of_ne t' hid, h.contents id hid]
  home := h.home
  user := h.user
  owner := h.owner
  owners := h.owners

theorem GainsFile.ne (h : t.GainsFile loc size t') : t' ≠ t := by
  rintro rfl
  have hfile := h.file
  rw [h.free] at hfile
  cases hfile

end Host.Tree

namespace Volume

variable {v : Volume} {t t' : Host.Tree} {p : VolumePath} {path : String} {dir : Location}
  {name : Name} {size : UInt64}

/-- The path stays inside the volume; there is a directory above it, which stands at `dir`; and
nothing, not even a link, has the name there that the path ends in. -/
structure Vacancy (v : Volume) (t : Host.Tree) (path : String) (p : VolumePath) (dir : Location)
    (name : Name) : Prop where
  confined : v.confine t path = .ok p
  parent : ∃ above last, p.parent? = some (above, last) ∧ name = Text.encode last ∧
    t.target (v.hostPath above) = .ok (dir, .directory)
  found : t.find false (v.hostPath p) = .ok (.vacant dir name)
  free : t.node? (dir ++ [name]) = none

def IsFree (v : Volume) (t : Host.Tree) (path : String) : Prop :=
  ∃ p dir name, v.Vacancy t path p dir name

/-- Making a file is all or nothing: when it is refused the tree is as it was, and when it succeeds
there was nothing under the name in a directory, and there is a file of the size now. -/
structure MakesAllOrNothing (v : Volume) (t : Host.Tree) (path : String) (size : UInt64) :
    Prop where
  refused : LeavesTree t (v.createFile t path size)
  made : ∀ written, (v.createFile t path size).1 = .ok written →
    ∃ p dir name, v.Vacancy t path p dir name ∧ written = p.render ∧
      t.GainsFile (dir ++ [name]) size.toNat (v.createFile t path size).2

namespace Vacancy

theorem requireParent_eq (h : v.Vacancy t path p dir name) : v.requireParent t p = .ok () := by
  obtain ⟨⟨above⟩, last, hparent, -, htarget⟩ := h.parent
  obtain ⟨segments⟩ := p
  obtain rfl : segments = above ++ [last] := VolumePath.parent?_eq_some_iff.1 hparent
  exact requireParent_eq_ok_iff.2 ⟨dir, htarget⟩

theorem of_find (hc : v.confine t path = .ok p) (hparent : v.requireParent t p = .ok ())
    (hfind : t.find false (v.hostPath p) = .ok (.vacant dir name)) :
    v.Vacancy t path p dir name := by
  obtain ⟨segments⟩ := p
  obtain rfl | ⟨above, last, rfl⟩ := List.eq_nil_or_concat segments
  · cases hparent
  · rw [List.concat_eq_append] at *
    obtain ⟨rfl, htarget, hfree⟩ := target_of_vacant hc hfind
    exact ⟨hc, ⟨⟨above⟩, last, VolumePath.parent?_eq_some_iff.2 rfl, rfl, htarget⟩, hfind, hfree⟩

theorem createFile_cases (h : v.Vacancy t path p dir name) (size : UInt64) :
    (size.toNat < Host.sizeLimit ∧ ∃ t', v.createFile t path size = (.ok p.render, t') ∧
      t.GainsFile (dir ++ [name]) size.toNat t') ∨
    (Host.sizeLimit ≤ size.toNat ∧ ∃ t',
      v.createFile t path size = (.error (.host .sizeTooLarge), t') ∧
      t.GainsFile (dir ++ [name]) 0 t') := by
  have hgains := Host.Tree.gainsFile_insertFile h.free
  have hcreate : t.createFile (v.hostPath p) =
      .ok ({ file := t.contents.length, access := { write := true } },
        (t.insertFile (dir ++ [name])).2) := by
    unfold Host.Tree.createFile
    rw [h.found]
    rfl
  unfold createFile
  rw [h.confined]
  dsimp only
  rw [h.requireParent_eq]
  dsimp only
  rw [hcreate]
  dsimp only
  -- The file is there. Only a size other than zero is still looked at.
  split
  next hzero =>
    rw [hzero]
    exact .inl ⟨by decide, _, rfl, hgains⟩
  next hsome =>
    obtain hlt | hle := Nat.lt_or_ge size.toNat Host.sizeLimit
    · have hsize : Host.Handle.setSize { file := t.contents.length, access := { write := true } }
          (t.insertFile (dir ++ [name])).2 size.toNat =
          .ok ((t.insertFile (dir ++ [name])).2.setContent t.contents.length
            (((t.insertFile (dir ++ [name])).2.content t.contents.length).resize size.toNat)) := by
        unfold Host.Handle.setSize
        rw [if_neg (Nat.not_le.2 hlt)]
        rfl
      rw [hsize]
      exact .inl ⟨hlt, _, rfl, hgains.setContent (by simp) size.toNat⟩
    · have hsize : Host.Handle.setSize { file := t.contents.length, access := { write := true } }
          (t.insertFile (dir ++ [name])).2 size.toNat = .error .sizeTooLarge :=
        if_pos hle
      rw [hsize]
      exact .inr ⟨hle, _, rfl, hgains⟩

end Vacancy

theorem createFile_of_not_isFree (h : ¬ v.IsFree t path) (size : UInt64) :
    ∃ error, v.createFile t path size = (.error error, t) := by
  unfold createFile
  split
  next error _ => exact ⟨error, rfl⟩
  next p hc =>
    split
    next error _ => exact ⟨error, rfl⟩
    next hparent =>
      split
      next failure _ => exact ⟨_, rfl⟩
      next hcreate =>
        obtain ⟨dir, name, hfind, -, -⟩ := Host.Tree.createFile_eq_ok hcreate
        exact absurd ⟨p, dir, name, Vacancy.of_find hc hparent hfind⟩ h

theorem Vacancy.createFile_of_le (h : v.Vacancy t path p dir name)
    (hle : Host.sizeLimit ≤ size.toNat) :
    (v.createFile t path size).1 = .error (.host .sizeTooLarge) ∧
      t.GainsFile (dir ++ [name]) 0 (v.createFile t path size).2 := by
  obtain ⟨hlt, -⟩ | ⟨-, t', herror, hgains⟩ := h.createFile_cases size
  · exact absurd hlt (Nat.not_lt.2 hle)
  · rw [herror]
    exact ⟨rfl, hgains⟩

theorem makesAllOrNothing_of_lt (h : v.IsFree t path → size.toNat < Host.sizeLimit) :
    v.MakesAllOrNothing t path size := by
  by_cases hfree : v.IsFree t path
  · have hlt := h hfree
    obtain ⟨p, dir, name, hvacancy⟩ := hfree
    obtain ⟨-, t', hok, hgains⟩ | ⟨hle, -⟩ := hvacancy.createFile_cases size
    · refine ⟨?_, fun written hwritten => ?_⟩
      · rw [hok]
        exact .ok _
      · rw [hok] at hwritten ⊢
        cases hwritten
        exact ⟨p, dir, name, hvacancy, rfl, hgains⟩
    · exact absurd hlt (Nat.not_lt.2 hle)
  · obtain ⟨error, herror⟩ := createFile_of_not_isFree hfree size
    refine ⟨?_, fun written hwritten => ?_⟩
    · rw [herror]
      exact .error t _
    · rw [herror] at hwritten
      cases hwritten

theorem exists_createFile_eq_ok_iff :
    (∃ written, (v.createFile t path size).1 = .ok written) ↔
      v.IsFree t path ∧ size.toNat < Host.sizeLimit := by
  constructor
  · rintro ⟨written, hwritten⟩
    have hfree : v.IsFree t path := by
      by_contra hnot
      obtain ⟨error, herror⟩ := createFile_of_not_isFree hnot size
      rw [herror] at hwritten
      cases hwritten
    refine ⟨hfree, Nat.not_le.1 fun hle => ?_⟩
    obtain ⟨p, dir, name, hvacancy⟩ := hfree
    rw [(hvacancy.createFile_of_le hle).1] at hwritten
    cases hwritten
  · rintro ⟨⟨p, dir, name, hvacancy⟩, hlt⟩
    obtain ⟨-, t', hok, -⟩ | ⟨hle, -⟩ := hvacancy.createFile_cases size
    · exact ⟨p.render, congrArg Prod.fst hok⟩
    · exact absurd hlt (Nat.not_lt.2 hle)

/-- Making a file is all or nothing exactly when the size is one that a file of the host can have,
or when nothing can be put at the path anyway. A file is made if and only if one can be put there
and the size is such a one. With a larger size the call fails where a file can be put, and it leaves
one without a byte there. -/
theorem makesAllOrNothing_iff (v : Volume) (t : Host.Tree) (path : String) (size : UInt64) :
    (v.MakesAllOrNothing t path size ↔ (v.IsFree t path → size.toNat < Host.sizeLimit)) ∧
    ((∃ written, (v.createFile t path size).1 = .ok written) ↔
      v.IsFree t path ∧ size.toNat < Host.sizeLimit) ∧
    ∀ p dir name, v.Vacancy t path p dir name → Host.sizeLimit ≤ size.toNat →
      (v.createFile t path size).1 = .error (.host .sizeTooLarge) ∧
        t.GainsFile (dir ++ [name]) 0 (v.createFile t path size).2 := by
  refine ⟨⟨fun h hfree => Nat.not_le.1 fun hle => ?_, makesAllOrNothing_of_lt⟩,
    exists_createFile_eq_ok_iff, fun p dir name h hle => h.createFile_of_le hle⟩
  obtain ⟨p, dir, name, hvacancy⟩ := hfree
  obtain ⟨herror, hgains⟩ := hvacancy.createFile_of_le hle
  exact hgains.ne (h.refused _ herror)

section SmallVolume

open Text (encode)

def linkedDirectory : Host.Tree where
  nodes :=
    [([encode "vol"], .directory),
      ([encode "vol", encode "d"], .directory),
      ([encode "vol", encode "l"], .link (encode "d"))]

/-- Through the link a file of five bytes can be made, and one of 2 to the power of 63 cannot: but
it is there afterwards. -/
theorem makesAllOrNothing_iff_linkedDirectory :
    Volume.MakesAllOrNothing ⟨.ofString "vol"⟩ linkedDirectory "/l/f" 5 ∧
      linkedDirectory.GainsFile [encode "vol", encode "d", encode "f"] 0
        (Volume.createFile ⟨.ofString "vol"⟩ linkedDirectory "/l/f" 0x8000000000000000).2 := by
  have hvacancy : Vacancy ⟨.ofString "vol"⟩ linkedDirectory "/l/f" ⟨["l", "f"]⟩
      [encode "vol", encode "d"] (encode "f") :=
    .of_find (by decide +kernel) (by decide +kernel) (by decide +kernel)
  exact ⟨(makesAllOrNothing_iff _ _ _ _).1.2 fun _ => by decide,
    ((makesAllOrNothing_iff _ _ _ _).2.2 _ _ _ hvacancy (by decide)).2⟩

/-- Making a file is not all or nothing for every size: one of 2 to the power of 63 is refused, and
a file is left. -/
theorem not_forall_makesAllOrNothing :
    ¬ ∀ (v : Volume) (t : Host.Tree) (path : String) (size : UInt64),
      v.MakesAllOrNothing t path size := by
  intro h
  have hrefused := (h ⟨.ofString "vol"⟩ linkedDirectory "/f" 0x8000000000000000).refused
    (.host .sizeTooLarge) (by decide +kernel)
  have hleft : (Volume.createFile ⟨.ofString "vol"⟩ linkedDirectory "/f"
      0x8000000000000000).2.node? [encode "vol", encode "f"] = some (.file 0) := by
    decide +kernel
  rw [hrefused] at hleft
  exact absurd hleft (by decide +kernel)

end SmallVolume

end Volume

end VolumeStore
