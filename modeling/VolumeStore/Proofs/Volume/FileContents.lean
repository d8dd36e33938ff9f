import VolumeStore.Proofs.Volume.Appends

/-!
# Operations and the bytes of files

Most operations of a volume leave the bytes of every file as they are. Those of a file that is there
change only when data is appended to a path that leads to it, and then they are the old bytes with
the data behind them, or when a path that leads to it is opened to be emptied.
-/

namespace VolumeStore

open Host (FileId)

/-- Every file of the first tree has the same content in the second one. -/
def Host.Tree.KeepsContents (t t' : Host.Tree) : Prop :=
  ∀ id, id < t.contents.length → t'.content id = t.content id

theorem Host.Tree.NamesFewer.keepsContents {t t' : Host.Tree} (h : t.NamesFewer t') :
    t.KeepsContents t' := by
  intro id _
  rw [content, h.contents]
  rfl

namespace Volume

variable {v : Volume} {t t₁ : Host.Tree} {p : VolumePath} {path : String} {id : FileId}
  {handle : Host.Handle} {access : Host.Access} {create : Bool} {flags : OpenFlags}
  {data : List UInt8} {size : Nat}

theorem ne_of_openFile (hc : v.confine t path = .ok p)
    (hopen : t.openFile (v.hostPath p) access create = .ok (handle, t₁))
    (hid : id < t.contents.length) (hne : v.fileAt? t path ≠ some id) : id ≠ handle.file := by
  rintro rfl
  obtain ⟨-, hthere | ⟨-, hnew⟩⟩ := opened_of_openFile hc hopen
  · exact hne hthere
  · exact absurd (hnew ▸ hid) (Nat.lt_irrefl _)

theorem keepsContents_createFile (v : Volume) (t : Host.Tree) (path : String) (size : UInt64) :
    t.KeepsContents (v.createFile t path size).2 := by
  intro id hid
  unfold Volume.createFile
  split
  · rfl
  split
  · rfl
  split
  · rfl
  next handle t₁ hcreate =>
    obtain ⟨dir, name, -, rfl, rfl⟩ := Host.Tree.createFile_eq_ok hcreate
    split
    · exact Host.Tree.content_insertFile t _ id
    split
    · exact Host.Tree.content_insertFile t _ id
    next hsize =>
      rw [Host.Handle.setSize_eq_ok hsize, Host.Tree.content_setContent_of_ne _ (Nat.ne_of_lt hid),
        Host.Tree.content_insertFile]

theorem content_openFile (hid : id < t.contents.length)
    (h : flags.truncate = true → v.fileAt? t path ≠ some id) :
    (v.openFile t path flags).2.content id = t.content id := by
  unfold Volume.openFile
  split
  · rfl
  next p hc =>
    split
    · rfl
    split
    · rfl
    next handle t₁ hopen =>
      have hkept := (opened_of_openFile hc hopen).1 id
      split
      next htruncate =>
        -- Truncating this very file is what `h` rules out.
        split
        · exact hkept
        next hsize =>
          rw [Host.Handle.setSize_eq_ok hsize, Host.Tree.content_setContent_of_ne _
            (ne_of_openFile hc hopen hid (h htruncate)), hkept]
      · exact hkept

end Volume

end VolumeStore
