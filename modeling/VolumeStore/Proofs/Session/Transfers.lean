import VolumeStore.Proofs.Session.OpenFiles

/-!
# Reading and writing open files

What a read or a write that is not refused does to a session and to the files: the descriptor leads
to the same file as before, a read gives the bytes of a range, and a write leaves what its flags ask
for.
-/

namespace VolumeStore

/-- What a write leaves of a file. An appending file takes the data at its end, wherever the write
was to begin. -/
def OpenFlags.written (flags : OpenFlags) (bytes : List UInt8) (offset : Nat) (data : List UInt8) :
    List UInt8 :=
  if flags.append then bytes ++ data else Host.overlaid bytes offset data

namespace OpenFlags

variable (flags : OpenFlags) (bytes : List UInt8) (offset : Nat)

@[simp] theorem written_nil : flags.written bytes offset [] = bytes := by
  unfold written
  split
  · exact List.append_nil bytes
  · exact Host.overlaid_nil bytes offset

theorem written_append {front : List UInt8} (hfront : front ≠ []) (back : List UInt8) :
    flags.written (flags.written bytes offset front) (offset + front.length) back =
      flags.written bytes offset (front ++ back) := by
  unfold written
  split
  · exact List.append_assoc bytes front back
  · exact Host.overlaid_append hfront back

theorem length_le_written (data : List UInt8) :
    data.length ≤ (flags.written bytes offset data).length := by
  unfold written
  split
  · rw [List.length_append]
    exact Nat.le_add_left _ _
  · by_cases hne : data = []
    · rw [hne]
      exact Nat.zero_le _
    · rw [Host.length_overlaid _ _ hne]
      omega

end OpenFlags

namespace OpenFile.InOrder

variable {t t' : Host.Tree} {file : OpenFile} {handle : Host.Handle} {offset : UInt64}
  {data : List UInt8}

/-- What is written to an open file lies where its flags ask for it; without appending, the end of
the data lies below the limit of a file. -/
theorem writeAt_eq_ok (h : file.InOrder t)
    (hwrite : Volume.writeAt t file.handle offset data file.flags.append = (.ok (), handle, t')) :
    t.Rewritten file.handle.file
        (file.flags.written (t.content file.handle.file).toList offset.toNat data) t' ∧
      (file.flags.append = false → data ≠ [] →
        offset.toNat + data.length < Host.sizeLimit) := by
  obtain ⟨start, hwrite, hstart⟩ := Volume.writeAt_eq_ok hwrite
  -- The handle was opened with the flags of the file, so both say whether it appends.
  have happend : file.handle.access.append = file.flags.append := by
    rw [h.access]
    rfl
  have hstored : ({ file.handle with position := start } : Host.Handle).file <
      t.contents.length := h.stored
  have hrewritten := Host.Handle.rewritten_of_write hstored hwrite
  have happended := fun hflag : file.flags.append = true =>
    Host.Handle.rewritten_of_append hstored (happend.trans hflag) hwrite
  constructor
  · unfold OpenFlags.written
    split
    next hflag => exact happended hflag
    next hflag =>
      rw [Bool.not_eq_true] at hflag
      rwa [Host.Handle.writePosition, if_neg (by simp [happend, hflag]),
        (hstart hflag).1] at hrewritten
  · intro hflag hne
    obtain ⟨-, hend, -⟩ := Host.Handle.fits_of_write (congrArg Prod.fst hwrite) hne
    rwa [(hstart hflag).1] at hend

end OpenFile.InOrder

namespace Session

def LeadsTo (s : Session) (fd : UInt64) (id : Host.FileId) (flags : OpenFlags) : Prop :=
  ∃ file, s.file fd = .ok file ∧ file.handle.file = id ∧ file.flags = flags

variable {settings : StoreSettings} {s : Session} {t : Host.Tree} {fd offset : UInt64}
  {id : Host.FileId} {flags : OpenFlags} {data : List UInt8}

theorem LeadsTo.setHandle {file : OpenFile} (hfile : s.file fd = .ok file) {handle : Host.Handle}
    {n : Nat} (hhandle : handle = { file.handle with position := n }) :
    (s.setHandle fd handle).LeadsTo fd file.handle.file file.flags := by
  refine ⟨{ file with handle := handle }, ?_, ?_, rfl⟩
  · rw [file_setHandle, hfile]
    exact congrArg Except.ok (if_pos rfl)
  · rw [hhandle]

theorem write_eq (hs : s.InOrder t) (h : s.LeadsTo fd id flags)
    (hunrefused : ∀ error, (s.write t fd offset data).outcome ≠ .failed error) :
    ∃ s' t', s.write t fd offset data =
        ⟨.ok ReplyCode.actionDone (Text.decimal data.length), s', t'⟩ ∧
      s'.LeadsTo fd id flags ∧ s'.isMounted = s.isMounted ∧
      t.Rewritten id (flags.written (t.content id).toList offset.toNat data) t' ∧
      (flags.append = false → data ≠ [] → offset.toNat + data.length < Host.sizeLimit) := by
  obtain ⟨file, hfile, rfl, rfl⟩ := h
  have heffect : s.Effect {} none t data (.write fd offset 0) (s.write t fd offset data) :=
    effect_write fd offset 0
  generalize s.write t fd offset data = e at heffect hunrefused ⊢
  cases heffect with
  | refused | declined | cut => exact absurd rfl (hunrefused _)
  | answered hcommand | operated _ _ hcommand => cases hcommand
  | @wrote _ _ _ file' handle t' hfile' _ hwrite =>
    cases hfile.symm.trans hfile'
    obtain ⟨n, hposition⟩ := Volume.moved_of_writeAt hwrite
    exact ⟨s.setHandle fd handle, t', rfl, LeadsTo.setHandle hfile hposition, rfl,
      (hs fd file hfile).writeAt_eq_ok hwrite⟩

theorem read_eq (h : s.LeadsTo fd id flags) {len : UInt64}
    (hunrefused : ∀ error, (s.read settings t fd offset len).outcome ≠ .failed error) :
    ∃ s', s.read settings t fd offset len =
        ⟨.done ⟨ReplyCode.openingTransfer,
            Text.decimal (((t.content id).toList.drop offset.toNat).take len.toNat).length⟩
          (.bytes (((t.content id).toList.drop offset.toNat).take len.toNat)), s', t⟩ ∧
      s'.LeadsTo fd id flags ∧ s'.isMounted = s.isMounted ∧
      offset.toNat < Host.sizeLimit := by
  obtain ⟨file, hfile, rfl, rfl⟩ := h
  have heffect : s.Effect settings none t [] (.read fd offset len)
      (s.read settings t fd offset len) := effect_read fd offset len
  generalize s.read settings t fd offset len = e at heffect hunrefused ⊢
  cases heffect with
  | refused | declined | stopped => exact absurd rfl (hunrefused _)
  | answered hcommand | operated _ _ hcommand => cases hcommand
  | @read _ _ _ file' handle data hfile' _ hread =>
    cases hfile.symm.trans hfile'
    obtain ⟨n, hposition⟩ := Volume.moved_of_readAt hread
    obtain ⟨hlt, rfl⟩ := Volume.readAt_eq_ok (congrArg Prod.snd hread)
    exact ⟨s.setHandle fd handle, rfl, LeadsTo.setHandle hfile hposition, rfl, hlt⟩

theorem read_ne_failed (hs : s.InOrder t) (h : s.LeadsTo fd id flags)
    (hreadable : flags.read = true) {len : UInt64} (hlen : len ≤ settings.maxPayload)
    (hend : offset.toNat + len.toNat < Host.sizeLimit) (error : StoreError) :
    (s.read settings t fd offset len).outcome ≠ .failed error := by
  obtain ⟨file, hfile, rfl, rfl⟩ := h
  have haccess : file.handle.access.read = true := by
    rw [(hs fd file hfile).access]
    exact hreadable
  obtain ⟨handle, hresult⟩ := Volume.readAt_of_lt (t := t) haccess hend
  unfold Session.read withFile
  rw [if_neg (UInt64.not_lt.2 hlen), hfile]
  dsimp only
  rw [hreadable, hresult]
  exact Outcome.noConfusion

end Session

end VolumeStore
