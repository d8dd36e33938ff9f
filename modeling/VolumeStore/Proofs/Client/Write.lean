import VolumeStore.Proofs.Client.Linked
import VolumeStore.Proofs.Session.Transfers

/-!
# Writing through a client

A client writes its data in pieces, each with a request of its own. What they leave together is what
one write of the whole leaves.
-/

namespace VolumeStore

open Client

variable {o o' : Online ServedStore} {line : Nat} {s : Session} {fd offset : UInt64}
  {id : Host.FileId} {flags : OpenFlags}

namespace Online.Steady

theorem of_exchange_write (h : o.Steady line s) (hfile : s.LeadsTo fd id flags)
    {piece : List UInt8} (hlen : (UInt64.ofNat piece.length).toNat = piece.length)
    {response : Response}
    (hok : exchange ServedStore.network
      { command := .write fd offset (UInt64.ofNat piece.length), payload := piece } o =
        (.ok response, o')) :
    ∃ s', o'.Steady line s' ∧ s'.LeadsTo fd id flags ∧
      response.firstNumber = .ok (UInt64.ofNat piece.length) ∧
      o.network.hub.store.tree.Rewritten id (flags.written (o.bytes id) offset.toNat piece)
        o'.network.hub.store.tree ∧
      (flags.append = false → piece ≠ [] → offset.toNat + piece.length < Host.sizeLimit) := by
  have hproper : ClientRequest.Proper
      { command := .write fd offset (UInt64.ofNat piece.length), payload := piece } :=
    { volume := nofun, path := nofun, flags := nofun, payload := hlen.symm }
  obtain ⟨hfits, hunrefused⟩ := h.of_exchange_eq_ok hproper (congrArg Prod.fst hok)
  obtain ⟨s', t', hwrite, hfile', hmounted, hrewritten, hend⟩ :=
    Session.write_eq (s := s.clearRenameSource) h.files hfile hunrefused
  have hsize : piece.length < UInt64.size := hlen ▸ UInt64.toNat_lt_size _
  have hcode : ReplyCode.IsPlain ReplyCode.actionDone := by decide
  obtain ⟨rfl, hsteady, hcarried⟩ := h.after_exchange hproper hok hwrite
    (Response.read_ok _ hcode (Text.oneLine_decimal _)) rfl rfl (hmounted.trans h.mounted)
  refine ⟨s', hsteady, hfile', Response.firstNumber_decimal hsize, ?_, hend⟩
  rw [hcarried.network.tree]
  exact hrewritten

theorem of_batch_writes {pieces : List (List UInt8)} (h : o.Steady line s)
    (hfile : s.LeadsTo fd id flags)
    (hpieces : ∀ piece ∈ pieces,
      piece ≠ [] ∧ (UInt64.ofNat piece.length).toNat = piece.length)
    {responses : List Response}
    (hok : batch ServedStore.network (writeRequests fd offset pieces) o = (.ok responses, o')) :
    o'.network.hub.store.tree.Stored ∧
      responses.mapM Response.firstNumber =
        .ok (pieces.map fun piece => UInt64.ofNat piece.length) ∧
      o.network.hub.store.tree.Rewritten id (flags.written (o.bytes id) offset.toNat pieces.flatten)
        o'.network.hub.store.tree := by
  -- By the pieces: each goes on with the file that the one before it has left.
  induction pieces generalizing o s offset responses with
  | nil =>
    cases hok
    rw [List.flatten_nil, OpenFlags.written_nil]
    exact ⟨h.stored, rfl, Host.Tree.rewritten_self _ _⟩
  | cons piece pieces ih =>
    obtain ⟨hne, hlen⟩ := hpieces piece List.mem_cons_self
    obtain ⟨response, rest, o₁, rfl, hexchange, hbatch⟩ := batch_cons_eq_ok hok
    obtain ⟨s₁, hsteady, hfile₁, hnumber, hrewritten, hend⟩ :=
      h.of_exchange_write hfile hlen hexchange
    obtain ⟨hstored, hnumbers, hrewritten₁⟩ := ih hsteady hfile₁
      (fun piece hmem => hpieces piece (List.mem_cons_of_mem _ hmem)) hbatch
    have hbytes : o₁.bytes id = flags.written (o.bytes id) offset.toNat piece := hrewritten.bytes
    -- An appending file does not look at the offset, and without appending it stays below the
    -- limit of a file.
    have hnext : flags.written (o₁.bytes id) (offset + UInt64.ofNat piece.length).toNat
        pieces.flatten = flags.written (o.bytes id) offset.toNat (piece :: pieces).flatten := by
      rw [hbytes, List.flatten_cons, ← OpenFlags.written_append _ _ _ hne]
      by_cases hflag : flags.append = true
      · simp only [OpenFlags.written, hflag, if_true]
      · have hbelow := hend (Bool.not_eq_true _ ▸ hflag) hne
        have hlimit : Host.sizeLimit < UInt64.size := by decide
        rw [UInt64.toNat_add, hlen, Nat.mod_eq_of_lt (hbelow.trans hlimit)]
    rw [List.mapM_cons, hnumber]
    simp only [bind, Except.bind, hnumbers]
    exact ⟨hstored, rfl, hnext ▸ hrewritten.trans hrewritten₁⟩

end Online.Steady

theorem Client.foldl_lengths (pieces : List (List UInt8)) (n : UInt64) :
    (pieces.map fun piece => UInt64.ofNat piece.length).foldl (· + ·) n =
      n + UInt64.ofNat pieces.flatten.length := by
  induction pieces generalizing n with
  | nil => exact (UInt64.add_zero n).symm
  | cons piece pieces ih =>
    rw [List.map_cons, List.foldl_cons, ih, List.flatten_cons, List.length_append,
      UInt64.ofNat_add, UInt64.add_assoc]

/-- A write that a client gets through has written all of its data: at the offset, with zeros in a
gap behind the old end, or behind the old end if the file was opened for appending. Nothing else
has changed on the host. -/
theorem Client.written_of_writeFile (hrun : o.network.hub.Running) (h : o.Linked line s)
    {file : ClientFile} {opened : OpenFile} (hfile : s.file file.fd = .ok opened)
    (data : List UInt8) {n : Nat}
    (hok : (writeFile ServedStore.network file offset data o).1 = .ok n) :
    n = data.length ∧
      o.network.hub.store.tree.Rewritten opened.handle.file
        (if opened.flags.append then o.bytes opened.handle.file ++ data
          else Host.overlaid (o.bytes opened.handle.file) offset.toNat data)
        (writeFile ServedStore.network file offset data o).2.network.hub.store.tree := by
  have hpieces : ∀ piece ∈ chunks (max 1 o.client.settings.maxPayload.toNat) data,
      piece ≠ [] ∧ (UInt64.ofNat piece.length).toNat = piece.length :=
    fun piece hmem =>
      ⟨ne_nil_of_mem_chunks hmem, toNat_ofNat_length_chunk (max_one_toNat_lt _) hmem⟩
  obtain ⟨responses, hbatch, hcounts⟩ := andThen_eq_ok hok
  obtain ⟨hstored, hnumbers, hrewritten⟩ := (h.steady hrun).of_batch_writes
    ⟨opened, hfile, rfl, rfl⟩ hpieces hbatch
  rw [flatten_chunks (Nat.le_max_left 1 _) data] at hrewritten
  rw [hnumbers] at hcounts
  cases hcounts
  refine ⟨?_, hrewritten⟩
  -- The file holds the data now, so the sum of the numbers does not run over.
  have hlength : data.length < UInt64.size := by
    have hsize := hstored.size_lt opened.handle.file
    rw [hrewritten.size_content] at hsize
    have hlimit : Host.sizeLimit < UInt64.size := by decide
    exact Nat.lt_of_le_of_lt (OpenFlags.length_le_written _ _ _ _) (hsize.trans hlimit)
  dsimp only
  rw [foldl_lengths, UInt64.zero_add, flatten_chunks (Nat.le_max_left 1 _) data,
    UInt64.toNat_ofNat_of_lt' hlength]

theorem Client.written_of_writeFile_gap :
    let o := ServedStore.fileClient
    let write := writeFile ServedStore.network ⟨1, "/f", ServedStore.openedFile.flags⟩ 6 [7, 8, 9]
    o.network.hub.Running ∧ o.Linked 0 ServedStore.fileSession ∧
      ServedStore.fileSession.file 1 = .ok ServedStore.openedFile ∧ (write o).1 = .ok 3 ∧
      o.network.hub.store.tree.Rewritten 0 [1, 2, 3, 4, 5, 0, 7, 8, 9]
        (write o).2.network.hub.store.tree := by
  intro o write
  have hrun : o.network.hub.Running :=
    ServedStore.running_meeting ServedStore.stored_servedVolume 1 _
  have hfile : ServedStore.fileSession.file 1 = .ok ServedStore.openedFile := rfl
  have hok : (write o).1 = .ok 3 := by decide +kernel
  have hbytes : (if ServedStore.openedFile.flags.append then
      o.bytes ServedStore.openedFile.handle.file ++ [7, 8, 9]
      else Host.overlaid (o.bytes ServedStore.openedFile.handle.file) (6 : UInt64).toNat
        [7, 8, 9]) = [1, 2, 3, 4, 5, 0, 7, 8, 9] := by decide +kernel
  obtain ⟨-, hwritten⟩ :=
    written_of_writeFile hrun ServedStore.linked_fileClient hfile [7, 8, 9] hok
  rw [hbytes] at hwritten
  exact ⟨hrun, ServedStore.linked_fileClient, hfile, hok, hwritten⟩

end VolumeStore
